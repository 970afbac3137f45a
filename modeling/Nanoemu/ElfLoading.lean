import Nanoemu.ElfReading
import Nanoemu.SegmentLoading

/-!
# Loading an executable

The image that was read from a well-formed file is placed segment by segment,
and what is then in the hart is what the format says of the file.
-/

namespace Nanoemu

open CheckedProgram RecordLayout ElfFormat

namespace Elf

section Placement

variable {cls : FileClass} {b : Elf.Bytes} {i : ℕ}

theorem segmentOf_addr (cls : FileClass) (b : Elf.Bytes) (i : ℕ) :
    Memory.offset (segmentOf cls b i).addr = start cls b i := by
  unfold segmentOf start
  rfl

theorem memsz_lt (cls : FileClass) (b : Elf.Bytes) (i : ℕ) :
    phdrField cls b i .memsz < 2 ^ 64 := by
  have hfield := field_lt (phdr cls) b (phdrBase cls b i) .memsz
  have hwidth : 256 ^ width (phdr cls) .memsz ≤ 2 ^ 64 := by
    cases cls <;> decide
  exact hfield.trans_le hwidth

variable (hfile : WellFormed cls b) (hi : i ∈ loads cls b)

include hfile hi

theorem segmentOf_length :
    (segmentOf cls b i).data.length = phdrField cls b i .filesz := by
  unfold segmentOf
  exact slice_length (hfile.files i hi)

theorem segmentOf_memsz :
    (segmentOf cls b i).memsz = phdrField cls b i .memsz := by
  have hlt := memsz_lt cls b i
  have hle := hfile.sizes i hi
  unfold Segment.memsz
  rw [segmentOf_length hfile hi]
  unfold segmentOf
  rw [BitVec.toNat_ofNat, Nat.mod_eq_of_lt (by omega), Nat.add_sub_cancel' hle]

theorem segmentOf_covers (a : ℕ) :
    (segmentOf cls b i).Covers a ↔ Covers cls b i a := by
  unfold Segment.Covers ElfFormat.Covers
  rw [segmentOf_memsz hfile hi, segmentOf_addr]

omit hfile hi in
theorem segmentOf_file {k : ℕ} (hk : k < phdrField cls b i .filesz) :
    (segmentOf cls b i).byteAt (start cls b i + k) =
      (b[phdrField cls b i .offset + k]?).getD 0 := by
  unfold Segment.byteAt
  rw [segmentOf_addr, Nat.add_sub_cancel_left]
  unfold segmentOf
  rw [slice_getElem? hk]

theorem segmentOf_zero {k : ℕ} (hk : phdrField cls b i .filesz ≤ k) :
    (segmentOf cls b i).byteAt (start cls b i + k) = 0 := by
  unfold Segment.byteAt
  rw [segmentOf_addr, Nat.add_sub_cancel_left, List.getElem?_eq_none]
  · rfl
  · rw [segmentOf_length hfile hi]
    exact hk

end Placement

section Symbols

variable {cls : FileClass} {b : Elf.Bytes}

theorem tohost_text (r : ℕ × ℕ) :
    (nameOf cls b r ≠ [] ∧ LossyUtf8.text (nameOf cls b r) = "tohost") ↔
      nameOf cls b r = tohostName := by
  have hascii : ∀ ch ∈ "tohost".toList, ch.toNat < 0x80 := by simp
  have hspelled : "tohost".toList.map Char.toNat =
      tohostName.map BitVec.toNat := by decide
  rw [LossyUtf8.text_ascii _ _ hascii, hspelled,
    List.map_inj_right fun _ _ => BitVec.eq_of_toNat_eq]
  constructor
  · exact fun h => h.2
  · intro h
    rw [h]
    exact ⟨by decide, rfl⟩

theorem imageOf_tohost (cls : FileClass) (b : Elf.Bytes) :
    (imageOf cls b).symbols "tohost" = ((records cls b).filter fun r =>
      nameOf cls b r = tohostName).getLast?.map (valueOf cls b) := by
  unfold imageOf symbolsOf
  dsimp only
  rw [tabulate_last, Option.or_none]
  simp only [tohost_text]

end Symbols

section Hart

variable {cls : FileClass} {b : Elf.Bytes} {c : Cpu} {profile : Profile}

def width (elf : Elf) : Xlen :=
  if elf.is64 then .rv64 else .rv32

/-- A hart made ready for an image, and the hart with the image in it. -/
def prepare (elf : Elf) (c : Cpu) : Cpu :=
  { c with
    xlen := elf.width
    csrs := c.csrs.setXlen elf.width
    regs := Function.update c.regs 2 (trunc (c.regs 2) elf.width.bits) }

def finish (elf : Elf) (c : Cpu) : Cpu :=
  { c with
    pc := elf.entry
    mem := { c.mem with tohost := elf.symbols "tohost" } }

@[simp] theorem finish_dram (elf : Elf) (c : Cpu) (dram : Dram) :
    (elf.finish (c.withDram dram)).mem.dram = dram := rfl

@[simp] theorem finish_tohost (elf : Elf) (c : Cpu) :
    (elf.finish c).mem.tohost = elf.symbols "tohost" := rfl

theorem loadElf_run {elf : Elf} (hlen : c.mem.dram.len < 2 ^ 63)
    (hin : ∀ seg ∈ elf.segments, c.mem.InDram seg.addr seg.memsz) :
    Cpu.loadElf elf profile c = some (.ok (), elf.finish
      ((elf.prepare c).withDram
        (elf.segments.foldl Dram.overlay c.mem.dram))) := by
  have hsegments : Cpu.loadSegments elf.segments profile (elf.prepare c) =
      some (.ok (), (elf.prepare c).withDram
        (elf.segments.foldl Dram.overlay c.mem.dram)) :=
    Cpu.loadSegments_run hlen hin
  calc Cpu.loadElf elf profile c
      = (Program.update elf.prepare >>= fun _ =>
          Cpu.loadSegments elf.segments >>= fun _ =>
            Program.update elf.finish) profile c := rfl
    _ = (Cpu.loadSegments elf.segments >>= fun _ =>
          Program.update elf.finish) profile (elf.prepare c) :=
        Program.bind_run_ok (Program.update_run _ _ _)
    _ = Program.update elf.finish profile _ :=
        Program.bind_run_ok hsegments

theorem mem_segments {seg : Segment} :
    seg ∈ (imageOf cls b).segments ↔
      ∃ i ∈ loads cls b, segmentOf cls b i = seg := by
  unfold imageOf
  rw [List.mem_map]

theorem overlays_byte (hfile : WellFormed cls b) (hfits : Fits cls b c.mem)
    {i k : ℕ} (hi : i ∈ loads cls b) (hk : k < phdrField cls b i .memsz) :
    (((imageOf cls b).segments.foldl Dram.overlay c.mem.dram).byte
        (start cls b i + k)) =
      (segmentOf cls b i).byteAt (start cls b i + k) := by
  have hnodup : (loads cls b).Nodup := List.nodup_range.filter _
  have hapart : (imageOf cls b).segments.Pairwise fun s t =>
      ¬ (s.Covers (start cls b i + k) ∧ t.Covers (start cls b i + k)) := by
    unfold imageOf
    rw [List.pairwise_map]
    apply hnodup.pairwise_of_forall_ne
    intro j hj l hl hne
    rw [segmentOf_covers hfile hj, segmentOf_covers hfile hl]
    exact hfits.apart j hj l hl hne _
  have hcovers : (segmentOf cls b i).Covers (start cls b i + k) := by
    rw [segmentOf_covers hfile hi]
    unfold Covers
    omega
  exact Dram.overlays_covered hapart (mem_segments.mpr ⟨i, hi, rfl⟩) hcovers

/-- A well-formed executable whose segments fit is read and loaded, and the
hart then holds what the file says. -/
theorem parse_loadElf (hfile : WellFormed cls b) (hfits : Fits cls b c.mem) :
    ∃ elf c', parse b profile () = some (.ok elf, ()) ∧
      Cpu.loadElf elf profile c = some (.ok (), c') ∧ Placed cls b c c' := by
  have hread : parse b profile () = some (.ok (imageOf cls b), ()) := by
    rw [parse_run hfile]
    rfl
  have hin : ∀ seg ∈ (imageOf cls b).segments,
      c.mem.InDram seg.addr seg.memsz := by
    intro seg hseg
    obtain ⟨i, hi, rfl⟩ := mem_segments.mp hseg
    rw [segmentOf_memsz hfile hi]
    exact hfits.inDram i hi
  refine ⟨imageOf cls b, _, hread, loadElf_run hfits.length hin, ?_⟩
  constructor
  case pc => rfl
  case xlen => cases cls <;> rfl
  case csrs => cases cls <;> rfl
  case length => rw [finish_dram, Dram.overlays_len]
  case file =>
    intro i hi k hk
    have hsizes := hfile.sizes i hi
    have hfiles := hfile.files i hi
    have hbyte := overlays_byte hfile hfits hi (lt_of_lt_of_le hk hsizes)
    have hsome : phdrField cls b i .offset + k < b.length := by omega
    rw [segmentOf_file hk, List.getElem?_eq_getElem hsome] at hbyte
    rw [finish_dram, hbyte, List.getElem?_eq_getElem hsome]
    rfl
  case zero =>
    intro i hi k hfilesz hmemsz
    rw [finish_dram, overlays_byte hfile hfits hi hmemsz,
      segmentOf_zero hfile hi hfilesz]
  case others =>
    intro a hout
    rw [finish_dram]
    apply Dram.overlays_other
    intro seg hseg hcovers
    obtain ⟨i, hi, rfl⟩ := mem_segments.mp hseg
    exact hout i hi ((segmentOf_covers hfile hi a).mp hcovers)
  case tohost => rw [finish_tohost, imageOf_tohost]

end Hart

/-! ## A small executable -/

def pack (fields : List (ℕ × ℕ)) : Elf.Bytes :=
  fields.flatMap fun (n, x) =>
    (List.range n).map fun k => BitVec.ofNat 8 (x / 256 ^ k)

/-- Four bytes of code, a cleared word past them and the symbol `tohost`. -/
def executable : Elf.Bytes :=
  pack [(16, 0x010101464c457f), (2, 2), (2, 243), (4, 1), (4, 0x80000000),
      (4, 52), (4, 116), (4, 0), (2, 52), (2, 32), (2, 2), (2, 40), (2, 3),
      (2, 0)] ++
    -- the program headers of the code and of the word
    pack [(4, 1), (4, 260), (4, 0x80000000), (4, 0x80000000), (4, 4), (4, 4),
      (4, 5), (4, 4)] ++
    pack [(4, 1), (4, 264), (4, 0x80001000), (4, 0x80001000), (4, 0), (4, 4),
      (4, 6), (4, 4)] ++
    -- no section, the symbols and their names
    pack [(40, 0)] ++
    pack [(4, 0), (4, 2), (4, 0), (4, 0), (4, 236), (4, 16), (4, 2), (4, 0),
      (4, 4), (4, 16)] ++
    pack [(4, 0), (4, 3), (4, 0), (4, 0), (4, 252), (4, 8), (4, 0), (4, 0),
      (4, 1), (4, 0)] ++
    pack [(4, 1), (4, 0x80001000), (4, 0), (1, 0), (1, 0), (2, 0)] ++
    [0] ++ tohostName ++ [0] ++
    pack [(4, 0x73)]

theorem executable_loads : loads .elf32 executable = [0, 1] := by
  decide +kernel

theorem executable_symtabs : symtabs .elf32 executable = [1] := by
  decide +kernel

theorem executable_symtab : SymtabOk .elf32 executable 1 := by
  constructor
  case terminated => exact ⟨7, by decide +kernel⟩
  all_goals decide +kernel

theorem executable_wellFormed : WellFormed .elf32 executable := by
  constructor
  case tables =>
    rw [executable_symtabs]
    intro i hi
    rw [List.mem_singleton.mp hi]
    exact executable_symtab
  all_goals decide +kernel

theorem executable_fits {mem : Memory} (hlen : mem.dram.len = 0x2000) :
    Fits .elf32 executable mem := by
  have hstart : start .elf32 executable 0 +
      phdrField .elf32 executable 0 .memsz ≤ start .elf32 executable 1 := by
    decide +kernel
  constructor
  case length => omega
  case inDram =>
    rw [executable_loads]
    unfold Memory.InDram
    rw [hlen]
    decide +kernel
  case apart =>
    rw [executable_loads]
    intro i hi j hj hne a
    unfold Covers
    simp only [List.mem_cons, List.not_mem_nil, or_false] at hi hj
    rcases hi with rfl | rfl <;> rcases hj with rfl | rfl <;> omega

theorem parse_loadElf_executable :
    ∃ c elf c', Cpu.new 0x2000 .rv64 = some c ∧
      parse executable .debug () = some (.ok elf, ()) ∧
      Cpu.loadElf elf .debug c = some (.ok (), c') ∧
      Placed .elf32 executable c c' ∧ c'.mem.tohost = some 0x80001000 := by
  obtain ⟨c, hnew⟩ : ∃ c, Cpu.new 0x2000 .rv64 = some c := ⟨_, rfl⟩
  have hlen : c.mem.dram.len = 0x2000 := by
    unfold Cpu.new at hnew
    cases hnew
    rfl
  obtain ⟨elf, c', hread, hloaded, hplaced⟩ :=
    @parse_loadElf .elf32 executable c .debug executable_wellFormed
      (executable_fits hlen)
  refine ⟨c, elf, c', hnew, hread, hloaded, hplaced, ?_⟩
  rw [hplaced.tohost]
  decide +kernel

end Elf

end Nanoemu
