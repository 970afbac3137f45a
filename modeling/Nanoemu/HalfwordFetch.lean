import Nanoemu.CompressedStep
import Nanoemu.PageOffset
import Nanoemu.TlbCoherence

/-!
# The fetch by halfwords

An instruction is found a halfword at a time: the second halfword is looked at
only where the first says so, under a translation of its own.  The fetch reads
a whole word where the word lies on one page, and finds the same.
-/

namespace Nanoemu

open CheckedProgram Mmu

theorem Dram.loadLe_word (dram : Dram) (i : ℕ) :
    (dram.loadLe i 4).setWidth 32 =
      ((dram.loadLe (i + 2) 2).setWidth 32 <<< 16) |||
        (dram.loadLe i 2).setWidth 32 := by
  apply BitVec.eq_of_getLsbD_eq
  intro j hj
  rw [BitVec.getLsbD_or, BitVec.getLsbD_shiftLeft, BitVec.getLsbD_setWidth,
    BitVec.getLsbD_setWidth, BitVec.getLsbD_setWidth,
    getLsbD_loadLe dram i 4 j (by decide),
    getLsbD_loadLe dram (i + 2) 2 (j - 16) (by decide),
    getLsbD_loadLe dram i 2 j (by decide)]
  by_cases hlow : j < 16
  · simp [hlow, hj]
  · have hbyte : i + 2 + (j - 16) / 8 = i + j / 8 := by omega
    have hbit : (j - 16) % 8 = j % 8 := by omega
    have hhigh : j - 16 < 16 := by omega
    simp [hlow, hj, hbyte, hbit, hhigh, show j - 16 < 32 by omega]

theorem Dram.loadLe_low (dram : Dram) (i : ℕ) :
    ((dram.loadLe i 4).setWidth 32) &&& 0xffff =
      (dram.loadLe i 2).setWidth 32 := by
  have hhalf : ((dram.loadLe i 4).setWidth 32).setWidth 16 = dram.half i :=
    (BitVec.setWidth_setWidth_of_le _ (by decide)).trans
      (dram.loadLe_half (by decide) (by decide))
  have hmask : ((dram.loadLe i 4).setWidth 32) &&& 0xffff =
      (((dram.loadLe i 4).setWidth 32).setWidth 16).setWidth 32 :=
    FieldWords.and_ones (k := 16) _ (by decide)
  rw [hmask, hhalf, dram.loadLe_two,
    FieldWords.setWidth_setWidth_of_le _ (by decide)]

namespace Memory

/-- Where DRAM is made of whole pages, a word of a page is there if its first
halfword is. -/
theorem inDram_word {mem : Memory} {addr : BitVec 64}
    (hpages : 4096 ∣ mem.dram.len) (hoffset : addr.toNat % 4096 ≤ 0xffc)
    (hin : mem.InDram addr 2) : mem.InDram addr 4 := by
  obtain ⟨hbase, hlen, hlt⟩ := hin
  have hconst : DRAM_BASE.toNat = 0x80000000 := by decide
  have haddr := addr.isLt
  rw [hconst] at hlen hlt
  refine ⟨hbase, ?_, ?_⟩ <;> rw [hconst]
  · omega
  · omega

theorem inDram_half {mem : Memory} {addr : BitVec 64}
    (hin : mem.InDram addr 4) (hlt : addr.toNat + 2 < 2 ^ 64) :
    mem.InDram (addr + 2) 2 ∧ offset (addr + 2) = offset addr + 2 := by
  obtain ⟨hbase, hlen, hword⟩ := hin
  have hsum : (addr + 2).toNat = addr.toNat + 2 := by
    rw [BitVec.toNat_add]
    exact Nat.mod_eq_of_lt hlt
  have hle : DRAM_BASE.toNat ≤ addr.toNat := hbase
  refine ⟨⟨?_, ?_, ?_⟩, ?_⟩
  · change DRAM_BASE.toNat ≤ (addr + 2).toNat
    omega
  · rw [hsum]
    omega
  · rw [hsum]
    omega
  · unfold offset
    omega

end Memory

namespace Cpu

/-! ## The reference -/

/-- One halfword, and the second one, translated by itself, if the first is
the start of a longer encoding. -/
def fetchByHalves : Hart (BitVec 32 × BitVec 64) := do
  let pc ← Program.read Cpu.pc
  let lo ← fetchHalf pc
  let lo : BitVec 32 := lo.setWidth 32
  if lo &&& 0x3 ≠ 0x3 then expand lo
  else do
    let next ← Program.check (Checked.add pc 2)
    let hi ← fetchHalf next
    let hi : BitVec 32 := hi.setWidth 32
    pure ((hi <<< 16) ||| lo, 4)

section Reads

variable {profile : Profile} {c : Cpu} {pa : BitVec 64}

theorem physRead_unmapped {fault : Exception} {size : ℕ}
    (hout : ¬ c.mem.InDram pa size) (hdevice : ¬ Memory.InDevice pa) :
    physRead fault pa size profile c =
      some (.error fault, { c with mem := c.mem.noticed pa }) := by
  unfold physRead onMemory Program.zoom Program.mapError
  rw [Memory.read_unmapped hout hdevice]

theorem translate_word {c₁ : Cpu} {pc : BitVec 64} (haligned : AlignedTlb c)
    (htranslate : translate pc .fetch profile c = some (.ok pa, c₁))
    (hfits : pc &&& 0xfff ≤ 0xffc) :
    pa.toNat % 4096 ≤ 0xffc ∧
      translate (pc + 2) .fetch profile c₁ = some (.ok (pa + 2), c₁) := by
  obtain ⟨hhit, hpa, hkept⟩ :=
    (translate_entry pc .fetch profile c).ok htranslate
  have hpage := hkept haligned _ _ (tlbHit_eq_true hhit).1
  set page := (c₁.tlb (tlbSlot pc) .fetch).ppn
  have hoffset : pc.toNat % 4096 ≤ 0xffc := by
    rw [← Mmu.offset_toNat]
    exact hfits
  have hplace := (page_or_toNat hpage pc).1
  obtain ⟨hplace', hzero⟩ := page_or_toNat hpage (pc + 2)
  rw [← hpa] at hplace
  have hpc := pc.isLt
  have hpageLt := page.isLt
  have htwo : (2 : BitVec 64).toNat = 2 := by decide
  have hnext : (pc + 2).toNat = pc.toNat + 2 := by
    rw [BitVec.toNat_add, htwo]
    omega
  have hsame : (pc + 2) >>> 12 = pc >>> 12 := by
    apply BitVec.eq_of_toNat_eq
    rw [BitVec.toNat_ushiftRight, BitVec.toNat_ushiftRight, hnext,
      Nat.shiftRight_eq_div_pow, Nat.shiftRight_eq_div_pow]
    omega
  have hanswer : page ||| ((pc + 2) &&& 0xfff) = pa + 2 := by
    apply BitVec.eq_of_toNat_eq
    rw [hplace', hnext, BitVec.toNat_add, htwo, hplace]
    omega
  refine ⟨by omega, ?_⟩
  rw [translate_same_page hhit hsame, hanswer]

end Reads

section Refinement

variable {profile : Profile} {c : Cpu}

theorem AlignedTlb.fetch_eq (haligned : AlignedTlb c)
    (heven : c.pc &&& 0x1 = 0) (hfits : c.pc.toNat + 4 < 2 ^ 64)
    (hpages : 4096 ∣ c.mem.dram.len)
    (hdevice : ∀ pa c₁, translate c.pc .fetch profile c = some (.ok pa, c₁) →
      ¬ Memory.InDevice pa) :
    fetch profile c = fetchByHalves profile c := by
  unfold fetch fetchByHalves
  rw [Program.bind_run_ok (Program.read_run _ _ _),
    Program.bind_run_ok (Program.read_run _ _ _),
    if_neg (not_not.mpr heven)]
  by_cases hword : c.pc &&& 0xfff ≤ 0xffc
  · have hhalf : fetchHalf c.pc = (translate c.pc .fetch >>= fun pa =>
        physRead (.instructionAccessFault c.pc) pa 2) := rfl
    rw [if_pos hword, hhalf, bind_assoc]
    apply Program.bind_congr
    intro pa c₁ htranslate
    obtain ⟨hplace, hsecond⟩ := translate_word haligned htranslate hword
    by_cases hin : c₁.mem.InDram pa 2
    · have hlen : c₁.mem.dram.len = c.mem.dram.len :=
        ((translate_ensures _ _ _ c).ok htranslate).1.tables.len
      have hin4 := Memory.inDram_word (hlen ▸ hpages) hplace hin
      obtain ⟨hhalf, hindex⟩ := Memory.inDram_half hin4 (by omega)
      rw [Program.bind_run_ok (physRead_inDram hin4 rfl),
        Program.bind_run_ok (physRead_inDram hin rfl)]
      rw [← Rvc.low_bits_half, Dram.loadLe_low]
      split
      · rfl
      · have hread : fetchHalf (c.pc + 2) profile c₁ =
            some (.ok (c₁.mem.dram.loadLe (Memory.offset pa + 2) 2), c₁) := by
          unfold fetchHalf
          rw [Program.bind_run_ok hsecond, physRead_inDram hhalf rfl, hindex]
        rw [Checked.add_eq_pure (by change c.pc.toNat + 2 < _; omega),
          Program.check_pure, pure_bind, Program.bind_run_ok hread,
          Dram.loadLe_word]
    · have hin4 : ¬ c₁.mem.InDram pa 4 := fun h => hin
        ⟨h.1, by have := h.2.1; omega, by have := h.2.2; omega⟩
      have hnone := hdevice pa c₁ htranslate
      rw [Program.bind_run_error (physRead_unmapped hin4 hnone),
        Program.bind_run_error (physRead_unmapped hin hnone)]
  · rw [if_neg hword]

/-- Where the pc's page is no device, the fetch is the fetch by halfwords. -/
theorem fetch_eq_fetchByHalves (heven : c.pc &&& 0x1 = 0)
    (hfits : c.pc.toNat + 4 < 2 ^ 64) (hpages : 4096 ∣ c.mem.dram.len)
    (haligned : AlignedTlb c)
    (hdevice : ∀ pa c₁, translate c.pc .fetch profile c = some (.ok pa, c₁) →
      ¬ Memory.InDevice pa) :
    fetch profile c = fetchByHalves profile c :=
  haligned.fetch_eq heven hfits hpages hdevice

/-- The fetch of the last halfword of DRAM. -/
theorem fetch_eq_fetchByHalves_last :
    fetch .debug { compressedHart 0x0505 with pc := 0x80000ffe } =
      fetchByHalves .debug { compressedHart 0x0505 with pc := 0x80000ffe } := by
  apply fetch_eq_fetchByHalves
  · decide
  · decide
  · decide
  · intro slot way hvalid
    cases hvalid
  · intro pa c₁ htranslate
    cases htranslate
    unfold Memory.InDevice
    decide

end Refinement

theorem Reachable.alignedTlb {profile : Profile} {c : Cpu}
    (hreach : Reachable profile (Started profile) c) : AlignedTlb c := by
  obtain ⟨c₀, hstarted, hrun⟩ := hreach
  intro slot way hvalid
  obtain ⟨x, -, -, -, hfilled⟩ :=
    hrun.filled hstarted.emptyTlb slot way hvalid
  exact hfilled.aligned

/-- So it is in every step of every run. -/
theorem Reachable.fetch_by_halves {profile : Profile} {c : Cpu}
    (hreach : Reachable profile (Started profile) c)
    (heven : c.pc &&& 0x1 = 0) (hfits : c.pc.toNat + 4 < 2 ^ 64)
    (hpages : 4096 ∣ c.mem.dram.len)
    (hdevice : ∀ pa c₁, translate c.pc .fetch profile c.fetching =
      some (.ok pa, c₁) → ¬ Memory.InDevice pa) :
    fetch profile c.fetching = fetchByHalves profile c.fetching := by
  have hticked := ticked_ticked c
  have hpc : c.fetching.pc = c.pc := (congrArg Cpu.pc hticked.frame :)
  have hlen : c.fetching.mem.dram.len = c.mem.dram.len :=
    congrArg Dram.len hticked.dram
  have haligned : AlignedTlb c.fetching := by
    have htlb : c.fetching.tlb = c.tlb := hticked.tlb
    rw [AlignedTlb, htlb]
    exact hreach.alignedTlb
  apply haligned.fetch_eq
  · rwa [hpc]
  · rwa [hpc]
  · rwa [hlen]
  · rwa [hpc]

end Cpu

end Nanoemu
