import Nanoemu.ElfFields

/-!
# Reading an executable

The reader finds in a well-formed file what the format says is there.  Every
read is shown to hit the field it is meant for; the rest is one induction for
each table.
-/

namespace Nanoemu

open CheckedProgram RecordLayout ElfFormat

namespace Elf

section Reads

variable {b : Elf.Bytes} (hlen : b.length < 2 ^ 63) {F : Type} [DecidableEq F]
  {layout : List (F × ℕ)} {base : ℕ}

include hlen

theorem readAt_run {f : F} {n off : ℕ} (hoff : offset layout f = off)
    (hwidth : width layout f = n) (hin : base + size layout ≤ b.length) :
    readAt (scalarLe n) b base off = pure (field layout b base f) := by
  rw [readAt_found (by omega) hoff hwidth, found_eq_field hin]

theorem first_run {f : F} {n : ℕ} (hoff : offset layout f = 0)
    (hwidth : width layout f = n) (hin : base + size layout ≤ b.length) :
    scalarLe n b base = pure (field layout b base f) := by
  rw [first_found (by omega) hoff hwidth, found_eq_field hin]

theorem word_run (cls : FileClass) {f : F} {off32 off64 : ℕ}
    (hoff : offset layout f = if cls.is64 then off64 else off32)
    (hwidth : width layout f = cls.word) (hin : base + size layout ≤ b.length) :
    word cls.is64 b off32 off64 base = pure (field layout b base f) := by
  rw [word_found (by omega) cls hoff hwidth, found_eq_field hin]

omit [DecidableEq F] in
theorem entryAt_run {table entsize i : ℕ}
    (hin : table + i * entsize ≤ b.length) :
    entryAt table entsize i = pure (table + i * entsize) := by
  have hskip : Checked.umul 64 i entsize = pure (i * entsize) :=
    Checked.umul_eq_pure (by omega)
  unfold entryAt
  rw [hskip, pure_bind, Checked.uadd_eq_pure (by omega)]

end Reads

section Segments

variable (cls : FileClass) (b : Elf.Bytes)

def segmentOf (i : ℕ) : Segment :=
  { addr := paddr cls b i
    data := slice b (phdrField cls b i .offset) (phdrField cls b i .filesz)
    zeroLen := BitVec.ofNat 64
      (phdrField cls b i .memsz - phdrField cls b i .filesz) }

variable {cls b} (hfile : WellFormed cls b)

include hfile

theorem segmentFields_run {i : ℕ} (hi : i < header cls b .phnum) :
    segmentFields cls.is64 b (phdrBase cls b i) =
      pure (phdrField cls b i .offset, phdrField cls b i .paddr,
        phdrField cls b i .filesz, phdrField cls b i .memsz) := by
  have hin := hfile.phdrs i hi
  have hlen := hfile.length
  rw [segmentFields_found (by omega)]
  unfold phdrField
  simp only [found_eq_field hin]

theorem segmentAt_run {i : ℕ} (hi : i < header cls b .phnum) :
    segmentAt cls.is64 b (phdrBase cls b i) =
      pure (if phdrField cls b i .type = 1 then some (segmentOf cls b i)
        else none) := by
  have hin := hfile.phdrs i hi
  have hlen := hfile.length
  have htype : u32le b (phdrBase cls b i) =
      pure (phdrField cls b i .type) := by
    have hrun := @phdrType_found cls b (phdrBase cls b i) (by omega)
    rwa [found_eq_field hin] at hrun
  unfold segmentAt PT_LOAD
  rw [htype, Program.check_pure, pure_bind]
  by_cases hload : phdrField cls b i .type = 1
  · have hdata := hfile.files i (mem_loads.mpr ⟨hi, hload⟩)
    have hstop : Checked.uadd 64 (phdrField cls b i .offset)
        (phdrField cls b i .filesz) = pure (phdrField cls b i .offset +
          phdrField cls b i .filesz) := Checked.uadd_eq_pure (by omega)
    rw [if_neg (not_not.mpr hload), segmentFields_run hfile hi,
      Program.check_pure, pure_bind]
    dsimp only
    rw [hstop, Program.check_pure, pure_bind, get_slice hdata, if_pos hload]
    rfl
  · rw [if_pos hload, if_neg hload]

theorem parseSegments_run {phentsize : ℕ}
    (hentsize : 0 < header cls b .phnum → phentsize = size (phdr cls))
    (remaining i : ℕ) (hcount : i + remaining = header cls b .phnum) :
    parseSegments cls.is64 b (header cls b .phoff) phentsize remaining i =
      pure (((List.range' i remaining).filter fun i =>
        phdrField cls b i .type = 1).map (segmentOf cls b)) := by
  induction remaining generalizing i with
  | zero => rfl
  | succ remaining ih =>
      have hi : i < header cls b .phnum := by omega
      have hin := hfile.phdrs i hi
      have hentry : entryAt (header cls b .phoff) phentsize i =
          pure (phdrBase cls b i) := by
        rw [hentsize (by omega)]
        unfold phdrBase at hin ⊢
        exact entryAt_run hfile.length (by omega)
      unfold parseSegments
      rw [hentry, Program.check_pure, pure_bind, segmentAt_run hfile hi,
        pure_bind, ih (i + 1) (by omega), pure_bind, List.range'_succ]
      by_cases hload : phdrField cls b i .type = 1
      · simp [hload]
      · simp [hload]

end Segments

section Symbols

variable (cls : FileClass) (b : Elf.Bytes)

def symbolsOf (symbols : Symbols) (rs : List (ℕ × ℕ)) : Symbols :=
  tabulate (fun r => nameOf cls b r ≠ [])
    (fun r => LossyUtf8.text (nameOf cls b r)) (valueOf cls b) symbols rs

theorem take_name {rest : Elf.Bytes} (hnul : (0 : BitVec 8) ∈ rest) :
    rest.take ((rest.findIdx? fun c => c = 0).getD 0) =
      rest.takeWhile (· ≠ 0) := by
  have hfound : rest.findIdx? (fun c => decide (c = 0)) =
      some (rest.findIdx fun c => decide (c = 0)) :=
    List.findIdx?_eq_some_of_exists ⟨0, hnul, by simp⟩
  rw [hfound, Option.getD_some, List.takeWhile_eq_take_findIdx_not]
  simp

variable {cls b}

theorem insertSymbol_run {r : ℕ × ℕ} (hin : nameBase cls b r ≤ b.length)
    (hnul : (0 : BitVec 8) ∈ b.drop (nameBase cls b r)) (symbols : Symbols) :
    insertSymbol b (nameBase cls b r) (symField cls b r.1 r.2 .value) symbols =
      symbolsOf cls b symbols [r] := by
  have hname := take_name hnul
  have hlength : 0 < ((b.drop (nameBase cls b r)).findIdx?
      fun c => c = 0).getD 0 ↔ nameOf cls b r ≠ [] := by
    unfold nameOf
    rw [← hname, ne_eq, List.take_eq_nil_iff, not_or]
    constructor
    · intro hpos
      exact ⟨hpos.ne', List.ne_nil_of_mem hnul⟩
    · exact fun h => Nat.pos_of_ne_zero h.1
  unfold insertSymbol symbolsOf tabulate
  rw [if_pos hin]
  dsimp only
  rw [hname, if_congr hlength rfl rfl]
  rfl

theorem nameBase_pair (i k : ℕ) : nameBase cls b (i, k) =
    shdrField cls b (shdrField cls b i .link) .offset +
      symField cls b i k .name := rfl

variable (hfile : WellFormed cls b)

include hfile

/-- The string table a symbol's name is in ends with a NUL. -/
theorem name_terminated {i k : ℕ} (hi : i ∈ symtabs cls b)
    (hk : k < symCount cls b i) :
    nameBase cls b (i, k) ≤ b.length ∧
      (0 : BitVec 8) ∈ b.drop (nameBase cls b (i, k)) := by
  have htable := hfile.tables i hi
  obtain ⟨n, hsize, hnul⟩ := htable.terminated
  have hname := htable.names k hk
  have hstrings := htable.strings
  rw [hsize] at hname hstrings
  rw [nameBase_pair]
  refine ⟨by omega, ?_⟩
  apply List.mem_of_getElem? (i := n - symField cls b i k .name)
  rw [List.getElem?_drop, ← hnul]
  congr 1
  omega

theorem symbolAt_run {i k : ℕ} (hi : i ∈ symtabs cls b)
    (hk : k < symCount cls b i) (symbols : Symbols) :
    symbolAt cls.is64 b
        (shdrField cls b (shdrField cls b i .link) .offset)
        (symBase cls b i k) symbols =
      pure (symbolsOf cls b symbols [(i, k)]) := by
  have htable := hfile.tables i hi
  obtain ⟨hbase, hnul⟩ := name_terminated hfile hi hk
  have hlen := hfile.length
  have hin : symBase cls b i k + size (sym cls) ≤ b.length := by
    have hfits := Nat.mul_le_of_le_div _ _ _ (Nat.succ_le_of_lt hk)
    have hinside := htable.inside
    unfold symBase
    rw [Nat.succ_mul] at hfits
    omega
  have hname : u32le b (symBase cls b i k) =
      pure (symField cls b i k .name) :=
    first_run hlen (by cases cls <;> rfl) (by cases cls <;> rfl) hin
  have hvalue : symbolValue cls.is64 b (symBase cls b i k) =
      pure (symField cls b i k .value) := by
    cases cls with
    | elf32 => exact readAt_run hlen rfl rfl hin
    | elf64 => exact readAt_run hlen rfl rfl hin
  have hoff : Checked.uadd 64
      (shdrField cls b (shdrField cls b i .link) .offset)
      (symField cls b i k .name) = pure (nameBase cls b (i, k)) :=
    Checked.uadd_eq_pure (by rw [nameBase_pair] at hbase; omega)
  unfold symbolAt
  rw [hname, pure_bind, hoff, pure_bind, hvalue, pure_bind]
  exact congrArg pure (insertSymbol_run hbase hnul symbols)

theorem parseSymbols_run {i : ℕ} (hi : i ∈ symtabs cls b) (remaining s : ℕ)
    (hcount : s + remaining = symCount cls b i) (symbols : Symbols) :
    parseSymbols cls.is64 b
        (shdrField cls b (shdrField cls b i .link) .offset)
        (shdrField cls b i .offset) (size (sym cls)) remaining s symbols =
      pure (symbolsOf cls b symbols
        ((List.range' s remaining).map fun k => (i, k))) := by
  induction remaining generalizing s symbols with
  | zero => rfl
  | succ remaining ih =>
      have hk : s < symCount cls b i := by omega
      have hlen := hfile.length
      have hfits := Nat.mul_le_of_le_div _ _ _ (Nat.succ_le_of_lt hk)
      have hinside := (hfile.tables i hi).inside
      rw [Nat.succ_mul] at hfits
      have hsym : Checked.uadd 64 (shdrField cls b i .offset)
          (s * size (sym cls)) = pure (symBase cls b i s) :=
        Checked.uadd_eq_pure (by omega)
      unfold parseSymbols
      rw [hsym, pure_bind, symbolAt_run hfile hi hk, pure_bind,
        ih (s + 1) (by omega), List.range'_succ]
      rfl

theorem shdr_word {i : ℕ} (hi : i < header cls b .shnum) {f : ShdrField}
    (hwidth : width (shdr cls) f = cls.word) :
    word cls.is64 b (offset (shdr cls) f) (offset (shdr cls) f)
      (shdrBase cls b i) = pure (shdrField cls b i f) :=
  word_run hfile.length cls (ite_self _).symm hwidth (hfile.shdrs i hi)

theorem shdr_entry {i : ℕ} (hi : i < header cls b .shnum) :
    entryAt (header cls b .shoff) (size (shdr cls)) i =
      pure (shdrBase cls b i) := by
  have hin := hfile.shdrs i hi
  unfold shdrBase at hin ⊢
  exact entryAt_run hfile.length (by omega)

theorem sectionAt_run {i : ℕ} (hi : i < header cls b .shnum)
    (symbols : Symbols) :
    sectionAt cls.is64 b (header cls b .shoff) (size (shdr cls))
        (shdrBase cls b i) symbols =
      pure (if shdrField cls b i .type = 2 then
        symbolsOf cls b symbols (recordsOf cls b i) else symbols) := by
  have hoffsets : sectionOffsets cls.is64 =
      (offset (shdr cls) .offset, offset (shdr cls) .size,
        offset (shdr cls) .link, offset (shdr cls) .entsize) := by
    cases cls <;> rfl
  have htype : readAt u32le b (shdrBase cls b i) 4 =
      pure (shdrField cls b i .type) :=
    readAt_run hfile.length (by cases cls <;> rfl) (by cases cls <;> rfl)
      (hfile.shdrs i hi)
  unfold sectionAt SHT_SYMTAB
  rw [hoffsets]
  dsimp only
  rw [htype, pure_bind]
  by_cases hsymtab : shdrField cls b i .type = 2
  · have hmem := mem_symtabs.mpr ⟨hi, hsymtab⟩
    have htable := hfile.tables i hmem
    have hlink : readAt u32le b (shdrBase cls b i)
        (offset (shdr cls) .link) = pure (shdrField cls b i .link) :=
      readAt_run hfile.length rfl (by cases cls <;> rfl) (hfile.shdrs i hi)
    have hpos : 0 < size (sym cls) := by cases cls <;> decide
    have hcount : (shdrField cls b i .size + size (sym cls) - 1) /
        size (sym cls) = symCount cls b i := by
      obtain ⟨n, hn⟩ := htable.whole
      unfold symCount
      rw [hn, Nat.mul_div_cancel_left _ hpos]
      apply Nat.div_eq_of_lt_le
      · rw [Nat.mul_comm]
        omega
      · rw [Nat.succ_mul, Nat.mul_comm n]
        omega
    have hrecords := parseSymbols_run hfile hmem (symCount cls b i) 0
      (Nat.zero_add _) symbols
    rw [if_neg (not_not.mpr hsymtab), shdr_word hfile hi (by cases cls <;> rfl),
      pure_bind, shdr_word hfile hi (by cases cls <;> rfl), pure_bind,
      shdr_word hfile hi (by cases cls <;> rfl), pure_bind, hlink, pure_bind,
      shdr_entry hfile htable.link, pure_bind,
      shdr_word hfile htable.link (by cases cls <;> rfl), pure_bind,
      htable.entsize, if_neg hpos.ne', hcount, hrecords, if_pos hsymtab]
    unfold recordsOf
    rw [List.range_eq_range']
  · rw [if_pos hsymtab, if_neg hsymtab]

theorem parseSections_run {shentsize : ℕ}
    (hentsize : 0 < header cls b .shnum → shentsize = size (shdr cls))
    (remaining i : ℕ) (hcount : i + remaining = header cls b .shnum)
    (symbols : Symbols) :
    parseSections cls.is64 b (header cls b .shoff) shentsize remaining i
        symbols =
      pure (symbolsOf cls b symbols (((List.range' i remaining).filter
        fun i => shdrField cls b i .type = 2).flatMap (recordsOf cls b))) := by
  induction remaining generalizing i symbols with
  | zero => rfl
  | succ remaining ih =>
      have hi : i < header cls b .shnum := by omega
      unfold parseSections
      rw [hentsize (by omega), shdr_entry hfile hi, pure_bind,
        sectionAt_run hfile hi, pure_bind, ← hentsize (by omega),
        ih (i + 1) (by omega), List.range'_succ]
      by_cases hsymtab : shdrField cls b i .type = 2
      · have hkept : (i :: List.range' (i + 1) remaining).filter
            (fun i => shdrField cls b i .type = 2) =
            i :: (List.range' (i + 1) remaining).filter
              fun i => shdrField cls b i .type = 2 :=
          List.filter_cons_of_pos (by simpa using hsymtab)
        rw [if_pos hsymtab, hkept, List.flatMap_cons]
        unfold symbolsOf
        rw [tabulate_append]
      · have hleft : (i :: List.range' (i + 1) remaining).filter
            (fun i => shdrField cls b i .type = 2) =
            (List.range' (i + 1) remaining).filter
              fun i => shdrField cls b i .type = 2 :=
          List.filter_cons_of_neg (by simpa using hsymtab)
        rw [if_neg hsymtab, hleft]

end Symbols

/-! ## The whole file -/

section Whole

variable (cls : FileClass) (b : Elf.Bytes)

def imageOf : Elf :=
  { segments := (loads cls b).map (segmentOf cls b)
    entry := BitVec.ofNat 64 (header cls b .entry)
    symbols := symbolsOf cls b (fun _ => none) (records cls b)
    is64 := cls.is64 }

variable {cls b} (hfile : WellFormed cls b)

include hfile

theorem ehdrFound_run (f : EhdrField) : ehdrFound cls b f = header cls b f :=
  ehdrFound_eq_header hfile.ehdr f

theorem identified : Identified cls b := by
  have hsize : 52 ≤ size (ehdr cls) := by cases cls <;> decide
  constructor
  case length => exact hsize.trans hfile.ehdr
  case magic => exact hfile.magic
  case classByte => exact hfile.classByte
  case dataByte => exact hfile.dataByte
  case machine => rw [ehdrFound_run hfile, hfile.machine, EM_RISCV]
  case type => rw [ehdrFound_run hfile, hfile.type, ET_EXEC]

/-- The reader finds what the format says is there. -/
theorem parse_run : parse b = pure (imageOf cls b) := by
  have hsegments := parseSegments_run hfile hfile.phentsize
    (header cls b .phnum) 0 (Nat.zero_add _)
  have hsections := parseSections_run hfile hfile.shentsize
    (header cls b .shnum) 0 (Nat.zero_add _) fun _ => none
  rw [parse_identified (identified hfile), parseTables_found]
  simp only [ehdrFound_run hfile]
  rw [hsegments, pure_bind, hsections, Program.check_pure, pure_bind]
  unfold imageOf records loads symtabs
  rw [List.range_eq_range', List.range_eq_range']

end Whole

end Elf

end Nanoemu
