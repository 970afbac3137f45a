import Nanoemu.ElfOffsets

/-!
# Truncated files

A header that is not in the file reads as zeros, so it is no header to load and
is skipped.  The reader therefore accepts any identified file in which the data
of the headers that are there is there, too.  What it returns is complete
exactly if all headers are.
-/

namespace Nanoemu

open CheckedProgram RecordLayout ElfFormat

namespace Elf

section Release

variable (is64 : Bool) (b : Elf.Bytes)

theorem scalarLe_returns (n off : ℕ) :
    (scalarLe n b off .release).isSome := by
  unfold scalarLe
  exact Checked.bind_returns (Checked.unsigned_returns _ _) fun _ => rfl

theorem readAt_returns (n base off : ℕ) :
    (readAt (scalarLe n) b base off .release).isSome := by
  unfold readAt
  exact Checked.bind_returns (Checked.unsigned_returns _ _)
    fun off => scalarLe_returns b n off

theorem word_returns (off32 off64 base : ℕ) :
    (word is64 b off32 off64 base .release).isSome := by
  unfold word
  cases is64 with
  | false => exact readAt_returns b 4 base off32
  | true => exact readAt_returns b 8 base off64

theorem entryAt_returns (table entsize i : ℕ) :
    (entryAt table entsize i .release).isSome := by
  rw [entryAt_release]
  rfl

theorem symbolAt_release (strtab sym : ℕ) (symbols : Symbols) :
    (symbolAt is64 b strtab sym symbols .release).isSome := by
  have hvalue : (symbolValue is64 b sym .release).isSome := by
    unfold symbolValue
    cases is64 with
    | false => exact readAt_returns b 4 sym 4
    | true => exact readAt_returns b 8 sym 8
  unfold symbolAt
  apply Checked.bind_returns (scalarLe_returns b 4 sym)
  intro name
  apply Checked.bind_returns (Checked.unsigned_returns _ _)
  intro nameOff
  exact Checked.bind_returns hvalue fun _ => rfl

theorem parseSymbols_release (strtab symoff entsize remaining s : ℕ)
    (symbols : Symbols) :
    (parseSymbols is64 b strtab symoff entsize remaining s symbols
      .release).isSome := by
  induction remaining generalizing s symbols with
  | zero => rfl
  | succ remaining ih =>
      unfold parseSymbols
      apply Checked.bind_returns (Checked.unsigned_returns _ _)
      intro sym
      apply Checked.bind_returns (symbolAt_release is64 b strtab sym symbols)
      exact fun symbols => ih (s + 1) symbols

theorem sectionAt_release (shoff shentsize sh : ℕ) (symbols : Symbols) :
    (sectionAt is64 b shoff shentsize sh symbols .release).isSome := by
  unfold sectionAt
  dsimp only
  apply Checked.bind_returns (readAt_returns b 4 sh 4)
  intro type
  by_cases hsymtab : type = SHT_SYMTAB
  · rw [if_neg (not_not.mpr hsymtab)]
    apply Checked.bind_returns (word_returns is64 b _ _ _)
    intro symoff
    apply Checked.bind_returns (word_returns is64 b _ _ _)
    intro symsize
    apply Checked.bind_returns (word_returns is64 b _ _ _)
    intro entsize
    apply Checked.bind_returns (readAt_returns b 4 _ _)
    intro strtabIdx
    apply Checked.bind_returns (entryAt_returns _ _ _)
    intro strtabSh
    apply Checked.bind_returns (word_returns is64 b _ _ _)
    intro strtab
    by_cases hentsize : entsize = 0
    · rw [if_pos hentsize]
      rfl
    · rw [if_neg hentsize]
      exact parseSymbols_release is64 b _ _ _ _ _ _
  · rw [if_pos hsymtab]
    rfl

theorem parseSections_release (shoff shentsize remaining i : ℕ)
    (symbols : Symbols) :
    (parseSections is64 b shoff shentsize remaining i symbols
      .release).isSome := by
  induction remaining generalizing i symbols with
  | zero => rfl
  | succ remaining ih =>
      unfold parseSections
      apply Checked.bind_returns (entryAt_returns _ _ _)
      intro sh
      apply Checked.bind_returns (sectionAt_release is64 b _ _ sh symbols)
      exact fun symbols => ih (i + 1) symbols

end Release

section Acceptance

variable {cls : FileClass} {b : Elf.Bytes} {profile : Profile}

/-- What has to hold of a file for the reader to accept it: it is identified,
the data of the headers that are found is in it and, under overflow checks, no
offset leaves its type. -/
structure Accepted (profile : Profile) (cls : FileClass) (b : Elf.Bytes) :
    Prop where
  identified : Identified cls b
  data : AllInside cls b (ehdrFound cls b .phnum) 0
  offsets : profile = .debug → OffsetsFit cls b

/-- What the reader makes of an accepted file, whatever its symbols. -/
def imageFound (cls : FileClass) (b : Elf.Bytes) (symbols : Symbols) : Elf :=
  { segments := segmentsFound cls b (ehdrFound cls b .phnum) 0
    entry := BitVec.ofNat 64 (ehdrFound cls b .entry)
    symbols := symbols
    is64 := cls.is64 }

variable (hlen : b.length < 2 ^ 63)

include hlen

theorem Accepted.sections (h : Accepted profile cls b) :
    ∃ symbols, parseSections cls.is64 b (ehdrFound cls b .shoff)
      (ehdrFound cls b .shentsize) (ehdrFound cls b .shnum) 0 (fun _ => none)
        profile = some symbols := by
  rw [← Option.isSome_iff_exists]
  cases profile with
  | release => exact parseSections_release _ _ _ _ _ _ _
  | debug =>
      rw [parseSections_returns hlen]
      intro i _ hi
      exact (h.offsets rfl).shdrs h.data i (by omega)

theorem Accepted.parsed (h : Accepted profile cls b) :
    ∃ symbols, parse b profile () =
      some (.ok (imageFound cls b symbols), ()) := by
  obtain ⟨symbols, hsymbols⟩ := h.sections hlen
  refine ⟨symbols, ?_⟩
  rw [parse_phdrs h.identified, Program.bind_run_ok (phdrsFrom_inside hlen _ 0
    (fun hdebug => (h.offsets hdebug).phdrs) h.data),
    Program.bind_run_ok (Program.check_run_some hsymbols ())]
  rfl

theorem accepted_of_parsed {elf : Elf}
    (hrun : parse b profile () = some (.ok elf, ())) :
    ∃ cls, Accepted profile cls b := by
  by_cases h : ∃ cls, Identified cls b
  · obtain ⟨cls, hcls⟩ := h
    have hoffsets : profile = .debug → OffsetsFit cls b := by
      intro hdebug
      rw [hdebug] at hrun
      rw [← parse_identified_returns hlen hcls, hrun]
      rfl
    have hdata : AllInside cls b (ehdrFound cls b .phnum) 0 := by
      by_contra hout
      rw [parse_phdrs hcls, Program.bind_run_error (phdrsFrom_outside hlen _ 0
        (fun hdebug => (hoffsets hdebug).phdrs) hout)] at hrun
      cases hrun
    exact ⟨cls, hcls, hdata, hoffsets⟩
  · obtain ⟨error, hreject⟩ := @parse_rejects b profile (not_exists.mp h)
    rw [hreject] at hrun
    cases hrun

end Acceptance

/-! ## What is complete -/

section Completeness

def fileClass (elf : Elf) : FileClass :=
  if elf.is64 then .elf64 else .elf32

variable (cls : FileClass) (b : Elf.Bytes)

/-- A program header lies where the header says, by the stride it says. -/
def phdrPlace (i : ℕ) : ℕ :=
  header cls b .phoff + i * header cls b .phentsize

def placedField (i : ℕ) (f : PhdrField) : ℕ :=
  field (phdr cls) b (phdrPlace cls b i) f

/-- The header and all program headers that it declares are in the file. -/
structure HeadersInside : Prop where
  ehdr : size (ehdr cls) ≤ b.length
  phdrs : ∀ i < header cls b .phnum,
    phdrPlace cls b i + size (phdr cls) ≤ b.length

def placedLoads : List ℕ :=
  (List.range (header cls b .phnum)).filter fun i =>
    placedField cls b i .type = PT_LOAD

def placedSegment (i : ℕ) : Segment :=
  { addr := BitVec.ofNat 64 (placedField cls b i .paddr)
    data := slice b (placedField cls b i .offset) (placedField cls b i .filesz)
    zeroLen := BitVec.ofNat 64
      (placedField cls b i .memsz - placedField cls b i .filesz) }

/-- Nothing of a file that was read is missing. -/
structure Complete (elf : Elf) : Prop where
  headers : HeadersInside cls b
  segments : elf.segments = (placedLoads cls b).map (placedSegment cls b)
  data : ∀ i ∈ placedLoads cls b,
    placedField cls b i .offset + placedField cls b i .filesz ≤ b.length

variable {cls b}

theorem HeadersInside.phdrFound (hlen : b.length < 2 ^ 63)
    (h : HeadersInside cls b) {i : ℕ} (hi : i < header cls b .phnum)
    (f : PhdrField) : phdrFound cls b i f = placedField cls b i f := by
  have hin := h.phdrs i hi
  have hdeclared : phdrDeclared cls b i = phdrPlace cls b i := by
    unfold phdrDeclared phdrPlace
    rw [ehdrFound_eq_header h.ehdr, ehdrFound_eq_header h.ehdr]
  have hat : phdrAt cls b i = phdrPlace cls b i := by
    rw [phdrAt_of_lt (by omega), hdeclared]
  unfold Elf.phdrFound placedField
  rw [hat, found_eq_field hin]

theorem HeadersInside.segmentFound (hlen : b.length < 2 ^ 63)
    (h : HeadersInside cls b) {i : ℕ} (hi : i < header cls b .phnum) :
    segmentFound cls b i = placedSegment cls b i := by
  unfold Elf.segmentFound placedSegment
  simp only [h.phdrFound hlen hi]

theorem HeadersInside.segmentsFound (hlen : b.length < 2 ^ 63)
    (h : HeadersInside cls b) :
    segmentsFound cls b (header cls b .phnum) 0 =
      (placedLoads cls b).map (placedSegment cls b) := by
  have hloads : (List.range' 0 (header cls b .phnum)).filter
      (fun i => Elf.phdrFound cls b i .type = PT_LOAD) = placedLoads cls b := by
    unfold placedLoads
    rw [List.range_eq_range']
    apply List.filter_congr
    intro i hi
    have hlt : i < header cls b .phnum := by
      simpa using List.mem_range'_1.mp hi
    rw [h.phdrFound hlen hlt]
  unfold Elf.segmentsFound
  rw [hloads]
  apply List.map_congr_left
  intro i hi
  exact h.segmentFound hlen (List.mem_range.mp (List.mem_filter.mp hi).1)

theorem HeadersInside.complete (hlen : b.length < 2 ^ 63)
    (h : HeadersInside cls b) (hdata : AllInside cls b (ehdrFound cls b .phnum) 0)
    (symbols : Symbols) : Complete cls b (imageFound cls b symbols) := by
  have hphnum := ehdrFound_eq_header h.ehdr .phnum
  constructor
  case headers => exact h
  case segments =>
    unfold imageFound
    rw [hphnum, h.segmentsFound hlen]
  case data =>
    intro i hi
    obtain ⟨hrange, hload⟩ := List.mem_filter.mp hi
    have hlt := List.mem_range.mp hrange
    have hin := hdata i (Nat.zero_le i) (by rw [hphnum]; omega)
    unfold DataInside at hin
    rw [h.phdrFound hlen hlt, h.phdrFound hlen hlt, h.phdrFound hlen hlt] at hin
    exact hin (of_decide_eq_true hload)

/-- The segments of an accepted file are complete exactly if the headers are. -/
theorem parse_complete_iff {profile : Profile} (hlen : b.length < 2 ^ 63) :
    (∀ elf, parse b profile () = some (.ok elf, ()) →
      Complete (fileClass elf) b elf) ↔
        ∀ cls, Accepted profile cls b → HeadersInside cls b := by
  have hclass : ∀ cls symbols, fileClass (imageFound cls b symbols) = cls := by
    intro cls symbols
    cases cls <;> rfl
  constructor
  · intro hcomplete cls hcls
    obtain ⟨symbols, hrun⟩ := hcls.parsed hlen
    have hheaders := (hcomplete _ hrun).headers
    rwa [hclass] at hheaders
  · intro hinside elf hrun
    obtain ⟨cls, hcls⟩ := accepted_of_parsed hlen hrun
    obtain ⟨symbols, hrun'⟩ := hcls.parsed hlen
    have hsame := Option.some.inj (hrun.symm.trans hrun')
    have helf : elf = imageFound cls b symbols :=
      Except.ok.inj (congrArg Prod.fst hsame)
    rw [helf, hclass]
    exact (hinside cls hcls).complete hlen hcls.data symbols

/-- A real executable is complete. -/
theorem executable_complete :
    ∃ elf, parse executable .debug () = some (.ok elf, ()) ∧
      Complete (fileClass elf) executable elf := by
  have hfile := executable_wellFormed
  have hrun : parse executable .debug () =
      some (.ok (imageOf .elf32 executable), ()) := by
    rw [parse_run hfile]
    rfl
  have hinside : ∀ cls, Accepted .debug cls executable →
      HeadersInside cls executable := by
    intro cls hcls
    cases cls with
    | elf64 => exact absurd hcls.identified.classByte (by decide +kernel)
    | elf32 =>
        constructor
        case ehdr => exact hfile.ehdr
        case phdrs => decide +kernel
  exact ⟨_, hrun, (parse_complete_iff hfile.length).mpr hinside _ hrun⟩

/-- A file that ends after its header, which declares a program header. -/
def truncated : Elf.Bytes :=
  pack [(16, 0x010102464c457f), (2, 2), (2, 243), (4, 1), (8, 0x80000000),
    (8, 64), (8, 0), (4, 0), (2, 64), (2, 56), (2, 1), (2, 64), (2, 0), (2, 0)]

theorem truncated_identified : Identified .elf64 truncated := by
  constructor <;> decide +kernel

theorem truncated_accepted : Accepted .debug .elf64 truncated := by
  have hphnum : ehdrFound .elf64 truncated .phnum = 1 := by decide +kernel
  have htype : phdrFound .elf64 truncated 0 .type = 0 := by decide +kernel
  have hphdrs : PhdrsFit .elf64 truncated 1 0 := by
    intro k _ hk _
    obtain rfl : k = 0 := by omega
    constructor
    case type => decide +kernel
    case data =>
      intro hload
      rw [htype] at hload
      exact absurd hload (by decide)
  constructor
  case identified => exact truncated_identified
  case data =>
    rw [hphnum]
    intro k _ hk hload
    obtain rfl : k = 0 := by omega
    rw [htype] at hload
    exact absurd hload (by decide)
  case offsets =>
    intro _
    constructor
    case phdrs => rwa [hphnum]
    case shdrs =>
      intro _ i hi
      have hshnum : ehdrFound .elf64 truncated .shnum = 0 := by decide +kernel
      omega

theorem truncated_parsed :
    ∃ elf, parse truncated .debug () = some (.ok elf, ()) ∧
      elf.segments = [] ∧ ¬ Complete (fileClass elf) truncated elf := by
  have hlen : truncated.length < 2 ^ 63 := by decide +kernel
  have hnone : segmentsFound .elf64 truncated
      (ehdrFound .elf64 truncated .phnum) 0 = [] := by decide +kernel
  have hphnum : 0 < header .elf64 truncated .phnum := by decide +kernel
  have hout : ¬ phdrPlace .elf64 truncated 0 + size (phdr .elf64) ≤
      truncated.length := by decide +kernel
  obtain ⟨symbols, hrun⟩ := truncated_accepted.parsed hlen
  refine ⟨_, hrun, hnone, ?_⟩
  intro hcomplete
  exact hout (hcomplete.headers.phdrs 0 hphnum)

end Completeness

end Elf

end Nanoemu
