import Nanoemu.ElfLoading
import Nanoemu.ElfTable

/-!
# Offsets that leave their type

Which offsets the reader forms depends on what it has read so far: after the
headers it comes to the sections, and to the symbols of those that are symbol
tables.  Under overflow checks it returns exactly if all these offsets fit.
-/

namespace Nanoemu

open CheckedProgram RecordLayout ElfFormat

namespace Elf

section Shdrs

variable (cls : FileClass) (b : Elf.Bytes) (i k : ℕ)

def shdrDeclared : ℕ :=
  ehdrFound cls b .shoff + i * ehdrFound cls b .shentsize

def shdrFound (f : ShdrField) : ℕ :=
  found (shdr cls) b (shdrDeclared cls b i) f

def symDeclared : ℕ :=
  shdrFound cls b i .offset + k * shdrFound cls b i .entsize

def symFound (f : SymField) : ℕ :=
  found (sym cls) b (symDeclared cls b i k) f

/-- No offset that is formed for a symbol leaves its type. -/
structure SymFits : Prop where
  value : symDeclared cls b i k + offset (sym cls) .value +
    RecordLayout.width (sym cls) .value < 2 ^ 64
  name : shdrFound cls b (shdrFound cls b i .link) .offset +
    symFound cls b i k .name < 2 ^ 64

/-- Nor one that is formed for a section. -/
structure ShdrFits : Prop where
  type : shdrDeclared cls b i + offset (shdr cls) .type +
    RecordLayout.width (shdr cls) .type < 2 ^ 64
  strings : shdrFound cls b i .type = SHT_SYMTAB →
    shdrDeclared cls b (shdrFound cls b i .link) + offset (shdr cls) .offset +
      RecordLayout.width (shdr cls) .offset < 2 ^ 64
  symbols : shdrFound cls b i .type = SHT_SYMTAB →
    shdrFound cls b i .entsize ≠ 0 →
      ∀ k, k * shdrFound cls b i .entsize < shdrFound cls b i .size →
        SymFits cls b i k

variable {cls b i k}

theorem symbolAt_returns (symbols : Symbols) :
    (symbolAt cls.is64 b (shdrFound cls b (shdrFound cls b i .link) .offset)
      (symDeclared cls b i k) symbols .debug).isSome ↔ SymFits cls b i k := by
  have hname : u32le b (symDeclared cls b i k) .debug =
      if symDeclared cls b i k + 4 < 2 ^ 64 then
        some (symFound cls b i k .name) else none := by
    unfold u32le
    rw [scalarLe_debug]
    cases cls <;> rfl
  have hvalue : symbolValue cls.is64 b (symDeclared cls b i k) .debug =
      if symDeclared cls b i k + offset (sym cls) .value +
          RecordLayout.width (sym cls) .value < 2 ^ 64 then
        some (symFound cls b i k .value) else none := by
    unfold symbolValue
    cases cls with
    | elf32 => exact readAt_debug
    | elf64 => exact readAt_debug
  have hwidth : 4 ≤ RecordLayout.width (sym cls) .value := by
    cases cls <;> decide
  unfold symbolAt
  rw [Checked.bind_guard hname, Checked.bind_guard (Checked.uadd_debug _ _ _),
    Checked.bind_guard hvalue]
  constructor
  · rintro ⟨-, hnameFits, hvalueFits, -⟩
    exact ⟨hvalueFits, hnameFits⟩
  · intro h
    have hvalueFits := h.value
    exact ⟨by omega, h.name, hvalueFits, rfl⟩

theorem parseSymbols_returns (remaining s : ℕ) (symbols : Symbols) :
    (parseSymbols cls.is64 b
      (shdrFound cls b (shdrFound cls b i .link) .offset)
      (shdrFound cls b i .offset) (shdrFound cls b i .entsize) remaining s
      symbols .debug).isSome ↔
        ∀ k, s ≤ k → k < s + remaining → SymFits cls b i k := by
  induction remaining generalizing s symbols with
  | zero =>
      constructor
      · intro _ k hle hlt
        omega
      · exact fun _ => rfl
  | succ remaining ih =>
      unfold parseSymbols
      rw [Checked.bind_guard (Checked.uadd_debug _ _ _),
        Checked.bind_isSome fun symbols => ih (s + 1) symbols]
      have hsymbol := @symbolAt_returns cls b i s symbols
      unfold symDeclared at hsymbol
      rw [hsymbol]
      constructor
      · rintro ⟨-, hfirst, hrest⟩ k hle hlt
        rcases Nat.eq_or_lt_of_le hle with rfl | hlater
        · exact hfirst
        · exact hrest k hlater (by omega)
      · intro h
        have hfirst := h s le_rfl (by omega)
        have hvalue := hfirst.value
        unfold symDeclared at hvalue
        exact ⟨by omega, hfirst, fun k hle hlt => h k (by omega) (by omega)⟩

theorem word_debug (cls : FileClass) (b : Elf.Bytes) (base off : ℕ) :
    word cls.is64 b off off base .debug =
      if base + off + cls.word < 2 ^ 64 then
        some (numberAt cls.word b (base + off)) else none := by
  unfold word
  cases cls with
  | elf32 => exact readAt_debug
  | elf64 => exact readAt_debug

/-- A section that is a symbol table has its type in the file, and the rest of
its header can be addressed. -/
theorem shdr_addressable (hlen : b.length < 2 ^ 63)
    (hsymtab : shdrFound cls b i .type = SHT_SYMTAB) :
    shdrDeclared cls b i + size (shdr cls) < 2 ^ 64 := by
  have hfound : shdrFound cls b i .type =
      numberAt 4 b (shdrDeclared cls b i + 4) := by
    cases cls <;> rfl
  have hinside : shdrDeclared cls b i + 4 + 4 ≤ b.length := by
    apply inside_of_numberAt
    rw [← hfound, hsymtab]
    decide
  have hsize : size (shdr cls) ≤ 64 := by cases cls <;> decide
  omega

theorem lt_recordCount_iff {size entsize : ℕ} (hentsize : entsize ≠ 0) :
    k < (size + entsize - 1) / entsize ↔ k * entsize < size := by
  have hpos := Nat.pos_of_ne_zero hentsize
  rw [Nat.lt_iff_add_one_le, Nat.le_div_iff_mul_le hpos, Nat.succ_mul]
  omega

theorem sectionAt_returns (hlen : b.length < 2 ^ 63) (symbols : Symbols) :
    (sectionAt cls.is64 b (ehdrFound cls b .shoff) (ehdrFound cls b .shentsize)
      (shdrDeclared cls b i) symbols .debug).isSome ↔ ShdrFits cls b i := by
  have hoffsets : sectionOffsets cls.is64 =
      (offset (shdr cls) .offset, offset (shdr cls) .size,
        offset (shdr cls) .link, offset (shdr cls) .entsize) := by
    cases cls <;> rfl
  have htype : readAt u32le b (shdrDeclared cls b i) 4 .debug =
      if shdrDeclared cls b i + offset (shdr cls) .type +
          RecordLayout.width (shdr cls) .type < 2 ^ 64 then
        some (shdrFound cls b i .type) else none := by
    unfold u32le
    cases cls with
    | elf32 => exact readAt_debug
    | elf64 => exact readAt_debug
  unfold sectionAt
  rw [hoffsets]
  dsimp only
  rw [Checked.bind_guard htype]
  by_cases hsymtab : shdrFound cls b i .type = SHT_SYMTAB
  · have hin := shdr_addressable hlen hsymtab
    have hread : ∀ f, RecordLayout.width (shdr cls) f = cls.word →
        word cls.is64 b (offset (shdr cls) f) (offset (shdr cls) f)
          (shdrDeclared cls b i) = pure (shdrFound cls b i f) :=
      fun f hwidth => word_found hin cls (ite_self _).symm hwidth
    have hlink : readAt u32le b (shdrDeclared cls b i)
        (offset (shdr cls) .link) = pure (shdrFound cls b i .link) :=
      readAt_found hin rfl (by cases cls <;> rfl)
    rw [if_neg (not_not.mpr hsymtab), hread .offset (by cases cls <;> rfl),
      pure_bind, hread .size (by cases cls <;> rfl), pure_bind,
      hread .entsize (by cases cls <;> rfl), pure_bind, hlink, pure_bind,
      Checked.bind_guard (entryAt_debug _ _ _),
      Checked.bind_guard (word_debug _ _ _ _)]
    have hword : RecordLayout.width (shdr cls) .offset = cls.word := by
      cases cls <;> rfl
    have hstrtab : numberAt cls.word b (ehdrFound cls b .shoff +
        shdrFound cls b i .link * ehdrFound cls b .shentsize +
          offset (shdr cls) .offset) =
        shdrFound cls b (shdrFound cls b i .link) .offset := by
      rw [← hword]
      rfl
    rw [hstrtab]
    have hstrings : shdrDeclared cls b (shdrFound cls b i .link) +
        offset (shdr cls) .offset + RecordLayout.width (shdr cls) .offset <
          2 ^ 64 ↔ ehdrFound cls b .shoff +
            shdrFound cls b i .link * ehdrFound cls b .shentsize < 2 ^ 64 ∧
          ehdrFound cls b .shoff +
            shdrFound cls b i .link * ehdrFound cls b .shentsize +
              offset (shdr cls) .offset + cls.word < 2 ^ 64 := by
      rw [hword]
      unfold shdrDeclared
      omega
    by_cases hentsize : shdrFound cls b i .entsize = 0
    · rw [if_pos hentsize]
      constructor
      · rintro ⟨htypeFits, hentry, hstring, -⟩
        exact ⟨htypeFits, fun _ => hstrings.mpr ⟨hentry, hstring⟩,
          fun _ h => absurd hentsize h⟩
      · intro h
        obtain ⟨hentry, hstring⟩ := hstrings.mp (h.strings hsymtab)
        exact ⟨h.type, hentry, hstring, rfl⟩
    · rw [if_neg hentsize, parseSymbols_returns]
      constructor
      · rintro ⟨htypeFits, hentry, hstring, hsymbols⟩
        constructor
        case type => exact htypeFits
        case strings => exact fun _ => hstrings.mpr ⟨hentry, hstring⟩
        case symbols =>
          intro _ _ k hk
          apply hsymbols k (Nat.zero_le k)
          rw [Nat.zero_add]
          exact (lt_recordCount_iff hentsize).mpr hk
      · intro h
        obtain ⟨hentry, hstring⟩ := hstrings.mp (h.strings hsymtab)
        refine ⟨h.type, hentry, hstring, ?_⟩
        intro k _ hk
        rw [Nat.zero_add] at hk
        exact h.symbols hsymtab hentsize k
          ((lt_recordCount_iff hentsize).mp hk)
  · rw [if_pos hsymtab]
    constructor
    · rintro ⟨hfits, -⟩
      exact ⟨hfits, fun h => absurd h hsymtab, fun h => absurd h hsymtab⟩
    · intro h
      exact ⟨h.type, rfl⟩

theorem parseSections_returns (hlen : b.length < 2 ^ 63) (remaining i : ℕ)
    (symbols : Symbols) :
    (parseSections cls.is64 b (ehdrFound cls b .shoff)
      (ehdrFound cls b .shentsize) remaining i symbols .debug).isSome ↔
        ∀ k, i ≤ k → k < i + remaining → ShdrFits cls b k := by
  induction remaining generalizing i symbols with
  | zero =>
      constructor
      · intro _ k hle hlt
        omega
      · exact fun _ => rfl
  | succ remaining ih =>
      unfold parseSections
      rw [Checked.bind_guard (entryAt_debug _ _ _),
        Checked.bind_isSome fun symbols => ih (i + 1) symbols]
      have hsection := @sectionAt_returns cls b i hlen symbols
      unfold shdrDeclared at hsection
      rw [hsection]
      constructor
      · rintro ⟨-, hfirst, hrest⟩ k hle hlt
        rcases Nat.eq_or_lt_of_le hle with rfl | hlater
        · exact hfirst
        · exact hrest k hlater (by omega)
      · intro h
        have hfirst := h i le_rfl (by omega)
        have htype := hfirst.type
        unfold shdrDeclared at htype
        exact ⟨by omega, hfirst, fun k hle hlt => h k (by omega) (by omega)⟩

end Shdrs

/-! ## The whole file -/

section File

variable {cls : FileClass} {b : Elf.Bytes} {profile : Profile}

/-- No offset that is formed for a file leaves its type: the headers fit up to
the first whose data is missing, and if there is none, so do the sections. -/
structure OffsetsFit (cls : FileClass) (b : Elf.Bytes) : Prop where
  phdrs : PhdrsFit cls b (ehdrFound cls b .phnum) 0
  shdrs : AllInside cls b (ehdrFound cls b .phnum) 0 →
    ∀ i < ehdrFound cls b .shnum, ShdrFits cls b i

theorem byteAt_run {i : ℕ} (hi : i < b.length) : byteAt b i = pure b[i] := by
  unfold byteAt
  rw [List.getElem?_eq_getElem hi]

theorem rejects_unless {α : Type} {p : Prop} [Decidable p] {e : ElfError}
    {prog : Parser α}
    (h : ¬ p → ∃ error, prog profile () = some (.error error, ())) :
    ∃ error, (if p then Program.fail e else prog) profile () =
      some (.error error, ()) := by
  by_cases hp : p
  · rw [if_pos hp]
    exact ⟨e, rfl⟩
  · rw [if_neg hp]
    exact h hp

theorem parseClass_fails (hlength : 52 ≤ b.length)
    (h : ∀ cls : FileClass, b[4]? ≠ some cls.code) :
    parseClass b = Program.fail .badClass := by
  have hbyte := byteAt_run (show 4 < b.length by omega)
  have hother : ∀ cls : FileClass, b[4] ≠ cls.code := by
    intro cls heq
    apply h cls
    rw [← heq, List.getElem?_eq_getElem]
  unfold parseClass
  rw [hbyte, Program.check_pure, pure_bind]
  exact (if_neg (hother .elf32)).trans (if_neg (hother .elf64))

theorem parse_rejects (h : ∀ cls, ¬ Identified cls b) :
    ∃ error, parse b profile () = some (.error error, ()) := by
  unfold parse
  apply rejects_unless
  intro hlength
  apply rejects_unless
  intro hmagic
  by_cases hclass : ∃ cls : FileClass, b[4]? = some cls.code
  · obtain ⟨cls, hclass⟩ := hclass
    rw [parseClass_run hclass, pure_bind,
      byteAt_run (show 5 < b.length by omega), Program.check_pure, pure_bind]
    apply rejects_unless
    intro hone
    rw [ehdr_machine cls, Program.check_pure, pure_bind]
    apply rejects_unless
    intro hmachine
    rw [ehdr_type cls, Program.check_pure, pure_bind]
    apply rejects_unless
    intro htype
    have hidentified : Identified cls b := by
      constructor
      case length => omega
      case magic => exact not_not.mp hmagic
      case classByte => exact hclass
      case dataByte => rw [← not_not.mp hone, List.getElem?_eq_getElem]
      case machine => exact not_not.mp hmachine
      case type => exact not_not.mp htype
    exact absurd hidentified (h cls)
  · rw [parseClass_fails (by omega) (not_exists.mp hclass)]
    exact ⟨_, rfl⟩

theorem parse_phdrs (h : Identified cls b) :
    parse b = (phdrsFrom cls b (ehdrFound cls b .phnum) 0 >>= fun segments =>
      Program.check (parseSections cls.is64 b (ehdrFound cls b .shoff)
        (ehdrFound cls b .shentsize) (ehdrFound cls b .shnum) 0 fun _ => none)
          >>= fun symbols => pure
            { segments := segments
              entry := BitVec.ofNat 64 (ehdrFound cls b .entry)
              symbols := symbols
              is64 := cls.is64 }) := by
  rw [parse_identified h, parseTables_found]
  rfl

theorem parse_identified_returns (hlen : b.length < 2 ^ 63)
    (h : Identified cls b) :
    (parse b .debug ()).isSome ↔ OffsetsFit cls b := by
  rw [parse_phdrs h]
  by_cases hphdrs : PhdrsFit cls b (ehdrFound cls b .phnum) 0
  · by_cases hin : AllInside cls b (ehdrFound cls b .phnum) 0
    · have hsections := @parseSections_returns cls b hlen
        (ehdrFound cls b .shnum) 0 fun _ => none
      rw [Program.bind_run_ok (phdrsFrom_inside hlen _ 0 (fun _ => hphdrs) hin),
        Program.check_isSome, hsections]
      constructor
      · intro hshdrs
        exact ⟨hphdrs, fun _ i hi => hshdrs i (Nat.zero_le i) (by omega)⟩
      · intro hfits i _ hi
        exact hfits.shdrs hin i (by omega)
    · rw [Program.bind_run_error
        (phdrsFrom_outside hlen _ 0 (fun _ => hphdrs) hin)]
      exact iff_of_true rfl ⟨hphdrs, fun hall => absurd hall hin⟩
  · rw [Program.bind_run_none (phdrsFrom_panics hlen _ 0 hphdrs)]
    exact iff_of_false (by simp) fun hfits => hphdrs hfits.phdrs

/-- Under overflow checks the reader returns, with a value or an error, unless
an offset that it forms leaves its type. -/
theorem parse_returns_iff (hlen : b.length < 2 ^ 63) :
    (parse b .debug ()).isSome ↔ ∀ cls, Identified cls b → OffsetsFit cls b := by
  by_cases h : ∃ cls, Identified cls b
  · obtain ⟨cls, hcls⟩ := h
    constructor
    · intro hreturns cls' hcls'
      exact (parse_identified_returns hlen hcls').mp hreturns
    · intro hfits
      exact (parse_identified_returns hlen hcls).mpr (hfits cls hcls)
  · rw [not_exists] at h
    obtain ⟨error, hrun⟩ := @parse_rejects b .debug h
    rw [hrun]
    exact iff_of_true rfl fun cls hcls => absurd hcls (h cls)

theorem executable_offsetsFit : OffsetsFit .elf32 executable := by
  have hreturns : (parse executable .debug ()).isSome := by
    rw [parse_run executable_wellFormed]
    rfl
  exact (parse_returns_iff executable_wellFormed.length).mp hreturns .elf32
    (identified executable_wellFormed)

/-- A header whose only program header is said to lie at the last address. -/
def overflowing : Elf.Bytes :=
  pack [(16, 0x010102464c457f), (2, 2), (2, 243), (4, 1), (8, 0x80000000),
    (8, 2 ^ 64 - 1), (8, 0), (4, 0), (2, 64), (2, 56), (2, 1), (2, 64), (2, 0),
    (2, 0)]

theorem parse_panics : ¬ ∀ b : Elf.Bytes, b.length < 2 ^ 63 →
    (parse b .debug ()).isSome := by
  intro h
  have hreturns := h overflowing (by decide)
  revert hreturns
  decide +kernel

end File

end Elf

end Nanoemu
