import Nanoemu.ElfFields

/-!
# The program header table of any file

Under overflow checks the reader stops at the first offset that does not fit in
64 bits; without them the offset wraps.  Either way the headers are read one
after the other, up to the first whose data is not in the file.
-/

namespace Nanoemu

open CheckedProgram RecordLayout ElfFormat

namespace Elf

section Reads

variable {b : Elf.Bytes} {n off base : ℕ}

theorem scalarLe_debug : scalarLe n b off .debug =
    if off + n < 2 ^ 64 then some (numberAt n b off) else none := by
  by_cases hfits : off + n < 2 ^ 64
  · rw [if_pos hfits, scalarLe_run hfits, Checked.pure_run]
  · have hstop : Checked.uadd 64 off n .debug = none := by
      rw [Checked.uadd_debug, if_neg hfits]
    unfold scalarLe
    rw [if_neg hfits, Checked.bind_of_none hstop]

theorem readAt_debug : readAt (scalarLe n) b base off .debug =
    if base + off + n < 2 ^ 64 then some (numberAt n b (base + off))
    else none := by
  unfold readAt
  by_cases hbase : base + off < 2 ^ 64
  · have hsum : Checked.uadd 64 base off .debug = some (base + off) := by
      rw [Checked.uadd_debug, if_pos hbase]
    rw [Checked.bind_of_some hsum, scalarLe_debug]
  · have hsum : Checked.uadd 64 base off .debug = none := by
      rw [Checked.uadd_debug, if_neg hbase]
    rw [Checked.bind_of_none hsum, if_neg (by omega)]

theorem entryAt_debug (table entsize i : ℕ) : entryAt table entsize i .debug =
    if table + i * entsize < 2 ^ 64 then some (table + i * entsize)
    else none := by
  unfold entryAt
  by_cases hskip : i * entsize < 2 ^ 64
  · have hmul : Checked.umul 64 i entsize .debug = some (i * entsize) := by
      rw [Checked.umul_debug, if_pos hskip]
    rw [Checked.bind_of_some hmul]
    rfl
  · have hmul : Checked.umul 64 i entsize .debug = none := by
      rw [Checked.umul_debug, if_neg hskip]
    rw [Checked.bind_of_none hmul, if_neg (by omega)]

theorem entryAt_release (table entsize i : ℕ) :
    entryAt table entsize i .release =
      some ((table + i * entsize) % 2 ^ 64) := by
  have hmul : Checked.umul 64 i entsize .release =
      some (i * entsize % 2 ^ 64) := Checked.unsigned_release _ _
  unfold entryAt
  rw [Checked.bind_of_some hmul]
  unfold Checked.uadd
  rw [Checked.unsigned_release, Nat.add_mod_mod]

theorem scalarLe_release (hlen : b.length < 2 ^ 63) (hoff : off < 2 ^ 64)
    (hn : n ≤ 8) : scalarLe n b off .release = some (numberAt n b off) := by
  by_cases hfits : off + n < 2 ^ 64
  · rw [scalarLe_run hfits, Checked.pure_run]
  · have hstop : Checked.uadd 64 off n .release =
        some ((off + n) % 2 ^ 64) := Checked.unsigned_release _ _
    have hwrapped : (off + n) % 2 ^ 64 = off + n - 2 ^ 64 := by omega
    unfold scalarLe
    rw [Checked.bind_of_some hstop, hwrapped, get_outside (by omega),
      numberAt_outside (by omega)]
    rfl

/-- The bytes from `x` to the sum of two offsets; a sum that wraps lies before
its start. -/
theorem get_stop {profile : Profile} {x y : ℕ} (hlen : b.length < 2 ^ 63)
    (hx : x < 2 ^ 64) (hy : y < 2 ^ 64)
    (hgo : profile = .debug → x + y < 2 ^ 64) :
    ∃ stop, Checked.uadd 64 x y profile = some stop ∧ get b x stop =
      if x + y ≤ b.length then some (slice b x y) else none := by
  by_cases hfits : x + y < 2 ^ 64
  · refine ⟨x + y, ?_, ?_⟩
    · rw [Checked.uadd_eq_pure hfits, Checked.pure_run]
    · by_cases hin : x + y ≤ b.length
      · rw [if_pos hin, get_slice hin]
      · rw [if_neg hin, get_outside (by omega)]
  · cases profile with
    | debug => exact absurd (hgo rfl) hfits
    | release =>
        refine ⟨(x + y) % 2 ^ 64, Checked.unsigned_release _ _, ?_⟩
        have hwrapped : (x + y) % 2 ^ 64 = x + y - 2 ^ 64 := by omega
        rw [if_neg (by omega), get_outside (by omega)]

end Reads

section Phdrs

variable (cls : FileClass) (b : Elf.Bytes) (i : ℕ)

def phdrDeclared : ℕ :=
  ehdrFound cls b .phoff + i * ehdrFound cls b .phentsize

def phdrAt : ℕ :=
  phdrDeclared cls b i % 2 ^ 64

def phdrFound (f : PhdrField) : ℕ :=
  found (phdr cls) b (phdrAt cls b i) f

/-- The data of a header that is to be loaded lies in the file. -/
def DataInside : Prop :=
  phdrFound cls b i .type = PT_LOAD →
    phdrFound cls b i .offset + phdrFound cls b i .filesz ≤ b.length

/-- No offset that is formed for a header leaves its type. -/
structure PhdrFits : Prop where
  type : phdrDeclared cls b i + 4 < 2 ^ 64
  data : phdrFound cls b i .type = PT_LOAD →
    phdrFound cls b i .offset + phdrFound cls b i .filesz < 2 ^ 64

def segmentFound : Segment :=
  { addr := BitVec.ofNat 64 (phdrFound cls b i .paddr)
    data := slice b (phdrFound cls b i .offset) (phdrFound cls b i .filesz)
    zeroLen := BitVec.ofNat 64
      (phdrFound cls b i .memsz - phdrFound cls b i .filesz) }

def phdrEntry : Parser (Option Segment) := do
  let ph ← Program.check
    (entryAt (ehdrFound cls b .phoff) (ehdrFound cls b .phentsize) i)
  segmentAt cls.is64 b ph

variable {cls b i} {profile : Profile}

theorem phdrFound_lt (cls : FileClass) (b : Elf.Bytes) (i : ℕ)
    (f : PhdrField) : phdrFound cls b i f < 2 ^ 64 := by
  have hlt := found_lt (phdr cls) b (phdrAt cls b i) f
  have hwidth : 256 ^ RecordLayout.width (phdr cls) f ≤ 2 ^ 64 := by
    cases cls <;> cases f <;> decide
  exact hlt.trans_le hwidth

theorem phdrAt_lt : phdrAt cls b i < 2 ^ 64 :=
  Nat.mod_lt _ (by decide)

theorem phdrAt_of_lt (h : phdrDeclared cls b i < 2 ^ 64) :
    phdrAt cls b i = phdrDeclared cls b i :=
  Nat.mod_eq_of_lt h

theorem phdrEntry_run
    (hgo : profile = .debug → phdrDeclared cls b i < 2 ^ 64) :
    phdrEntry cls b i profile () =
      segmentAt cls.is64 b (phdrAt cls b i) profile () := by
  have hentry : entryAt (ehdrFound cls b .phoff) (ehdrFound cls b .phentsize)
      i profile = some (phdrAt cls b i) := by
    cases profile with
    | debug =>
        have hfits := hgo rfl
        rw [entryAt_debug, phdrAt_of_lt hfits]
        exact if_pos hfits
    | release => exact entryAt_release _ _ _
  unfold phdrEntry
  rw [Program.bind_run_ok (Program.check_run_some hentry ())]

variable (hlen : b.length < 2 ^ 63)

include hlen

theorem phdrType_run
    (hgo : profile = .debug → phdrDeclared cls b i + 4 < 2 ^ 64) :
    u32le b (phdrAt cls b i) profile = some (phdrFound cls b i .type) := by
  have hfound : phdrFound cls b i .type = numberAt 4 b (phdrAt cls b i) := by
    cases cls <;> rfl
  unfold u32le
  cases profile with
  | debug =>
      have hfits := hgo rfl
      rw [scalarLe_debug, phdrAt_of_lt (by omega), if_pos hfits, hfound,
        phdrAt_of_lt (by omega)]
  | release =>
      rw [scalarLe_release hlen phdrAt_lt (by decide), hfound]

/-- A header that is loaded has its type in the file, and the rest of it can
be addressed. -/
theorem phdr_addressable (hload : phdrFound cls b i .type = PT_LOAD) :
    phdrAt cls b i + size (phdr cls) < 2 ^ 64 := by
  have hfound : phdrFound cls b i .type = numberAt 4 b (phdrAt cls b i) := by
    cases cls <;> rfl
  have hinside : phdrAt cls b i + 4 ≤ b.length := by
    apply inside_of_numberAt
    rw [← hfound, hload]
    decide
  have hsize := phdr_size_le cls
  omega

theorem phdrFields_run (hload : phdrFound cls b i .type = PT_LOAD) :
    segmentFields cls.is64 b (phdrAt cls b i) =
      pure (phdrFound cls b i .offset, phdrFound cls b i .paddr,
        phdrFound cls b i .filesz, phdrFound cls b i .memsz) :=
  segmentFields_found (phdr_addressable hlen hload)

theorem segmentAt_skipped (hgo : profile = .debug → PhdrFits cls b i)
    (hskip : phdrFound cls b i .type ≠ PT_LOAD) :
    segmentAt cls.is64 b (phdrAt cls b i) profile () = some (.ok none, ()) := by
  have htype := phdrType_run hlen fun h => (hgo h).type
  unfold segmentAt
  rw [Program.bind_run_ok (Program.check_run_some htype ()), if_pos hskip,
    Program.pure_run]

theorem segmentAt_loaded (hgo : profile = .debug → PhdrFits cls b i)
    (hload : phdrFound cls b i .type = PT_LOAD) :
    segmentAt cls.is64 b (phdrAt cls b i) profile () =
      if phdrFound cls b i .offset + phdrFound cls b i .filesz ≤ b.length then
        some (.ok (some (segmentFound cls b i)), ())
      else some (.error .tooShort, ()) := by
  have htype := phdrType_run hlen fun h => (hgo h).type
  unfold segmentAt
  rw [Program.bind_run_ok (Program.check_run_some htype ()),
    if_neg (not_not.mpr hload), phdrFields_run hlen hload, Program.check_pure,
    pure_bind]
  dsimp only
  obtain ⟨stop, hstop, hget⟩ := get_stop hlen (phdrFound_lt cls b i .offset)
    (phdrFound_lt cls b i .filesz) fun h => (hgo h).data hload
  rw [Program.bind_run_ok (Program.check_run_some hstop ()), hget]
  by_cases hin : phdrFound cls b i .offset + phdrFound cls b i .filesz ≤
      b.length
  · rw [if_pos hin, if_pos hin]
    rfl
  · rw [if_neg hin, if_neg hin]
    rfl

theorem phdrEntry_inside (hgo : profile = .debug → PhdrFits cls b i)
    (hin : DataInside cls b i) :
    phdrEntry cls b i profile () = some (.ok
      (if phdrFound cls b i .type = PT_LOAD then some (segmentFound cls b i)
        else none), ()) := by
  rw [phdrEntry_run fun h => (Nat.le_add_right _ 4).trans_lt (hgo h).type]
  by_cases hload : phdrFound cls b i .type = PT_LOAD
  · rw [segmentAt_loaded hlen hgo hload, if_pos (hin hload), if_pos hload]
  · rw [segmentAt_skipped hlen hgo hload, if_neg hload]

theorem phdrEntry_outside (hgo : profile = .debug → PhdrFits cls b i)
    (hout : ¬ DataInside cls b i) :
    phdrEntry cls b i profile () = some (.error .tooShort, ()) := by
  obtain ⟨hload, hshort⟩ := Classical.not_imp.mp hout
  rw [phdrEntry_run fun h => (Nat.le_add_right _ 4).trans_lt (hgo h).type,
    segmentAt_loaded hlen hgo hload, if_neg hshort]

theorem phdrEntry_panics (h : ¬ PhdrFits cls b i) :
    phdrEntry cls b i .debug () = none := by
  by_cases hdeclared : phdrDeclared cls b i < 2 ^ 64
  · rw [phdrEntry_run fun _ => hdeclared]
    unfold segmentAt
    by_cases htype : phdrDeclared cls b i + 4 < 2 ^ 64
    · have hread := @phdrType_run cls b i .debug hlen fun _ => htype
      have hdata : ¬ (phdrFound cls b i .type = PT_LOAD →
          phdrFound cls b i .offset + phdrFound cls b i .filesz < 2 ^ 64) :=
        fun hdata => h ⟨htype, hdata⟩
      obtain ⟨hload, hwraps⟩ := Classical.not_imp.mp hdata
      have hstop : Checked.uadd 64 (phdrFound cls b i .offset)
          (phdrFound cls b i .filesz) .debug = none := if_neg hwraps
      rw [Program.bind_run_ok (Program.check_run_some hread ()),
        if_neg (not_not.mpr hload), phdrFields_run hlen hload,
        Program.check_pure, pure_bind]
      dsimp only
      exact Program.bind_run_none (Program.check_run_none hstop ())
    · have hread : u32le b (phdrAt cls b i) .debug = none := by
        unfold u32le
        rw [scalarLe_debug, phdrAt_of_lt hdeclared, if_neg htype]
      rw [Program.bind_run_none (Program.check_run_none hread ())]
  · have hentry : entryAt (ehdrFound cls b .phoff)
        (ehdrFound cls b .phentsize) i .debug = none := by
      rw [entryAt_debug]
      exact if_neg hdeclared
    unfold phdrEntry
    rw [Program.bind_run_none (Program.check_run_none hentry ())]

end Phdrs

/-! ## The program header table -/

section Segments

variable {cls : FileClass} {b : Elf.Bytes} {profile : Profile}

/-- The headers from `i` on, up to the first whose data is missing, fit. -/
def PhdrsFit (cls : FileClass) (b : Elf.Bytes) (remaining i : ℕ) : Prop :=
  ∀ k, i ≤ k → k < i + remaining →
    (∀ j, i ≤ j → j < k → DataInside cls b j) → PhdrFits cls b k

def AllInside (cls : FileClass) (b : Elf.Bytes) (remaining i : ℕ) : Prop :=
  ∀ k, i ≤ k → k < i + remaining → DataInside cls b k

theorem phdrsFit_succ {remaining i : ℕ} :
    PhdrsFit cls b (remaining + 1) i ↔ PhdrFits cls b i ∧
      (DataInside cls b i → PhdrsFit cls b remaining (i + 1)) := by
  constructor
  · intro h
    constructor
    · exact h i le_rfl (by omega) fun j hle hlt => by omega
    · intro hin k hle hlt hbefore
      apply h k (by omega) (by omega)
      intro j hj hjk
      rcases Nat.eq_or_lt_of_le hj with rfl | hlater
      · exact hin
      · exact hbefore j hlater hjk
  · rintro ⟨hfirst, hrest⟩ k hle hlt hbefore
    rcases Nat.eq_or_lt_of_le hle with rfl | hlater
    · exact hfirst
    · exact hrest (hbefore i le_rfl hlater) k hlater (by omega)
        fun j hj hjk => hbefore j (by omega) hjk

theorem allInside_succ {remaining i : ℕ} :
    AllInside cls b (remaining + 1) i ↔
      DataInside cls b i ∧ AllInside cls b remaining (i + 1) := by
  constructor
  · intro h
    exact ⟨h i le_rfl (by omega), fun k hle hlt => h k (by omega) (by omega)⟩
  · rintro ⟨hfirst, hrest⟩ k hle hlt
    rcases Nat.eq_or_lt_of_le hle with rfl | hlater
    · exact hfirst
    · exact hrest k hlater (by omega)

def segmentsFound (cls : FileClass) (b : Elf.Bytes) (remaining i : ℕ) :
    List Segment :=
  ((List.range' i remaining).filter fun k =>
    phdrFound cls b k .type = PT_LOAD).map (segmentFound cls b)

theorem segmentsFound_succ (remaining i : ℕ) :
    segmentsFound cls b (remaining + 1) i =
      (if phdrFound cls b i .type = PT_LOAD then some (segmentFound cls b i)
        else none).toList ++ segmentsFound cls b remaining (i + 1) := by
  unfold segmentsFound
  rw [List.range'_succ]
  by_cases hload : phdrFound cls b i .type = PT_LOAD
  · simp [hload]
  · simp [hload]

def phdrsFrom (cls : FileClass) (b : Elf.Bytes) (remaining i : ℕ) :
    Parser (List Segment) :=
  parseSegments cls.is64 b (ehdrFound cls b .phoff) (ehdrFound cls b .phentsize)
    remaining i

theorem phdrsFrom_succ (remaining i : ℕ) :
    phdrsFrom cls b (remaining + 1) i = (phdrEntry cls b i >>= fun seg =>
      phdrsFrom cls b remaining (i + 1) >>= fun rest =>
        pure (seg.toList ++ rest)) := by
  unfold phdrsFrom phdrEntry
  rw [bind_assoc]
  rfl

variable (hlen : b.length < 2 ^ 63)

include hlen

theorem phdrsFrom_inside (remaining i : ℕ)
    (hgo : profile = .debug → PhdrsFit cls b remaining i)
    (hin : AllInside cls b remaining i) :
    phdrsFrom cls b remaining i profile () =
      some (.ok (segmentsFound cls b remaining i), ()) := by
  induction remaining generalizing i with
  | zero => rfl
  | succ remaining ih =>
      obtain ⟨hfirst, hrest⟩ := allInside_succ.mp hin
      have hentry := phdrEntry_inside hlen
        (fun h => (phdrsFit_succ.mp (hgo h)).1) hfirst
      have htail := ih (i + 1)
        (fun h => (phdrsFit_succ.mp (hgo h)).2 hfirst) hrest
      rw [phdrsFrom_succ, Program.bind_run_ok hentry,
        Program.bind_run_ok htail, Program.pure_run, segmentsFound_succ]

theorem phdrsFrom_outside (remaining i : ℕ)
    (hgo : profile = .debug → PhdrsFit cls b remaining i)
    (hout : ¬ AllInside cls b remaining i) :
    phdrsFrom cls b remaining i profile () = some (.error .tooShort, ()) := by
  induction remaining generalizing i with
  | zero => exact absurd (fun k hle hlt => by omega) hout
  | succ remaining ih =>
      rw [phdrsFrom_succ]
      by_cases hfirst : DataInside cls b i
      · have hentry := phdrEntry_inside hlen
          (fun h => (phdrsFit_succ.mp (hgo h)).1) hfirst
        have htail := ih (i + 1)
          (fun h => (phdrsFit_succ.mp (hgo h)).2 hfirst)
          fun hrest => hout (allInside_succ.mpr ⟨hfirst, hrest⟩)
        rw [Program.bind_run_ok hentry, Program.bind_run_error htail]
      · have hentry := phdrEntry_outside hlen
          (fun h => (phdrsFit_succ.mp (hgo h)).1) hfirst
        rw [Program.bind_run_error hentry]

theorem phdrsFrom_panics (remaining i : ℕ)
    (h : ¬ PhdrsFit cls b remaining i) :
    phdrsFrom cls b remaining i .debug () = none := by
  induction remaining generalizing i with
  | zero => exact absurd (fun k hle hlt => by omega) h
  | succ remaining ih =>
      rw [phdrsFrom_succ]
      by_cases hfirst : PhdrFits cls b i
      · have hrest : ¬ (DataInside cls b i →
            PhdrsFit cls b remaining (i + 1)) :=
          fun hrest => h (phdrsFit_succ.mpr ⟨hfirst, hrest⟩)
        obtain ⟨hin, hpanics⟩ := Classical.not_imp.mp hrest
        rw [Program.bind_run_ok (phdrEntry_inside hlen (fun _ => hfirst) hin),
          Program.bind_run_none (ih (i + 1) hpanics)]
      · rw [Program.bind_run_none (phdrEntry_panics hlen hfirst)]

end Segments

end Elf

end Nanoemu
