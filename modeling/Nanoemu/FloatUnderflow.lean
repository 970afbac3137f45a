import Nanoemu.FloatQuotient

/-!
# Tininess

The underflow flag goes with a rounded result below the least normal number.
Whether a value is tiny is told by another rounding, in which the exponent has
no lower bound: just below the least normal number its last place weighs half
as much.  The two disagree in a narrow band, where the value is tiny and the
flag stays clear.
-/

namespace Nanoemu

open CheckedProgram GridRounding

namespace Fpu

/-- The magnitude stays below the least normal one when it is rounded as if
the exponent had no lower bound. -/
def Tiny (f : Fmt) (rm : Rm) (sign : Bool) (x : ℚ) : Prop :=
  ∃ y, Rounds (unboundedGrid ℚ (f.sig + 1)) (EvenFullSignificand (f.sig + 1))
    (rm.direction sign) x y ∧ y < f.leastNormal

/-- An exact value that is not zero, tiny, and not a value of the format. -/
def IsUnderflow (f : Fmt) (rm : Rm) (x : ℚ) : Prop :=
  x ≠ 0 ∧ (¬ ∃ bits, datum f bits = .finite |x|) ∧
    Tiny f rm (decide (x < 0)) |x|

/-- The band in which a tiny magnitude rounds to the least normal one: the
last place weighs `unit` there, and half of it with one more place. -/
def RoundsOutOfTiny (f : Fmt) (direction : Direction) (x : ℚ) : Prop :=
  let unit : ℚ := 2 ^ f.minE
  match direction with
  | .down => False
  | .up => f.leastNormal - unit < x ∧ x ≤ f.leastNormal - unit / 2
  | .nearestEven | .nearestAway =>
      f.leastNormal - unit / 2 ≤ x ∧ x < f.leastNormal - unit / 4

section Neighbours

variable (f : Fmt)

theorem Fmt.leastNormal_adjacent (hsig : 2 ≤ f.sig) :
    Adjacent f.grid (f.leastNormal - 2 ^ f.minE) f.leastNormal ∧
      ¬ f.IsEven (f.leastNormal - 2 ^ f.minE) := by
  have hpos : 0 < 2 ^ f.sig := Nat.two_pow_pos _
  have hnormal : Normal (f.sig + 1) f.minE (2 ^ f.sig - 1) f.minE := by
    refine ⟨?_, le_rfl, Or.inr rfl⟩
    rw [pow_succ]
    omega
  have hlow : ((2 ^ f.sig - 1 : ℕ) * 2 ^ f.minE : ℚ) =
      f.leastNormal - 2 ^ f.minE := by
    unfold Fmt.leastNormal
    rw [Nat.cast_sub hpos]
    push_cast
    ring
  have hhigh : ((2 ^ f.sig - 1 + 1 : ℕ) * 2 ^ f.minE : ℚ) = f.leastNormal := by
    unfold Fmt.leastNormal
    rw [Nat.sub_add_cancel hpos]
    push_cast
    rfl
  have hadjacent := hnormal.adjacent (α := ℚ) (by omega)
  have hodd := hnormal.even_iff (α := ℚ)
  rw [hlow] at hadjacent hodd
  rw [hhigh] at hadjacent
  refine ⟨hadjacent, ?_⟩
  unfold Fmt.IsEven
  rw [hodd, Nat.not_even_iff_odd]
  exact Nat.Even.sub_odd hpos (Nat.even_pow.mpr ⟨even_two, by omega⟩) odd_one

/-- With one more place there is a value halfway. -/
theorem Fmt.leastNormal_adjacent_unbounded (hsig : 2 ≤ f.sig) :
    Adjacent (unboundedGrid ℚ (f.sig + 1)) (f.leastNormal - 2 ^ f.minE / 2)
        f.leastNormal ∧
      ¬ EvenFullSignificand (f.sig + 1) (f.leastNormal - 2 ^ f.minE / 2) := by
  have hpos : 0 < 2 ^ (f.sig + 1) := Nat.two_pow_pos _
  have hunit : (2 : ℚ) ^ f.minE = 2 ^ (f.minE - 1) * 2 := by
    rw [← zpow_add_one₀ two_ne_zero, sub_add_cancel]
  have hlow : ((2 ^ (f.sig + 1) - 1 : ℕ) * 2 ^ (f.minE - 1) : ℚ) =
      f.leastNormal - 2 ^ f.minE / 2 := by
    unfold Fmt.leastNormal
    rw [Nat.cast_sub hpos, hunit]
    push_cast
    ring
  have hhigh : ((2 ^ (f.sig + 1) - 1 + 1 : ℕ) * 2 ^ (f.minE - 1) : ℚ) =
      f.leastNormal := by
    unfold Fmt.leastNormal
    rw [Nat.sub_add_cancel hpos, hunit]
    push_cast
    ring
  have hfull : 2 ^ (f.sig + 1 - 1) ≤ 2 ^ (f.sig + 1) - 1 := by
    rw [Nat.add_sub_cancel, pow_succ]
    have := Nat.two_pow_pos f.sig
    omega
  have hlt : 2 ^ (f.sig + 1) - 1 < 2 ^ (f.sig + 1) := by omega
  have hadjacent :=
    full_adjacent (α := ℚ) (e := f.minE - 1) hfull hlt (by omega)
  have hodd := full_even_iff (α := ℚ) (e := f.minE - 1) hfull hlt
  rw [hlow] at hadjacent hodd
  rw [hhigh] at hadjacent
  refine ⟨hadjacent, ?_⟩
  rw [hodd, Nat.not_even_iff_odd]
  exact Nat.Even.sub_odd hpos (Nat.even_pow.mpr ⟨even_two, by omega⟩) odd_one

theorem tiny_iff (hsig : 2 ≤ f.sig) (rm : Rm) (sign : Bool) {x : ℚ}
    (hx : 0 < x) :
    Tiny f rm sign x ↔
      StaysBelow (rm.direction sign) (f.leastNormal - 2 ^ f.minE / 2)
        f.leastNormal x := by
  obtain ⟨hadjacent, hodd⟩ := f.leastNormal_adjacent_unbounded hsig
  constructor
  · rintro ⟨y, hrounds, hless⟩
    exact (hrounds.lt_high_iff hadjacent hodd).mp hless
  · intro hbelow
    obtain ⟨y, hrounds⟩ := exists_rounds_unbounded (p := f.sig + 1) (by omega)
      hx (rm.direction sign)
    exact ⟨y, hrounds, (hrounds.lt_high_iff hadjacent hodd).mpr hbelow⟩

/-- The band is what the additional place lets stay below. -/
theorem roundsOutOfTiny_iff (direction : Direction) (x : ℚ) :
    RoundsOutOfTiny f direction x ↔
      StaysBelow direction (f.leastNormal - 2 ^ f.minE / 2) f.leastNormal x ∧
        ¬ StaysBelow direction (f.leastNormal - 2 ^ f.minE) f.leastNormal x := by
  unfold RoundsOutOfTiny StaysBelow
  cases direction with
  | down => simp
  | up => rw [not_le, and_comm]
  | nearestEven =>
      rw [not_lt]
      constructor <;> intro h <;> constructor <;> linarith [h.1, h.2]
  | nearestAway =>
      rw [not_lt]
      constructor <;> intro h <;> constructor <;> linarith [h.1, h.2]

theorem StaysBelow.lt {direction : Direction} {lo hi x : ℚ} (hlt : lo < hi)
    (h : StaysBelow direction lo hi x) : x < hi := by
  unfold StaysBelow at h
  cases direction with
  | down => exact h
  | up => exact lt_of_le_of_lt h hlt
  | nearestEven =>
      dsimp only at h
      linarith
  | nearestAway =>
      dsimp only at h
      linarith

end Neighbours

theorem Fmt.Standard.datum_of_small {f : Fmt} (hf : f.Standard) {x : ℚ}
    (hx : x ∈ f.grid) (hless : x < f.leastNormal) :
    ∃ bits, datum f bits = .finite x := by
  obtain ⟨k, e, -, he, rfl⟩ := hx
  obtain ⟨up, hup⟩ := Int.eq_ofNat_of_zero_le (sub_nonneg.mpr he)
  have hvalue : (k * 2 ^ e : ℚ) = (k * 2 ^ up : ℕ) * 2 ^ f.minE := by
    rw [show e = up + f.minE by omega, zpow_add₀ two_ne_zero, zpow_natCast]
    push_cast
    ring
  rw [hvalue] at hless ⊢
  have hfrac : k * 2 ^ up < 2 ^ f.sig := by
    unfold Fmt.leastNormal at hless
    rw [mul_lt_mul_iff_left₀ (zpow_pos two_pos f.minE)] at hless
    exact_mod_cast hless
  have hfield : f.fieldOf (k * 2 ^ up) = 0 := by
    unfold Fmt.fieldOf
    rw [Nat.div_eq_of_lt hfrac, Nat.zero_mod]
  have hmax : 0 ≠ f.maxField := by
    have := hf.field
    omega
  refine ⟨k * 2 ^ up, ?_⟩
  unfold datum Fmt.value Fmt.fracOf
  rw [hfield, if_neg hmax, if_pos rfl, Nat.mod_eq_of_lt hfrac]

section Flag

variable {f : Fmt} (hf : f.Standard) (rm : Rm)

include hf in
/-- A flag that tells of the rounded result tells of tininess outside the
band, and only there. -/
theorem underflowsAt_iff {sign : Bool} {x : ℚ} (hx : 0 < x) {flags : ℕ}
    (h : UnderflowsAt f rm sign x flags) :
    (underflows flags = true ↔
        (¬ ∃ bits, datum f bits = .finite x) ∧ Tiny f rm sign x) ↔
      ¬ RoundsOutOfTiny f (rm.direction sign) x := by
  obtain ⟨y, hrounds, hflag⟩ := h
  obtain ⟨hadjacent, hodd⟩ := f.leastNormal_adjacent hf.sig_low
  have hunit : (0 : ℚ) < 2 ^ f.minE := zpow_pos two_pos _
  have hless := hrounds.lt_high_iff hadjacent hodd
  have hmono : StaysBelow (rm.direction sign) (f.leastNormal - 2 ^ f.minE)
        f.leastNormal x →
      StaysBelow (rm.direction sign) (f.leastNormal - 2 ^ f.minE / 2)
        f.leastNormal x :=
    fun hbelow => hbelow.mono (by linarith)
  have hsmall : StaysBelow (rm.direction sign)
      (f.leastNormal - 2 ^ f.minE / 2) f.leastNormal x → x < f.leastNormal :=
    StaysBelow.lt (by linarith)
  have hexact : x < f.leastNormal →
      (y ≠ x ↔ ¬ ∃ bits, datum f bits = .finite x) := by
    intro hlt
    rw [ne_eq, not_iff_not]
    constructor
    · intro heq
      exact hf.datum_of_small (heq ▸ hrounds.mem) hlt
    · rintro ⟨bits, hdatum⟩
      exact hrounds.eq_of_mem (mem_of_datum hdatum).1
  rw [hflag, hless, tiny_iff f hf.sig_low rm sign hx, roundsOutOfTiny_iff]
  by_cases htiny : StaysBelow (rm.direction sign)
      (f.leastNormal - 2 ^ f.minE / 2) f.leastNormal x
  · rw [← hexact (hsmall htiny)]
    by_cases hbelow : StaysBelow (rm.direction sign)
        (f.leastNormal - 2 ^ f.minE) f.leastNormal x
    · simp [htiny, hbelow]
    · -- In the band the result is the least normal number, not the value.
      have hne : y ≠ x := by
        rintro rfl
        exact hbelow (hless.mp (hsmall htiny))
      simp [htiny, hbelow, hne]
  · have hbelow := mt hmono htiny
    simp [htiny, hbelow]

theorem underflowsAt_zero {sign : Bool} {flags : ℕ}
    (h : UnderflowsAt f rm sign 0 flags) :
    underflows flags = false ∧ ¬ RoundsOutOfTiny f (rm.direction sign) 0 := by
  obtain ⟨y, hrounds, hflag⟩ := h
  have hmem : (0 : ℚ) ∈ f.grid := by
    refine ⟨0, f.minE, Nat.two_pow_pos _, le_rfl, ?_⟩
    rw [Nat.cast_zero, zero_mul]
  have hunit : (0 : ℚ) < 2 ^ f.minE := zpow_pos two_pos _
  have hleast : (2 : ℚ) ^ f.minE ≤ f.leastNormal := by
    unfold Fmt.leastNormal
    exact le_mul_of_one_le_left hunit.le (one_le_pow₀ one_le_two)
  constructor
  · rw [← Bool.not_eq_true, hflag]
    exact fun hlost => hlost.1 (hrounds.eq_of_mem hmem)
  · unfold RoundsOutOfTiny
    cases rm.direction sign with
    | down => exact not_false
    | up => exact fun hband => absurd hband.1 (by linarith)
    | nearestEven => exact fun hband => absurd hband.1 (by linarith)
    | nearestAway => exact fun hband => absurd hband.1 (by linarith)

include hf in
theorem flagsUnderflow_iff {exact : Option ℚ} {flags : ℕ}
    (h : FlagsUnderflow f rm exact flags) :
    (underflows flags = true ↔ ∃ x ∈ exact, IsUnderflow f rm x) ↔
      ∀ x ∈ exact, ¬ RoundsOutOfTiny f (rm.direction (decide (x < 0))) |x| := by
  cases exact with
  | none =>
      have hclear : underflows flags = false := h
      simp [hclear]
  | some x =>
      have hat : UnderflowsAt f rm (decide (x < 0)) |x| flags := h
      simp only [Option.mem_some_iff, exists_eq_left', forall_eq']
      by_cases hzero : x = 0
      · subst hzero
        rw [abs_zero] at hat ⊢
        obtain ⟨hclear, hband⟩ := underflowsAt_zero rm hat
        simpa [hclear, IsUnderflow] using hband
      · unfold IsUnderflow
        simp only [ne_eq, hzero, not_false_eq_true, true_and]
        exact underflowsAt_iff hf rm (abs_pos.mpr hzero) hat

end Flag

/-! ## Operations -/

/-- The operations that round an exact value to the format, with their
operands. -/
inductive Operation where
  | add (a b : ℕ)
  | sub (a b : ℕ)
  | mul (a b : ℕ)
  | div (a b : ℕ)
  | fma (a b c : ℕ) (negateProduct negateAddend : Bool)
  | convert (source : {source : Fmt // source = S ∨ source = D}) (a : ℕ)
  | fromInt (sign : Bool) (magnitude : BitVec 64)

def Operation.run (op : Operation) (f : Fmt) (rm : Rm) : Checked (ℕ × ℕ) :=
  match op with
  | .add a b => Fpu.add f a b rm
  | .sub a b => Fpu.sub f a b rm
  | .mul a b => Fpu.mul f a b rm
  | .div a b => Fpu.div f a b rm
  | .fma a b c negateProduct negateAddend =>
      Fpu.fma f a b c negateProduct negateAddend rm
  | .convert source a => Fpu.convert source f a rm
  | .fromInt sign magnitude => Fpu.fromInt f sign magnitude.toNat rm

def Operation.exact (op : Operation) (f : Fmt) : Option ℚ :=
  match op with
  | .add a b => exactSum (f.signOf a) (datum f a) (f.signOf b) (datum f b)
  | .sub a b => exactSum (f.signOf a) (datum f a) (!f.signOf b) (datum f b)
  | .mul a b =>
      exactValue (f.signOf a != f.signOf b) ((datum f a).mul (datum f b))
  | .div a b =>
      exactQuotient (f.signOf a != f.signOf b) (datum f a) (datum f b)
  | .fma a b c negateProduct negateAddend =>
      exactFma ((f.signOf a != f.signOf b) != negateProduct) (datum f a)
        (datum f b) (f.signOf c != negateAddend) (datum f c)
  | .convert source a =>
      exactValue (source.val.signOf a) (some (datum source a))
  | .fromInt sign magnitude =>
      exactValue sign (some (.finite magnitude.toNat))

theorem Operation.flags {f : Fmt} (hf : f.Standard) (rm : Rm)
    (profile : Profile) (op : Operation) :
    ∃ result, op.run f rm profile = some result ∧
      FlagsUnderflow f rm (op.exact f) result.2 := by
  unfold Operation.run Operation.exact
  cases op with
  | add a b =>
      have hadd := addOrSub_spec hf rm profile a b false
      rw [Bool.bne_false] at hadd
      exact hadd.imp fun _ h => ⟨h.1, h.2.underflow⟩
  | sub a b =>
      have hsub := addOrSub_spec hf rm profile a b true
      rw [Bool.bne_true] at hsub
      exact hsub.imp fun _ h => ⟨h.1, h.2.underflow⟩
  | mul a b =>
      exact (mul_spec hf rm profile a b).imp
        fun _ h => ⟨h.1, h.2.underflow⟩
  | div a b =>
      exact (div_spec hf rm profile a b).imp
        fun _ h => ⟨h.1, h.2.underflow⟩
  | fma a b c negateProduct negateAddend =>
      exact (fma_spec hf rm profile a b c negateProduct negateAddend).imp
        fun _ h => ⟨h.1, h.2.underflow⟩
  | convert source a =>
      exact (convert_spec (standard_of source.property) hf rm profile a).imp
        fun _ h => ⟨h.1, h.2.underflow⟩
  | fromInt sign magnitude =>
      exact (fromInt_spec hf rm profile sign magnitude.isLt).imp
        fun _ h => ⟨h.1, h.2.underflow⟩

/-- The underflow flag tells of tininess exactly where the exact value is not
in the band. -/
theorem underflow_flag_iff (f : Fmt) (hf : f = S ∨ f = D) (rm : Rm)
    (profile : Profile) (op : Operation) :
    ∃ result, op.run f rm profile = some result ∧
      ((underflows result.2 = true ↔
          ∃ x ∈ op.exact f, IsUnderflow f rm x) ↔
        ∀ x ∈ op.exact f,
          ¬ RoundsOutOfTiny f (rm.direction (decide (x < 0))) |x|) := by
  have hstandard := standard_of hf
  obtain ⟨result, hrun, hflags⟩ := op.flags hstandard rm profile
  exact ⟨result, hrun, flagsUnderflow_iff hstandard rm hflags⟩

/-- A third of the least subnormal number. -/
theorem underflow_flag_iff_third :
    (Operation.div 1 0x40400000).run S .rne .debug = some (0, NX ||| UF) ∧
      ∃ result, (Operation.div 1 0x40400000).run S .rne .debug = some result ∧
        ((underflows result.2 = true ↔
            ∃ x ∈ (Operation.div 1 0x40400000).exact S,
              IsUnderflow S .rne x) ↔
          ∀ x ∈ (Operation.div 1 0x40400000).exact S,
            ¬ RoundsOutOfTiny S (Rm.rne.direction (decide (x < 0))) |x|) :=
  ⟨by decide +kernel,
    underflow_flag_iff S (Or.inl rfl) .rne .debug (.div 1 0x40400000)⟩

/-- The least normal number, to nearest, times the largest value below one. -/
theorem not_underflow_flag_iff :
    (Operation.mul 0x3F7FFFFF 0x00800000).run S .rne .debug =
        some (0x00800000, NX) ∧
      ¬ (underflows NX = true ↔
        ∃ x ∈ (Operation.mul 0x3F7FFFFF 0x00800000).exact S,
          IsUnderflow S .rne x) := by
  have hrun : (Operation.mul 0x3F7FFFFF 0x00800000).run S .rne .debug =
      some (0x00800000, NX) := by
    decide +kernel
  refine ⟨hrun, ?_⟩
  obtain ⟨result, hresult, hflags⟩ := Operation.flags standard_S .rne .debug
    (.mul 0x3F7FFFFF 0x00800000)
  rw [hrun, Option.some_inj] at hresult
  subst hresult
  rw [flagsUnderflow_iff standard_S .rne hflags]
  have hbelow : datum S 0x3F7FFFFF = .finite (S.value 126 0x7FFFFF) := rfl
  have hleast : datum S 0x00800000 = .finite (S.value 1 0) := rfl
  have hexact : (Operation.mul 0x3F7FFFFF 0x00800000).exact S =
      some (S.value 126 0x7FFFFF * S.value 1 0) := by
    rw [Operation.exact, hbelow, hleast]
    rfl
  rw [hexact]
  simp only [Option.mem_some_iff, forall_eq', not_not]
  have hvalue : S.value 126 0x7FFFFF * S.value 1 0 =
      (2 ^ 24 - 1) * 2 ^ (-150 : ℤ) := by
    norm_num [Fmt.value, S, Fmt.bias, Fmt.expBits]
  have hpos : (0 : ℚ) < (2 ^ 24 - 1) * 2 ^ (-150 : ℤ) := by norm_num
  rw [hvalue, abs_of_pos hpos, decide_eq_false hpos.not_gt]
  norm_num [RoundsOutOfTiny, Rm.direction, Fmt.leastNormal, Fmt.minE, S,
    Fmt.bias, Fmt.expBits]

end Fpu

end Nanoemu
