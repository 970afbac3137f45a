import Nanoemu.FloatProduct

/-!
# Correctly rounded quotients

The dividend is shifted up by 64 places before the integer division.  Both
significands are normalised, so the quotient has more places than any result
keeps; the remainder goes into its lowest bit, and rounding that is rounding
the exact quotient.
-/

namespace Nanoemu

open CheckedProgram GridRounding

namespace Fpu

/-- What a division must return: zero by zero and infinity by infinity are
invalid, and only a finite non-zero dividend is divided by zero. -/
def IsQuotient (f : Fmt) (rm : Rm) (sign : Bool) (a b : Datum)
    (result : ℕ × ℕ) : Prop :=
  match a, b with
  | .finite x, .finite y =>
      if y ≠ 0 then CorrectValue f rm sign (x / y) result
      else if x = 0 then f.GivesNan [.invalid] result
      else f.Gives sign .inf [.divideByZero] result
  | .inf, .inf => f.GivesNan [.invalid] result
  | .inf, .finite _ => f.Gives sign .inf [] result
  | .finite _, .inf => f.Gives sign (.finite 0) [] result
  | a, b => f.GivesNan (invalidIf (a.isSnan || b.isSnan)) result

def exactQuotient (sign : Bool) (a b : Datum) : Option ℚ :=
  match a, b with
  | .finite x, .finite y => if y = 0 then none else some (withSign sign (x / y))
  | _, _ => none

/-- A quotient with every flag. -/
structure RoundsQuotient (f : Fmt) (rm : Rm) (sign : Bool) (a b : Datum)
    (result : ℕ × ℕ) : Prop where
  quotient : IsQuotient f rm sign a b result
  underflow : FlagsUnderflow f rm (exactQuotient sign a b) result.2

theorem RoundsQuotient.of_exact {f : Fmt} {rm : Rm} {sign : Bool} {x y : ℚ}
    {result : ℕ × ℕ} (hy : y ≠ 0)
    (h : RoundsExact f rm sign (some (.finite (x / y))) result) :
    RoundsQuotient f rm sign (.finite x) (.finite y) result := by
  constructor
  · rw [IsQuotient, if_pos hy]
    exact h.rounded
  · rw [exactQuotient, if_neg hy]
    exact h.underflow

theorem RoundsQuotient.by_zero {f : Fmt} (hf : f.Standard) {rm : Rm}
    {sign : Bool} {x : ℚ} (hx : x ≠ 0) :
    RoundsQuotient f rm sign (.finite x) (.finite 0) (f.inf sign, DZ) := by
  constructor
  · rw [IsQuotient, if_neg (not_not.mpr rfl), if_neg hx]
    exact hf.gives_inf sign [.divideByZero]
  · exact .none (by rw [exactQuotient, if_pos rfl]) underflows_DZ

theorem RoundsQuotient.zero_by_zero {f : Fmt} (hf : f.Standard) {rm : Rm}
    {sign : Bool} :
    RoundsQuotient f rm sign (.finite 0) (.finite 0) (invalid f) := by
  constructor
  · rw [IsQuotient, if_neg (not_not.mpr rfl), if_pos rfl]
    exact hf.givesNan_nan [.invalid]
  · exact .none (by rw [exactQuotient, if_pos rfl]) underflows_NV

section Quotient

variable {f : Fmt} (hf : f.Standard) (rm : Rm) (profile : Profile)

include hf

theorem Unpacked.quotient_roundable {ma mb : ℕ} {ea eb : ℤ}
    (ha : Unpacked f ma ea) (hb : Unpacked f mb eb) :
    Roundable f
      (ma * 2 ^ 64 / mb ||| (if ma * 2 ^ 64 % mb ≠ 0 then 1 else 0))
      (ea - eb - 64) ((ma * 2 ^ 64 : ℕ) / mb : ℚ) := by
  have hsig := hf.sig_high
  have hoperandA := Unpacked.operand hf ha
  have hoperandB := Unpacked.operand hf hb
  have hlowA := hoperandA.low
  have hhighA := hoperandA.high
  have hlowB := hoperandB.low
  have hhighB := hoperandB.high
  have hbpos : 0 < mb := Nat.pos_of_ne_zero hoperandB.ne_zero
  set q := ma * 2 ^ 64 / mb with hq
  have hlarge : 2 ^ 63 ≤ q := by
    rw [hq, Nat.le_div_iff_mul_le hbpos]
    have hhigh := hb.high
    have hlow := ha.low
    rw [pow_succ] at hhigh
    omega
  have hsmall : q < 2 ^ 65 := by
    rw [hq, Nat.div_lt_iff_lt_mul hbpos]
    have hhigh := ha.high
    have hlow := hb.low
    rw [pow_succ] at hhigh
    omega
  have hjam := or_sticky q (ma * 2 ^ 64 % mb ≠ 0)
  have hlen : 63 < bitLen
      (q ||| (if ma * 2 ^ 64 % mb ≠ 0 then 1 else 0)) :=
    lt_bitLen_iff.mpr (hlarge.trans hjam.1)
  exact
    { ne_zero := by omega
      word := by omega
      fits := Or.inr (by omega)
      jammed := jammed_div _ hbpos
      wide := Or.inr (by omega)
      exponent_low := by omega
      exponent_high := by omega }

theorem div_num {ma mb : ℕ} {ea eb : ℤ} (ha : Unpacked f ma ea)
    (hb : Unpacked f mb eb) (sign : Bool) :
    ∃ result, (do
        let num ← Checked.ushl 128 ma 64
        let q ← Checked.udiv num mb
        let e ← Checked.isub 32 ea eb
        let e ← Checked.isub 32 e 64
        roundPack f sign (q ||| (if num % mb ≠ 0 then 1 else 0)) e rm)
          profile = some result ∧
      RoundsQuotient f rm sign (.finite (ma * 2 ^ ea)) (.finite (mb * 2 ^ eb))
        result := by
  have hoperandA := Unpacked.operand hf ha
  have hoperandB := Unpacked.operand hf hb
  have hlowA := hoperandA.low
  have hhighA := hoperandA.high
  have hlowB := hoperandB.low
  have hhighB := hoperandB.high
  have hsig := hf.sig_high
  have hword : ma * 2 ^ 64 < 2 ^ 128 := by
    have hbound : 2 ^ (f.sig + 1) ≤ 2 ^ 53 :=
      Nat.pow_le_pow_right (by decide) (by omega)
    have hhigh := ha.high
    omega
  have hshift : Checked.ushl 128 ma 64 = pure (ma * 2 ^ 64) := by
    rw [Checked.ushl_eq_pure (by decide), Nat.shiftLeft_eq,
      Nat.mod_eq_of_lt hword]
  obtain ⟨result, y, hrun, hrounded⟩ := roundPack_rounds hf
    (Unpacked.quotient_roundable hf ha hb) sign rm profile
  have hvalue : ((ma * 2 ^ 64 : ℕ) / mb * 2 ^ (ea - eb - 64) : ℚ) =
      ma * 2 ^ ea / (mb * 2 ^ eb) := by
    have hmb : (mb : ℚ) ≠ 0 := Nat.cast_ne_zero.mpr hoperandB.ne_zero
    rw [zpow_sub₀ two_ne_zero, zpow_sub₀ two_ne_zero,
      show (64 : ℤ) = (64 : ℕ) from rfl, zpow_natCast, Nat.cast_mul,
      Nat.cast_pow, Nat.cast_ofNat]
    field_simp
  have hpos : (0 : ℚ) < ma * 2 ^ ea / (mb * 2 ^ eb) :=
    div_pos hoperandA.pos hoperandB.pos
  rw [hvalue] at hrounded
  refine ⟨result, ?_, .of_exact hoperandB.pos.ne' (.of_rounded hpos hrounded)⟩
  rw [hshift, pure_bind, Checked.udiv_eq_pure hoperandB.ne_zero, pure_bind,
    Checked.isub_eq_pure (by omega) (by omega), pure_bind,
    Checked.isub_eq_pure (by omega) (by omega), pure_bind]
  exact hrun

theorem div_spec (a b : ℕ) :
    ∃ result, div f a b rm profile = some result ∧
      RoundsQuotient f rm (f.signOf a != f.signOf b) (datum f a) (datum f b)
        result := by
  obtain ⟨ca, hrunA, hA⟩ := unpack_spec hf a profile
  obtain ⟨cb, hrunB, hB⟩ := unpack_spec hf b profile
  rw [div, Checked.bind_of_some hrunA]
  dsimp only
  rw [Checked.bind_of_some hrunB]
  dsimp only
  generalize datum f a = da at hA
  generalize datum f b = db at hB
  have hnan := nanResult_pair hf hA hB
  have hclear := underflows_nan f [ca, cb]
  cases hA with
  | nan signalling => cases hB <;> exact ⟨_, rfl, hnan, .none rfl hclear⟩
  | inf =>
      cases hB with
      | nan signalling => exact ⟨_, rfl, hnan, .none rfl hclear⟩
      | inf =>
          exact ⟨_, rfl, hf.givesNan_nan [.invalid], .none rfl underflows_NV⟩
      | zero => exact ⟨_, rfl, hf.gives_inf _ [], .none rfl underflows_none⟩
      | num hb => exact ⟨_, rfl, hf.gives_inf _ [], .none rfl underflows_none⟩
  | zero =>
      cases hB with
      | nan signalling => exact ⟨_, rfl, hnan, .none rfl hclear⟩
      | inf => exact ⟨_, rfl, hf.gives_zero _ [], .none rfl underflows_none⟩
      | zero => exact ⟨_, rfl, .zero_by_zero hf⟩
      | num hb =>
          have hpos := (Unpacked.operand hf hb).pos
          exact ⟨_, rfl, .of_exact hpos.ne' (.zero hf (zero_div _))⟩
  | num ha =>
      cases hB with
      | nan signalling => exact ⟨_, rfl, hnan, .none rfl hclear⟩
      | inf => exact ⟨_, rfl, hf.gives_zero _ [], .none rfl underflows_none⟩
      | zero =>
          have hpos := (Unpacked.operand hf ha).pos
          exact ⟨_, rfl, .by_zero hf hpos.ne'⟩
      | num hb => exact div_num hf rm profile ha hb _

end Quotient

/-- Division rounds the exact quotient once, in either format and under either
build. -/
theorem div_correct (f : Fmt) (hf : f = S ∨ f = D) (rm : Rm)
    (profile : Profile) (a b : ℕ) :
    ∃ result, div f a b rm profile = some result ∧
      IsQuotient f rm (f.signOf a != f.signOf b) (datum f a) (datum f b)
        result :=
  (div_spec (standard_of hf) rm profile a b).imp
    fun _ h => ⟨h.1, h.2.quotient⟩

/-- The least subnormal by three, towards plus infinity, and minus one by
zero. -/
theorem div_correct_subnormal :
    (div S 1 0x40400000 .rup .debug = some (1, 3) ∧
      ∃ result, div S 1 0x40400000 .rup .debug = some result ∧
        IsQuotient S .rup false (datum S 1) (datum S 0x40400000) result) ∧
    div S 0xBF800000 0 .rne .debug = some (0xFF800000, 8) ∧
      ∃ result, div S 0xBF800000 0 .rne .debug = some result ∧
        IsQuotient S .rne true (datum S 0xBF800000) (datum S 0) result :=
  ⟨⟨by decide +kernel, div_correct S (Or.inl rfl) .rup .debug 1 0x40400000⟩,
    by decide +kernel, div_correct S (Or.inl rfl) .rne .debug 0xBF800000 0⟩

end Fpu

end Nanoemu
