import Mathlib.Data.EReal.Operations
import Nanoemu.FloatSum

/-!
# The order of patterns

Without its sign a pattern is a number, and as numbers the patterns of the
finite magnitudes and of infinity are in the order of what they denote.  The
key of a pattern gives that number its sign back, which maps both zeroes to
zero, so comparing keys compares extended reals.
-/

namespace Nanoemu

open CheckedProgram

namespace Fpu

noncomputable def denoted (f : Fmt) (x : ℕ) : Option EReal :=
  match datum f x with
  | .finite y => some ((withSign (f.signOf x) y : ℚ) : ℝ)
  | .inf => some (if f.signOf x then ⊥ else ⊤)
  | .nan _ => none

/-- Equality is quiet: only a signalling NaN is invalid. -/
def IsEquality (f : Fmt) (a b : ℕ) (result : Bool × ℕ) : Prop :=
  match denoted f a, denoted f b with
  | some x, some y => (result.1 = true ↔ x = y) ∧ result.2 = 0
  | _, _ =>
      result.1 = false ∧
        result.2 = flagWord
          (invalidIf ((datum f a).isSnan || (datum f b).isSnan))

/-- The order is signalling: any NaN is invalid. -/
def IsOrder (f : Fmt) (orEqual : Bool) (a b : ℕ) (result : Bool × ℕ) : Prop :=
  match denoted f a, denoted f b with
  | some x, some y =>
      (result.1 = true ↔ if orEqual then x ≤ y else x < y) ∧ result.2 = 0
  | _, _ => result.1 = false ∧ result.2 = flagWord [.invalid]

/-- The order of signed extended reals in which minus zero is below plus
zero. -/
def Precedes (sx : Bool) (x : EReal) (sy : Bool) (y : EReal) : Prop :=
  x < y ∨ x = y ∧ (x = 0 → sy = true → sx = true)

/-- The operand that comes first or last, the only one that is a number, or
the canonical NaN. -/
def IsSelection (f : Fmt) (wantMax : Bool) (a b : ℕ) (result : ℕ × ℕ) : Prop :=
  result.2 = flagWord (invalidIf ((datum f a).isSnan || (datum f b).isSnan)) ∧
    match denoted f a, denoted f b with
    | none, none => f.ShowsNan result.1
    | none, some _ => result.1 = b &&& f.mask
    | some _, none => result.1 = a &&& f.mask
    | some x, some y =>
        let first := Precedes (f.signOf a) x (f.signOf b) y
        let last := Precedes (f.signOf b) y (f.signOf a) x
        result.1 = a &&& f.mask ∧ (if wantMax then last else first) ∨
          result.1 = b &&& f.mask ∧ (if wantMax then first else last)

namespace Fmt

variable (f : Fmt)

def infinity : ℕ :=
  f.maxField * 2 ^ f.sig

noncomputable def magnitude (k : ℕ) : EReal :=
  if f.maxField ≤ k / 2 ^ f.sig then ⊤
  else ((f.value (k / 2 ^ f.sig) (k % 2 ^ f.sig) : ℚ) : ℝ)

theorem value_lt_frac (field : ℕ) {frac frac' : ℕ} (hlt : frac < frac') :
    f.value field frac < f.value field frac' := by
  unfold value
  split
  · apply (mul_lt_mul_iff_left₀ (zpow_pos two_pos _)).mpr
    exact_mod_cast hlt
  · apply (mul_lt_mul_iff_left₀ (zpow_pos two_pos _)).mpr
    exact_mod_cast Nat.add_lt_add_left hlt _

theorem value_lt_field (field : ℕ) {frac : ℕ} (hfrac : frac < 2 ^ f.sig) :
    f.value field frac < f.value (field + 1) 0 := by
  have hmin : f.minE = 1 - f.bias - f.sig := rfl
  unfold value
  rw [if_neg (Nat.succ_ne_zero field), Nat.add_zero]
  split
  · next hzero =>
      rw [hzero, show ((0 + 1 : ℕ) : ℤ) - f.bias - f.sig = f.minE by omega]
      apply (mul_lt_mul_iff_left₀ (zpow_pos two_pos _)).mpr
      exact_mod_cast hfrac
  · have hdouble : (2 : ℚ) ^ (((field + 1 : ℕ) : ℤ) - f.bias - f.sig) =
        2 * 2 ^ ((field : ℤ) - f.bias - f.sig) := by
      rw [show ((field + 1 : ℕ) : ℤ) - f.bias - f.sig =
        1 + ((field : ℤ) - f.bias - f.sig) by omega, zpow_add₀ two_ne_zero,
        zpow_one]
    rw [hdouble, ← mul_assoc]
    apply (mul_lt_mul_iff_left₀ (zpow_pos two_pos _)).mpr
    exact_mod_cast show 2 ^ f.sig + frac < 2 ^ f.sig * 2 by omega

theorem magnitude_lt_succ {k : ℕ} (hk : k < f.infinity) :
    f.magnitude k < f.magnitude (k + 1) := by
  have hpos := Nat.two_pow_pos f.sig
  have hfield : k / 2 ^ f.sig < f.maxField := by
    rwa [Nat.div_lt_iff_lt_mul hpos]
  have hfrac : k % 2 ^ f.sig < 2 ^ f.sig := Nat.mod_lt k hpos
  have hsplit := Nat.div_add_mod' k (2 ^ f.sig)
  have hfinite : ∀ {x y : ℚ}, x < y → ((x : ℝ) : EReal) < ((y : ℝ) : EReal) := by
    intro x y hlt
    exact_mod_cast hlt
  unfold magnitude
  rw [if_neg (not_le.mpr hfield)]
  by_cases hcarry : k % 2 ^ f.sig + 1 < 2 ^ f.sig
  · have hnext : k + 1 = k / 2 ^ f.sig * 2 ^ f.sig + (k % 2 ^ f.sig + 1) := by
      omega
    rw [hnext, split_div hcarry, split_mod hcarry, if_neg (not_le.mpr hfield)]
    exact hfinite (f.value_lt_frac _ (Nat.lt_succ_self _))
  · have hnext : k + 1 = (k / 2 ^ f.sig + 1) * 2 ^ f.sig + 0 := by
      rw [add_mul, one_mul]
      omega
    rw [hnext, split_div hpos, split_mod hpos]
    split
    · exact EReal.coe_lt_top _
    · exact hfinite (f.value_lt_field _ hfrac)

theorem magnitude_lt {j k : ℕ} (hlt : j < k) (hk : k ≤ f.infinity) :
    f.magnitude j < f.magnitude k := by
  induction k, Nat.succ_le_of_lt hlt using Nat.le_induction with
  | base => exact f.magnitude_lt_succ hk
  | succ k hle ih =>
      exact (ih hle (by omega)).trans (f.magnitude_lt_succ hk)

theorem magnitude_zero (hmax : 0 < f.maxField) : f.magnitude 0 = 0 := by
  unfold magnitude value
  rw [Nat.zero_div, Nat.zero_mod, if_neg (not_le.mpr hmax), if_pos rfl]
  simp

theorem magnitude_finite {field frac : ℕ} (hfield : field < f.maxField)
    (hfrac : frac < 2 ^ f.sig) :
    f.magnitude (field * 2 ^ f.sig + frac) = ((f.value field frac : ℚ) : ℝ) := by
  unfold magnitude
  rw [split_div hfrac, split_mod hfrac, if_neg (not_le.mpr hfield)]

theorem magnitude_infinity : f.magnitude f.infinity = ⊤ := by
  unfold magnitude infinity
  rw [Nat.mul_div_cancel _ (Nat.two_pow_pos _), if_pos le_rfl]

noncomputable def keyed (n : ℤ) : EReal :=
  if n < 0 then -f.magnitude n.natAbs else f.magnitude n.natAbs

theorem keyed_neg (hmax : 0 < f.maxField) (k : ℕ) :
    f.keyed (-k) = -f.magnitude k := by
  unfold keyed
  rw [Int.natAbs_neg, Int.natAbs_natCast]
  split
  · rfl
  · next hnonneg =>
      have hzero : k = 0 := by omega
      rw [hzero, f.magnitude_zero hmax, neg_zero]

theorem keyed_natCast (k : ℕ) : f.keyed k = f.magnitude k := by
  unfold keyed
  rw [if_neg (by omega), Int.natAbs_natCast]

theorem keyed_strictMonoOn (hmax : 0 < f.maxField) :
    StrictMonoOn f.keyed (Set.Icc (-f.infinity) f.infinity) := by
  have hzero := f.magnitude_zero hmax
  intro m hm n hn hlt
  obtain ⟨hmlow, hmhigh⟩ := hm
  obtain ⟨hnlow, hnhigh⟩ := hn
  rcases Int.eq_nat_or_neg m with ⟨j, rfl | rfl⟩
  · obtain ⟨k, rfl⟩ := Int.eq_ofNat_of_zero_le (show 0 ≤ n by omega)
    rw [keyed_natCast, keyed_natCast]
    exact f.magnitude_lt (by omega) (by omega)
  · rw [f.keyed_neg hmax]
    rcases Int.eq_nat_or_neg n with ⟨k, rfl | rfl⟩
    · rw [keyed_natCast]
      -- One of the two is not zero.
      by_cases hj : j = 0
      · rw [hj, hzero, neg_zero, ← hzero]
        exact f.magnitude_lt (by omega) (by omega)
      · have hneg : -f.magnitude j < 0 := by
          rw [← neg_zero, EReal.neg_lt_neg_iff, ← hzero]
          exact f.magnitude_lt (by omega) (by omega)
        refine hneg.trans_le ?_
        rcases Nat.eq_zero_or_pos k with rfl | hk
        · exact hzero.ge
        · rw [← hzero]
          exact (f.magnitude_lt hk (by omega)).le
    · rw [f.keyed_neg hmax, EReal.neg_lt_neg_iff]
      exact f.magnitude_lt (by omega) (by omega)

/-- The pattern without its sign, with the sign of the value. -/
def keyOf (x : ℕ) : ℤ :=
  let magnitude := f.fieldOf x * 2 ^ f.sig + f.fracOf x
  if f.signOf x then -magnitude else magnitude

end Fmt

section Key

variable {f : Fmt} (hf : f.Standard)

include hf

theorem Fmt.Standard.bits_high : f.bits ≤ 64 := by
  have hfield := hf.field
  have hbias := hf.bias_high
  have hsig := hf.sig_high
  have hbits := hf.bits
  unfold Fmt.maxField at hfield
  have hexp : f.expBits < 12 := by
    apply (Nat.pow_lt_pow_iff_right (a := 2) (by decide)).mp
    omega
  omega

theorem Fmt.Standard.masked_magnitude (x : ℕ) :
    (x &&& f.mask) &&& (2 ^ 64 - 1 - f.signMask) =
      f.fieldOf x * 2 ^ f.sig + f.fracOf x := by
  have hhigh := hf.bits_high
  have hbits := hf.bits
  have hparts := hf.parts_masked x
  have hlt := hparts.lt
  set y := x &&& f.mask with hy
  have hclear : y &&& (2 ^ 64 - 1 - f.signMask) = y % 2 ^ (f.bits - 1) := by
    have hsign : f.signMask < 2 ^ 64 :=
      Nat.pow_lt_pow_right (by decide) (by omega)
    apply Nat.eq_of_testBit_eq
    intro i
    rw [Nat.testBit_and, Nat.sub_sub, Nat.add_comm 1,
      Nat.testBit_two_pow_sub_succ hsign, Nat.testBit_mod_two_pow,
      Fmt.signMask, Nat.testBit_two_pow]
    rcases lt_trichotomy i (f.bits - 1) with hless | rfl | hmore
    · simp [hless, show i < 64 by omega, show f.bits - 1 ≠ i by omega]
    · simp
    · have hbit : y.testBit i = false := by
        apply Nat.testBit_eq_false_of_lt
        exact hlt.trans_le (Nat.pow_le_pow_right (by decide) (by omega))
      simp [hbit]
  have hfield : y / 2 ^ f.sig % 2 ^ f.expBits = f.fieldOf x := hparts.field
  have hfrac : y % 2 ^ f.sig = f.fracOf x := hparts.frac
  rw [hclear, hf.bits_sub, Nat.add_comm, Nat.pow_add, Nat.mod_mul, hfield, hfrac,
    Nat.add_comm, Nat.mul_comm]

theorem key_spec (x : ℕ) (profile : Profile) :
    key f x profile = some (f.keyOf x) := by
  have hhigh := hf.bits_high
  have hbits := hf.bits
  have hmagnitude : f.fieldOf x * 2 ^ f.sig + f.fracOf x < 2 ^ 63 :=
    calc f.fieldOf x * 2 ^ f.sig + f.fracOf x < 2 ^ (f.expBits + f.sig) :=
          join_lt (Nat.mod_lt _ (Nat.two_pow_pos _)) (fracOf_lt f x)
      _ ≤ 2 ^ 63 := Nat.pow_le_pow_right (by decide) (by omega)
  have hsign := hf.masked_sign x
  unfold key Fmt.keyOf
  dsimp only
  rw [hf.masked_magnitude, ← hsign]
  by_cases hset : (x &&& f.mask) &&& f.signMask = 0
  · simp only [hset, ne_eq, not_true_eq_false, if_false, bne_self_eq_false,
      Bool.false_eq_true]
    rfl
  · rw [if_pos hset, if_pos (bne_iff_ne.mpr hset),
      Checked.ineg_eq_pure (by omega) (by omega)]
    rfl

theorem Fmt.Standard.keyed_keyOf (x : ℕ) :
    f.keyed (f.keyOf x) =
      if f.signOf x then
        -f.magnitude (f.fieldOf x * 2 ^ f.sig + f.fracOf x)
      else f.magnitude (f.fieldOf x * 2 ^ f.sig + f.fracOf x) := by
  unfold Fmt.keyOf
  cases f.signOf x with
  | true => exact f.keyed_neg hf.maxField_pos _
  | false => exact f.keyed_natCast _

omit hf in
theorem Fmt.keyOf_mem (x : ℕ)
    (hle : f.fieldOf x * 2 ^ f.sig + f.fracOf x ≤ f.infinity) :
    f.keyOf x ∈ Set.Icc (-f.infinity : ℤ) f.infinity := by
  unfold Fmt.keyOf
  dsimp only
  constructor
  · split <;> omega
  · split <;> omega

omit hf in
theorem inf_of_datum {x : ℕ} (hdatum : datum f x = .inf) :
    f.fieldOf x * 2 ^ f.sig + f.fracOf x = f.infinity := by
  unfold datum at hdatum
  split at hdatum
  · next hmax =>
      split at hdatum
      · next hzero => rw [hmax, hzero, Nat.add_zero, Fmt.infinity]
      · cases hdatum
  · cases hdatum

theorem denoted_eq {x : ℕ} {y : EReal} (hy : denoted f x = some y) :
    f.keyed (f.keyOf x) = y ∧
      f.keyOf x ∈ Set.Icc (-f.infinity : ℤ) f.infinity := by
  have hkeyed := hf.keyed_keyOf x
  unfold denoted at hy
  cases hdatum : datum f x with
  | finite v =>
      obtain ⟨hfield, hvalue⟩ := finite_of_datum hdatum
      have hfrac := fracOf_lt f x
      rw [f.magnitude_finite hfield hfrac, hvalue] at hkeyed
      rw [hdatum, Option.some_inj] at hy
      constructor
      · rw [hkeyed, ← hy]
        unfold withSign
        split <;> simp
      · apply Fmt.keyOf_mem
        have hnext : (f.fieldOf x + 1) * 2 ^ f.sig ≤ f.infinity :=
          Nat.mul_le_mul_right _ hfield
        rw [add_mul, one_mul] at hnext
        omega
  | inf =>
      have hinfinity := inf_of_datum hdatum
      rw [hinfinity, f.magnitude_infinity, EReal.neg_top] at hkeyed
      rw [hdatum, Option.some_inj] at hy
      exact ⟨hkeyed.trans hy, Fmt.keyOf_mem x hinfinity.le⟩
  | nan signalling =>
      rw [hdatum] at hy
      cases hy

theorem keyOf_lt_iff {a b : ℕ} {x y : EReal} (hx : denoted f a = some x)
    (hy : denoted f b = some y) : f.keyOf a < f.keyOf b ↔ x < y := by
  obtain ⟨hvalueA, hrangeA⟩ := denoted_eq hf hx
  obtain ⟨hvalueB, hrangeB⟩ := denoted_eq hf hy
  rw [← hvalueA, ← hvalueB]
  exact ((f.keyed_strictMonoOn hf.maxField_pos).lt_iff_lt hrangeA hrangeB).symm

theorem keyOf_le_iff {a b : ℕ} {x y : EReal} (hx : denoted f a = some x)
    (hy : denoted f b = some y) : f.keyOf a ≤ f.keyOf b ↔ x ≤ y := by
  rw [← not_lt, keyOf_lt_iff hf hy hx, not_lt]

theorem keyOf_eq_iff {a b : ℕ} {x y : EReal} (hx : denoted f a = some x)
    (hy : denoted f b = some y) : f.keyOf a = f.keyOf b ↔ x = y := by
  rw [le_antisymm_iff, le_antisymm_iff, keyOf_le_iff hf hx hy,
    keyOf_le_iff hf hy hx]

end Key

/-! ## Comparisons -/

theorem Represents.denoted {f : Fmt} {x : ℕ} {c : Cls}
    (h : Represents f c (datum f x)) :
    c.isNan = true ∧ denoted f x = none ∨
      c.isNan = false ∧ ∃ y, denoted f x = some y ∧
        (c.isZero = true ↔ y = 0) := by
  unfold Fpu.denoted
  generalize datum f x = d at h
  cases h with
  | zero =>
      refine Or.inr ⟨rfl, _, rfl, iff_of_true rfl ?_⟩
      rw [withSign_zero]
      simp
  | inf =>
      refine Or.inr ⟨rfl, _, rfl, iff_of_false Bool.false_ne_true ?_⟩
      split <;> simp
  | nan signalling => exact Or.inl ⟨rfl, rfl⟩
  | @num m e hm =>
      have hpos : (0 : ℚ) < m * 2 ^ e := by
        apply mul_pos _ (zpow_pos two_pos e)
        exact_mod_cast (Nat.two_pow_pos f.sig).trans_le hm.low
      have hne := (withSign_parts (f.signOf x) hpos).1
      refine Or.inr ⟨rfl, _, rfl, iff_of_false Bool.false_ne_true ?_⟩
      simpa using hne

section Compare

variable {f : Fmt} (hf : f.Standard) (a b : ℕ) (profile : Profile)

include hf

theorem eq_spec :
    ∃ result, eq f a b profile = some result ∧ IsEquality f a b result := by
  obtain ⟨ca, hrunA, hA⟩ := unpack_spec hf a profile
  obtain ⟨cb, hrunB, hB⟩ := unpack_spec hf b profile
  unfold eq IsEquality
  rw [Checked.bind_of_some hrunA]
  dsimp only
  rw [Checked.bind_of_some hrunB, ← hA.isSnan, ← hB.isSnan]
  dsimp only
  rcases hA.denoted with ⟨hnanA, hnone⟩ | ⟨hnanA, x, hx, -⟩
  · rw [hnanA, hnone]
    exact ⟨_, rfl, rfl, (flagWord_invalidIf _).symm⟩
  rcases hB.denoted with ⟨hnanB, hnone⟩ | ⟨hnanB, y, hy, -⟩
  · rw [hnanA, hnanB, hx, hnone]
    exact ⟨_, rfl, rfl, (flagWord_invalidIf _).symm⟩
  · rw [hnanA, hnanB, hx, hy]
    refine ⟨(decide (f.keyOf a = f.keyOf b), 0), ?_, ?_⟩
    · simp only [Bool.or_self, Bool.false_eq_true, if_false]
      rw [Checked.bind_of_some (key_spec hf a profile),
        Checked.bind_of_some (key_spec hf b profile)]
      rfl
    · simp [keyOf_eq_iff hf hx hy]

theorem lt_spec (orEqual : Bool) :
    ∃ result, lt f a b orEqual profile = some result ∧
      IsOrder f orEqual a b result := by
  obtain ⟨ca, hrunA, hA⟩ := unpack_spec hf a profile
  obtain ⟨cb, hrunB, hB⟩ := unpack_spec hf b profile
  unfold lt IsOrder
  rw [Checked.bind_of_some hrunA]
  dsimp only
  rw [Checked.bind_of_some hrunB]
  dsimp only
  rcases hA.denoted with ⟨hnanA, hnone⟩ | ⟨hnanA, x, hx, -⟩
  · rw [hnanA, hnone]
    exact ⟨_, rfl, rfl, rfl⟩
  rcases hB.denoted with ⟨hnanB, hnone⟩ | ⟨hnanB, y, hy, -⟩
  · rw [hnanA, hnanB, hx, hnone]
    exact ⟨_, rfl, rfl, rfl⟩
  · rw [hnanA, hnanB, hx, hy]
    refine ⟨(if orEqual then decide (f.keyOf a ≤ f.keyOf b)
      else decide (f.keyOf a < f.keyOf b), 0), ?_, ?_⟩
    · simp only [Bool.or_self, Bool.false_eq_true, if_false]
      rw [Checked.bind_of_some (key_spec hf a profile),
        Checked.bind_of_some (key_spec hf b profile)]
      rfl
    · cases orEqual with
      | true => simp [keyOf_le_iff hf hx hy]
      | false => simp [keyOf_lt_iff hf hx hy]

theorem minMax_spec (wantMax : Bool) :
    ∃ result, minMax f a b wantMax profile = some result ∧
      IsSelection f wantMax a b result := by
  obtain ⟨ca, hrunA, hA⟩ := unpack_spec hf a profile
  obtain ⟨cb, hrunB, hB⟩ := unpack_spec hf b profile
  unfold minMax IsSelection
  rw [Checked.bind_of_some hrunA]
  dsimp only
  rw [Checked.bind_of_some hrunB, ← hA.isSnan, ← hB.isSnan,
    flagWord_invalidIf]
  dsimp only
  rcases hA.denoted with ⟨hnanA, hnoneA⟩ | ⟨hnanA, x, hx, hzeroA⟩
  · rcases hB.denoted with ⟨hnanB, hnoneB⟩ | ⟨hnanB, y, hy, -⟩
    · rw [hnanA, hnanB, hnoneA, hnoneB]
      exact ⟨_, rfl, rfl, hf.showsNan_nan⟩
    · rw [hnanA, hnanB, hnoneA, hy]
      exact ⟨_, rfl, rfl, rfl⟩
  rcases hB.denoted with ⟨hnanB, hnoneB⟩ | ⟨hnanB, y, hy, hzeroB⟩
  · rw [hnanA, hnanB, hx, hnoneB]
    exact ⟨_, rfl, rfl, rfl⟩
  rw [hnanA, hnanB, hx, hy]
  dsimp only
  by_cases hboth : (ca.isZero && cb.isZero) = true
  · rw [if_pos hboth]
    rw [Bool.and_eq_true, hzeroA, hzeroB] at hboth
    obtain ⟨rfl, rfl⟩ := hboth
    refine ⟨_, rfl, rfl, ?_⟩
    simp only [Precedes, lt_irrefl, true_and, false_or, forall_const]
    cases f.signOf a <;> cases f.signOf b <;> cases wantMax <;> simp
  · rw [if_neg hboth, Checked.bind_of_some (key_spec hf a profile),
      Checked.bind_of_some (key_spec hf b profile)]
    refine ⟨_, rfl, rfl, ?_⟩
    have hzero : x = y → x ≠ 0 := by
      rintro rfl hzero
      exact hboth (Bool.and_eq_true_iff.mpr
        ⟨hzeroA.mpr hzero, hzeroB.mpr hzero⟩)
    have hfirst : x ≤ y → Precedes (f.signOf a) x (f.signOf b) y := by
      intro hle
      rcases hle.lt_or_eq with hless | heq
      · exact Or.inl hless
      · exact Or.inr ⟨heq, fun h => absurd h (hzero heq)⟩
    have hlast : y ≤ x → Precedes (f.signOf b) y (f.signOf a) x := by
      intro hle
      rcases hle.lt_or_eq with hless | heq
      · exact Or.inl hless
      · exact Or.inr ⟨heq, fun h => absurd (heq ▸ h) (hzero heq.symm)⟩
    cases wantMax with
    | true =>
        simp only [if_true, decide_eq_true_eq, keyOf_lt_iff hf hy hx]
        by_cases hgreater : y < x
        · rw [if_pos hgreater]
          exact Or.inl ⟨rfl, hlast hgreater.le⟩
        · rw [if_neg hgreater]
          exact Or.inr ⟨rfl, hfirst (not_lt.mp hgreater)⟩
    | false =>
        simp only [Bool.false_eq_true, if_false, decide_eq_true_eq,
          keyOf_lt_iff hf hx hy]
        by_cases hless : x < y
        · rw [if_pos hless]
          exact Or.inl ⟨rfl, hfirst hless.le⟩
        · rw [if_neg hless]
          exact Or.inr ⟨rfl, hlast (not_lt.mp hless)⟩

end Compare

/-- The comparisons and the selections follow one order, that of the extended
reals the patterns denote. -/
theorem comparisons_correct (f : Fmt) (hf : f = S ∨ f = D) (profile : Profile)
    (a b : ℕ) :
    (∃ result, eq f a b profile = some result ∧ IsEquality f a b result) ∧
    (∀ orEqual, ∃ result, lt f a b orEqual profile = some result ∧
      IsOrder f orEqual a b result) ∧
    ∀ wantMax, ∃ result, minMax f a b wantMax profile = some result ∧
      IsSelection f wantMax a b result := by
  have hstandard := standard_of hf
  exact ⟨eq_spec hstandard a b profile, lt_spec hstandard a b profile,
    minMax_spec hstandard a b profile⟩

/-- Minus zero is the smaller zero; of two NaNs, one of them signalling, the
canonical one comes back. -/
theorem comparisons_correct_zero :
    (minMax S 0 0x80000000 false .debug = some (0x80000000, 0) ∧
      ∃ result, minMax S 0 0x80000000 false .debug = some result ∧
        IsSelection S false 0 0x80000000 result) ∧
    minMax S 0xFFC00001 0x7F800001 true .debug = some (0x7FC00000, 16) ∧
      ∃ result, minMax S 0xFFC00001 0x7F800001 true .debug = some result ∧
        IsSelection S true 0xFFC00001 0x7F800001 result :=
  ⟨⟨by decide +kernel,
    (comparisons_correct S (Or.inl rfl) .debug 0 0x80000000).2.2 false⟩,
    by decide +kernel,
    (comparisons_correct S (Or.inl rfl) .debug 0xFFC00001 0x7F800001).2.2
      true⟩

end Fpu

end Nanoemu
