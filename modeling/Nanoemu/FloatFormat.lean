import Mathlib.Data.Nat.Bitwise
import Nanoemu.SoftFloat

/-!
# What a bit pattern denotes

A pattern is a sign, an exponent field and a fraction.  It denotes a signed
magnitude, an infinity, or no number, and unpacking finds which.
-/

namespace Nanoemu

open CheckedProgram

namespace Fpu

/-- How the sizes of a format fit together, and how large they can be. -/
structure Fmt.Standard (f : Fmt) : Prop where
  bits : f.bits = f.sig + f.expBits + 1
  sig_low : 2 ≤ f.sig
  sig_high : f.sig ≤ 52
  field : (f.maxField : ℤ) = 2 * f.bias + 1
  bias_low : 1 ≤ f.bias
  bias_high : f.bias ≤ 1023

example : S.bits = 32 ∧ S.expBits = 8 ∧ S.sig = 23 ∧ S.bias = 127 := by decide

example : D.bits = 64 ∧ D.expBits = 11 ∧ D.sig = 52 ∧ D.bias = 1023 := by decide

theorem standard_S : S.Standard := by
  constructor <;> decide

theorem standard_D : D.Standard := by
  constructor <;> decide

theorem standard_of {f : Fmt} (hf : f = S ∨ f = D) : f.Standard := by
  rcases hf with rfl | rfl
  · exact standard_S
  · exact standard_D

namespace Fmt

def signOf (f : Fmt) (x : ℕ) : Bool :=
  x.testBit (f.bits - 1)

def fieldOf (f : Fmt) (x : ℕ) : ℕ :=
  x / 2 ^ f.sig % 2 ^ f.expBits

def fracOf (f : Fmt) (x : ℕ) : ℕ :=
  x % 2 ^ f.sig

/-- The magnitude of a finite pattern by its parts: below the least normal
exponent the hidden bit is zero. -/
def value (f : Fmt) (field frac : ℕ) : ℚ :=
  if field = 0 then frac * 2 ^ f.minE
  else (2 ^ f.sig + frac : ℕ) * 2 ^ (field - f.bias - f.sig)

end Fmt

/-- What stands behind the sign of a pattern. -/
inductive Datum where
  | finite (magnitude : ℚ)
  | inf
  | nan (signalling : Bool)

/-- A fraction of zero makes the all-ones field an infinity; the top bit of
any other one is clear in a signalling NaN. -/
def datum (f : Fmt) (x : ℕ) : Datum :=
  if f.fieldOf x = f.maxField then
    if f.fracOf x = 0 then .inf
    else .nan (!(f.fracOf x).testBit (f.sig - 1))
  else .finite (f.value (f.fieldOf x) (f.fracOf x))

/-- A pattern of the format that denotes the datum under the given sign. -/
structure Fmt.Shows (f : Fmt) (x : ℕ) (sign : Bool) (d : Datum) : Prop where
  lt : x < 2 ^ f.bits
  sign : f.signOf x = sign
  datum : datum f x = d

/-- The canonical NaN is positive, and the quiet bit stands alone in its
fraction. -/
structure Fmt.ShowsNan (f : Fmt) (x : ℕ) : Prop
    extends f.Shows x false (.nan false) where
  frac : f.fracOf x = 2 ^ (f.sig - 1)

/-- The largest finite magnitude: all ones, under the largest exponent. -/
def Fmt.largest (f : Fmt) : ℚ :=
  (2 ^ (f.sig + 1) - 1) * 2 ^ (f.bias - f.sig)

/-- The exceptions that an operation accrues. -/
inductive Flag where
  | inexact
  | underflow
  | overflow
  | divideByZero
  | invalid

/-- The bit of an exception in `fflags`. -/
def Flag.place : Flag → ℕ
  | .inexact => 0
  | .underflow => 1
  | .overflow => 2
  | .divideByZero => 3
  | .invalid => 4

/-- The word in which the flags of the given exceptions are set. -/
def flagWord (raised : List Flag) : ℕ :=
  (raised.map fun flag => 2 ^ flag.place).sum

def Fmt.Gives (f : Fmt) (sign : Bool) (d : Datum) (raised : List Flag)
    (result : ℕ × ℕ) : Prop :=
  f.Shows result.1 sign d ∧ result.2 = flagWord raised

def Fmt.GivesNan (f : Fmt) (raised : List Flag) (result : ℕ × ℕ) : Prop :=
  f.ShowsNan result.1 ∧ result.2 = flagWord raised

/-- The invalid flag, where it is raised. -/
def invalidIf (condition : Bool) : List Flag :=
  if condition then [.invalid] else []

/-- A finite non-zero value as it is unpacked: the significand has its top bit
set. -/
structure Unpacked (f : Fmt) (m : ℕ) (e : ℤ) : Prop where
  low : 2 ^ f.sig ≤ m
  high : m < 2 ^ (f.sig + 1)
  exponent_low : f.minE - f.sig ≤ e
  exponent_high : e < f.maxField - f.bias - f.sig

/-- What a class stands for. -/
inductive Represents (f : Fmt) : Cls → Datum → Prop where
  | zero : Represents f .zero (.finite 0)
  | inf : Represents f .inf .inf
  | nan (signalling : Bool) :
      Represents f (.nan signalling) (.nan signalling)
  | num {m : ℕ} {e : ℤ} : Unpacked f m e →
      Represents f (.num m e) (.finite (m * 2 ^ e))

theorem split_div {high low k : ℕ} (hlow : low < 2 ^ k) :
    (high * 2 ^ k + low) / 2 ^ k = high := by
  rw [add_comm, Nat.add_mul_div_right _ _ (Nat.two_pow_pos k),
    Nat.div_eq_of_lt hlow, zero_add]

theorem split_mod {high low k : ℕ} (hlow : low < 2 ^ k) :
    (high * 2 ^ k + low) % 2 ^ k = low := by
  rw [Nat.mul_add_mod_self_right, Nat.mod_eq_of_lt hlow]

theorem join_lt {high low j k : ℕ} (hhigh : high < 2 ^ j) (hlow : low < 2 ^ k) :
    high * 2 ^ k + low < 2 ^ (j + k) := by
  have hle : (high + 1) * 2 ^ k ≤ 2 ^ j * 2 ^ k :=
    Nat.mul_le_mul_right _ hhigh
  rw [add_mul, one_mul, ← pow_add] at hle
  omega

theorem Fmt.maxField_lt (f : Fmt) : f.maxField < 2 ^ f.expBits := by
  have hpos : 0 < 2 ^ f.expBits := Nat.two_pow_pos _
  rw [Fmt.maxField]
  omega

/-- A pattern of the format with the given parts. -/
structure Fmt.Parts (f : Fmt) (x : ℕ) (sign : Bool) (field frac : ℕ) : Prop where
  lt : x < 2 ^ f.bits
  sign : f.signOf x = sign
  field : f.fieldOf x = field
  frac : f.fracOf x = frac

namespace Fmt.Standard

variable {f : Fmt} (hf : f.Standard)

include hf

theorem bits_sub : f.bits - 1 = f.expBits + f.sig := by
  rw [hf.bits, Nat.add_sub_cancel, add_comm]

theorem pack_eq (sign : Bool) {field frac : ℕ} (hfield : field < 2 ^ f.expBits)
    (hfrac : frac < 2 ^ f.sig) :
    f.zero sign ||| (field <<< f.sig) ||| frac =
      sign.toNat * 2 ^ (f.expBits + f.sig) + (field * 2 ^ f.sig + frac) := by
  have hzero : f.zero sign = sign.toNat <<< (f.expBits + f.sig) := by
    rw [Nat.shiftLeft_eq, Fmt.zero, Fmt.signMask, hf.bits_sub]
    cases sign <;> simp
  rw [Nat.or_assoc, ← Nat.shiftLeft_add_eq_or_of_lt hfrac,
    Nat.shiftLeft_eq field, hzero,
    ← Nat.shiftLeft_add_eq_or_of_lt (join_lt hfield hfrac), Nat.shiftLeft_eq]

theorem parts_pack (sign : Bool) {field frac : ℕ}
    (hfield : field < 2 ^ f.expBits) (hfrac : frac < 2 ^ f.sig) :
    f.Parts (f.zero sign ||| (field <<< f.sig) ||| frac) sign field frac := by
  have hlow := join_lt hfield hfrac
  rw [hf.pack_eq sign hfield hfrac]
  refine ⟨?_, ?_, ?_, ?_⟩
  · rw [hf.bits, show f.sig + f.expBits + 1 = 1 + (f.expBits + f.sig) by ring]
    exact join_lt sign.toNat_lt hlow
  · rw [Fmt.signOf, hf.bits_sub, Nat.testBit_eq_decide_div_mod_eq,
      split_div hlow]
    cases sign <;> rfl
  · rw [Fmt.fieldOf, pow_add, ← mul_assoc, ← add_assoc, ← add_mul,
      split_div hfrac, split_mod hfield]
  · rw [Fmt.fracOf, pow_add, ← mul_assoc, ← add_assoc, ← add_mul,
      split_mod hfrac]

theorem parts_flip (x : ℕ) (negate : Bool) :
    f.Parts ((x &&& f.mask) ^^^ (if negate then f.signMask else 0))
      (f.signOf x != negate) (f.fieldOf x) (f.fracOf x) := by
  have hbits := hf.bits
  have hflip : (if negate then f.signMask else 0) =
      negate.toNat * 2 ^ (f.bits - 1) := by
    cases negate
    · exact (Nat.zero_mul _).symm
    · exact (Nat.one_mul _).symm
  have hmask : x &&& f.mask = x % 2 ^ f.bits :=
    Nat.and_two_pow_sub_one_eq_mod x f.bits
  have hsplit : 2 ^ f.bits = 2 ^ f.sig * 2 ^ (f.expBits + 1) := by
    rw [← pow_add, hf.bits, add_assoc]
  have hlow : negate.toNat * 2 ^ (f.bits - 1) =
      negate.toNat * 2 ^ f.expBits * 2 ^ f.sig := by
    rw [hf.bits_sub, pow_add, mul_assoc]
  rw [hflip, hmask]
  refine ⟨?_, ?_, ?_, ?_⟩
  · refine Nat.xor_lt_two_pow (Nat.mod_lt x (Nat.two_pow_pos _)) ?_
    calc negate.toNat * 2 ^ (f.bits - 1) ≤ 1 * 2 ^ (f.bits - 1) :=
          Nat.mul_le_mul_right _ (Nat.lt_succ_iff.mp negate.toNat_lt)
      _ < 2 ^ f.bits := by
          rw [Nat.one_mul]
          exact Nat.pow_lt_pow_right (by decide) (by omega)
  · rw [Fmt.signOf, Nat.testBit_xor, Nat.testBit_mod_two_pow,
      decide_eq_true (by omega), Bool.true_and, Fmt.signOf]
    have hbit : (negate.toNat * 2 ^ (f.bits - 1)).testBit (f.bits - 1) =
        negate := by
      cases negate
      · rw [Bool.toNat_false, Nat.zero_mul, Nat.zero_testBit]
      · rw [Bool.toNat_true, Nat.one_mul, Nat.testBit_two_pow_self]
    rw [hbit]
  · rw [Fmt.fieldOf, Nat.xor_div_two_pow, Nat.xor_mod_two_pow, hlow,
      Nat.mul_div_cancel _ (Nat.two_pow_pos _), Nat.mul_mod_left,
      Nat.xor_zero, hsplit, Nat.mod_mul_right_div_self,
      Nat.mod_mod_of_dvd _ (pow_dvd_pow 2 (Nat.le_succ f.expBits)),
      Fmt.fieldOf]
  · rw [Fmt.fracOf, Nat.xor_mod_two_pow, hlow, Nat.mul_mod_left,
      Nat.xor_zero, Nat.mod_mod_of_dvd _ (pow_dvd_pow 2 (by omega)),
      Fmt.fracOf]

theorem parts_masked (x : ℕ) :
    f.Parts (x &&& f.mask) (f.signOf x) (f.fieldOf x) (f.fracOf x) := by
  have hparts := hf.parts_flip x false
  rwa [if_neg Bool.false_ne_true, Nat.xor_zero, Bool.bne_false] at hparts

theorem masked_sign (x : ℕ) :
    ((x &&& f.mask) &&& f.signMask != 0) = f.signOf x := by
  have hsign : (x &&& f.mask).testBit (f.bits - 1) = f.signOf x :=
    (hf.parts_masked x).sign
  rw [Fmt.signMask, Nat.and_two_pow, hsign]
  cases f.signOf x <;> simp

theorem masked_field (x : ℕ) :
    ((x &&& f.mask) >>> f.sig) &&& f.maxField = f.fieldOf x := by
  rw [Fmt.maxField, Nat.and_two_pow_sub_one_eq_mod, Nat.shiftRight_eq_div_pow]
  exact (hf.parts_masked x).field

theorem masked_frac (x : ℕ) :
    (x &&& f.mask) &&& f.sigMask = f.fracOf x := by
  rw [Fmt.sigMask, Nat.and_two_pow_sub_one_eq_mod]
  exact (hf.parts_masked x).frac

end Fmt.Standard

theorem Fmt.Parts.shows {f : Fmt} {x field frac : ℕ} {sign : Bool}
    (h : f.Parts x sign field frac) {d : Datum}
    (hdatum : Fpu.datum f x = d) : f.Shows x sign d :=
  ⟨h.lt, h.sign, hdatum⟩

namespace Fmt.Standard

variable {f : Fmt} (hf : f.Standard)

include hf

theorem maxField_pos : 0 < f.maxField := by
  have hfield := hf.field
  have hbias := hf.bias_low
  omega

theorem shows_zero (sign : Bool) : f.Shows (f.zero sign) sign (.finite 0) := by
  have hpos := hf.maxField_pos
  have hparts := hf.parts_pack sign (hpos.trans f.maxField_lt)
    (Nat.two_pow_pos f.sig)
  rw [Nat.zero_shiftLeft, Nat.or_zero, Nat.or_zero] at hparts
  apply hparts.shows
  rw [datum, hparts.field, hparts.frac, if_neg hpos.ne, Fmt.value, if_pos rfl,
    Nat.cast_zero, zero_mul]

theorem shows_inf (sign : Bool) : f.Shows (f.inf sign) sign .inf := by
  have hparts := hf.parts_pack sign f.maxField_lt (Nat.two_pow_pos f.sig)
  rw [Nat.or_zero, Nat.or_comm] at hparts
  apply hparts.shows
  rw [datum, if_pos hparts.field, if_pos hparts.frac]

theorem showsNan_nan : f.ShowsNan f.nan := by
  have hsig := hf.sig_low
  have hquiet : f.quietBit < 2 ^ f.sig :=
    Nat.pow_lt_pow_right (by decide) (by omega)
  have hparts := hf.parts_pack false f.maxField_lt hquiet
  rw [Fmt.zero, if_neg Bool.false_ne_true, Nat.zero_or] at hparts
  refine ⟨hparts.shows ?_, hparts.frac⟩
  rw [datum, if_pos hparts.field, hparts.frac, Fmt.quietBit,
    if_neg (Nat.two_pow_pos _).ne', Nat.testBit_two_pow_self]
  rfl

theorem shows_maxFinite (sign : Bool) :
    f.Shows (f.maxFinite sign) sign (.finite f.largest) := by
  have hpos := hf.maxField_pos
  have hfield := hf.field
  have hbias := hf.bias_low
  have hone : 0 < 2 ^ f.sig := Nat.two_pow_pos _
  have hmask : f.sigMask < 2 ^ f.sig := Nat.sub_lt hone one_pos
  have hparts := hf.parts_pack sign
    ((Nat.sub_lt hpos one_pos).trans f.maxField_lt) hmask
  rw [Nat.or_comm (f.zero sign), Nat.or_assoc, Nat.or_comm (f.zero sign),
    ← Nat.or_assoc] at hparts
  apply hparts.shows
  have hexponent : ((f.maxField - 1 : ℕ) : ℤ) - f.bias - f.sig =
      f.bias - f.sig := by omega
  rw [datum, hparts.field, hparts.frac, if_neg (by omega), Fmt.value,
    if_neg (by omega), hexponent, Fmt.largest, Fmt.sigMask, Nat.cast_add,
    Nat.cast_sub hone]
  push_cast
  ring_nf

theorem gives_zero (sign : Bool) (raised : List Flag) :
    f.Gives sign (.finite 0) raised (f.zero sign, flagWord raised) :=
  ⟨hf.shows_zero sign, rfl⟩

theorem gives_inf (sign : Bool) (raised : List Flag) :
    f.Gives sign .inf raised (f.inf sign, flagWord raised) :=
  ⟨hf.shows_inf sign, rfl⟩

theorem gives_maxFinite (sign : Bool) (raised : List Flag) :
    f.Gives sign (.finite f.largest) raised
      (f.maxFinite sign, flagWord raised) :=
  ⟨hf.shows_maxFinite sign, rfl⟩

theorem givesNan_nan (raised : List Flag) :
    f.GivesNan raised (f.nan, flagWord raised) :=
  ⟨hf.showsNan_nan, rfl⟩

end Fmt.Standard

theorem flagWord_invalidIf (condition : Bool) :
    flagWord (invalidIf condition) = if condition then NV else 0 := by
  cases condition <;> rfl

theorem signalling_eq (f : Fmt) (frac : ℕ) :
    (frac &&& f.quietBit == 0) = !frac.testBit (f.sig - 1) := by
  rw [Fmt.quietBit, Nat.and_two_pow]
  cases frac.testBit (f.sig - 1) <;> simp

/-! ## Unpacking -/

theorem bitLen_le_iff {m k : ℕ} : bitLen m ≤ k ↔ m < 2 ^ k := by
  rw [bitLen]
  split
  · next hzero =>
      rw [hzero]
      exact iff_of_true (Nat.zero_le k) (Nat.two_pow_pos k)
  · next hne => rw [Nat.succ_le_iff, Nat.log2_lt hne]

theorem lt_bitLen_iff {m k : ℕ} : k < bitLen m ↔ 2 ^ k ≤ m := by
  rw [← not_le, bitLen_le_iff, not_lt]

theorem shiftUp_bounds {m k : ℕ} (hm : m ≠ 0) (hk : bitLen m ≤ k) :
    2 ^ (k - 1) ≤ m * 2 ^ (k - bitLen m) ∧
      m * 2 ^ (k - bitLen m) < 2 ^ k := by
  have hpos : 0 < bitLen m := lt_bitLen_iff.mpr (Nat.one_le_iff_ne_zero.mpr hm)
  have hlow : 2 ^ (bitLen m - 1) ≤ m := lt_bitLen_iff.mp (by omega)
  have hhigh : m < 2 ^ bitLen m := bitLen_le_iff.mp le_rfl
  constructor
  · calc 2 ^ (k - 1) = 2 ^ (bitLen m - 1) * 2 ^ (k - bitLen m) := by
          rw [← pow_add]
          congr 1
          omega
      _ ≤ m * 2 ^ (k - bitLen m) := Nat.mul_le_mul_right _ hlow
  · calc m * 2 ^ (k - bitLen m) < 2 ^ bitLen m * 2 ^ (k - bitLen m) :=
          Nat.mul_lt_mul_of_pos_right hhigh (Nat.two_pow_pos _)
      _ = 2 ^ k := by
          rw [← pow_add]
          congr 1
          omega

section Unpack

variable {f : Fmt} (hf : f.Standard)

include hf

theorem unpackSubnormal_spec {frac : ℕ} (hfrac : frac < 2 ^ f.sig)
    (hpos : frac ≠ 0) (profile : Profile) :
    ∃ cls, unpackSubnormal f frac profile = some cls ∧
      Represents f cls (.finite (frac * 2 ^ f.minE)) := by
  have hsig := hf.sig_high
  have hlen : bitLen frac ≤ f.sig := bitLen_le_iff.mpr hfrac
  have hlenPos : 0 < bitLen frac :=
    lt_bitLen_iff.mpr (Nat.one_le_iff_ne_zero.mpr hpos)
  have hzeros : 64 - leadingZeros 64 frac = bitLen frac := by
    rw [leadingZeros]
    omega
  have hbias := hf.bias_high
  have hbiasLow := hf.bias_low
  have hminE : f.minE = 1 - f.bias - f.sig := rfl
  set shift := f.sig + 1 - bitLen frac with hshift
  obtain ⟨hlow, hhigh⟩ :=
    shiftUp_bounds hpos (hlen.trans (Nat.le_add_right _ 1))
  rw [← hshift, Nat.add_sub_cancel] at hlow
  have hword : frac * 2 ^ shift < 2 ^ 128 :=
    hhigh.trans_le (Nat.pow_le_pow_right (by decide) (by omega))
  have hm : frac <<< shift % 2 ^ 128 = frac * 2 ^ shift := by
    rw [Nat.shiftLeft_eq, Nat.mod_eq_of_lt hword]
  refine ⟨.num (frac * 2 ^ shift) (f.minE - shift), ?_, ?_⟩
  · rw [unpackSubnormal,
      Checked.usub_eq_pure (by rw [leadingZeros]; exact Nat.sub_le _ _), hzeros,
      pure_bind, Checked.uadd_eq_pure (by omega), pure_bind,
      Checked.usub_eq_pure (by omega), pure_bind,
      Checked.ushl_eq_pure (by omega), pure_bind,
      Checked.isub_eq_pure (by omega) (by omega), pure_bind, hm]
    rfl
  · have hvalue : (frac * 2 ^ f.minE : ℚ) =
        (frac * 2 ^ shift : ℕ) * 2 ^ (f.minE - shift) := by
      rw [zpow_sub₀ two_ne_zero, zpow_natCast]
      push_cast
      field_simp
    rw [hvalue]
    have hfield := hf.field
    exact .num ⟨hlow, hhigh, by omega, by omega⟩

theorem unpackNormal_spec {field frac : ℕ} (hfrac : frac < 2 ^ f.sig)
    (hpos : field ≠ 0) (hmax : field < f.maxField) (profile : Profile) :
    ∃ cls, unpackNormal f field frac profile = some cls ∧
      Represents f cls
        (.finite ((2 ^ f.sig + frac : ℕ) * 2 ^ (field - f.bias - f.sig))) := by
  have hsig := hf.sig_high
  have hbias := hf.bias_high
  have hbiasLow := hf.bias_low
  have hfield := hf.field
  have hm : (1 <<< f.sig) ||| frac = 2 ^ f.sig + frac := by
    rw [← Nat.shiftLeft_add_eq_or_of_lt hfrac, Nat.one_shiftLeft]
  refine ⟨.num (2 ^ f.sig + frac) (field - f.bias - f.sig), ?_, ?_⟩
  · rw [unpackNormal, Checked.isub_eq_pure (by omega) (by omega), pure_bind,
      Checked.isub_eq_pure (by omega) (by omega), pure_bind, hm]
    rfl
  · refine .num ⟨Nat.le_add_right _ _, ?_, ?_, ?_⟩
    · rw [pow_succ]
      omega
    · have hminE : f.minE = 1 - f.bias - f.sig := rfl
      omega
    · omega

/-- Unpacking finds what a pattern denotes. -/
theorem unpack_spec (x : ℕ) (profile : Profile) :
    ∃ cls, unpack f x profile = some (f.signOf x, cls) ∧
      Represents f cls (datum f x) := by
  have hfrac : f.fracOf x < 2 ^ f.sig := Nat.mod_lt _ (Nat.two_pow_pos _)
  have hfield : f.fieldOf x < 2 ^ f.expBits := Nat.mod_lt _ (Nat.two_pow_pos _)
  rw [unpack]
  dsimp only
  rw [hf.masked_sign, hf.masked_field, hf.masked_frac, datum, signalling_eq]
  by_cases hmax : f.fieldOf x = f.maxField
  · rw [if_pos hmax, if_pos hmax]
    split
    · exact ⟨_, rfl, .inf⟩
    · exact ⟨_, rfl, .nan _⟩
  rw [if_neg hmax, if_neg hmax, Fmt.value]
  by_cases hzero : f.fieldOf x = 0
  · rw [if_pos hzero, if_pos hzero]
    by_cases hfracZero : f.fracOf x = 0
    · rw [if_pos hfracZero, hfracZero, Nat.cast_zero, zero_mul]
      exact ⟨_, rfl, .zero⟩
    · obtain ⟨cls, hrun, hrepresents⟩ :=
        unpackSubnormal_spec hf hfrac hfracZero profile
      rw [if_neg hfracZero]
      exact ⟨cls, Checked.bind_of_some hrun, hrepresents⟩
  · have hlt : f.fieldOf x < f.maxField := by
      rw [Fmt.maxField] at hmax ⊢
      omega
    obtain ⟨cls, hrun, hrepresents⟩ :=
      unpackNormal_spec hf hfrac hzero hlt profile
    rw [if_neg hzero, if_neg hzero]
    exact ⟨cls, Checked.bind_of_some hrun, hrepresents⟩

end Unpack

end Fpu

end Nanoemu
