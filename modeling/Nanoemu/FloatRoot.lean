import Mathlib.Analysis.Real.Sqrt
import Nanoemu.FloatProduct

/-!
# Correctly rounded square roots

The radicand is shifted up by 64 or 65 places, whichever leaves its exponent
even, and Newton's iteration finds the whole part of its root.  The root is
irrational or whole, so one sticky bit tells the rounding all it has to know.
A root is never as small as a subnormal number and never overflows.
-/

namespace Nanoemu

open CheckedProgram GridRounding

namespace Fpu

/-- What the root of a positive operand must be: the real root rounded once,
inexact unless the format has it, and no other flag. -/
def CorrectRoot (f : Fmt) (rm : Rm) (root : ℝ) (result : ℕ × ℕ) : Prop :=
  ∃ y : ℚ, Rounds (binaryGrid ℝ (f.sig + 1) f.minE)
      (EvenSignificand (f.sig + 1) f.minE) (rm.direction false) root y ∧
    f.Shows result.1 false (.finite y) ∧
    (result.2 = flagWord [] ∨ result.2 = flagWord [.inexact]) ∧
    (result.2 = flagWord [.inexact] ↔
      ¬ ∃ bits z, datum f bits = .finite z ∧ (z : ℝ) = root)

/-- What a square root must return; minus zero is the one negative operand
that has a root. -/
def IsRoot (f : Fmt) (rm : Rm) (sign : Bool) (a : Datum) (result : ℕ × ℕ) :
    Prop :=
  match a with
  | .finite x =>
      if x = 0 then f.Gives sign (.finite 0) [] result
      else if sign then f.GivesNan [.invalid] result
      else CorrectRoot f rm (√(x : ℝ)) result
  | .inf =>
      if sign then f.GivesNan [.invalid] result
      else f.Gives false .inf [] result
  | .nan signalling => f.GivesNan (invalidIf signalling) result

theorem newton_above {n x : ℕ} (hx : 0 < x) :
    n < ((x + n / x) / 2 + 1) ^ 2 := by
  set q := n / x with hq
  set next := (x + q) / 2 with hnext
  have hrest : n < x * (q + 1) := by
    rw [mul_comm]
    exact Nat.lt_mul_of_div_lt (Nat.lt_succ_self _) hx
  have hhalf : x + q + 1 ≤ 2 * (next + 1) := by omega
  -- The geometric mean of `x` and `q + 1` is at most their arithmetic mean.
  have hmean : 4 * (x * (q + 1)) ≤ (x + q + 1) ^ 2 := by
    have hfour := four_mul_le_sq_add x (q + 1)
    calc 4 * (x * (q + 1)) = 4 * x * (q + 1) := by ring
      _ ≤ (x + (q + 1)) ^ 2 := hfour
      _ = (x + q + 1) ^ 2 := by ring
  have hsquare : (x + q + 1) ^ 2 ≤ 4 * (next + 1) ^ 2 :=
    calc (x + q + 1) ^ 2 ≤ (2 * (next + 1)) ^ 2 := Nat.pow_le_pow_left hhalf 2
      _ = 4 * (next + 1) ^ 2 := by ring
  omega

/-- Above the root, the quotient is hardly larger than the divisor. -/
theorem newton_quotient {n x : ℕ} (habove : n < (x + 1) ^ 2) :
    n / x ≤ x + 2 := by
  apply Nat.div_le_of_le_mul
  have hsquare : (x + 1) ^ 2 = x * (x + 2) + 1 := by ring
  omega

theorem newton_pos {n x : ℕ} (hn : 0 < n) (hx : 0 < x) :
    0 < (x + n / x) / 2 := by
  have hsum : 2 ≤ x + n / x := by
    rcases Nat.eq_or_lt_of_le (Nat.succ_le_of_lt hx) with hone | hmore
    · rw [← hone, Nat.div_one]
      omega
    · exact Nat.le_add_right_of_le hmore
  omega

theorem newton_spec {n x : ℕ} (hn : 0 < n) (hx : 0 < x)
    (habove : n < (x + 1) ^ 2) (hword : 2 * x + 2 < 2 ^ 128)
    (profile : Profile) : newton n x profile = some (Nat.sqrt n) := by
  induction x using Nat.strong_induction_on with
  | _ x ih =>
      have hquotient := newton_quotient habove
      have hdiv : Checked.udiv n x profile = some (n / x) := by
        rw [Checked.udiv_eq_pure hx.ne']
        rfl
      have hsum : Checked.uadd 128 x (n / x) profile = some (x + n / x) := by
        rw [Checked.uadd_eq_pure (by omega)]
        rfl
      unfold newton
      simp only [hdiv, hsum, Nat.shiftRight_one]
      by_cases hless : (x + n / x) / 2 < x
      · rw [if_pos hless]
        exact ih _ hless (newton_pos hn hx) (newton_above hx) (by omega)
      · have hbelow : x ^ 2 ≤ n := by
          have hle : x ≤ n / x := by omega
          rw [Nat.le_div_iff_mul_le hx] at hle
          rwa [sq]
        rw [if_neg hless]
        exact congrArg some (Nat.eq_sqrt'.mpr ⟨hbelow, habove⟩)

theorem newton_start (n : ℕ) : n < (2 ^ ((bitLen n + 1) / 2) + 1) ^ 2 := by
  set k := (bitLen n + 1) / 2 with hk
  calc n < 2 ^ bitLen n := bitLen_le_iff.mp le_rfl
    _ ≤ 2 ^ (k * 2) := Nat.pow_le_pow_right (by decide) (by omega)
    _ = (2 ^ k) ^ 2 := pow_mul 2 k 2
    _ ≤ (2 ^ k + 1) ^ 2 := Nat.pow_le_pow_left (Nat.le_succ _) 2

theorem newton_start_le {n : ℕ} (hn : n < 2 ^ 128) :
    (bitLen n + 1) / 2 ≤ 64 := by
  have hlen : bitLen n ≤ 128 := bitLen_le_iff.mpr hn
  omega

theorem isqrt_spec {n : ℕ} (hn : n < 2 ^ 128) (profile : Profile) :
    isqrt n profile = some (Nat.sqrt n) := by
  unfold isqrt
  by_cases hzero : n = 0
  · rw [if_pos hzero, hzero, Nat.sqrt_zero]
    rfl
  · have hhalf := newton_start_le hn
    have habove := newton_start n
    set k := (bitLen n + 1) / 2
    have hk64 : 2 ^ k ≤ 2 ^ 64 := Nat.pow_le_pow_right (by decide) hhalf
    have hstart : Checked.ushl 128 1 k = pure (2 ^ k) := by
      rw [Checked.ushl_eq_pure (by omega), one_shiftLeft_word (by omega)]
    rw [if_neg hzero, hstart, pure_bind]
    exact newton_spec (Nat.pos_of_ne_zero hzero) (Nat.two_pow_pos k) habove
      (by omega) profile

/-- The values that `x` takes at the head of the loop. -/
inductive RootIterate (n : ℕ) : ℕ → Prop where
  | start : RootIterate n (1 <<< ((bitLen n + 1) / 2))
  | next {x : ℕ} : RootIterate n x → (x + n / x) / 2 < x →
      RootIterate n ((x + n / x) / 2)

theorem RootIterate.above {n x : ℕ} (h : RootIterate n x) (hn : 0 < n) :
    0 < x ∧ n < (x + 1) ^ 2 ∧ x ≤ 1 <<< ((bitLen n + 1) / 2) := by
  induction h with
  | start =>
      rw [Nat.one_shiftLeft]
      exact ⟨Nat.two_pow_pos _, newton_start n, le_rfl⟩
  | next _ hless ih =>
      obtain ⟨hpos, -, hle⟩ := ih
      exact ⟨newton_pos hn hpos, newton_above hpos, hless.le.trans hle⟩

/-- The loop ends with the whole part of the root.  The start fits the word,
nothing is divided by zero and no sum leaves the word. -/
theorem isqrt_whole {n : ℕ} (hn : n < 2 ^ 128) (profile : Profile) :
    (∃ r, isqrt n profile = some r ∧ r * r ≤ n ∧ n < (r + 1) * (r + 1)) ∧
    (0 < n → 1 <<< ((bitLen n + 1) / 2) < 2 ^ 128 ∧
      ∀ x, RootIterate n x → 0 < x ∧ x + n / x < 2 ^ 128) := by
  constructor
  · exact ⟨Nat.sqrt n, isqrt_spec hn profile, Nat.sqrt_le n,
      Nat.lt_succ_sqrt n⟩
  · intro hpos
    have hstart : 1 <<< ((bitLen n + 1) / 2) ≤ 2 ^ 64 := by
      rw [Nat.one_shiftLeft]
      exact Nat.pow_le_pow_right (by decide) (newton_start_le hn)
    constructor
    · omega
    · intro x hx
      obtain ⟨hx, habove, hle⟩ := hx.above hpos
      have hquotient := newton_quotient habove
      exact ⟨hx, by omega⟩

/-- The root of the largest word. -/
theorem isqrt_whole_largest :
    ∃ r, isqrt (2 ^ 128 - 1) .debug = some r ∧ r * r ≤ 2 ^ 128 - 1 ∧
      2 ^ 128 - 1 < (r + 1) * (r + 1) :=
  (isqrt_whole (by decide) .debug).1

/-- The root with its sticky bit stands for the real one. -/
theorem jammed_sqrt (n : ℕ) :
    Jammed (Nat.sqrt n ||| (if Nat.sqrt n * Nat.sqrt n ≠ n then 1 else 0))
      (√(n : ℝ)) := by
  apply jammed_of_whole Real.nat_sqrt_le_real_sqrt
    Real.real_sqrt_lt_nat_sqrt_succ
  rw [ne_eq, ne_eq, not_iff_not,
    Real.sqrt_eq_iff_mul_self_eq (Nat.cast_nonneg n) (Nat.cast_nonneg _)]
  exact_mod_cast eq_comm

section Root

variable {f : Fmt} (hf : f.Standard)

include hf

theorem Unpacked.root_roundable {m shift : ℕ} {e k : ℤ} (h : Unpacked f m e)
    (hshift : shift = 64 ∨ shift = 65) (heven : e - shift = 2 * k) :
    Roundable f
      (Nat.sqrt (m * 2 ^ shift) |||
        (if Nat.sqrt (m * 2 ^ shift) * Nat.sqrt (m * 2 ^ shift) ≠
          m * 2 ^ shift then 1 else 0))
      k (√(m * 2 ^ shift : ℕ) : ℝ) := by
  have hsig := hf.sig_high
  have hoperand := Unpacked.operand hf h
  have hlow := hoperand.low
  have hhigh := hoperand.high
  have hjammed := jammed_sqrt (m * 2 ^ shift)
  set n := m * 2 ^ shift with hn
  set r := Nat.sqrt n with hr
  have hlarge : 2 ^ (f.sig + 2) ≤ r := by
    rw [hr, Nat.le_sqrt']
    calc (2 ^ (f.sig + 2)) ^ 2 = 2 ^ ((f.sig + 2) * 2) := (pow_mul 2 _ 2).symm
      _ ≤ 2 ^ (f.sig + shift) := Nat.pow_le_pow_right (by decide) (by omega)
      _ = 2 ^ f.sig * 2 ^ shift := pow_add 2 _ _
      _ ≤ n := Nat.mul_le_mul_right _ h.low
  have hsmall : r < 2 ^ 60 := by
    rw [hr, Nat.sqrt_lt']
    calc n < 2 ^ (f.sig + 1) * 2 ^ shift :=
          Nat.mul_lt_mul_of_pos_right h.high (Nat.two_pow_pos _)
      _ = 2 ^ (f.sig + 1 + shift) := (pow_add 2 _ _).symm
      _ ≤ 2 ^ (60 * 2) := Nat.pow_le_pow_right (by decide) (by omega)
      _ = (2 ^ 60) ^ 2 := pow_mul 2 60 2
  have hjam := or_sticky r (r * r ≠ n)
  have hlen : f.sig + 2 < bitLen (r ||| (if r * r ≠ n then 1 else 0)) :=
    lt_bitLen_iff.mpr (hlarge.trans hjam.1)
  have hpos := Nat.two_pow_pos (f.sig + 2)
  exact
    { ne_zero := by omega
      word := by omega
      fits := Or.inr (by omega)
      jammed := hjammed
      wide := Or.inr hlen
      exponent_low := by omega
      exponent_high := by omega }

end Root

theorem sqrt_scaled {m shift : ℕ} {e k : ℤ} (heven : e - shift = 2 * k) :
    √(m * 2 ^ shift : ℕ) * 2 ^ k = √((m * 2 ^ e : ℚ) : ℝ) := by
  have hunit : (0 : ℝ) < 2 ^ k := zpow_pos two_pos k
  have hvalue : ((m * 2 ^ e : ℚ) : ℝ) = (m * 2 ^ shift : ℕ) * (2 ^ k) ^ 2 := by
    rw [show e = shift + (k + k) by omega, zpow_add₀ two_ne_zero,
      zpow_add₀ two_ne_zero, zpow_natCast]
    push_cast
    ring
  rw [hvalue, Real.sqrt_mul (Nat.cast_nonneg _), Real.sqrt_sq hunit.le]

section Range

variable {f : Fmt} {m : ℕ} {e : ℤ} (h : Unpacked f m e)

include h

theorem Unpacked.root_high (hf : f.Standard) :
    √((m * 2 ^ e : ℚ) : ℝ) ≤ ((2 ^ (f.bias : ℤ) : ℚ) : ℝ) := by
  have hfield := hf.field
  have hbias := hf.bias_low
  have hhigh := h.exponent_high
  have hle : (m * 2 ^ e : ℚ) ≤ (2 ^ (f.bias : ℤ)) ^ 2 :=
    calc (m * 2 ^ e : ℚ) ≤ 2 ^ (f.sig + 1) * 2 ^ e := by
          apply mul_le_mul_of_nonneg_right _ (zpow_nonneg zero_le_two e)
          exact_mod_cast h.high.le
      _ = 2 ^ ((f.sig + 1 : ℕ) + e) := by
          rw [zpow_add₀ two_ne_zero, zpow_natCast]
      _ ≤ 2 ^ ((f.bias : ℤ) * 2) := zpow_le_zpow_right₀ one_le_two (by omega)
      _ = (2 ^ (f.bias : ℤ)) ^ 2 := by rw [zpow_mul, zpow_ofNat]
  rw [Real.sqrt_le_left (by positivity)]
  exact_mod_cast hle

/-- The root of the least subnormal number is a normal one, where exponents
reach lower than the places of the significand. -/
theorem Unpacked.root_low (hwide : f.sig < f.bias) :
    (f.leastNormal : ℝ) ≤ √((m * 2 ^ e : ℚ) : ℝ) := by
  have hmin : f.minE = 1 - f.bias - f.sig := rfl
  have hlow := h.exponent_low
  have hle : f.leastNormal ^ 2 ≤ m * 2 ^ e :=
    calc f.leastNormal ^ 2 = 2 ^ ((f.sig + f.minE) * 2) := by
          rw [Fmt.leastNormal, zpow_mul, zpow_add₀ two_ne_zero, zpow_natCast,
            zpow_ofNat]
      _ ≤ 2 ^ (f.sig + e) := zpow_le_zpow_right₀ one_le_two (by omega)
      _ = 2 ^ f.sig * 2 ^ e := by rw [zpow_add₀ two_ne_zero, zpow_natCast]
      _ ≤ m * 2 ^ e := by
          apply mul_le_mul_of_nonneg_right _ (zpow_nonneg zero_le_two e)
          exact_mod_cast h.low
  apply Real.le_sqrt_of_sq_le
  exact_mod_cast hle

theorem Unpacked.root_correct (hf : f.Standard) (hwide : f.sig < f.bias)
    {rm : Rm} {y : ℚ} {result : ℕ × ℕ}
    (hrounded : RoundedTo f rm false (√((m * 2 ^ e : ℚ) : ℝ)) y result) :
    CorrectRoot f rm (√((m * 2 ^ e : ℚ) : ℝ)) result := by
  have hroot_high := h.root_high hf
  have hroot_low := h.root_low hwide
  have hrounds := hrounded.rounds
  have hfield := hf.field
  have hmin : f.minE = 1 - f.bias - f.sig := rfl
  generalize √((m * 2 ^ e : ℚ) : ℝ) = root at *
  have hlimit : y < f.limit := by
    have hmem : ((2 ^ (f.bias : ℤ) : ℚ) : ℝ) ∈
        binaryGrid ℝ (f.sig + 1) f.minE := by
      refine ⟨1, f.bias, Nat.one_lt_two_pow (Nat.succ_ne_zero _), by omega, ?_⟩
      push_cast
      rw [one_mul]
    have hle : y ≤ 2 ^ (f.bias : ℤ) := by
      exact_mod_cast hrounds.le_of_le hmem hroot_high
    exact hle.trans_lt (zpow_lt_zpow_right₀ one_lt_two (by omega))
  have hnormal : f.leastNormal ≤ y := by
    have hmem : (f.leastNormal : ℝ) ∈ binaryGrid ℝ (f.sig + 1) f.minE := by
      refine ⟨2 ^ f.sig, f.minE, ?_, le_rfl, ?_⟩
      · exact Nat.pow_lt_pow_right (by decide) (Nat.lt_succ_self _)
      · rw [Fmt.leastNormal]
        push_cast
        rfl
    exact_mod_cast hrounds.ge_of_ge hmem hroot_low
  have hflags := hrounded.flags hlimit (Or.inr hnormal)
  have hencodes := hrounded.encodes
  rw [Encodes, if_neg (not_le.mpr hlimit)] at hencodes
  obtain ⟨hshows, -⟩ := hencodes
  refine ⟨y, hrounds, hshows, ?_, ?_⟩
  · rw [hflags]
    cases decide ((y : ℝ) ≠ root) with
    | false => exact Or.inl rfl
    | true => exact Or.inr rfl
  · rw [hflags]
    by_cases hexact : (y : ℝ) = root
    · rw [decide_eq_false (not_not.mpr hexact)]
      exact iff_of_false (by decide)
        (not_not.mpr ⟨_, y, hshows.datum, hexact⟩)
    · rw [decide_eq_true hexact]
      refine iff_of_true rfl ?_
      rintro ⟨bits, z, hz, rfl⟩
      obtain ⟨⟨k, e', hk, he', rfl⟩, -⟩ := mem_of_datum hz
      refine hexact (hrounds.eq_of_mem ⟨k, e', hk, he', ?_⟩)
      push_cast
      rfl

end Range

/-! ## Square roots -/

section Sqrt

variable {f : Fmt} (hf : f.Standard) (hwide : f.sig < f.bias) (rm : Rm)
  (profile : Profile)

include hf hwide

theorem sqrt_num {m : ℕ} {e : ℤ} (h : Unpacked f m e) :
    ∃ result, (do
        let low ← Checked.isub 32 e 64
        let shift : ℕ := if low % 2 = 0 then 64 else 65
        let radicand ← Checked.ushl 128 m shift
        let r ← isqrt radicand
        let square ← Checked.umul 128 r r
        let e ← Checked.isub 32 e shift
        roundPack f false (r ||| (if square ≠ radicand then 1 else 0))
          (e.tdiv 2) rm) profile = some result ∧
      CorrectRoot f rm (√((m * 2 ^ e : ℚ) : ℝ)) result := by
  have hsig := hf.sig_high
  have hoperand := Unpacked.operand hf h
  have hlow := hoperand.low
  have hhigh := hoperand.high
  have hparity : ∃ (shift : ℕ) (k : ℤ),
      (if (e - 64) % 2 = 0 then 64 else 65) = shift ∧
      (shift = 64 ∨ shift = 65) ∧ e - shift = 2 * k := by
    by_cases heven : (e - 64) % 2 = 0
    · exact ⟨64, (e - 64) / 2, if_pos heven, Or.inl rfl, by omega⟩
    · exact ⟨65, (e - 65) / 2, if_neg heven, Or.inr rfl, by omega⟩
  obtain ⟨shift, k, hchosen, hshift, heven⟩ := hparity
  have hradicand : m * 2 ^ shift < 2 ^ 118 :=
    calc m * 2 ^ shift < 2 ^ (f.sig + 1) * 2 ^ shift :=
          Nat.mul_lt_mul_of_pos_right h.high (Nat.two_pow_pos _)
      _ = 2 ^ (f.sig + 1 + shift) := (pow_add 2 _ _).symm
      _ ≤ 2 ^ 118 := Nat.pow_le_pow_right (by decide) (by omega)
  have hushl : Checked.ushl 128 m shift = pure (m * 2 ^ shift) := by
    rw [Checked.ushl_eq_pure (by omega), Nat.shiftLeft_eq,
      Nat.mod_eq_of_lt (by omega)]
  have hsquare : Nat.sqrt (m * 2 ^ shift) * Nat.sqrt (m * 2 ^ shift) ≤
      m * 2 ^ shift := Nat.sqrt_le _
  have hisqrt : isqrt (m * 2 ^ shift) profile =
      some (Nat.sqrt (m * 2 ^ shift)) := isqrt_spec (by omega) profile
  obtain ⟨result, y, hrun, hrounded⟩ := roundPack_rounds hf
    (h.root_roundable hf hshift heven) false rm profile
  rw [sqrt_scaled heven] at hrounded
  refine ⟨result, ?_, h.root_correct hf hwide hrounded⟩
  rw [Checked.isub_eq_pure (by omega) (by omega), pure_bind, hchosen, hushl,
    pure_bind, Checked.bind_of_some hisqrt, Checked.umul_eq_pure (by omega), pure_bind,
    Checked.isub_eq_pure (by omega) (by omega), pure_bind, heven,
    Int.mul_tdiv_cancel_left k two_ne_zero]
  exact hrun

theorem sqrt_spec (a : ℕ) :
    ∃ result, sqrt f a rm profile = some result ∧
      IsRoot f rm (f.signOf a) (datum f a) result := by
  obtain ⟨c, hrun, hrepresents⟩ := unpack_spec hf a profile
  unfold sqrt
  rw [Checked.bind_of_some hrun]
  dsimp only
  generalize datum f a = d at hrepresents
  generalize f.signOf a = sign
  cases hrepresents with
  | nan signalling =>
      refine ⟨_, rfl, nanResult_gives hf ?_⟩
      rw [List.any_cons, List.any_nil, Bool.or_false]
      rfl
  | inf =>
      cases sign with
      | false => exact ⟨_, rfl, hf.gives_inf false []⟩
      | true => exact ⟨_, rfl, hf.givesNan_nan [.invalid]⟩
  | zero =>
      refine ⟨_, rfl, ?_⟩
      rw [IsRoot, if_pos rfl]
      exact hf.gives_zero sign []
  | @num m e hm =>
      have hpos := (Unpacked.operand hf hm).pos
      unfold IsRoot
      simp only [if_neg hpos.ne']
      cases sign with
      | true => exact ⟨_, rfl, hf.givesNan_nan [.invalid]⟩
      | false => exact sqrt_num hf hwide rm profile hm

end Sqrt

/-- The square root rounds the real root once, in either format and under
either build. -/
theorem sqrt_correct (f : Fmt) (hf : f = S ∨ f = D) (rm : Rm)
    (profile : Profile) (a : ℕ) :
    ∃ result, sqrt f a rm profile = some result ∧
      IsRoot f rm (f.signOf a) (datum f a) result := by
  have hwide : f.sig < f.bias := by
    rcases hf with rfl | rfl
    · decide
    · decide
  exact sqrt_spec (standard_of hf) hwide rm profile a

/-- The root of two, upwards, of plus infinity and of minus one. -/
theorem sqrt_correct_two :
    (sqrt S 0x40000000 .rup .debug = some (0x3FB504F4, 1) ∧
      ∃ result, sqrt S 0x40000000 .rup .debug = some result ∧
        IsRoot S .rup false (datum S 0x40000000) result) ∧
    (sqrt S 0x7F800000 .rne .debug = some (0x7F800000, 0) ∧
      ∃ result, sqrt S 0x7F800000 .rne .debug = some result ∧
        IsRoot S .rne false (datum S 0x7F800000) result) ∧
    sqrt S 0xBF800000 .rne .debug = some (0x7FC00000, 16) ∧
      ∃ result, sqrt S 0xBF800000 .rne .debug = some result ∧
        IsRoot S .rne true (datum S 0xBF800000) result :=
  ⟨⟨by decide +kernel, sqrt_correct S (Or.inl rfl) .rup .debug 0x40000000⟩,
    ⟨by decide +kernel, sqrt_correct S (Or.inl rfl) .rne .debug 0x7F800000⟩,
    by decide +kernel, sqrt_correct S (Or.inl rfl) .rne .debug 0xBF800000⟩

end Fpu

end Nanoemu
