import Nanoemu.FloatSum

/-!
# Conversion to integers

A value is cut at the binary point and rounded there by the same two bits as
everywhere else.  Whether it is in range is asked of the rounded integer, and
an integer out of range saturates with the invalid flag alone.
-/

namespace Nanoemu

open CheckedProgram GridRounding

namespace Fpu

def integerGrid : Set ℚ :=
  {x | ∃ k : ℕ, x = k}

def EvenInteger (x : ℚ) : Prop :=
  ∃ k : ℕ, Even k ∧ x = k

/-- A value with the given sign and magnitude rounds to `n`. -/
def RoundsToInteger (rm : Rm) (sign : Bool) (x : ℚ) (n : ℤ) : Prop :=
  ∃ k : ℕ, Rounds integerGrid EvenInteger (rm.direction sign) x k ∧
    n = if sign then -(k : ℤ) else k

def leastInteger (width : ℕ) (signed : Bool) : ℤ :=
  if signed then -2 ^ (width - 1) else 0

def greatestInteger (width : ℕ) (signed : Bool) : ℤ :=
  if signed then 2 ^ (width - 1) - 1 else 2 ^ width - 1

def wordOf (n : ℤ) : ℕ :=
  (n % 2 ^ 64).toNat

/-- What a conversion to an integer must return. -/
def IsInteger (rm : Rm) (width : ℕ) (signed sign : Bool) (a : Datum)
    (result : ℕ × ℕ) : Prop :=
  let least := leastInteger width signed
  let greatest := greatestInteger width signed
  match a with
  | .finite x =>
      ∃ n, RoundsToInteger rm sign x n ∧
        result =
          if n < least then (wordOf least, flagWord [.invalid])
          else if greatest < n then (wordOf greatest, flagWord [.invalid])
          else (wordOf n,
            flagWord (inexactIf (decide ((n : ℚ) ≠ withSign sign x))))
  | .inf =>
      result = (wordOf (if sign then least else greatest), flagWord [.invalid])
  | .nan _ => result = (wordOf greatest, flagWord [.invalid])

theorem integer_adjacent (q : ℕ) :
    Adjacent integerGrid (q : ℚ) (q + 1 : ℕ) := by
  refine ⟨⟨q, rfl⟩, ⟨q + 1, rfl⟩, by exact_mod_cast Nat.lt_succ_self q, ?_⟩
  rintro g ⟨k, rfl⟩
  exact_mod_cast (Nat.lt_or_ge q k).symm

theorem integer_rounds {q : ℕ} {x : ℚ} {guard sticky : Bool}
    (hplaced : Placed (q : ℚ) (q + 1 : ℕ) x guard sticky)
    (direction : Direction) :
    Rounds integerGrid EvenInteger direction x
      (q + (if goesUp direction (decide (Even q)) guard sticky then 1 else 0) :
        ℕ) := by
  have heven : decide (Even q) = true → EvenInteger (q : ℚ) :=
    fun heven => ⟨q, of_decide_eq_true heven, rfl⟩
  have hodd : decide (Even q) = false → EvenInteger (q + 1 : ℕ) :=
    fun hodd => ⟨q + 1,
      (Nat.not_even_iff_odd.mp (of_decide_eq_false hodd)).add_one, rfl⟩
  have hrounds :=
    rounds_of_placed (integer_adjacent q) hplaced heven hodd direction
  split
  · next hup => rwa [if_pos hup] at hrounds
  · next hup => rwa [if_neg hup] at hrounds

/-- A rounded magnitude and whether anything was lost. -/
structure RoundedMagnitude (rm : Rm) (sign : Bool) (x : ℚ) (q : ℕ)
    (inexact : Bool) : Prop where
  rounds : Rounds integerGrid EvenInteger (rm.direction sign) x q
  inexact : inexact = true ↔ (q : ℚ) ≠ x

theorem roundedMagnitude_self (rm : Rm) (sign : Bool) (k : ℕ) :
    RoundedMagnitude rm sign k k false := by
  have hmem : (k : ℚ) ∈ integerGrid := ⟨k, rfl⟩
  exact ⟨rounds_self hmem _ _, by simp⟩

theorem large_magnitude (rm : Rm) (sign : Bool) (m : ℕ) {e : ℤ} (he : 0 ≤ e) :
    RoundedMagnitude rm sign (m * 2 ^ e) (m * 2 ^ e.toNat) false := by
  have hvalue : (m * 2 ^ e : ℚ) = (m * 2 ^ e.toNat : ℕ) := by
    obtain ⟨up, rfl⟩ := Int.eq_ofNat_of_zero_le he
    rw [Int.toNat_natCast, zpow_natCast]
    push_cast
    rfl
  rw [hvalue]
  exact roundedMagnitude_self rm sign _

theorem large_word {m : ℕ} {e : ℤ} (hm : m ≠ 0)
    (hwide : 127 < bitLen m + e.toNat) : 2 ^ 64 < m * 2 ^ e.toNat := by
  obtain ⟨hlow, -⟩ := two_pow_bitLen hm
  have hlen : 0 < bitLen m :=
    lt_bitLen_iff.mpr (Nat.one_le_iff_ne_zero.mpr hm)
  calc 2 ^ 64 < 2 ^ (bitLen m - 1 + e.toNat) :=
        Nat.pow_lt_pow_right (by decide) (by omega)
    _ = 2 ^ (bitLen m - 1) * 2 ^ e.toNat := pow_add 2 _ _
    _ ≤ m * 2 ^ e.toNat := Nat.mul_le_mul_right _ hlow

theorem roundToInt_up {m : ℕ} {e : ℤ} (rm : Rm) (sign : Bool) (he : 0 ≤ e)
    (hwide : bitLen m + e.toNat ≤ 127) (profile : Profile) :
    ∃ q inexact, roundToInt m e sign rm profile = some (q, inexact) ∧
      RoundedMagnitude rm sign (m * 2 ^ e) q inexact := by
  obtain ⟨up, rfl⟩ := Int.eq_ofNat_of_zero_le he
  rw [Int.toNat_natCast] at hwide
  have hword : m * 2 ^ up < 2 ^ 128 :=
    calc m * 2 ^ up < 2 ^ bitLen m * 2 ^ up :=
          Nat.mul_lt_mul_of_pos_right (bitLen_le_iff.mp le_rfl)
            (Nat.two_pow_pos up)
      _ = 2 ^ (bitLen m + up) := (pow_add 2 _ _).symm
      _ ≤ 2 ^ 128 := Nat.pow_le_pow_right (by decide) (by omega)
  refine ⟨m * 2 ^ up, false, ?_, large_magnitude rm sign m he⟩
  unfold roundToInt
  rw [if_pos he, Int.toNat_natCast, Checked.ushl_eq_pure (by omega), pure_bind,
    Nat.shiftLeft_eq, Nat.mod_eq_of_lt hword]
  rfl

theorem roundToInt_down {m : ℕ} {e : ℤ} (rm : Rm) (sign : Bool) (he : e < 0)
    (hlow : -2 ^ 30 ≤ e) (hm : m ≠ 0) (hword : m < 2 ^ 127)
    (profile : Profile) :
    ∃ q inexact, roundToInt m e sign rm profile = some (q, inexact) ∧
      RoundedMagnitude rm sign (m * 2 ^ e) q inexact := by
  obtain ⟨d, hd⟩ := Int.eq_ofNat_of_zero_le (show 0 ≤ -e by omega)
  have hdpos : 1 ≤ d := by omega
  have hfit : d < 128 ∨ m < 2 ^ (d - 1) := by
    rcases Nat.lt_or_ge d 128 with hless | hge
    · exact Or.inl hless
    · exact Or.inr (hword.trans_le
        (Nat.pow_le_pow_right (by decide) (by omega)))
  have hscale : ∀ k : ℕ, (k * 2 ^ d * 2 ^ e : ℚ) = k := by
    intro k
    rw [mul_assoc, ← zpow_natCast, ← zpow_add₀ two_ne_zero,
      show (d : ℤ) + e = 0 by omega, zpow_zero, mul_one]
  have hjammed : Jammed m (m : ℚ) := Or.inl rfl
  have hplaced := (hjammed.placed hdpos (Or.inl rfl)).scale
    (zpow_pos (zero_lt_two (α := ℚ)) e)
  rw [hscale, hscale] at hplaced
  have hcut := discardBits_down hdpos hm hfit
  have hq : m / 2 ^ d ≤ m := Nat.div_le_self _ _
  generalize m / 2 ^ d = q at *
  generalize decide (2 ^ (d - 1) ≤ m % 2 ^ d) = guard at *
  generalize decide (m % 2 ^ (d - 1) ≠ 0) = sticky at *
  have hexact := rounded_eq_iff (integer_adjacent q) hplaced
    (rm.direction sign) (decide (Even q))
  refine ⟨_, guard || sticky, ?_, integer_rounds hplaced _, ?_⟩
  · unfold roundToInt
    rw [if_neg (by omega), Checked.ineg_eq_pure (by omega) (by omega),
      pure_bind, hd, hcut, pure_bind]
    dsimp only
    rw [roundsUp_eq, Checked.uadd_eq_pure, pure_bind]
    · rfl
    · split <;> omega
  · rw [← Bool.not_eq_false, ← hexact, not_iff_not]
    split <;> simp

theorem negated_eq (q : ℕ) : negated q = wordOf (-q) := by
  unfold negated wordOf
  omega

theorem mod_eq_wordOf (q : ℕ) : q % 2 ^ 64 = wordOf q := by
  unfold wordOf
  omega

section Saturation

variable {width : ℕ} (hwidth : width = 32 ∨ width = 64) (signed : Bool)

include hwidth

theorem bounds_spec (profile : Profile) :
    ∃ top maxPos,
      Checked.ushl 128 1 (if signed then width - 1 else width) profile =
        some top ∧
      Checked.usub 128 top 1 profile = some maxPos ∧
      greatestInteger width signed = maxPos ∧ maxPos < 2 ^ 64 ∧
      leastInteger width signed = -(if signed then top else 0 : ℕ) ∧
      (if signed then top else 0) < 2 ^ 64 ∧
      (if signed then negated (if signed then top else 0) else 0) =
        wordOf (leastInteger width signed) := by
  rcases hwidth with rfl | rfl
  · cases signed with
    | false => exact ⟨2 ^ 32, 2 ^ 32 - 1, by cases profile <;> decide⟩
    | true => exact ⟨2 ^ 31, 2 ^ 31 - 1, by cases profile <;> decide⟩
  · cases signed with
    | false => exact ⟨2 ^ 64, 2 ^ 64 - 1, by cases profile <;> decide⟩
    | true => exact ⟨2 ^ 63, 2 ^ 63 - 1, by cases profile <;> decide⟩

end Saturation

/-- The magnitude of an integer is compared, its sign decides with which
bound. -/
theorem isInteger_of_rounded {rm : Rm} {width : ℕ} {signed sign : Bool} {x : ℚ}
    {q minMag maxPos : ℕ} {inexact : Bool}
    (h : RoundedMagnitude rm sign x q inexact)
    (hgreatest : greatestInteger width signed = maxPos)
    (hleast : leastInteger width signed = -(minMag : ℤ)) :
    IsInteger rm width signed sign (.finite x)
      (if sign then
        if minMag < q then (wordOf (leastInteger width signed), NV)
        else (negated q, if inexact then NX else 0)
      else
        if maxPos < q then (maxPos % 2 ^ 64, NV)
        else (q % 2 ^ 64, if inexact then NX else 0)) := by
  have hinvalid : flagWord [.invalid] = NV := rfl
  have hlost : decide (((if sign then -(q : ℤ) else q : ℤ) : ℚ) ≠
      withSign sign x) = inexact := by
    rw [Bool.eq_iff_iff, decide_eq_true_iff, h.inexact, not_iff_not]
    cases sign with
    | false => simp [withSign]
    | true => simp [withSign]
  have hflags : (if inexact = true then NX else 0) =
      flagWord (inexactIf inexact) := by
    cases inexact <;> rfl
  refine ⟨_, ⟨q, h.rounds, rfl⟩, ?_⟩
  rw [hgreatest, hleast, hlost, hflags, hinvalid, negated_eq, mod_eq_wordOf,
    mod_eq_wordOf]
  cases sign with
  | true =>
      have hhigh : ¬ (maxPos : ℤ) < -(q : ℤ) := by omega
      simp only [if_true]
      by_cases hbelow : minMag < q
      · have hlow : -(q : ℤ) < -(minMag : ℤ) := by omega
        rw [if_pos hbelow, if_pos hlow]
      · have hlow : ¬ -(q : ℤ) < -(minMag : ℤ) := by omega
        rw [if_neg hbelow, if_neg hlow, if_neg hhigh]
  | false =>
      have hlow : ¬ (q : ℤ) < -(minMag : ℤ) := by omega
      simp only [Bool.false_eq_true, if_false]
      by_cases habove : maxPos < q
      · have hhigh : (maxPos : ℤ) < q := by omega
        rw [if_pos habove, if_neg hlow, if_pos hhigh]
      · have hhigh : ¬ (maxPos : ℤ) < q := by omega
        rw [if_neg habove, if_neg hlow, if_neg hhigh]

/-! ## Conversion -/

section Conversion

variable {f : Fmt} (hf : f.Standard) (rm : Rm) {width : ℕ}
  (hwidth : width = 32 ∨ width = 64) (signed : Bool) (profile : Profile)

include hf hwidth

theorem toInt_spec (a : ℕ) :
    ∃ result, toInt f a width signed rm profile = some result ∧
      IsInteger rm width signed (f.signOf a) (datum f a) result := by
  obtain ⟨c, hrun, hrepresents⟩ := unpack_spec hf a profile
  obtain ⟨top, maxPos, hushl, husub, hgreatest, hmax, hleast, hmin, hneg⟩ :=
    bounds_spec hwidth signed profile
  unfold toInt
  rw [Checked.bind_of_some hrun]
  dsimp only
  rw [Checked.bind_of_some hushl, Checked.bind_of_some husub, hneg]
  generalize datum f a = d at hrepresents
  generalize f.signOf a = sign
  cases hrepresents with
  | nan signalling =>
      refine ⟨_, rfl, ?_⟩
      rw [IsInteger, hgreatest, mod_eq_wordOf]
      rfl
  | inf =>
      refine ⟨_, rfl, ?_⟩
      rw [IsInteger, hgreatest, mod_eq_wordOf]
      cases sign <;> rfl
  | zero =>
      refine ⟨_, rfl, 0, ⟨0, ?_, by cases sign <;> rfl⟩, ?_⟩
      · exact (roundedMagnitude_self rm sign 0).rounds
      · have hlow : ¬ (0 : ℤ) < leastInteger width signed := by omega
        have hhigh : ¬ greatestInteger width signed < 0 := by omega
        rw [if_neg hlow, if_neg hhigh]
        simp [withSign, wordOf]
        rfl
  | @num m e hm =>
      have hpos := (Unpacked.operand hf hm).pos
      have hlow := (Unpacked.operand hf hm).low
      have hhigh := (Unpacked.operand hf hm).high
      have hlen : bitLen m ≤ f.sig + 1 := bitLen_le_iff.mpr hm.high
      have hsig := hf.sig_high
      dsimp only
      by_cases he : 0 ≤ e
      · have hadd : Checked.uadd 32 (bitLen m) e.toNat =
            pure (bitLen m + e.toNat) := Checked.uadd_eq_pure (by omega)
        rw [if_pos he, hadd, pure_bind]
        by_cases hwide : 127 < bitLen m + e.toNat
        · have hresult := isInteger_of_rounded
            (large_magnitude rm sign m he) hgreatest hleast
          have hlarge := large_word (Unpacked.operand hf hm).ne_zero hwide
          rw [if_pos (hmin.trans hlarge), if_pos (hmax.trans hlarge)] at hresult
          rw [if_pos ⟨he, hwide⟩]
          refine ⟨_, rfl, ?_⟩
          cases sign <;> exact hresult
        · obtain ⟨q, inexact, hround, hmagnitude⟩ :=
            roundToInt_up (m := m) rm sign he (by omega) profile
          have hresult := isInteger_of_rounded hmagnitude hgreatest hleast
          rw [if_neg (not_and_of_not_right _ hwide),
            Checked.bind_of_some hround]
          refine ⟨_, ?_, hresult⟩
          cases sign <;> rfl
      · obtain ⟨q, inexact, hround, hmagnitude⟩ :=
          roundToInt_down (m := m) rm sign (not_le.mp he) (by omega)
            (Unpacked.operand hf hm).ne_zero
            ((Unpacked.operand hf hm).lt.trans (by decide)) profile
        have hresult := isInteger_of_rounded hmagnitude hgreatest hleast
        rw [if_neg he, pure_bind, if_neg (not_and_of_not_left _ he),
          Checked.bind_of_some hround]
        refine ⟨_, ?_, hresult⟩
        cases sign <;> rfl

end Conversion

/-- A conversion to an integer rounds first and saturates what is then out of
range, for either format, width and signedness. -/
theorem toInt_correct (f : Fmt) (hf : f = S ∨ f = D) (rm : Rm) (width : ℕ)
    (hwidth : width = 32 ∨ width = 64) (signed : Bool) (profile : Profile)
    (a : ℕ) :
    ∃ result, toInt f a width signed rm profile = some result ∧
      IsInteger rm width signed (f.signOf a) (datum f a) result :=
  toInt_spec (standard_of hf) rm hwidth signed profile a

/-- Minus a half is in the unsigned range once it is rounded towards zero. -/
theorem toInt_correct_half :
    toInt S 0xBF000000 32 false .rtz .debug = some (0, 1) ∧
      ∃ result, toInt S 0xBF000000 32 false .rtz .debug = some result ∧
        IsInteger .rtz 32 false true (datum S 0xBF000000) result :=
  ⟨by decide +kernel,
    toInt_correct S (Or.inl rfl) .rtz 32 (Or.inl rfl) false .debug 0xBF000000⟩

end Fpu

end Nanoemu
