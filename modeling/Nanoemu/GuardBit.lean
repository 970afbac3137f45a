import Nanoemu.FloatRounding

/-!
# The cut as wide as the word

A cut of 128 places or more drops the significand whole and takes the guard bit
for zero.  At 128 places the guard bit is the top bit of the word: a significand
that has it set lies at the middle of the least subnormal number or above, and
the nearest modes round it as if it lay below.
-/

namespace Nanoemu

open CheckedProgram GridRounding

namespace Fpu

/-- The exponents stay in 32 bits: those up to the cut, and the field of the
rounded magnitude. -/
structure ExponentsFit (f : Fmt) (sign : Bool) (rm : Rm) (m : ℕ) (e : ℤ) : Prop
    extends ExponentRange f m e where
  field : ∀ y, Rounds f.grid f.IsEven (rm.direction sign) (m * 2 ^ e) y →
    y < 2 ^ (2 ^ 31 - f.bias)

/-- The top bit of the word is the guard bit, it is set, and the mode asks
it. -/
def LosesGuard (f : Fmt) (rm : Rm) (m : ℕ) (e : ℤ) : Prop :=
  e + 128 = f.minE ∧ 2 ^ 127 ≤ m ∧ (rm = .rmm ∨ rm = .rne ∧ m ≠ 2 ^ 127)

instance (f : Fmt) (rm : Rm) (m : ℕ) (e : ℤ) : Decidable (LosesGuard f rm m e) :=
  inferInstanceAs (Decidable (_ ∧ _ ∧ _))

section Cut

variable {f : Fmt} {m : ℕ} {e : ℤ} {sign : Bool} {rm : Rm}

theorem lastPlace_top (htop : 2 ^ 127 ≤ m) (hword : m < 2 ^ 128) :
    f.lastPlace m e - e = 128 ↔ e + 128 = f.minE := by
  have hlen : bitLen m = 128 :=
    le_antisymm (bitLen_le_iff.mpr hword) (lt_bitLen_iff.mpr htop)
  have hplace : f.lastPlace m e = max (bitLen m - 1 + e - f.sig) f.minE := rfl
  omega

/-- The cut of 128 places, and where the magnitude really lies. -/
theorem cut_top (htop : 2 ^ 127 ≤ m) (hword : m < 2 ^ 128)
    (hcut : f.lastPlace m e - e = 128) :
    discardBits m (f.lastPlace m e - e) = pure (0, false, true) ∧
    Normal (f.sig + 1) f.minE 0 (f.lastPlace m e) ∧
    Placed ((0 : ℕ) * 2 ^ f.lastPlace m e : ℚ)
      ((0 + 1 : ℕ) * 2 ^ f.lastPlace m e) (m * 2 ^ e) true
      (decide (m ≠ 2 ^ 127)) := by
  have hm : m ≠ 0 := by omega
  have hjammed : Jammed m (m : ℚ) := Or.inl rfl
  obtain ⟨hnormal, hplaced⟩ :=
    placed_cut hm (by decide) hcut hjammed (Or.inl rfl)
  have hnone : m / 2 ^ 128 = 0 := Nat.div_eq_of_lt hword
  have hhalf : m % 2 ^ 128 = m := Nat.mod_eq_of_lt hword
  have hrest : m % 2 ^ (128 - 1) ≠ 0 ↔ m ≠ 2 ^ 127 := by omega
  rw [hnone] at hnormal
  rw [hnone, hhalf, decide_eq_true htop, decide_eq_decide.mpr hrest] at hplaced
  rw [hcut]
  exact ⟨rfl, hnormal, hplaced⟩

/-- With the top bit taken for zero, only the modes that ask it go wrong. -/
theorem roundsUp_top (htop : 2 ^ 127 ≤ m) (he : e + 128 = f.minE)
    (hkept : ¬ LosesGuard f rm m e) :
    roundsUp rm sign false true 0 =
      roundsUp rm sign true (decide (m ≠ 2 ^ 127)) 0 := by
  cases rm with
  | rne =>
      have hmiddle : m = 2 ^ 127 := by
        by_contra hne
        exact hkept ⟨he, htop, Or.inr ⟨rfl, hne⟩⟩
      simp [roundsUp, hmiddle]
  | rmm => exact absurd ⟨he, htop, Or.inl rfl⟩ hkept
  | rtz => rfl
  | rdn => simp [roundsUp]
  | rup => simp [roundsUp]

theorem roundPack_range (hm : m ≠ 0) (hword : m < 2 ^ 128)
    (hlow : -2 ^ 31 ≤ e)
    (hreturns : (roundPack f sign m e rm .debug).isSome) :
    ExponentRange f m e := by
  have hlen : bitLen m ≤ 128 := bitLen_le_iff.mpr hword
  have hmsb : Checked.isub 32 127 (leadingZeros 128 m) =
      pure (bitLen m - 1 : ℤ) := by
    rw [leadingZeros, Checked.isub_eq_pure (by omega) (by omega)]
    congr 1
    omega
  rw [roundPack, if_neg hm, hmsb, pure_bind,
    Checked.bind_guard (Checked.iadd_debug _ _ _),
    Checked.bind_guard (Checked.isub_debug _ _ _)] at hreturns
  dsimp only at hreturns
  rw [Checked.bind_guard (Checked.isub_debug _ _ _)] at hreturns
  obtain ⟨⟨-, htop⟩, ⟨hulp, -⟩, ⟨-, hdiscard⟩, -⟩ := hreturns
  exact ⟨hlow, htop, hulp, hdiscard⟩

variable (hf : f.Standard)

include hf

theorem ExponentsFit.carry (h : ExponentsFit f sign rm m e) {rounded : ℕ}
    (hrounds : Rounds f.grid f.IsEven (rm.direction sign) (m * 2 ^ e)
      (rounded * 2 ^ f.lastPlace m e))
    (htop : 2 ^ f.sig ≤ rounded ∨ f.lastPlace m e = f.minE) :
    f.lastPlace m e + (if rounded = 2 ^ (f.sig + 1) then 1 else 0) + f.sig +
      f.bias < 2 ^ 31 := by
  have hlimit := h.field _ hrounds
  have hbias := hf.bias_low
  have hmin : f.minE = 1 - f.bias - f.sig := rfl
  have hexponent : ∀ k : ℕ, 2 ^ k ≤ rounded →
      k + f.lastPlace m e < 2 ^ 31 - f.bias := by
    intro k hk
    rw [← zpow_lt_zpow_iff_right₀ (one_lt_two (α := ℚ))]
    calc (2 : ℚ) ^ (k + f.lastPlace m e) = 2 ^ k * 2 ^ f.lastPlace m e := by
          rw [zpow_add₀ two_ne_zero, zpow_natCast]
      _ ≤ rounded * 2 ^ f.lastPlace m e :=
          mul_le_mul_of_nonneg_right (by exact_mod_cast hk)
            (zpow_nonneg zero_le_two _)
      _ < 2 ^ (2 ^ 31 - f.bias) := hlimit
  split
  · next hcarry =>
      have hfield := hexponent (f.sig + 1) hcarry.ge
      push_cast at hfield
      omega
  · rcases htop with hnormal | hleast
    · have hfield := hexponent f.sig hnormal
      omega
    · omega

theorem exponentsFit_of_le (hm : m ≠ 0) (hword : m < 2 ^ 128)
    (hlow : -2 ^ 30 ≤ e) (hhigh : e ≤ 2 ^ 30) :
    ExponentsFit f sign rm m e := by
  have hsig := hf.sig_high
  have hbias := hf.bias_high
  have hbiasLow := hf.bias_low
  have hmin : f.minE = 1 - f.bias - f.sig := rfl
  have hlen : bitLen m ≤ 128 := bitLen_le_iff.mpr hword
  have hpos : 0 < bitLen m :=
    lt_bitLen_iff.mpr (Nat.one_le_iff_ne_zero.mpr hm)
  have hplace : f.lastPlace m e = max (bitLen m - 1 + e - f.sig) f.minE := rfl
  refine ⟨⟨by omega, by omega, by omega, by omega⟩, fun y hrounds => ?_⟩
  have hmem : (2 ^ (2 ^ 30 + 128 : ℤ) : ℚ) ∈ f.grid :=
    ⟨1, 2 ^ 30 + 128, Nat.one_lt_two_pow (Nat.succ_ne_zero _), by omega,
      by rw [Nat.cast_one, one_mul]⟩
  have hbelow : (m * 2 ^ e : ℚ) ≤ 2 ^ (2 ^ 30 + 128 : ℤ) :=
    calc (m * 2 ^ e : ℚ) ≤ 2 ^ 128 * 2 ^ e :=
          mul_le_mul_of_nonneg_right (by exact_mod_cast hword.le)
            (zpow_nonneg zero_le_two e)
      _ = 2 ^ (e + 128) := by
          rw [zpow_add₀ two_ne_zero, mul_comm]
          rfl
      _ ≤ 2 ^ (2 ^ 30 + 128 : ℤ) :=
          zpow_le_zpow_right₀ one_le_two (by omega)
  exact (hrounds.le_of_le hmem hbelow).trans_lt
    (zpow_lt_zpow_right₀ one_lt_two (by omega))

/-- Whatever bits the cut reports, if they decide as the real ones do, the
routine rounds correctly. -/
theorem roundPack_correct {q : ℕ} {guard sticky guard' sticky' : Bool}
    (hm : m ≠ 0) (hword : m < 2 ^ 128) (hfit : ExponentsFit f sign rm m e)
    (hcut : discardBits m (f.lastPlace m e - e) = pure (q, guard', sticky'))
    (hnormal : Normal (f.sig + 1) f.minE q (f.lastPlace m e))
    (hplaced : Placed (q * 2 ^ f.lastPlace m e : ℚ)
      ((q + 1 : ℕ) * 2 ^ f.lastPlace m e) (m * 2 ^ e) guard sticky)
    (hup : roundsUp rm sign guard' sticky' q =
      roundsUp rm sign guard sticky q)
    (hinexact : (guard' || sticky') = (guard || sticky))
    (profile : Profile) :
    ∃ result, roundPack f sign m e rm profile = some result ∧
      Correct f rm sign (m * 2 ^ e) result := by
  have hpos : (0 : ℚ) < m := by exact_mod_cast Nat.pos_of_ne_zero hm
  obtain ⟨hrounds, -, -, htop⟩ := rounds_cut hf hnormal hplaced rfl
  have hfield := hfit.carry hf hrounds htop
  obtain ⟨result, hrun, hrounded⟩ :=
    encode_rounds hf hpos hnormal hplaced rfl hfield profile
  rw [← hup, ← hinexact, ← roundPack_eq hf hm hword hfit.toExponentRange hcut
    hnormal.1] at hrun
  exact ⟨result, hrun, hrounded.correct⟩

theorem encode_zero (inexact : Bool) (lsb : ℤ) :
    encode f sign inexact rm 0 lsb = pure (f.zero sign, NX ||| UF) := by
  have hcarry := significand_whole hf (Nat.two_pow_pos (f.sig + 1))
  simp [encode, hcarry]

theorem LosesGuard.high_le (hlost : LosesGuard f rm m e) (hword : m < 2 ^ 128)
    {y : ℚ} (hrounds : Rounds f.grid f.IsEven (rm.direction sign) (m * 2 ^ e) y) :
    2 ^ f.lastPlace m e ≤ y := by
  obtain ⟨he, htop, hmode⟩ := hlost
  have hsig := hf.sig_low
  obtain ⟨-, hnormal, hplaced⟩ :=
    cut_top htop hword ((lastPlace_top htop hword).mpr he)
  have hadjacent := hnormal.adjacent (α := ℚ) (by omega)
  have hguard := hplaced.guard.mp rfl
  have hhigh : ((0 + 1 : ℕ) * 2 ^ f.lastPlace m e : ℚ) ≤ y := by
    rcases hmode with rfl | ⟨rfl, hne⟩
    · have haway : Rounds f.grid (fun _ => False) .nearestAway (m * 2 ^ e) y :=
        hrounds
      by_contra hless
      have hbelow := (haway.lt_high_iff hadjacent id).mp (not_le.mp hless)
      exact not_le.mpr hbelow hguard
    · have hsticky : ¬ (2 * (m * 2 ^ e) : ℚ) =
          (0 : ℕ) * 2 ^ f.lastPlace m e +
            (0 + 1 : ℕ) * 2 ^ f.lastPlace m e := by
        intro hmiddle
        have hclear := hplaced.sticky.mpr (Or.inr hmiddle)
        rw [decide_eq_true hne] at hclear
        cases hclear
      exact hrounds.1.ge_high hadjacent
        (lt_of_le_of_ne hguard fun heq => hsticky heq.symm)
  rwa [zero_add, Nat.cast_one, one_mul] at hhigh

/-- Where the guard bit is lost, zero is returned for the least subnormal
magnitude. -/
theorem roundPack_lost (hword : m < 2 ^ 128) (hfit : ExponentsFit f sign rm m e)
    (hlost : LosesGuard f rm m e) (profile : Profile) :
    roundPack f sign m e rm profile = some (f.zero sign, NX ||| UF) ∧
      ¬ Correct f rm sign (m * 2 ^ e) (f.zero sign, NX ||| UF) := by
  have habove : ∀ y, Rounds f.grid f.IsEven (rm.direction sign) (m * 2 ^ e) y →
      2 ^ f.lastPlace m e ≤ y := fun _ => hlost.high_le hf hword
  obtain ⟨he, htop, hmode⟩ := hlost
  have hm : m ≠ 0 := by omega
  obtain ⟨hcut, hnormal, hplaced⟩ :=
    cut_top htop hword ((lastPlace_top htop hword).mpr he)
  constructor
  · have hdown : roundsUp rm sign false true 0 = false := by
      rcases hmode with rfl | ⟨rfl, -⟩ <;> rfl
    rw [roundPack_eq hf hm hword hfit.toExponentRange hcut hnormal.1, hdown,
      if_neg Bool.false_ne_true, encode_zero hf]
    rfl
  · rintro ⟨y, hrounds, hencodes⟩
    have hhigh := habove y hrounds
    have hunit : (0 : ℚ) < 2 ^ f.lastPlace m e := zpow_pos two_pos _
    rw [Encodes] at hencodes
    split at hencodes
    · have hflags : NX ||| UF = flagWord [.overflow, .inexact] := hencodes.2
      exact absurd hflags (by decide)
    · have hdatum := hencodes.1.datum
      rw [(hf.shows_zero sign).datum] at hdatum
      have hzero : 0 = y := Datum.finite.inj hdatum
      linarith

theorem encode_field {inexact : Bool} {q : ℕ} {lsb : ℤ}
    (hfull : 2 ^ f.sig ≤ q) (hq : q < 2 ^ (f.sig + 1))
    (hreturns : (encode f sign inexact rm q lsb .debug).isSome) :
    lsb + f.sig + f.bias < 2 ^ 31 := by
  have hcarry := significand_whole hf hq
  have hhidden : Checked.ushr 128 q f.sig = pure 1 := by
    rw [significand_shift hf q (Nat.le_succ f.sig), hidden_bit hfull hq]
  have hsome : q ≠ 0 := by
    have hpos := Nat.two_pow_pos f.sig
    omega
  simp only [encode, hcarry, hhidden, pure_bind, ne_eq, not_true_eq_false,
    if_false, hsome, one_ne_zero, not_false_eq_true, if_true] at hreturns
  rw [Checked.bind_guard (Checked.iadd_debug _ _ _),
    Checked.bind_guard (Checked.iadd_debug _ _ _)] at hreturns
  exact hreturns.2.1.2

theorem encode_carried {inexact : Bool} {q : ℕ} {lsb : ℤ}
    (hq : q ≤ 2 ^ (f.sig + 1)) (htop : 2 ^ f.sig ≤ q ∨ lsb = f.minE)
    (hlow : f.minE ≤ lsb) (hhigh : lsb + 1 < 2 ^ 31)
    (hreturns : (encode f sign inexact rm q lsb .debug).isSome) :
    lsb + (if q = 2 ^ (f.sig + 1) then 1 else 0) + f.sig + f.bias < 2 ^ 31 := by
  have hsig := hf.sig_high
  have hbias := hf.bias_high
  have hmin : f.minE = 1 - f.bias - f.sig := rfl
  split
  · next hcarry =>
      rw [hcarry, encode_carry hf (by omega) hhigh] at hreturns
      exact encode_field hf le_rfl
        (Nat.pow_lt_pow_right (by decide) (Nat.lt_succ_self _)) hreturns
  · next hnone =>
      rcases htop with hfull | hleast
      · have hfield := encode_field hf hfull (lt_of_le_of_ne hq hnone) hreturns
        omega
      · omega

theorem exponentsFit_of_carry (hrange : ExponentRange f m e) {rounded : ℕ}
    (hrounds : Rounds f.grid f.IsEven (rm.direction sign) (m * 2 ^ e)
      (rounded * 2 ^ f.lastPlace m e))
    (hle : rounded ≤ 2 ^ (f.sig + 1))
    (hcarry : f.lastPlace m e +
      (if rounded = 2 ^ (f.sig + 1) then 1 else 0) + f.sig + f.bias < 2 ^ 31) :
    ExponentsFit f sign rm m e := by
  have hsig := hf.sig_low
  have hbias := hf.bias_high
  have hmin : f.minE = 1 - f.bias - f.sig := rfl
  have hhigh := hf.sig_high
  refine ⟨hrange, fun y hy => ?_⟩
  rw [hy.lt_pow_iff (by omega) (by push_cast; omega) hrounds]
  have hunit : (0 : ℚ) < 2 ^ f.lastPlace m e := zpow_pos two_pos _
  have hpower : ((2 ^ (f.sig + 1) : ℕ) * 2 ^ f.lastPlace m e : ℚ) =
      2 ^ ((f.sig + 1 : ℕ) + f.lastPlace m e) := by
    rw [zpow_add₀ two_ne_zero, zpow_natCast]
    push_cast
    rfl
  by_cases hfull : rounded = 2 ^ (f.sig + 1)
  · rw [if_pos hfull] at hcarry
    rw [hfull, hpower]
    exact zpow_lt_zpow_right₀ one_lt_two (by push_cast; omega)
  · rw [if_neg hfull] at hcarry
    have hlt : rounded < 2 ^ (f.sig + 1) := lt_of_le_of_ne hle hfull
    calc (rounded * 2 ^ f.lastPlace m e : ℚ)
        < (2 ^ (f.sig + 1) : ℕ) * 2 ^ f.lastPlace m e :=
          (mul_lt_mul_iff_left₀ hunit).mpr (by exact_mod_cast hlt)
      _ = 2 ^ ((f.sig + 1 : ℕ) + f.lastPlace m e) := hpower
      _ ≤ 2 ^ (2 ^ 31 - f.bias) :=
          zpow_le_zpow_right₀ one_le_two (by push_cast; omega)

/-- The bits of a cut decide as the real ones do, unless the guard bit is
lost. -/
theorem roundPack_kept (hm : m ≠ 0) (hword : m < 2 ^ 128)
    (hfit : ExponentsFit f sign rm m e) (hkept : ¬ LosesGuard f rm m e)
    (profile : Profile) :
    ∃ result, roundPack f sign m e rm profile = some result ∧
      Correct f rm sign (m * 2 ^ e) result := by
  by_cases hfits : f.lastPlace m e - e ≠ 128 ∨ m < 2 ^ 127
  · have hjammed : Jammed m (m : ℚ) := Or.inl rfl
    obtain ⟨q, guard, sticky, hcut, hnormal, hplaced⟩ :=
      cut_placed hf hm hword hfits hjammed (Or.inl rfl)
    exact roundPack_correct hf hm hword hfit hcut hnormal hplaced rfl rfl profile
  · obtain ⟨hplace, htop⟩ := not_or.mp hfits
    rw [not_not] at hplace
    rw [not_lt] at htop
    obtain ⟨hcut, hnormal, hplaced⟩ := cut_top htop hword hplace
    have hup := @roundsUp_top f m e sign rm htop
      ((lastPlace_top htop hword).mp hplace) hkept
    exact roundPack_correct hf hm hword hfit hcut hnormal hplaced hup rfl profile

/-- A checked build returns where the exponents fit, and nowhere else: no other
operation of the routine overflows. -/
theorem roundPack_returns_iff (hm : m ≠ 0) (hword : m < 2 ^ 128)
    (hlow : -2 ^ 31 ≤ e) :
    (roundPack f sign m e rm .debug).isSome ↔ ExponentsFit f sign rm m e := by
  constructor
  · intro hreturns
    have hrange := roundPack_range hm hword hlow hreturns
    have hsig := hf.sig_low
    have hbias := hf.bias_low
    have hmin : f.minE = 1 - f.bias - f.sig := rfl
    have hplace : f.lastPlace m e = max (bitLen m - 1 + e - f.sig) f.minE := rfl
    have htop := hrange.top
    by_cases hfits : f.lastPlace m e - e ≠ 128 ∨ m < 2 ^ 127
    · have hjammed : Jammed m (m : ℚ) := Or.inl rfl
      obtain ⟨q, guard, sticky, hcut, hnormal, hplaced⟩ :=
        cut_placed hf hm hword hfits hjammed (Or.inl rfl)
      rw [roundPack_eq hf hm hword hrange hcut hnormal.1] at hreturns
      obtain ⟨hrounds, -, hle, hfull⟩ :=
        @rounds_cut f m q e sign guard sticky rm _ _ _ _ _ hf hnormal hplaced _
          rfl
      exact exponentsFit_of_carry hf hrange hrounds hle
        (encode_carried hf hle hfull (le_max_right _ _) (by omega) hreturns)
    · obtain ⟨hdrop, htop⟩ := not_or.mp hfits
      rw [not_not] at hdrop
      rw [not_lt] at htop
      have hleast := (lastPlace_top htop hword).mp hdrop
      obtain ⟨-, hnormal, hplaced⟩ := cut_top htop hword hdrop
      obtain ⟨hrounds, -, hle, -⟩ :=
        @rounds_cut f m 0 e sign true _ rm _ _ _ _ _ hf hnormal hplaced _ rfl
      exact exponentsFit_of_carry hf hrange hrounds hle (by split <;> omega)
  · intro hfit
    by_cases hlost : LosesGuard f rm m e
    · rw [(roundPack_lost hf hword hfit hlost .debug).1]
      rfl
    · obtain ⟨result, hrun, -⟩ := roundPack_kept hf hm hword hfit hlost .debug
      rw [hrun]
      rfl

end Cut

/-- The routine returns the rounded magnitude unless it loses the guard
bit. -/
theorem roundPack_correct_iff {f : Fmt} (hf : f = S ∨ f = D) {m : ℕ}
    (hm : m ≠ 0) (hword : m < 2 ^ 128) {e : ℤ} {sign : Bool} {rm : Rm}
    (hfit : ExponentsFit f sign rm m e) (profile : Profile) :
    (∃ result, roundPack f sign m e rm profile = some result ∧
      Correct f rm sign (m * 2 ^ e) result) ↔ ¬ LosesGuard f rm m e := by
  have hstandard := standard_of hf
  constructor
  · rintro ⟨result, hresult, hcorrect⟩ hlost
    obtain ⟨hrun, hwrong⟩ := roundPack_lost hstandard hword hfit hlost profile
    rw [hrun] at hresult
    cases hresult
    exact hwrong hcorrect
  · exact fun hkept => roundPack_kept hstandard hm hword hfit hkept profile

/-- A full word is rounded where its guard bit lies inside the word. -/
theorem roundPack_full_word :
    ∃ result, roundPack S false (2 ^ 128 - 1) (-100) .rne .debug = some result ∧
      Correct S .rne false ((2 ^ 128 - 1 : ℕ) * 2 ^ (-100 : ℤ)) result := by
  have hfit : ExponentsFit S false .rne (2 ^ 128 - 1) (-100) :=
    exponentsFit_of_le standard_S (by decide) (by decide) (by decide) (by decide)
  exact (roundPack_correct_iff (Or.inl rfl) (by decide) (by decide) hfit
    .debug).mpr (by decide)

/-- A full word just below the least subnormal number is returned as zero. -/
theorem full_word_lost :
    ExponentsFit S false .rne (2 ^ 128 - 1) (-277) ∧
      roundPack S false (2 ^ 128 - 1) (-277) .rne .debug =
        some (0, 3) ∧
      ¬ Correct S .rne false ((2 ^ 128 - 1 : ℕ) * 2 ^ (-277 : ℤ)) (0, 3) := by
  have hfit : ExponentsFit S false .rne (2 ^ 128 - 1) (-277) :=
    exponentsFit_of_le standard_S (by decide) (by decide) (by decide) (by decide)
  have hlost : LosesGuard S .rne (2 ^ 128 - 1) (-277) := by decide
  exact ⟨hfit, roundPack_lost standard_S (by decide) hfit hlost .debug⟩

end Fpu

end Nanoemu
