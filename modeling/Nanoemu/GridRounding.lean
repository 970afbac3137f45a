import Mathlib.Data.Int.Log
import Mathlib.Tactic

/-!
# Rounding to a grid

A grid is a set of values, and a value between two neighbours of the grid
rounds to one of them.  Where it lies is told by two bits: the guard bit says
whether it reaches the middle, the sticky bit whether it differs from the lower
neighbour and the middle.  Binary grids are the values with a bounded
significand, and a significand whose lost bits were jammed into its lowest one
rounds like the exact value.
-/

namespace GridRounding

/-- Where a magnitude rounds: down, up, or to the nearest with ties to even or
away from zero. -/
inductive Direction where
  | down
  | up
  | nearestEven
  | nearestAway
deriving DecidableEq, Repr

variable {α : Type*} [Field α] [LinearOrder α] [IsStrictOrderedRing α]

def Nearest (grid : Set α) (x y : α) : Prop :=
  y ∈ grid ∧ ∀ g ∈ grid, |x - y| ≤ |x - g|

def Rounds (grid : Set α) (even : α → Prop) (direction : Direction)
    (x y : α) : Prop :=
  match direction with
  | .down => IsGreatest {g | g ∈ grid ∧ g ≤ x} y
  | .up => IsLeast {g | g ∈ grid ∧ x ≤ g} y
  | .nearestEven => Nearest grid x y ∧
      ∀ g ∈ grid, g ≠ y → |x - g| = |x - y| → even y
  | .nearestAway => Nearest grid x y ∧
      ∀ g ∈ grid, |x - g| = |x - y| → g ≤ y

theorem rounds_self {grid : Set α} {x : α} (hx : x ∈ grid) (even : α → Prop)
    (direction : Direction) : Rounds grid even direction x x := by
  have hnearest : Nearest grid x x := by
    refine ⟨hx, fun g _ => ?_⟩
    rw [sub_self, abs_zero]
    exact abs_nonneg _
  have honly : ∀ g, |x - g| = |x - x| → g = x := by
    intro g hg
    rw [sub_self, abs_zero, abs_eq_zero, sub_eq_zero] at hg
    exact hg.symm
  cases direction with
  | down => exact ⟨⟨hx, le_rfl⟩, fun g hg => hg.2⟩
  | up => exact ⟨⟨hx, le_rfl⟩, fun g hg => hg.2⟩
  | nearestEven =>
      exact ⟨hnearest, fun g _ hother htie => absurd (honly g htie) hother⟩
  | nearestAway => exact ⟨hnearest, fun g _ htie => (honly g htie).le⟩

/-- Two values of the grid with none between them. -/
structure Adjacent (grid : Set α) (lo hi : α) : Prop where
  low : lo ∈ grid
  high : hi ∈ grid
  lt : lo < hi
  gap : ∀ g ∈ grid, g ≤ lo ∨ hi ≤ g

/-- Where `x` lies between two neighbours. -/
structure Placed (lo hi x : α) (guard sticky : Bool) : Prop where
  le : lo ≤ x
  lt : x < hi
  guard : guard = true ↔ lo + hi ≤ 2 * x
  sticky : sticky = false ↔ x = lo ∨ 2 * x = lo + hi

/-- Whether the guard and sticky bits take a value to the upper neighbour. -/
def goesUp (direction : Direction) (lowEven guard sticky : Bool) : Bool :=
  match direction with
  | .down => false
  | .up => guard || sticky
  | .nearestEven => guard && (sticky || !lowEven)
  | .nearestAway => guard

section Neighbours

variable {grid : Set α} {even : α → Prop} {lo hi x : α}

theorem nearest_low (h : Adjacent grid lo hi) (hle : lo ≤ x)
    (hmid : 2 * x < lo + hi) :
    Nearest grid x lo ∧ ∀ g ∈ grid, |x - g| = |x - lo| → g = lo := by
  have hlow : |x - lo| = x - lo := abs_of_nonneg (sub_nonneg.mpr hle)
  refine ⟨⟨h.low, fun g hg => ?_⟩, fun g hg htie => ?_⟩
  · rw [hlow]
    rcases h.gap g hg with hbelow | habove
    · exact le_abs.mpr (Or.inl (by linarith))
    · exact le_abs.mpr (Or.inr (by linarith))
  · rw [hlow] at htie
    rcases h.gap g hg with hbelow | habove
    · rw [abs_of_nonneg (by linarith)] at htie
      linarith
    · have hge : -(x - g) ≤ |x - g| := neg_le_abs _
      linarith

theorem nearest_high (h : Adjacent grid lo hi) (hlt : x < hi)
    (hmid : lo + hi < 2 * x) :
    Nearest grid x hi ∧ ∀ g ∈ grid, |x - g| = |x - hi| → g = hi := by
  have hhigh : |x - hi| = hi - x := by
    rw [abs_of_neg (sub_neg.mpr hlt), neg_sub]
  refine ⟨⟨h.high, fun g hg => ?_⟩, fun g hg htie => ?_⟩
  · rw [hhigh]
    rcases h.gap g hg with hbelow | habove
    · exact le_abs.mpr (Or.inl (by linarith))
    · exact le_abs.mpr (Or.inr (by linarith))
  · rw [hhigh] at htie
    rcases h.gap g hg with hbelow | habove
    · have hge : x - g ≤ |x - g| := le_abs_self _
      linarith
    · rw [abs_of_nonpos (by linarith)] at htie
      linarith

theorem nearest_middle (h : Adjacent grid lo hi) (hmid : 2 * x = lo + hi) :
    Nearest grid x lo ∧ Nearest grid x hi ∧
      ∀ g ∈ grid, |x - g| = |x - hi| → g ≤ hi := by
  have hlt := h.lt
  have hlow : |x - lo| = x - lo := abs_of_nonneg (by linarith)
  have hhigh : |x - hi| = hi - x := by
    rw [abs_of_neg (by linarith), neg_sub]
  refine ⟨⟨h.low, fun g hg => ?_⟩, ⟨h.high, fun g hg => ?_⟩,
    fun g hg htie => ?_⟩
  · rw [hlow]
    rcases h.gap g hg with hbelow | habove
    · exact le_abs.mpr (Or.inl (by linarith))
    · exact le_abs.mpr (Or.inr (by linarith))
  · rw [hhigh]
    rcases h.gap g hg with hbelow | habove
    · exact le_abs.mpr (Or.inl (by linarith))
    · exact le_abs.mpr (Or.inr (by linarith))
  · rw [hhigh] at htie
    have hge : -(x - g) ≤ |x - g| := neg_le_abs _
    linarith

omit [Field α] [IsStrictOrderedRing α] in
theorem isGreatest_low (h : Adjacent grid lo hi) (hle : lo ≤ x)
    (hlt : x < hi) : IsGreatest {g | g ∈ grid ∧ g ≤ x} lo := by
  refine ⟨⟨h.low, hle⟩, fun g hg => ?_⟩
  rcases h.gap g hg.1 with hbelow | habove
  · exact hbelow
  · exact absurd (habove.trans hg.2) (not_le.mpr hlt)

omit [Field α] [IsStrictOrderedRing α] in
theorem isLeast_high (h : Adjacent grid lo hi) (hne : lo < x) (hlt : x < hi) :
    IsLeast {g | g ∈ grid ∧ x ≤ g} hi := by
  refine ⟨⟨h.high, hlt.le⟩, fun g hg => ?_⟩
  rcases h.gap g hg.1 with hbelow | habove
  · exact absurd (hg.2.trans hbelow) (not_le.mpr hne)
  · exact habove

variable {guard sticky : Bool}

theorem Placed.cases (h : Adjacent grid lo hi)
    (hplaced : Placed lo hi x guard sticky) :
    guard = false ∧ sticky = false ∧ x = lo ∨
      guard = false ∧ sticky = true ∧ lo < x ∧ 2 * x < lo + hi ∨
      guard = true ∧ sticky = false ∧ lo < x ∧ 2 * x = lo + hi ∨
      guard = true ∧ sticky = true ∧ lo < x ∧ lo + hi < 2 * x := by
  have hlt := h.lt
  have hle := hplaced.le
  cases guard with
  | false =>
      have hmid : 2 * x < lo + hi :=
        lt_of_not_ge fun hge => (nomatch hplaced.guard.mpr hge)
      cases sticky with
      | false =>
          rcases hplaced.sticky.mp rfl with hx | hx
          · exact Or.inl ⟨rfl, rfl, hx⟩
          · exact absurd hx hmid.ne
      | true =>
          have hne : lo ≠ x := fun hx =>
            (nomatch hplaced.sticky.mpr (Or.inl hx.symm))
          exact Or.inr (Or.inl ⟨rfl, rfl, lt_of_le_of_ne hle hne, hmid⟩)
  | true =>
      have hguard : lo + hi ≤ 2 * x := hplaced.guard.mp rfl
      have hne : lo < x := by linarith
      cases sticky with
      | false =>
          rcases hplaced.sticky.mp rfl with hx | hx
          · exact absurd hx hne.ne'
          · exact Or.inr (Or.inr (Or.inl ⟨rfl, rfl, hne, hx⟩))
      | true =>
          have hmid : lo + hi ≠ 2 * x := fun hx =>
            (nomatch hplaced.sticky.mpr (Or.inr hx.symm))
          exact Or.inr (Or.inr (Or.inr
            ⟨rfl, rfl, hne, lt_of_le_of_ne hguard hmid⟩))

/-- The two bits decide the rounding. -/
theorem rounds_of_placed (h : Adjacent grid lo hi)
    (hplaced : Placed lo hi x guard sticky) {lowEven : Bool}
    (hlow : lowEven = true → even lo) (hhigh : lowEven = false → even hi)
    (direction : Direction) :
    Rounds grid even direction x
      (if goesUp direction lowEven guard sticky then hi else lo) := by
  have hlt := hplaced.lt
  rcases hplaced.cases h with ⟨rfl, rfl, rfl⟩ | ⟨rfl, rfl, hne, hmid⟩ |
    ⟨rfl, rfl, hne, hmid⟩ | ⟨rfl, rfl, hne, hmid⟩
  · have hself := rounds_self h.low even direction
    cases direction <;> exact hself
  · obtain ⟨hnear, honly⟩ := nearest_low h hne.le hmid
    cases direction with
    | down => exact isGreatest_low h hne.le hlt
    | up => exact isLeast_high h hne hlt
    | nearestEven =>
        exact ⟨hnear, fun g hg hother htie => absurd (honly g hg htie) hother⟩
    | nearestAway => exact ⟨hnear, fun g hg htie => (honly g hg htie).le⟩
  · obtain ⟨hnearLow, hnearHigh, haway⟩ := nearest_middle h hmid
    cases direction with
    | down => exact isGreatest_low h hne.le hlt
    | up => exact isLeast_high h hne hlt
    | nearestEven =>
        cases lowEven with
        | true => exact ⟨hnearLow, fun _ _ _ _ => hlow rfl⟩
        | false => exact ⟨hnearHigh, fun _ _ _ _ => hhigh rfl⟩
    | nearestAway => exact ⟨hnearHigh, haway⟩
  · obtain ⟨hnear, honly⟩ := nearest_high h hlt hmid
    cases direction with
    | down => exact isGreatest_low h hne.le hlt
    | up => exact isLeast_high h hne hlt
    | nearestEven =>
        exact ⟨hnear, fun g hg hother htie => absurd (honly g hg htie) hother⟩
    | nearestAway => exact ⟨hnear, fun g hg htie => (honly g hg htie).le⟩

theorem rounded_eq_iff (h : Adjacent grid lo hi)
    (hplaced : Placed lo hi x guard sticky) (direction : Direction)
    (lowEven : Bool) :
    (if goesUp direction lowEven guard sticky then hi else lo) = x ↔
      (guard || sticky) = false := by
  have hlt := hplaced.lt
  have hinexact : lo < x →
      (if goesUp direction lowEven guard sticky then hi else lo) ≠ x := by
    intro hne
    split
    · exact hlt.ne'
    · exact hne.ne
  rcases hplaced.cases h with ⟨rfl, rfl, rfl⟩ | ⟨rfl, rfl, hne, -⟩ |
    ⟨rfl, rfl, hne, -⟩ | ⟨rfl, rfl, hne, -⟩
  · cases direction <;> exact iff_of_true rfl rfl
  · exact iff_of_false (hinexact hne) Bool.false_ne_true.symm
  · exact iff_of_false (hinexact hne) Bool.false_ne_true.symm
  · exact iff_of_false (hinexact hne) Bool.false_ne_true.symm

end Neighbours

section Bounds

variable {grid : Set α} {even : α → Prop} {direction : Direction}
  {lo hi x y g : α}

omit [IsStrictOrderedRing α] in
theorem Rounds.mem (h : Rounds grid even direction x y) : y ∈ grid := by
  cases direction with
  | down => exact h.1.1
  | up => exact h.1.1
  | nearestEven => exact h.1.1
  | nearestAway => exact h.1.1

theorem Nearest.le_of_le (h : Nearest grid x y) (hg : g ∈ grid) (hle : x ≤ g) :
    y ≤ g := by
  by_contra hgt
  rw [not_le] at hgt
  have hnear := h.2 g hg
  rw [abs_of_nonpos (by linarith), abs_of_nonpos (by linarith)] at hnear
  linarith

theorem Nearest.ge_of_ge (h : Nearest grid x y) (hg : g ∈ grid) (hge : g ≤ x) :
    g ≤ y := by
  by_contra hlt
  rw [not_le] at hlt
  have hnear := h.2 g hg
  rw [abs_of_nonneg (by linarith), abs_of_nonneg (by linarith)] at hnear
  linarith

theorem Rounds.le_of_le (h : Rounds grid even direction x y) (hg : g ∈ grid)
    (hle : x ≤ g) : y ≤ g := by
  cases direction with
  | down => exact h.1.2.trans hle
  | up => exact h.2 ⟨hg, hle⟩
  | nearestEven => exact h.1.le_of_le hg hle
  | nearestAway => exact h.1.le_of_le hg hle

theorem Rounds.ge_of_ge (h : Rounds grid even direction x y) (hg : g ∈ grid)
    (hge : g ≤ x) : g ≤ y := by
  cases direction with
  | down => exact h.2 ⟨hg, hge⟩
  | up => exact hge.trans h.1.2
  | nearestEven => exact h.1.ge_of_ge hg hge
  | nearestAway => exact h.1.ge_of_ge hg hge

theorem Rounds.eq_of_mem (h : Rounds grid even direction x y) (hx : x ∈ grid) :
    y = x :=
  le_antisymm (h.le_of_le hx le_rfl) (h.ge_of_ge hx le_rfl)

/-- Where a value that rounds to less than the upper one of two neighbours
lies, if the lower one is not even. -/
def StaysBelow (direction : Direction) (lo hi x : α) : Prop :=
  match direction with
  | .down => x < hi
  | .up => x ≤ lo
  | .nearestEven => 2 * x < lo + hi
  | .nearestAway => 2 * x < lo + hi

theorem Nearest.ge_high (h : Nearest grid x y) (hadjacent : Adjacent grid lo hi)
    (hmid : lo + hi < 2 * x) : hi ≤ y := by
  rcases hadjacent.gap y h.1 with hbelow | habove
  · have hnear := h.2 hi hadjacent.high
    have hlt := hadjacent.lt
    rw [abs_of_nonneg (by linarith)] at hnear
    rcases le_abs.mp hnear with hcase | hcase <;> linarith
  · exact habove

theorem Nearest.le_low (h : Nearest grid x y) (hadjacent : Adjacent grid lo hi)
    (hmid : 2 * x < lo + hi) : y ≤ lo := by
  rcases hadjacent.gap y h.1 with hbelow | habove
  · exact hbelow
  · have hnear := h.2 lo hadjacent.low
    have hlt := hadjacent.lt
    rw [abs_of_nonpos (by linarith)] at hnear
    rcases le_abs.mp hnear with hcase | hcase <;> linarith

theorem Nearest.eq_low (h : Nearest grid x y) (hadjacent : Adjacent grid lo hi)
    (hmid : lo + hi = 2 * x) (hlow : y ≤ lo) :
    y = lo ∧ |x - hi| = |x - y| := by
  have hlt := hadjacent.lt
  have hnear := h.2 lo hadjacent.low
  have hbelow : |x - y| = x - y := abs_of_nonneg (by linarith)
  have habove : |x - hi| = hi - x := by
    rw [abs_of_neg (by linarith), neg_sub]
  rw [hbelow, abs_of_nonneg (by linarith)] at hnear
  have heq : y = lo := le_antisymm hlow (by linarith)
  refine ⟨heq, ?_⟩
  rw [hbelow, habove]
  linarith

theorem Rounds.lt_high_iff (h : Rounds grid even direction x y)
    (hadjacent : Adjacent grid lo hi) (hodd : ¬ even lo) :
    y < hi ↔ StaysBelow direction lo hi x := by
  have hlt := hadjacent.lt
  have hle_low : y < hi → y ≤ lo := fun hless =>
    (hadjacent.gap y h.mem).resolve_right (not_le.mpr hless)
  constructor
  · intro hless
    have hlow := hle_low hless
    cases direction with
    | down =>
        by_contra hge
        exact hless.not_ge (h.ge_of_ge hadjacent.high (not_lt.mp hge))
    | up => exact h.1.2.trans hlow
    | nearestEven =>
        by_contra hge
        rcases (not_lt.mp hge).lt_or_eq with hpast | hmid
        · exact hless.not_ge (h.1.ge_high hadjacent hpast)
        · -- The tie would go to the lower neighbour only if it were even.
          obtain ⟨heq, htie⟩ := h.1.eq_low hadjacent hmid hlow
          exact hodd (heq ▸ h.2 hi hadjacent.high hless.ne' htie)
    | nearestAway =>
        by_contra hge
        rcases (not_lt.mp hge).lt_or_eq with hpast | hmid
        · exact hless.not_ge (h.1.ge_high hadjacent hpast)
        · obtain ⟨-, htie⟩ := h.1.eq_low hadjacent hmid hlow
          exact hless.not_ge (h.2 hi hadjacent.high htie)
  · intro hbelow
    cases direction with
    | down => exact h.1.2.trans_lt hbelow
    | up => exact (h.le_of_le hadjacent.low hbelow).trans_lt hlt
    | nearestEven => exact (h.1.le_low hadjacent hbelow).trans_lt hlt
    | nearestAway => exact (h.1.le_low hadjacent hbelow).trans_lt hlt

/-- A finer lower neighbour lets more values stay below. -/
theorem StaysBelow.mono {lo' : α} (h : StaysBelow direction lo hi x)
    (hle : lo ≤ lo') : StaysBelow direction lo' hi x := by
  cases direction with
  | down => exact h
  | up => exact le_trans (a := x) h hle
  | nearestEven =>
      have hmid : 2 * x < lo + hi := h
      exact hmid.trans_le (by linarith)
  | nearestAway =>
      have hmid : 2 * x < lo + hi := h
      exact hmid.trans_le (by linarith)

end Bounds

theorem Placed.low {lo hi : α} (h : lo < hi) : Placed lo hi lo false false := by
  refine ⟨le_rfl, h, iff_of_false Bool.false_ne_true (not_le.mpr ?_),
    iff_of_true rfl (Or.inl rfl)⟩
  linarith

theorem Placed.scale {lo hi x : α} {guard sticky : Bool}
    (h : Placed lo hi x guard sticky) {unit : α} (hunit : 0 < unit) :
    Placed (lo * unit) (hi * unit) (x * unit) guard sticky := by
  have hle : ∀ {a b : α}, a * unit ≤ b * unit ↔ a ≤ b :=
    mul_le_mul_iff_left₀ hunit
  have heq : ∀ {a b : α}, a * unit = b * unit ↔ a = b :=
    mul_left_inj' hunit.ne'
  refine ⟨hle.mpr h.le, (mul_lt_mul_iff_left₀ hunit).mpr h.lt, ?_, ?_⟩
  · rw [h.guard, ← add_mul, ← mul_assoc, hle]
  · rw [h.sticky, heq, ← add_mul, ← mul_assoc, heq]

/-! ## Binary grids -/

/-- The values with a significand below `2 ^ p` and an exponent from `emin`
on. -/
def binaryGrid (α : Type*) [Field α] (p : ℕ) (emin : ℤ) : Set α :=
  {x | ∃ (k : ℕ) (e : ℤ), k < 2 ^ p ∧ emin ≤ e ∧ x = k * 2 ^ e}

/-- A significand that cannot be doubled, or whose exponent is the least. -/
def Normal (p : ℕ) (emin : ℤ) (k : ℕ) (e : ℤ) : Prop :=
  k < 2 ^ p ∧ emin ≤ e ∧ (2 ^ (p - 1) ≤ k ∨ e = emin)

/-- The normal significand of a value is even. -/
def EvenSignificand (p : ℕ) (emin : ℤ) (x : α) : Prop :=
  ∃ (k : ℕ) (e : ℤ), Normal p emin k e ∧ Even k ∧ x = k * 2 ^ e

section BinaryGrid

variable {p q : ℕ} {emin e : ℤ}

omit [LinearOrder α] [IsStrictOrderedRing α] in
theorem Normal.mem (h : Normal p emin q e) :
    (q * 2 ^ e : α) ∈ binaryGrid α p emin :=
  ⟨q, e, h.1, h.2.1, rfl⟩

theorem Normal.succ (h : Normal p emin q e) (hp : 2 ≤ p) :
    ∃ (k : ℕ) (e' : ℤ), Normal p emin k e' ∧
      ((q + 1 : ℕ) * 2 ^ e : α) = k * 2 ^ e' ∧ (Odd q → Even k) := by
  obtain ⟨hq, he, hnormal⟩ := h
  by_cases hcarry : q + 1 = 2 ^ p
  · have hhalf : (2 : ℕ) ^ p = 2 ^ (p - 1) * 2 := by
      rw [← pow_succ, Nat.sub_add_cancel (by omega)]
    refine ⟨2 ^ (p - 1), e + 1, ⟨?_, by omega, Or.inl le_rfl⟩, ?_, fun _ => ?_⟩
    · exact Nat.pow_lt_pow_right (by omega) (by omega)
    · rw [hcarry, hhalf, zpow_add_one₀ two_ne_zero]
      push_cast
      ring
    · exact (Nat.even_pow.mpr ⟨even_two, by omega⟩)
  · refine ⟨q + 1, e, ⟨by omega, he, ?_⟩, rfl, fun hodd => hodd.add_one⟩
    exact hnormal.imp (fun hge => by omega) id

theorem Normal.adjacent (h : Normal p emin q e) (hp : 2 ≤ p) :
    Adjacent (binaryGrid α p emin) (q * 2 ^ e) ((q + 1 : ℕ) * 2 ^ e) := by
  have hunit : (0 : α) < 2 ^ e := zpow_pos two_pos e
  refine ⟨h.mem, ?_, ?_, ?_⟩
  · obtain ⟨k, e', hnormal, hvalue, -⟩ := h.succ (α := α) hp
    exact hvalue ▸ hnormal.mem
  · exact (mul_lt_mul_iff_left₀ hunit).mpr (by exact_mod_cast Nat.lt_succ_self q)
  · rintro g ⟨k, e', hk, he', rfl⟩
    by_cases hfine : e ≤ e'
    · obtain ⟨n, hn⟩ := Int.eq_ofNat_of_zero_le (sub_nonneg.mpr hfine)
      have hmultiple : (k * 2 ^ e' : α) = (k * 2 ^ n : ℕ) * 2 ^ e := by
        rw [show e' = n + e by omega, zpow_add₀ two_ne_zero, zpow_natCast]
        push_cast
        ring
      rw [hmultiple, mul_le_mul_iff_left₀ hunit, mul_le_mul_iff_left₀ hunit]
      exact_mod_cast Nat.lt_or_ge q (k * 2 ^ n) |>.symm
    · left
      obtain ⟨hq, he, hnormal⟩ := h
      have hge : 2 ^ (p - 1) ≤ q := by
        rcases hnormal with hge | heq
        · exact hge
        · omega
      have hstep : (2 : α) ^ e' ≤ 2 ^ (e - 1) :=
        zpow_le_zpow_right₀ one_le_two (by omega)
      calc (k * 2 ^ e' : α) ≤ (2 ^ p : ℕ) * 2 ^ (e - 1) := by
            apply mul_le_mul _ hstep (zpow_nonneg zero_le_two _)
              (Nat.cast_nonneg _)
            exact_mod_cast hk.le
        _ = (2 ^ (p - 1) : ℕ) * 2 ^ e := by
            have hhalf : (2 : ℕ) ^ p = 2 ^ (p - 1) * 2 := by
              rw [← pow_succ, Nat.sub_add_cancel (by omega)]
            have hone : (2 : α) ^ e = 2 ^ (e - 1) * 2 := by
              rw [← zpow_add_one₀ two_ne_zero, sub_add_cancel]
            rw [hhalf, hone]
            push_cast
            ring
        _ ≤ q * 2 ^ e := by
            apply (mul_le_mul_iff_left₀ hunit).mpr
            exact_mod_cast hge

/-- Rounding in a binary grid by quotient, guard and sticky bit. -/
theorem Normal.rounds (h : Normal p emin q e) (hp : 2 ≤ p) {x : α}
    {guard sticky : Bool}
    (hplaced : Placed (q * 2 ^ e : α) ((q + 1 : ℕ) * 2 ^ e : α) x guard sticky)
    (direction : Direction) :
    Rounds (binaryGrid α p emin) (EvenSignificand p emin) direction x
      (if goesUp direction (decide (Even q)) guard sticky then
        ((q + 1 : ℕ) * 2 ^ e : α) else (q * 2 ^ e : α)) := by
  apply rounds_of_placed (h.adjacent hp) hplaced
  · exact fun heven => ⟨q, e, h, of_decide_eq_true heven, rfl⟩
  · intro hodd
    obtain ⟨k, e', hnormal, hvalue, heven⟩ := h.succ (α := α) hp
    exact ⟨k, e', hnormal,
      heven (Nat.not_even_iff_odd.mp (of_decide_eq_false hodd)), hvalue⟩

theorem Normal.unique {k : ℕ} {e' : ℤ} (h : Normal p emin q e)
    (h' : Normal p emin k e') (heq : (q * 2 ^ e : α) = k * 2 ^ e') :
    q = k ∧ e = e' := by
  -- The form with the larger exponent would be worth more.
  have hsmall : ∀ {q k : ℕ} {e e' : ℤ}, Normal p emin q e →
      Normal p emin k e' → e < e' → (q * 2 ^ e : α) ≠ k * 2 ^ e' := by
    intro q k e e' hq hk hlt
    have hlow : 2 ^ (p - 1) ≤ k := hk.2.2.resolve_right (by have := hq.2.1; omega)
    have hdouble : q + 1 ≤ k * 2 := by
      calc q + 1 ≤ 2 ^ p := hq.1
        _ ≤ 2 ^ (p - 1) * 2 := by
            rw [← pow_succ]
            exact Nat.pow_le_pow_right (by decide) (by omega)
        _ ≤ k * 2 := Nat.mul_le_mul_right 2 hlow
    apply ne_of_lt
    calc (q * 2 ^ e : α) < (k * 2 : ℕ) * 2 ^ e := by
          apply (mul_lt_mul_iff_left₀ (zpow_pos two_pos e)).mpr
          exact_mod_cast hdouble
      _ = k * 2 ^ (e + 1) := by
          rw [zpow_add_one₀ two_ne_zero]
          push_cast
          ring
      _ ≤ k * 2 ^ e' := by
          apply mul_le_mul_of_nonneg_left _ (Nat.cast_nonneg k)
          exact zpow_le_zpow_right₀ one_le_two (by omega)
  have hexponent : e = e' := by
    rcases lt_trichotomy e e' with hless | hsame | hmore
    · exact absurd heq (hsmall h h' hless)
    · exact hsame
    · exact absurd heq.symm (hsmall h' h hmore)
  subst hexponent
  rw [mul_left_inj' (zpow_pos two_pos e).ne'] at heq
  exact ⟨Nat.cast_injective heq, rfl⟩

theorem Normal.even_iff (h : Normal p emin q e) :
    EvenSignificand p emin (q * 2 ^ e : α) ↔ Even q := by
  constructor
  · rintro ⟨k, e', hnormal, heven, heq⟩
    rwa [(h.unique hnormal heq).1]
  · exact fun heven => ⟨q, e, h, heven, rfl⟩

theorem adjacent_pow (hp : 2 ≤ p) {k : ℤ} (hk : emin + p ≤ k) :
    Adjacent (binaryGrid α p emin) ((2 ^ p - 1 : ℕ) * 2 ^ (k - p)) (2 ^ k) ∧
      ¬ EvenSignificand p emin ((2 ^ p - 1 : ℕ) * 2 ^ (k - p) : α) := by
  have hpos := Nat.two_pow_pos p
  have hfull : 2 ^ (p - 1) ≤ 2 ^ p - 1 := by
    have hhalf : 2 ^ p = 2 ^ (p - 1) * 2 := by
      rw [← pow_succ, Nat.sub_add_cancel (by omega)]
    have hunit := Nat.two_pow_pos (p - 1)
    omega
  have hnormal : Normal p emin (2 ^ p - 1) (k - p) :=
    ⟨Nat.sub_lt hpos one_pos, by omega, Or.inl hfull⟩
  have hadjacent := hnormal.adjacent (α := α) hp
  have hhigh : ((2 ^ p - 1 + 1 : ℕ) * 2 ^ (k - p) : α) = 2 ^ k := by
    rw [Nat.sub_add_cancel hpos, Nat.cast_pow, Nat.cast_ofNat, ← zpow_natCast,
      ← zpow_add₀ two_ne_zero, add_sub_cancel]
  rw [hhigh] at hadjacent
  refine ⟨hadjacent, ?_⟩
  rw [hnormal.even_iff, Nat.not_even_iff_odd]
  exact Nat.Even.sub_odd hpos (Nat.even_pow.mpr ⟨even_two, by omega⟩) odd_one

theorem Rounds.lt_pow_iff (hp : 2 ≤ p) {k : ℤ} (hk : emin + p ≤ k)
    {direction : Direction} {x y y' : α}
    (h : Rounds (binaryGrid α p emin) (EvenSignificand p emin) direction x y)
    (h' : Rounds (binaryGrid α p emin) (EvenSignificand p emin) direction x y') :
    y < 2 ^ k ↔ y' < 2 ^ k := by
  obtain ⟨hadjacent, hodd⟩ := adjacent_pow (α := α) hp hk
  exact (h.lt_high_iff hadjacent hodd).trans
    (h'.lt_high_iff hadjacent hodd).symm

end BinaryGrid

/-! ## Grids without a least exponent -/

def unboundedGrid (α : Type*) [Field α] (p : ℕ) : Set α :=
  {x | ∃ (k : ℕ) (e : ℤ), k < 2 ^ p ∧ x = k * 2 ^ e}

/-- The significand of a value with all its places is even. -/
def EvenFullSignificand (p : ℕ) (x : α) : Prop :=
  ∃ (k : ℕ) (e : ℤ), 2 ^ (p - 1) ≤ k ∧ k < 2 ^ p ∧ Even k ∧ x = k * 2 ^ e

section Unbounded

variable {p q : ℕ} {e : ℤ} (hlow : 2 ^ (p - 1) ≤ q) (hhigh : q < 2 ^ p)

include hlow hhigh

theorem normal_of_full {emin : ℤ} (he : emin ≤ e) : Normal p emin q e :=
  ⟨hhigh, he, Or.inl hlow⟩

theorem full_adjacent (hp : 2 ≤ p) :
    Adjacent (unboundedGrid α p) (q * 2 ^ e) ((q + 1 : ℕ) * 2 ^ e) := by
  have hnormal := normal_of_full hlow hhigh (le_refl e)
  refine ⟨⟨q, e, hhigh, rfl⟩, ?_, (hnormal.adjacent hp).lt, ?_⟩
  · obtain ⟨k, e', hnext, hvalue, -⟩ := hnormal.succ (α := α) hp
    exact ⟨k, e', hnext.1, hvalue⟩
  · rintro g ⟨k, e', hk, rfl⟩
    have hbounded := normal_of_full hlow hhigh (min_le_left e e')
    exact (hbounded.adjacent hp).gap _ ⟨k, e', hk, min_le_right e e', rfl⟩

theorem full_even_iff :
    EvenFullSignificand p (q * 2 ^ e : α) ↔ Even q := by
  constructor
  · rintro ⟨k, e', hklow, hkhigh, heven, heq⟩
    have hbounded := normal_of_full hlow hhigh (min_le_left e e')
    have hother := normal_of_full hklow hkhigh (min_le_right e e')
    rwa [(hbounded.unique hother heq).1]
  · exact fun heven => ⟨q, e, hlow, hhigh, heven, rfl⟩

end Unbounded

omit [IsStrictOrderedRing α] in
theorem placed_decide {lo hi x : α} (hle : lo ≤ x) (hlt : x < hi) :
    Placed lo hi x (decide (lo + hi ≤ 2 * x))
      (decide (¬ (x = lo ∨ 2 * x = lo + hi))) := by
  refine ⟨hle, hlt, decide_eq_true_iff, ?_⟩
  rw [decide_eq_false_iff_not, not_not]

theorem exists_rounds_unbounded [FloorSemiring α] {p : ℕ} (hp : 2 ≤ p) {x : α}
    (hx : 0 < x) (direction : Direction) :
    ∃ y, Rounds (unboundedGrid α p) (EvenFullSignificand p) direction x y := by
  set e := Int.log 2 x - (p - 1 : ℕ) with he
  have hunit : (0 : α) < 2 ^ e := zpow_pos two_pos e
  have hbelow : (2 ^ (p - 1) : α) * 2 ^ e ≤ x := by
    have hlog := Int.zpow_log_le_self (b := 2) one_lt_two hx
    rw [show Int.log 2 x = (p - 1 : ℕ) + e by omega, zpow_add₀ (by simp),
      zpow_natCast] at hlog
    exact_mod_cast hlog
  have habove : x < (2 ^ p : α) * 2 ^ e := by
    have hlog := Int.lt_zpow_succ_log_self (b := 2) one_lt_two x
    rw [show Int.log 2 x + 1 = p + e by omega, zpow_add₀ (by simp),
      zpow_natCast] at hlog
    exact_mod_cast hlog
  set k := ⌊x / 2 ^ e⌋₊ with hk
  have hnonneg : 0 ≤ x / 2 ^ e := (div_pos hx hunit).le
  have hlow : 2 ^ (p - 1) ≤ k := by
    apply Nat.le_floor
    rw [le_div_iff₀ hunit]
    exact_mod_cast hbelow
  have hhigh : k < 2 ^ p := by
    rw [hk, Nat.floor_lt hnonneg, div_lt_iff₀ hunit]
    exact_mod_cast habove
  have hle : (k * 2 ^ e : α) ≤ x := by
    rw [← le_div_iff₀ hunit]
    exact Nat.floor_le hnonneg
  have hlt : x < ((k + 1 : ℕ) * 2 ^ e : α) := by
    rw [← div_lt_iff₀ hunit, Nat.cast_succ]
    exact Nat.lt_floor_add_one _
  have hadjacent := full_adjacent (α := α) (e := e) hlow hhigh hp
  have heven : decide (Even k) = true →
      EvenFullSignificand p (k * 2 ^ e : α) :=
    fun heven => ⟨k, e, hlow, hhigh, of_decide_eq_true heven, rfl⟩
  have hodd : decide (Even k) = false →
      EvenFullSignificand p ((k + 1 : ℕ) * 2 ^ e : α) := by
    intro hodd
    have hnormal := normal_of_full hlow hhigh (le_refl e)
    obtain ⟨n, e', hnext, hvalue, heven⟩ := hnormal.succ (α := α) hp
    have hfull : 2 ^ (p - 1) ≤ n := by
      rcases hnext.2.2 with hfull | rfl
      · exact hfull
      · rw [mul_left_inj' hunit.ne'] at hvalue
        have hsame : k + 1 = n := Nat.cast_injective hvalue
        omega
    exact ⟨n, e', hfull, hnext.1,
      heven (Nat.not_even_iff_odd.mp (of_decide_eq_false hodd)), hvalue⟩
  exact ⟨_, rounds_of_placed hadjacent (placed_decide hle hlt) heven hodd
    direction⟩

/-! ## Jamming -/

/-- A significand that stands for `x`: exactly, or, where it is odd, for a
value less than one away from it. -/
def Jammed (m : ℕ) (x : α) : Prop :=
  x = m ∨ Odd m ∧ |x - m| < 1

theorem Jammed.pos {m : ℕ} {x : α} (h : Jammed m x) (hm : m ≠ 0) : 0 < x := by
  have hone : (1 : α) ≤ m := by exact_mod_cast Nat.one_le_iff_ne_zero.mpr hm
  rcases h with rfl | ⟨-, hnear⟩
  · linarith
  · have hbelow := (abs_lt.mp hnear).1
    linarith

/-- Cutting `d` bits off a significand places the value it stands for; two bits
or more, if bits were jammed. -/
theorem Jammed.placed {m d : ℕ} {x : α} (h : Jammed m x) (hd : 1 ≤ d)
    (hjam : x = m ∨ 2 ≤ d) :
    Placed ((m / 2 ^ d : ℕ) * 2 ^ d : α) ((m / 2 ^ d + 1 : ℕ) * 2 ^ d : α) x
      (decide (2 ^ (d - 1) ≤ m % 2 ^ d))
      (decide (m % 2 ^ (d - 1) ≠ 0)) := by
  obtain ⟨n, rfl⟩ : ∃ n, d = n + 1 := ⟨d - 1, by omega⟩
  rw [Nat.add_sub_cancel]
  set half := 2 ^ n with hhalf
  set q := m / 2 ^ (n + 1) with hq
  set r := m % 2 ^ (n + 1) with hr
  have hunit : 2 ^ (n + 1) = 2 * half := by rw [pow_succ, mul_comm]
  have hpos : 0 < half := Nat.two_pow_pos n
  have hlt : r < 2 * half := hunit ▸ Nat.mod_lt m (Nat.two_pow_pos _)
  have hsplit : m = q * (2 * half) + r := by
    rw [← hunit]
    exact (Nat.div_add_mod' m _).symm
  have hlow : m % half = r % half := by
    rw [hsplit, ← mul_assoc, Nat.mul_add_mod_self_right]
  have hm : (m : α) = q * (2 * half) + r := by exact_mod_cast hsplit
  have hunit' : (2 : α) ^ (n + 1) = 2 * half := by exact_mod_cast hunit
  have hposα : (0 : α) < half := by exact_mod_cast hpos
  rw [hlow, hunit', Nat.cast_succ]
  have hexact : ∀ b : Bool, b = decide (r % half ≠ 0) →
      (b = false ↔ r = 0 ∨ r = half) := by
    rintro _ rfl
    rw [decide_eq_false_iff_not, not_not]
    constructor
    · intro hzero
      obtain ⟨j, hj⟩ := Nat.dvd_of_mod_eq_zero hzero
      have hj2 : j < 2 := by
        by_contra hge
        have : half * 2 ≤ half * j := Nat.mul_le_mul_left half (by omega)
        omega
      interval_cases j <;> omega
    · rintro (hzero | hzero) <;> simp [hzero]
  by_cases hx : x = m
  · subst hx
    refine ⟨?_, ?_, ?_, ?_⟩
    · rw [hm]
      exact le_add_of_nonneg_right (Nat.cast_nonneg r)
    · have hltα : (r : α) < 2 * half := by exact_mod_cast hlt
      rw [hm]
      linarith
    · rw [decide_eq_true_eq, ← Nat.cast_le (α := α), hm]
      constructor <;> intro hle <;> linarith
    · rw [hexact _ rfl, ← Nat.cast_inj (R := α), ← Nat.cast_inj (R := α), hm,
        Nat.cast_zero]
      constructor <;> rintro (heq | heq)
      · exact Or.inl (by linarith)
      · exact Or.inr (by linarith)
      · exact Or.inl (by linarith)
      · exact Or.inr (by linarith)
  · obtain ⟨hodd, hnear⟩ := h.resolve_left hx
    have htwo : 2 ≤ n + 1 := hjam.resolve_left hx
    have heven : Even half := Nat.even_pow.mpr ⟨even_two, by omega⟩
    have hr : Odd r := by
      rw [hsplit, Nat.odd_add'] at hodd
      exact hodd.mpr (Even.mul_left (even_two_mul half) q)
    obtain ⟨hbelow, habove⟩ := abs_lt.mp hnear
    have hone : 1 ≤ r := hr.pos
    have hlast : r + 1 ≤ 2 * half := hlt
    have hne : r ≠ half := fun heq => Nat.not_even_iff_odd.mpr hr (heq ▸ heven)
    have honeα : (1 : α) ≤ r := by exact_mod_cast hone
    have hlastα : (r + 1 : α) ≤ 2 * half := by exact_mod_cast hlast
    have hinexact : ¬ (r = 0 ∨ r = half) := by omega
    refine ⟨by linarith, by linarith, ?_, ?_⟩
    · rw [decide_eq_true_eq]
      constructor
      · intro hge
        have hgeα : (half + 1 : α) ≤ r := by
          exact_mod_cast lt_of_le_of_ne hge hne.symm
        linarith
      · intro hmid
        by_contra hless
        have hlessα : (r + 1 : α) ≤ half := by
          exact_mod_cast Nat.lt_of_not_le hless
        linarith
    · rw [hexact _ rfl]
      refine iff_of_false hinexact ?_
      rintro (heq | heq)
      · linarith
      · rcases Nat.lt_or_gt_of_ne hne with hless | hmore
        · have hlessα : (r + 1 : α) ≤ half := by exact_mod_cast hless
          linarith
        · have hmoreα : (half + 1 : α) ≤ r := by exact_mod_cast hmore
          linarith

/-- The quotient by `2 ^ d`, the lost bits jammed into its lowest one. -/
def jam (m d : ℕ) : ℕ :=
  m / 2 ^ d ||| (if m % 2 ^ d ≠ 0 then 1 else 0)

theorem or_one {k : ℕ} : Odd (k ||| 1) ∧ k ≤ k ||| 1 ∧ k ||| 1 ≤ k + 1 := by
  have hdouble : ∀ n : ℕ, 2 * n ||| 1 = 2 * n + 1 := by
    intro n
    have hshift := Nat.shiftLeft_add_eq_or_of_lt (i := 1) (b := 1)
      (by decide) n
    rw [Nat.shiftLeft_eq, pow_one, mul_comm] at hshift
    exact hshift.symm
  rcases Nat.even_or_odd' k with ⟨n, rfl | rfl⟩
  · rw [hdouble]
    exact ⟨odd_two_mul_add_one n, Nat.le_succ _, le_rfl⟩
  · rw [← hdouble, Nat.or_assoc, Nat.or_self, hdouble]
    exact ⟨odd_two_mul_add_one n, le_rfl, Nat.le_succ _⟩

theorem or_sticky (k : ℕ) (sticky : Prop) [Decidable sticky] :
    k ≤ k ||| (if sticky then 1 else 0) ∧
      k ||| (if sticky then 1 else 0) ≤ k + 1 := by
  split
  · exact or_one.2
  · rw [Nat.or_zero]
    exact ⟨le_rfl, Nat.le_succ k⟩

theorem jam_le (m d : ℕ) : jam m d ≤ m / 2 ^ d + 1 := by
  unfold jam
  exact (or_sticky _ _).2

/-- A whole part with the lost rest jammed into its lowest bit stands for the
exact value. -/
theorem jammed_of_whole {k : ℕ} {x : α} {inexact : Prop} [Decidable inexact]
    (hle : (k : α) ≤ x) (hlt : x < k + 1) (hinexact : inexact ↔ x ≠ k) :
    Jammed (k ||| (if inexact then 1 else 0)) x := by
  by_cases hlost : inexact
  · obtain ⟨hodd, hlow, hhigh⟩ := or_one (k := k)
    have hbelow : (k : α) < x := lt_of_le_of_ne hle (hinexact.mp hlost).symm
    have hlowα : (k : α) ≤ (k ||| 1 : ℕ) := by exact_mod_cast hlow
    have hhighα : ((k ||| 1 : ℕ) : α) ≤ k + 1 := by exact_mod_cast hhigh
    rw [if_pos hlost]
    exact Or.inr ⟨hodd, abs_lt.mpr ⟨by linarith, by linarith⟩⟩
  · left
    rw [if_neg hlost, Nat.or_zero]
    exact not_not.mp fun hne => hlost (hinexact.mpr hne)

theorem jammed_div (m : ℕ) {d : ℕ} (hd : 0 < d) :
    Jammed (m / d ||| (if m % d ≠ 0 then 1 else 0)) (m / d : α) := by
  have hunit : (0 : α) < d := Nat.cast_pos.mpr hd
  have hsplit : (m : α) = (m / d : ℕ) * d + (m % d : ℕ) := by
    exact_mod_cast (Nat.div_add_mod' m d).symm
  have hless : ((m % d : ℕ) : α) < d := by exact_mod_cast Nat.mod_lt m hd
  apply jammed_of_whole
  · rw [le_div_iff₀ hunit, hsplit]
    exact le_add_of_nonneg_right (Nat.cast_nonneg _)
  · rw [div_lt_iff₀ hunit, hsplit, add_mul, one_mul]
    exact (add_lt_add_iff_left _).mpr hless
  · rw [ne_eq, ne_eq, not_iff_not, div_eq_iff hunit.ne', hsplit,
      add_eq_left, Nat.cast_eq_zero]

theorem jammed_jam (m d : ℕ) : Jammed (jam m d) (m / 2 ^ d : α) := by
  have hjammed := jammed_div (α := α) m (Nat.two_pow_pos d)
  rwa [Nat.cast_pow, Nat.cast_ofNat] at hjammed

/-- Two significands at one exponent of which the second had bits jammed: the
first is even and larger by far. -/
structure Trails (n : ℕ) (a b : ℕ) (x y : α) : Prop where
  exact : x = a
  even : Even a
  large : 2 ^ (n + 1) ≤ a
  odd : Odd b
  near : |y - b| < 1
  small : b ≤ 2 ^ n

/-- Two significands at one exponent, at most one of them with jammed bits. -/
def Aligned (n : ℕ) (a b : ℕ) (x y : α) : Prop :=
  x = a ∧ y = b ∨ Trails n a b x y ∨ Trails n b a y x

/-- A significand with `n` bits at least, if bits were jammed into it. -/
def JammedWide (n m : ℕ) (x : α) : Prop :=
  Jammed m x ∧ (x = m ∨ 2 ^ n ≤ m)

section Aligned

variable {n a b : ℕ} {x y : α}

omit [IsStrictOrderedRing α] in
theorem Aligned.symm (h : Aligned n a b x y) : Aligned n b a y x := by
  rcases h with ⟨hx, hy⟩ | h | h
  · exact Or.inl ⟨hy, hx⟩
  · exact Or.inr (Or.inr h)
  · exact Or.inr (Or.inl h)

omit [IsStrictOrderedRing α] in
theorem Trails.add (h : Trails n a b x y) : JammedWide n (a + b) (x + y) := by
  have hlarge := h.large
  rw [pow_succ] at hlarge
  refine ⟨Or.inr ⟨h.even.add_odd h.odd, ?_⟩, Or.inr (by omega)⟩
  rw [h.exact, Nat.cast_add, add_sub_add_left_eq_sub]
  exact h.near

omit [IsStrictOrderedRing α] in
theorem Aligned.add (h : Aligned n a b x y) :
    JammedWide n (a + b) (x + y) := by
  rcases h with ⟨rfl, rfl⟩ | h | h
  · rw [← Nat.cast_add]
    exact ⟨Or.inl rfl, Or.inl rfl⟩
  · exact h.add
  · rw [add_comm a, add_comm x]
    exact h.add

omit [IsStrictOrderedRing α] in
theorem Aligned.sub (h : Aligned n a b x y) (hle : b ≤ a) :
    JammedWide n (a - b) (x - y) := by
  have hcast : ((a - b : ℕ) : α) = a - b := Nat.cast_sub hle
  rcases h with ⟨rfl, rfl⟩ | h | h
  · rw [← hcast]
    exact ⟨Or.inl rfl, Or.inl rfl⟩
  · have hlarge := h.large
    have hsmall := h.small
    rw [pow_succ] at hlarge
    refine ⟨Or.inr ⟨Nat.Even.sub_odd hle h.even h.odd, ?_⟩,
      Or.inr (by omega)⟩
    rw [hcast, h.exact, sub_sub_sub_cancel_left, abs_sub_comm]
    exact h.near
  · have hlarge := h.large
    have hsmall := h.small
    have hpos := Nat.two_pow_pos n
    rw [pow_succ] at hlarge
    omega

end Aligned

end GridRounding
