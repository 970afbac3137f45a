import Nanoemu.FloatFormat
import Nanoemu.GridRounding

/-!
# The one rounding step

Every operation hands its magnitude to one routine, either exactly or with the
lost bits jammed into the lowest one.  The routine cuts the significand at the
weight of the result's last place and decides by the guard and sticky bits, so
what it encodes is the magnitude rounded to the grid of the format.
-/

namespace Nanoemu

open CheckedProgram GridRounding

namespace Fpu

/-- Where a mode takes the magnitude of a value with the given sign. -/
def Rm.direction (rm : Rm) (sign : Bool) : Direction :=
  match rm with
  | .rne => .nearestEven
  | .rtz => .down
  | .rdn => if sign then .up else .down
  | .rup => if sign then .down else .up
  | .rmm => .nearestAway

namespace Fmt

/-- The finite magnitudes of the format, were its exponent unbounded above. -/
def grid (f : Fmt) : Set ℚ :=
  binaryGrid ℚ (f.sig + 1) f.minE

def IsEven (f : Fmt) (y : ℚ) : Prop :=
  EvenSignificand (f.sig + 1) f.minE y

/-- The least power of two past the largest finite magnitude. -/
def limit (f : Fmt) : ℚ :=
  2 ^ (f.maxField - f.bias)

end Fmt

/-- The flags of the given exceptions, the underflow flag left aside. -/
def RaisesApart (raised : List Flag) (flags : ℕ) : Prop :=
  flags = flagWord raised ∨ flags = flagWord (.underflow :: raised)

def inexactIf (condition : Bool) : List Flag :=
  if condition then [.inexact] else []

/-- What is returned for the rounded magnitude `y`, the underflow flag left
aside. -/
def Encodes (f : Fmt) (rm : Rm) (sign inexact : Bool) (y : ℚ)
    (result : ℕ × ℕ) : Prop :=
  if f.limit ≤ y then
    f.Gives sign (if rm.direction sign = .down then .finite f.largest else .inf)
      [.overflow, .inexact] result
  else
    f.Shows result.1 sign (.finite y) ∧
      RaisesApart (inexactIf inexact) result.2

/-- What an operation whose exact result has the magnitude `x` must return:
the magnitude is rounded once, as if the exponent were unbounded above. -/
def Correct (f : Fmt) (rm : Rm) (sign : Bool) (x : ℚ) (result : ℕ × ℕ) :
    Prop :=
  ∃ y, Rounds f.grid f.IsEven (rm.direction sign) x y ∧
    Encodes f rm sign (decide (y ≠ x)) y result

def Fmt.leastNormal (f : Fmt) : ℚ :=
  2 ^ f.sig * 2 ^ f.minE

def underflows (flags : ℕ) : Bool :=
  flags &&& UF != 0

@[simp] theorem underflows_none : underflows 0 = false := rfl

@[simp] theorem underflows_NX : underflows NX = false := rfl

@[simp] theorem underflows_NV : underflows NV = false := rfl

@[simp] theorem underflows_DZ : underflows DZ = false := rfl

@[simp] theorem underflows_tiny : underflows (NX ||| UF) = true := rfl

@[simp] theorem underflows_overflow : underflows (OF ||| NX) = false := rfl

section Field

variable {α : Type*} [Field α] [LinearOrder α] [IsStrictOrderedRing α]

/-- What is returned where `x` rounds to `y`, with every flag. -/
structure RoundedTo (f : Fmt) (rm : Rm) (sign : Bool) (x : α) (y : ℚ)
    (result : ℕ × ℕ) : Prop where
  rounds : Rounds (binaryGrid α (f.sig + 1) f.minE)
    (EvenSignificand (f.sig + 1) f.minE) (rm.direction sign) x y
  encodes : Encodes f rm sign (decide ((y : α) ≠ x)) y result
  underflow : underflows result.2 = true ↔
    (y : α) ≠ x ∧ y < f.leastNormal

end Field

theorem RoundedTo.correct {f : Fmt} {rm : Rm} {sign : Bool} {x y : ℚ}
    {result : ℕ × ℕ} (h : RoundedTo f rm sign x y result) :
    Correct f rm sign x result := by
  have hrounds := h.rounds
  have hencodes := h.encodes
  rw [Rat.cast_id] at hrounds
  simp only [Rat.cast_id] at hencodes
  exact ⟨y, hrounds, hencodes⟩

/-- The underflow flag is raised where the magnitude rounds, with a loss, to
less than the least normal one. -/
def UnderflowsAt (f : Fmt) (rm : Rm) (sign : Bool) (x : ℚ) (flags : ℕ) :
    Prop :=
  ∃ y, Rounds f.grid f.IsEven (rm.direction sign) x y ∧
    (underflows flags = true ↔ y ≠ x ∧ y < f.leastNormal)

theorem RoundedTo.underflowsAt {f : Fmt} {rm : Rm} {sign : Bool} {x y : ℚ}
    {result : ℕ × ℕ} (h : RoundedTo f rm sign x y result) :
    UnderflowsAt f rm sign x result.2 := by
  have hrounds := h.rounds
  have hunderflow := h.underflow
  rw [Rat.cast_id] at hrounds hunderflow
  exact ⟨y, hrounds, hunderflow⟩

theorem underflowsAt_self {f : Fmt} {x : ℚ} (hx : x ∈ f.grid) (rm : Rm)
    (sign : Bool) {flags : ℕ} (hflags : underflows flags = false) :
    UnderflowsAt f rm sign x flags := by
  refine ⟨x, rounds_self hx f.IsEven _, ?_⟩
  rw [hflags]
  simp

theorem roundsUp_eq (rm : Rm) (sign guard sticky : Bool) (q : ℕ) :
    roundsUp rm sign guard sticky q =
      goesUp (rm.direction sign) (decide (Even q)) guard sticky := by
  have hodd : (q &&& 1 == 1) = !decide (Even q) := by
    rw [Nat.and_one_is_mod]
    rcases Nat.even_or_odd q with h | h
    · rw [Nat.even_iff.mp h, decide_eq_true h]
      rfl
    · rw [Nat.odd_iff.mp h, decide_eq_false (Nat.not_even_iff_odd.mpr h)]
      rfl
  cases rm with
  | rne => rw [roundsUp, hodd, Rm.direction, goesUp]
  | rtz => rfl
  | rdn => cases sign <;> rfl
  | rup => cases sign <;> rfl
  | rmm => rfl

theorem overflowsToInf_eq (rm : Rm) (sign : Bool) :
    overflowsToInf rm sign = !decide (rm.direction sign = .down) := by
  cases rm <;> cases sign <;> rfl

theorem one_shiftLeft_word {d : ℕ} (hd : d < 128) :
    1 <<< d % 2 ^ 128 = 2 ^ d := by
  rw [Nat.one_shiftLeft,
    Nat.mod_eq_of_lt (Nat.pow_lt_pow_right (by decide) hd)]

theorem discardBits_up {m up : ℕ} (hup : up < 128)
    (hword : m * 2 ^ up < 2 ^ 128) :
    discardBits m (-up) = pure (m * 2 ^ up, false, false) := by
  rw [discardBits, if_pos (by omega),
    Checked.ineg_eq_pure (by omega) (by omega), pure_bind, neg_neg,
    Int.toNat_natCast, Checked.ushl_eq_pure hup, pure_bind, Nat.shiftLeft_eq,
    Nat.mod_eq_of_lt hword]

theorem discardBits_down {m d : ℕ} (hd : 1 ≤ d) (hm : m ≠ 0)
    (hfit : d < 128 ∨ m < 2 ^ (d - 1)) :
    discardBits m d =
      pure (m / 2 ^ d, decide (2 ^ (d - 1) ≤ m % 2 ^ d),
        decide (m % 2 ^ (d - 1) ≠ 0)) := by
  have hlow : ¬ (d : ℤ) ≤ 0 := by omega
  rw [discardBits, if_neg hlow]
  by_cases hall : 128 ≤ d
  · have hhalf : m < 2 ^ (d - 1) := hfit.resolve_left (by omega)
    have hlt : m < 2 ^ d :=
      hhalf.trans_le (Nat.pow_le_pow_right (by decide) (Nat.sub_le d 1))
    rw [if_pos (by omega), Nat.div_eq_of_lt hlt, Nat.mod_eq_of_lt hlt,
      Nat.mod_eq_of_lt hhalf, decide_eq_false (not_le.mpr hhalf),
      decide_eq_true hm]
  · have hword : d < 128 := by omega
    have hbelow : d - 1 < 128 := by omega
    have hunit : 2 ^ d = 2 ^ (d - 1) * 2 := by
      rw [← pow_succ, Nat.sub_add_cancel hd]
    have hguard : ((m % 2 ^ d) >>> (d - 1) &&& 1 != 0) =
        decide (2 ^ (d - 1) ≤ m % 2 ^ d) := by
      have hlt : m % 2 ^ d / 2 ^ (d - 1) < 2 := by
        rw [Nat.div_lt_iff_lt_mul (Nat.two_pow_pos _), mul_comm, ← hunit]
        exact Nat.mod_lt m (Nat.two_pow_pos d)
      rw [Nat.and_one_is_mod, Nat.shiftRight_eq_div_pow, Nat.mod_eq_of_lt hlt,
        Bool.eq_iff_iff, bne_iff_ne, decide_eq_true_eq,
        ← Nat.one_le_div_iff (Nat.two_pow_pos _), Nat.one_le_iff_ne_zero]
    have hsticky : ((m % 2 ^ d) &&& (2 ^ (d - 1) - 1) != 0) =
        decide (m % 2 ^ (d - 1) ≠ 0) := by
      rw [Nat.and_two_pow_sub_one_eq_mod,
        Nat.mod_mod_of_dvd m (pow_dvd_pow 2 (Nat.sub_le d 1)),
        Bool.eq_iff_iff, bne_iff_ne, decide_eq_true_eq]
    rw [if_neg (by omega)]
    dsimp only
    rw [Int.toNat_natCast, Checked.ushl_eq_pure hword, pure_bind,
      one_shiftLeft_word hword, Checked.usub_eq_pure (Nat.two_pow_pos d),
      pure_bind, Nat.and_two_pow_sub_one_eq_mod, Checked.ushr_eq_pure hword,
      pure_bind, Checked.usub_eq_pure hd, pure_bind,
      Checked.ushr_eq_pure hbelow, pure_bind, Checked.ushl_eq_pure hbelow,
      pure_bind, one_shiftLeft_word hbelow,
      Checked.usub_eq_pure (Nat.two_pow_pos _), pure_bind, hguard, hsticky,
      Nat.shiftRight_eq_div_pow]

/-- The weight of the last place of the result. -/
def Fmt.lastPlace (f : Fmt) (m : ℕ) (e : ℤ) : ℤ :=
  max (bitLen m - 1 + e - f.sig) f.minE

/-- What the rounding routine may be handed for `x * 2 ^ e`.  A significand
with jammed bits is wide enough that two places at least are cut off it. -/
structure Roundable {α : Type*} [Field α] [LinearOrder α]
    [IsStrictOrderedRing α] (f : Fmt) (m : ℕ) (e : ℤ) (x : α) : Prop where
  ne_zero : m ≠ 0
  word : m < 2 ^ 128
  fits : f.lastPlace m e - e ≠ 128 ∨ m < 2 ^ 127
  jammed : Jammed m x
  wide : x = m ∨ f.sig + 3 ≤ bitLen m
  exponent_low : -2 ^ 30 ≤ e
  exponent_high : e ≤ 2 ^ 30

theorem two_pow_bitLen {m : ℕ} (hm : m ≠ 0) :
    2 ^ (bitLen m - 1) ≤ m ∧ m < 2 ^ bitLen m := by
  have hpos : 0 < bitLen m := lt_bitLen_iff.mpr (Nat.one_le_iff_ne_zero.mpr hm)
  exact ⟨lt_bitLen_iff.mp (by omega), bitLen_le_iff.mp le_rfl⟩

/-- Where `d` places are cut off, the quotient is normal, and the half and the
rest of the remainder say where the exact value lies above it. -/
theorem placed_cut {α : Type*} [Field α] [LinearOrder α]
    [IsStrictOrderedRing α] {f : Fmt} {m d : ℕ} {e : ℤ} {x : α} (hm : m ≠ 0)
    (hd : 1 ≤ d) (hshift : f.lastPlace m e - e = d) (hjammed : Jammed m x)
    (hwide : x = m ∨ 2 ≤ d) :
    Normal (f.sig + 1) f.minE (m / 2 ^ d) (f.lastPlace m e) ∧
    Placed ((m / 2 ^ d : ℕ) * 2 ^ f.lastPlace m e : α)
      ((m / 2 ^ d + 1 : ℕ) * 2 ^ f.lastPlace m e) (x * 2 ^ e)
      (decide (2 ^ (d - 1) ≤ m % 2 ^ d)) (decide (m % 2 ^ (d - 1) ≠ 0)) := by
  obtain ⟨hlow, hhigh⟩ := two_pow_bitLen hm
  have hpos : 0 < bitLen m :=
    lt_bitLen_iff.mpr (Nat.one_le_iff_ne_zero.mpr hm)
  have hulp : bitLen m - 1 + e - f.sig ≤ f.lastPlace m e := le_max_left _ _
  have hmin : f.minE ≤ f.lastPlace m e := le_max_right _ _
  have hplace : f.lastPlace m e = bitLen m - 1 + e - f.sig ∨
      f.lastPlace m e = f.minE := max_choice _ _
  set place := f.lastPlace m e
  have hscale : ∀ k : ℕ, (k * 2 ^ place : α) = k * 2 ^ d * 2 ^ e := by
    intro k
    rw [show place = d + e by omega, zpow_add₀ two_ne_zero, zpow_natCast,
      mul_assoc]
  refine ⟨⟨?_, hmin, ?_⟩, ?_⟩
  · apply Nat.div_lt_of_lt_mul
    rw [← pow_add]
    exact hhigh.trans_le (Nat.pow_le_pow_right (by decide) (by omega))
  · refine hplace.imp (fun heq => ?_) id
    rw [Nat.le_div_iff_mul_le (Nat.two_pow_pos d), ← pow_add,
      show f.sig + 1 - 1 + d = bitLen m - 1 by omega]
    exact hlow
  · rw [hscale, hscale]
    exact (hjammed.placed hd hwide).scale (zpow_pos two_pos e)

theorem cut_placed {α : Type*} [Field α] [LinearOrder α]
    [IsStrictOrderedRing α] {f : Fmt} (hf : f.Standard) {m : ℕ} {e : ℤ} {x : α}
    (hm : m ≠ 0) (hword : m < 2 ^ 128)
    (hfits : f.lastPlace m e - e ≠ 128 ∨ m < 2 ^ 127) (hjammed : Jammed m x)
    (hwide : x = m ∨ f.sig + 3 ≤ bitLen m) :
    ∃ q guard sticky,
      discardBits m (f.lastPlace m e - e) = pure (q, guard, sticky) ∧
      Normal (f.sig + 1) f.minE q (f.lastPlace m e) ∧
      Placed (q * 2 ^ f.lastPlace m e : α)
        ((q + 1 : ℕ) * 2 ^ f.lastPlace m e) (x * 2 ^ e) guard sticky := by
  obtain ⟨hlow, hhigh⟩ := two_pow_bitLen hm
  have hpos : 0 < bitLen m :=
    lt_bitLen_iff.mpr (Nat.one_le_iff_ne_zero.mpr hm)
  have hulp : bitLen m - 1 + e - f.sig ≤ f.lastPlace m e := le_max_left _ _
  have hmin : f.minE ≤ f.lastPlace m e := le_max_right _ _
  have hplace : f.lastPlace m e = bitLen m - 1 + e - f.sig ∨
      f.lastPlace m e = f.minE := max_choice _ _
  have hsig := hf.sig_high
  set place := f.lastPlace m e
  have hunit : (0 : α) < 2 ^ place := zpow_pos two_pos place
  by_cases hup : place ≤ e
  · obtain ⟨up, hshift⟩ := Int.eq_ofNat_of_zero_le (sub_nonneg.mpr hup)
    have hx : x = m := hwide.resolve_right (by omega)
    have hq : m * 2 ^ up < 2 ^ (f.sig + 1) :=
      calc m * 2 ^ up < 2 ^ bitLen m * 2 ^ up :=
            Nat.mul_lt_mul_of_pos_right hhigh (Nat.two_pow_pos up)
        _ ≤ 2 ^ (f.sig + 1) := by
            rw [← pow_add]
            exact Nat.pow_le_pow_right (by decide) (by omega)
    have hvalue : x * 2 ^ e = ((m * 2 ^ up : ℕ) * 2 ^ place : α) := by
      rw [hx, show e = up + place by omega, zpow_add₀ two_ne_zero,
        zpow_natCast]
      push_cast
      ring
    refine ⟨m * 2 ^ up, false, false, ?_, ⟨hq, hmin, ?_⟩, ?_⟩
    · rw [show place - e = -(up : ℤ) by omega]
      exact discardBits_up (by omega) (hq.trans_le
        (Nat.pow_le_pow_right (by decide) (by omega)))
    · refine hplace.imp (fun heq => ?_) id
      calc 2 ^ (f.sig + 1 - 1) = 2 ^ (bitLen m - 1) * 2 ^ up := by
            rw [← pow_add]
            congr 1
            omega
        _ ≤ m * 2 ^ up := Nat.mul_le_mul_right _ hlow
    · rw [hvalue]
      apply Placed.low
      exact (mul_lt_mul_iff_left₀ hunit).mpr (by exact_mod_cast Nat.lt_succ_self _)
  · obtain ⟨d, hshift⟩ :=
      Int.eq_ofNat_of_zero_le (sub_nonneg.mpr (not_le.mp hup).le)
    have hd : 1 ≤ d := by omega
    have hfit : d < 128 ∨ m < 2 ^ (d - 1) := by
      rcases Nat.lt_or_ge d 128 with hless | hge
      · exact Or.inl hless
      rcases Nat.eq_or_lt_of_le hge with heq | hmore
      · subst heq
        exact Or.inr (hfits.resolve_left (not_not.mpr hshift))
      · exact Or.inr (hword.trans_le
          (Nat.pow_le_pow_right (by decide) (by omega)))
    obtain ⟨hnormal, hplaced⟩ := placed_cut hm hd hshift hjammed
      (hwide.imp_right fun _ => by omega)
    refine ⟨m / 2 ^ d, decide (2 ^ (d - 1) ≤ m % 2 ^ d),
      decide (m % 2 ^ (d - 1) ≠ 0), ?_, hnormal, hplaced⟩
    rw [hshift]
    exact discardBits_down hd hm hfit

/-! ## Encoding -/

theorem Fmt.value_lt_limit (f : Fmt) {field frac : ℕ}
    (hfield : field < f.maxField) (hfrac : frac < 2 ^ f.sig) : f.value field frac < f.limit := by
  have hmin : f.minE = 1 - f.bias - f.sig := rfl
  have hbelow : ∀ {k : ℕ} {n : ℕ} {e : ℤ}, k < 2 ^ n →
      n + e ≤ f.maxField - f.bias → (k * 2 ^ e : ℚ) < f.limit := by
    intro k n e hk he
    have hunit : (0 : ℚ) < 2 ^ e := zpow_pos two_pos e
    calc (k * 2 ^ e : ℚ) < 2 ^ n * 2 ^ e :=
          (mul_lt_mul_iff_left₀ hunit).mpr (by exact_mod_cast hk)
      _ = 2 ^ (n + e) := by rw [zpow_add₀ two_ne_zero, zpow_natCast]
      _ ≤ f.limit := zpow_le_zpow_right₀ one_le_two he
  rw [Fmt.value]
  split
  · exact hbelow hfrac (by omega)
  · refine hbelow (n := f.sig + 1) ?_ (by push_cast; omega)
    rw [pow_succ]
    omega

namespace Fmt.Standard

variable {f : Fmt} (hf : f.Standard)

include hf

theorem encodes_pack {rm : Rm} {sign inexact : Bool} {field frac flags : ℕ}
    (hfield : field < f.maxField) (hfrac : frac < 2 ^ f.sig)
    (hflags : RaisesApart (inexactIf inexact) flags) :
    Encodes f rm sign inexact (f.value field frac)
      (f.zero sign ||| (field <<< f.sig) ||| frac, flags) := by
  have hparts := hf.parts_pack sign (hfield.trans f.maxField_lt) hfrac
  rw [Encodes, if_neg (not_le.mpr (f.value_lt_limit hfield hfrac))]
  refine ⟨hparts.shows ?_, hflags⟩
  rw [datum, hparts.field, hparts.frac, if_neg hfield.ne]

end Fmt.Standard

theorem Fmt.value_mem (f : Fmt) {field frac : ℕ} (hfrac : frac < 2 ^ f.sig) :
    f.value field frac ∈ f.grid := by
  rw [Fmt.value]
  split
  · refine ⟨frac, f.minE, hfrac.trans ?_, le_rfl, rfl⟩
    exact Nat.pow_lt_pow_right (by decide) (Nat.lt_succ_self _)
  · refine ⟨2 ^ f.sig + frac, field - f.bias - f.sig, ?_, ?_, rfl⟩
    · rw [pow_succ]
      omega
    · rw [Fmt.minE]
      omega

theorem fracOf_lt (f : Fmt) (x : ℕ) : f.fracOf x < 2 ^ f.sig :=
  Nat.mod_lt x (Nat.two_pow_pos _)

theorem finite_of_datum {f : Fmt} {x : ℕ} {y : ℚ}
    (hdatum : datum f x = .finite y) :
    f.fieldOf x < f.maxField ∧ f.value (f.fieldOf x) (f.fracOf x) = y := by
  have hfield : f.fieldOf x < 2 ^ f.expBits := Nat.mod_lt _ (Nat.two_pow_pos _)
  have hmax : f.fieldOf x ≠ f.maxField := by
    intro heq
    rw [datum, if_pos heq] at hdatum
    split at hdatum <;> cases hdatum
  rw [datum, if_neg hmax] at hdatum
  refine ⟨?_, Datum.finite.inj hdatum⟩
  rw [Fmt.maxField] at hmax ⊢
  omega

theorem mem_of_datum {f : Fmt} {x : ℕ} {y : ℚ}
    (hdatum : datum f x = .finite y) : y ∈ f.grid ∧ y < f.limit := by
  obtain ⟨hlt, rfl⟩ := finite_of_datum hdatum
  exact ⟨f.value_mem (fracOf_lt f x), f.value_lt_limit hlt (fracOf_lt f x)⟩

theorem correct_of_parts {f : Fmt} {rm : Rm} {x bits : ℕ} {sign : Bool}
    {y : ℚ} (hdatum : datum f x = .finite y)
    (hparts : f.Parts bits sign (f.fieldOf x) (f.fracOf x)) :
    Correct f rm sign y (bits, 0) := by
  obtain ⟨hmem, hlimit⟩ := mem_of_datum hdatum
  obtain ⟨hlt, rfl⟩ := finite_of_datum hdatum
  refine ⟨_, rounds_self hmem f.IsEven _, ?_⟩
  rw [Encodes, if_neg (not_le.mpr hlimit)]
  refine ⟨hparts.shows ?_, ?_⟩
  · rw [datum, hparts.field, hparts.frac, if_neg hlt.ne]
  · rw [decide_eq_false (not_not.mpr rfl)]
    exact Or.inl rfl

theorem Fmt.leastNormal_le (f : Fmt) {q : ℕ} {e : ℤ} (hq : 2 ^ f.sig ≤ q)
    (he : f.minE ≤ e) : f.leastNormal ≤ q * 2 ^ e :=
  mul_le_mul (by exact_mod_cast hq) (zpow_le_zpow_right₀ one_le_two he)
    (zpow_nonneg zero_le_two _) (Nat.cast_nonneg q)

theorem Fmt.lt_leastNormal (f : Fmt) {q : ℕ} (hq : q < 2 ^ f.sig) :
    (q * 2 ^ f.minE : ℚ) < f.leastNormal :=
  (mul_lt_mul_iff_left₀ (zpow_pos two_pos _)).mpr (by exact_mod_cast hq)

theorem hidden_bit {f : Fmt} {q : ℕ} (hfull : 2 ^ f.sig ≤ q)
    (hq : q < 2 ^ (f.sig + 1)) : q / 2 ^ f.sig = 1 :=
  Nat.div_eq_of_lt_le (by omega) (by rw [pow_succ] at hq; omega)

section Encode

variable {f : Fmt} (hf : f.Standard) {rm : Rm} {sign inexact : Bool} {q : ℕ}
  {lsb : ℤ}

include hf

theorem significand_shift (q : ℕ) {count : ℕ} (hcount : count ≤ f.sig + 1) :
    Checked.ushr 128 q count = pure (q / 2 ^ count) := by
  have hsig := hf.sig_high
  rw [Checked.ushr_eq_pure (by omega), Nat.shiftRight_eq_div_pow]

theorem significand_whole (hq : q < 2 ^ (f.sig + 1)) :
    Checked.ushr 128 q (f.sig + 1) = pure 0 := by
  rw [significand_shift hf q le_rfl, Nat.div_eq_of_lt hq]

theorem encode_carry (hlow : -2 ^ 31 ≤ lsb + 1) (hhigh : lsb + 1 < 2 ^ 31) :
    encode f sign inexact rm (2 ^ (f.sig + 1)) lsb =
      encode f sign inexact rm (2 ^ f.sig) (lsb + 1) := by
  have hcarry : Checked.ushr 128 (2 ^ (f.sig + 1)) (f.sig + 1) = pure 1 := by
    rw [significand_shift hf _ le_rfl, Nat.div_self (Nat.two_pow_pos _)]
  have hnone : Checked.ushr 128 (2 ^ f.sig) (f.sig + 1) = pure 0 :=
    significand_whole hf
      (Nat.pow_lt_pow_right (by decide) (Nat.lt_succ_self f.sig))
  have hhalf : Checked.ushr 128 (2 ^ (f.sig + 1)) 1 = pure (2 ^ f.sig) := by
    rw [significand_shift hf _ (by omega), pow_succ, pow_one,
      Nat.mul_div_cancel _ two_pos]
  have hnext : Checked.iadd 32 lsb 1 = pure (lsb + 1) :=
    Checked.iadd_eq_pure hlow hhigh
  simp only [encode, hcarry, hnone, hhalf, hnext, pure_bind, ne_eq,
    one_ne_zero, not_false_eq_true, not_true_eq_false, if_true, if_false]

/-- A normal significand is encoded as it stands, or overflows. -/
theorem encode_normal (hq : Normal (f.sig + 1) f.minE q lsb)
    (hhigh : lsb + f.sig + f.bias < 2 ^ 31) (hzero : q = 0 → inexact = true)
    (profile : Profile) :
    ∃ result, encode f sign inexact rm q lsb profile = some result ∧
      Encodes f rm sign inexact (q * 2 ^ lsb) result ∧
      (underflows result.2 = true ↔
        inexact = true ∧ (q * 2 ^ lsb : ℚ) < f.leastNormal) := by
  have hsig := hf.sig_high
  have hbias := hf.bias_high
  have hbiasLow := hf.bias_low
  have hfield := hf.field
  have hmin : f.minE = 1 - f.bias - f.sig := rfl
  obtain ⟨hlt, hle, hnormal⟩ := hq
  rw [Nat.add_sub_cancel] at hnormal
  have hcarry := significand_whole hf hlt
  have hhidden := significand_shift hf q (Nat.le_succ f.sig)
  have hmask : q &&& f.sigMask = q % 2 ^ f.sig :=
    Nat.and_two_pow_sub_one_eq_mod q f.sig
  simp only [encode, hcarry, hhidden, hmask, pure_bind, ne_eq,
    not_true_eq_false, if_false]
  by_cases hnone : q = 0
  · have hpack : Encodes f rm sign inexact (f.value 0 0)
        (f.zero sign ||| (0 <<< f.sig) ||| 0, NX ||| UF) :=
      hf.encodes_pack (by omega) (Nat.two_pow_pos _)
        (by rw [hzero hnone]; exact Or.inr rfl)
    rw [Nat.zero_shiftLeft, Nat.or_zero, Nat.or_zero, Fmt.value, if_pos rfl,
      Nat.cast_zero, zero_mul] at hpack
    have hleast : (0 : ℚ) < f.leastNormal :=
      mul_pos (pow_pos two_pos _) (zpow_pos two_pos _)
    rw [if_pos hnone, hnone, Nat.cast_zero, zero_mul]
    exact ⟨_, rfl, hpack, iff_of_true underflows_tiny ⟨hzero hnone, hleast⟩⟩
  rw [if_neg hnone]
  by_cases htop : 2 ^ f.sig ≤ q
  · have hleast := f.leastNormal_le htop hle
    have hone := hidden_bit htop hlt
    have hrest : q % 2 ^ f.sig = q - 2 ^ f.sig := by
      rw [Nat.mod_eq_sub_mod htop, Nat.mod_eq_of_lt (by rw [pow_succ] at hlt; omega)]
    simp only [hone, one_ne_zero, not_false_eq_true, if_true, if_false]
    rw [Checked.iadd_eq_pure (by omega) (by omega), pure_bind,
      Checked.iadd_eq_pure (by omega) (by omega), pure_bind]
    by_cases hover : f.maxField ≤ lsb + f.sig + f.bias
    · have hlimit : f.limit ≤ (q * 2 ^ lsb : ℚ) :=
        calc f.limit ≤ 2 ^ (f.sig + lsb) :=
              zpow_le_zpow_right₀ one_le_two (by omega)
          _ = 2 ^ f.sig * 2 ^ lsb := by
              rw [zpow_add₀ two_ne_zero, zpow_natCast]
          _ ≤ q * 2 ^ lsb :=
              mul_le_mul_of_nonneg_right (by exact_mod_cast htop)
                (zpow_nonneg zero_le_two lsb)
      rw [if_pos hover, overflowsToInf_eq]
      refine ⟨_, rfl, ?_, iff_of_false (by simp) fun h => hleast.not_gt h.2⟩
      rw [Encodes, if_pos hlimit]
      by_cases hdown : rm.direction sign = .down
      · rw [if_pos hdown, decide_eq_true hdown]
        exact hf.gives_maxFinite sign _
      · rw [if_neg hdown, decide_eq_false hdown]
        exact hf.gives_inf sign _
    · obtain ⟨field, heq⟩ :=
        Int.eq_ofNat_of_zero_le (show 0 ≤ lsb + f.sig + f.bias by omega)
      have hvalue : (q * 2 ^ lsb : ℚ) = f.value field (q - 2 ^ f.sig) := by
        rw [Fmt.value, if_neg (by omega), Nat.add_sub_cancel' htop,
          show (field : ℤ) - f.bias - f.sig = lsb by omega]
      rw [if_neg hover, heq, Int.toNat_natCast, hrest, hvalue]
      rw [hvalue] at hleast
      refine ⟨_, rfl, hf.encodes_pack (by omega) ?_ ?_, ?_⟩
      · rw [pow_succ] at hlt
        omega
      · cases inexact <;> exact Or.inl rfl
      · refine iff_of_false ?_ fun h => hleast.not_gt h.2
        cases inexact <;> simp
  · have hnone : q / 2 ^ f.sig = 0 := Nat.div_eq_of_lt (by omega)
    have hrest : q % 2 ^ f.sig = q := Nat.mod_eq_of_lt (by omega)
    have hvalue : (q * 2 ^ lsb : ℚ) = f.value 0 q := by
      rw [Fmt.value, if_pos rfl, hnormal.resolve_left htop]
    simp only [hnone, hrest, not_true_eq_false, if_true, if_false]
    have hleast := f.lt_leastNormal (not_le.mp htop)
    rw [← hnormal.resolve_left htop, hvalue] at hleast
    rw [if_neg (by omega), hvalue]
    refine ⟨_, rfl, hf.encodes_pack (by omega) (by omega) ?_, ?_⟩
    · cases inexact with
      | false => exact Or.inl rfl
      | true => exact Or.inr rfl
    · cases inexact with
      | false =>
          exact iff_of_false (by simp) fun h => Bool.false_ne_true h.1
      | true => exact iff_of_true (by simp) ⟨rfl, hleast⟩

theorem encode_spec (hq : q ≤ 2 ^ (f.sig + 1)) (hle : f.minE ≤ lsb)
    (hnormal : 2 ^ f.sig ≤ q ∨ lsb = f.minE)
    (hhigh : lsb + (if q = 2 ^ (f.sig + 1) then 1 else 0) + f.sig + f.bias <
      2 ^ 31)
    (hzero : q = 0 → inexact = true) (profile : Profile) :
    ∃ result, encode f sign inexact rm q lsb profile = some result ∧
      Encodes f rm sign inexact (q * 2 ^ lsb) result ∧
      (underflows result.2 = true ↔
        inexact = true ∧ (q * 2 ^ lsb : ℚ) < f.leastNormal) := by
  have hsig := hf.sig_high
  have hbias := hf.bias_high
  have hbiasLow := hf.bias_low
  have hmin : f.minE = 1 - f.bias - f.sig := rfl
  rcases Nat.lt_or_eq_of_le hq with hlt | rfl
  · rw [if_neg hlt.ne, add_zero] at hhigh
    exact encode_normal hf ⟨hlt, hle, hnormal⟩ hhigh hzero profile
  · have hcarried : Normal (f.sig + 1) f.minE (2 ^ f.sig) (lsb + 1) :=
      ⟨Nat.pow_lt_pow_right (by decide) (by omega), by omega, Or.inl le_rfl⟩
    have hvalue : ((2 ^ (f.sig + 1) : ℕ) * 2 ^ lsb : ℚ) =
        (2 ^ f.sig : ℕ) * 2 ^ (lsb + 1) := by
      rw [zpow_add_one₀ two_ne_zero]
      push_cast
      ring
    rw [if_pos rfl] at hhigh
    rw [encode_carry hf (by omega) (by omega), hvalue]
    exact encode_normal hf hcarried hhigh
      (fun hnone => absurd hnone (Nat.two_pow_pos _).ne') profile

end Encode

/-! ## The rounding routine -/

/-- The exponents stay in 32 bits up to the cut. -/
structure ExponentRange (f : Fmt) (m : ℕ) (e : ℤ) : Prop where
  low : -2 ^ 31 ≤ e
  top : bitLen m - 1 + e < 2 ^ 31
  ulp : -2 ^ 31 ≤ bitLen m - 1 + e - f.sig
  discard : f.lastPlace m e - e < 2 ^ 31

section Routine

variable {f : Fmt} {m q : ℕ} {e : ℤ} {sign guard sticky : Bool} {rm : Rm}

theorem roundPack_eq (hf : f.Standard) (hm : m ≠ 0) (hword : m < 2 ^ 128)
    (hrange : ExponentRange f m e)
    (hcut : discardBits m (f.lastPlace m e - e) = pure (q, guard, sticky))
    (hq : q < 2 ^ (f.sig + 1)) :
    roundPack f sign m e rm =
      encode f sign (guard || sticky) rm
        (if roundsUp rm sign guard sticky q then q + 1 else q)
        (f.lastPlace m e) := by
  have hsig := hf.sig_high
  have hbias := hf.bias_high
  have hbiasLow := hf.bias_low
  have hmin : f.minE = 1 - f.bias - f.sig := rfl
  have hlen : bitLen m ≤ 128 := bitLen_le_iff.mpr hword
  have hpos : 0 < bitLen m :=
    lt_bitLen_iff.mpr (Nat.one_le_iff_ne_zero.mpr hm)
  obtain ⟨hlow, htop, hulp, hdiscard⟩ := hrange
  have hmsb : Checked.isub 32 127 (leadingZeros 128 m) =
      pure (bitLen m - 1 : ℤ) := by
    rw [leadingZeros, Checked.isub_eq_pure (by omega) (by omega)]
    congr 1
    omega
  have hplace : f.lastPlace m e = max (bitLen m - 1 + e - f.sig) f.minE := rfl
  have hnext : q + 1 < 2 ^ 128 :=
    (Nat.succ_le_of_lt hq).trans_lt
      (Nat.pow_lt_pow_right (by decide) (by omega))
  rw [roundPack, if_neg hm, hmsb, pure_bind,
    Checked.iadd_eq_pure (by omega) (by omega), pure_bind,
    Checked.isub_eq_pure (by omega) (by omega), pure_bind, ← hplace]
  dsimp only
  rw [Checked.isub_eq_pure (by omega) (by omega), pure_bind, hcut, pure_bind]
  dsimp only
  cases roundsUp rm sign guard sticky q with
  | false => rw [if_neg Bool.false_ne_true, if_neg Bool.false_ne_true, pure_bind]
  | true => rw [if_pos rfl, if_pos rfl, Checked.uadd_eq_pure hnext, pure_bind]

variable {α : Type*} [Field α] [LinearOrder α] [IsStrictOrderedRing α] {x : α}

theorem rounds_cut (hf : f.Standard)
    (hnormal : Normal (f.sig + 1) f.minE q (f.lastPlace m e))
    (hplaced : Placed (q * 2 ^ f.lastPlace m e : α)
      ((q + 1 : ℕ) * 2 ^ f.lastPlace m e) (x * 2 ^ e) guard sticky)
    {rounded : ℕ}
    (hrounded : rounded =
      if roundsUp rm sign guard sticky q then q + 1 else q) :
    Rounds (binaryGrid α (f.sig + 1) f.minE)
        (EvenSignificand (f.sig + 1) f.minE) (rm.direction sign) (x * 2 ^ e)
        (rounded * 2 ^ f.lastPlace m e) ∧
      ((rounded * 2 ^ f.lastPlace m e : α) = x * 2 ^ e ↔
        (guard || sticky) = false) ∧
      rounded ≤ 2 ^ (f.sig + 1) ∧
      (2 ^ f.sig ≤ rounded ∨ f.lastPlace m e = f.minE) := by
  have hsigLow := hf.sig_low
  have hvalue : (if goesUp (rm.direction sign) (decide (Even q)) guard sticky
      then ((q + 1 : ℕ) * 2 ^ f.lastPlace m e : α)
      else (q * 2 ^ f.lastPlace m e : α)) =
      rounded * 2 ^ f.lastPlace m e := by
    rw [hrounded, roundsUp_eq]
    split <;> rfl
  have hexact := rounded_eq_iff (hnormal.adjacent (α := α) (by omega)) hplaced
    (rm.direction sign) (decide (Even q))
  have hrounds := hnormal.rounds (by omega) hplaced (rm.direction sign)
  rw [hvalue] at hexact hrounds
  have hbetween : rounded ≤ q + 1 ∧ q ≤ rounded := by
    rw [hrounded]
    split <;> omega
  obtain ⟨hlt, -, htop⟩ := hnormal
  exact ⟨hrounds, hexact, hbetween.1.trans hlt,
    htop.imp_left fun hle => hle.trans hbetween.2⟩

theorem encode_rounds (hf : f.Standard) (hpos : 0 < x)
    (hnormal : Normal (f.sig + 1) f.minE q (f.lastPlace m e))
    (hplaced : Placed (q * 2 ^ f.lastPlace m e : α)
      ((q + 1 : ℕ) * 2 ^ f.lastPlace m e) (x * 2 ^ e) guard sticky)
    {rounded : ℕ}
    (hrounded : rounded =
      if roundsUp rm sign guard sticky q then q + 1 else q)
    (hfield : f.lastPlace m e + (if rounded = 2 ^ (f.sig + 1) then 1 else 0) +
      f.sig + f.bias < 2 ^ 31) (profile : Profile) :
    ∃ result, encode f sign (guard || sticky) rm rounded (f.lastPlace m e)
        profile = some result ∧
      RoundedTo f rm sign (x * 2 ^ e) (rounded * 2 ^ f.lastPlace m e)
        result := by
  obtain ⟨hrounds, hexact, hbelow, htop⟩ :=
    rounds_cut hf hnormal hplaced hrounded
  have hcast : ((rounded * 2 ^ f.lastPlace m e : ℚ) : α) =
      rounded * 2 ^ f.lastPlace m e := by
    push_cast
    rfl
  have hinexact : (guard || sticky) = true ↔
      ((rounded * 2 ^ f.lastPlace m e : ℚ) : α) ≠ x * 2 ^ e := by
    rw [hcast, ne_eq, hexact, Bool.not_eq_false]
  have hzero : rounded = 0 → (guard || sticky) = true := by
    intro hnone
    rw [hinexact, hcast, hnone, Nat.cast_zero, zero_mul]
    exact (mul_pos hpos (zpow_pos two_pos e)).ne
  obtain ⟨result, hrun, hencodes, hunderflow⟩ :=
    encode_spec hf hbelow hnormal.2.1 htop hfield hzero profile
  refine ⟨result, hrun, hcast ▸ hrounds, ?_, ?_⟩
  · rw [← Bool.eq_iff_iff.mpr (hinexact.trans decide_eq_true_iff.symm)]
    exact hencodes
  · rw [hunderflow, hinexact]

theorem Roundable.range (h : Roundable f m e x) (hf : f.Standard) :
    ExponentRange f m e := by
  have hsig := hf.sig_high
  have hbias := hf.bias_high
  have hbiasLow := hf.bias_low
  have hmin : f.minE = 1 - f.bias - f.sig := rfl
  have hlen : bitLen m ≤ 128 := bitLen_le_iff.mpr h.word
  have hlow := h.exponent_low
  have hhigh := h.exponent_high
  have hplace : f.lastPlace m e = max (bitLen m - 1 + e - f.sig) f.minE := rfl
  constructor <;> omega

/-- The routine rounds correctly whatever it may be handed. -/
theorem roundPack_rounds (hf : f.Standard) (h : Roundable f m e x)
    (sign : Bool) (rm : Rm) (profile : Profile) :
    ∃ result y, roundPack f sign m e rm profile = some result ∧
      RoundedTo f rm sign (x * 2 ^ e) y result := by
  obtain ⟨q, guard, sticky, hcut, hnormal, hplaced⟩ :=
    cut_placed hf h.ne_zero h.word h.fits h.jammed h.wide
  have hsig := hf.sig_high
  have hbias := hf.bias_high
  have hbiasLow := hf.bias_low
  have hmin : f.minE = 1 - f.bias - f.sig := rfl
  have hlen : bitLen m ≤ 128 := bitLen_le_iff.mpr h.word
  have hhigh := h.exponent_high
  have hplace : f.lastPlace m e = max (bitLen m - 1 + e - f.sig) f.minE := rfl
  obtain ⟨result, hrun, hrounded⟩ := encode_rounds hf (h.jammed.pos h.ne_zero)
    hnormal hplaced rfl (by split_ifs <;> omega) profile
  rw [← roundPack_eq hf h.ne_zero h.word (h.range hf) hcut hnormal.1] at hrun
  exact ⟨result, _, hrun, hrounded⟩

end Routine

end Fpu

end Nanoemu
