import Nanoemu.FloatRounding

/-!
# Correctly rounded sums

Two signed magnitudes are brought to an exponent 126 places below the higher of
their leading bits.  An operand with a place below that exponent lies wholly
below the leading bits of the other, so at most one of the two loses bits, and
the sum or difference carries a jammed bit far below its own leading one.
Rounding it is rounding the exact sum; a fused multiply-add is the sum of the
exact product.
-/

namespace Nanoemu

open CheckedProgram GridRounding

namespace Fpu

def withSign (sign : Bool) (x : ℚ) : ℚ :=
  if sign then -x else x

def Datum.isSnan : Datum → Bool
  | .nan signalling => signalling
  | _ => false

/-- The rounding of an exact sum; the sign of an exact zero is given. -/
def CorrectSum (f : Fmt) (rm : Rm) (zeroSign : Bool) (x : ℚ)
    (result : ℕ × ℕ) : Prop :=
  if x = 0 then f.Gives zeroSign (.finite 0) [] result
  else Correct f rm (decide (x < 0)) |x| result

/-- What the sum of two signed data must be.  Zeroes of one sign keep it; any
other exact zero is negative only when rounding towards minus infinity. -/
def IsSum (f : Fmt) (rm : Rm) (sa : Bool) (a : Datum) (sb : Bool) (b : Datum)
    (result : ℕ × ℕ) : Prop :=
  match a, b with
  | .finite x, .finite y =>
      CorrectSum f rm (if sa = sb then sa else rm == .rdn)
        (withSign sa x + withSign sb y) result
  | .inf, .inf =>
      if sa = sb then f.Gives sa .inf [] result
      else f.GivesNan [.invalid] result
  | .inf, .finite _ => f.Gives sa .inf [] result
  | .finite _, .inf => f.Gives sb .inf [] result
  | a, b => f.GivesNan (invalidIf (a.isSnan || b.isSnan)) result

/-- The exact product of two data; zero times infinity has none. -/
def Datum.mul (a b : Datum) : Option Datum :=
  match a, b with
  | .finite x, .finite y => some (.finite (x * y))
  | .inf, .inf => some .inf
  | .inf, .finite y => if y = 0 then none else some .inf
  | .finite x, .inf => if x = 0 then none else some .inf
  | a, b => some (.nan (a.isSnan || b.isSnan))

/-- What a product plus an addend must be, rounded once. -/
def IsFma (f : Fmt) (rm : Rm) (sp : Bool) (a b : Datum) (sc : Bool) (c : Datum)
    (result : ℕ × ℕ) : Prop :=
  match a.mul b with
  | none => f.GivesNan [.invalid] result
  | some product => IsSum f rm sp product sc c result

/-- The underflow flag against an exact result; where there is none it is
clear. -/
def FlagsUnderflow (f : Fmt) (rm : Rm) (exact : Option ℚ) (flags : ℕ) : Prop :=
  match exact with
  | some x => UnderflowsAt f rm (decide (x < 0)) |x| flags
  | none => underflows flags = false

theorem FlagsUnderflow.none {f : Fmt} {rm : Rm} {exact : Option ℚ} {flags : ℕ}
    (hexact : exact = .none) (hflags : underflows flags = false) :
    FlagsUnderflow f rm exact flags := by
  subst hexact
  exact hflags

def exactSum (sa : Bool) (a : Datum) (sb : Bool) (b : Datum) : Option ℚ :=
  match a, b with
  | .finite x, .finite y => some (withSign sa x + withSign sb y)
  | _, _ => none

/-- The sum of two signed data with every flag. -/
structure RoundsSum (f : Fmt) (rm : Rm) (sa : Bool) (a : Datum) (sb : Bool)
    (b : Datum) (result : ℕ × ℕ) : Prop where
  sum : IsSum f rm sa a sb b result
  underflow : FlagsUnderflow f rm (exactSum sa a sb b) result.2

theorem scale_up {m up : ℕ} {e base : ℤ} (he : e = base + up) (hup : up < 128)
    (hword : m * 2 ^ up < 2 ^ 128) : scale m e base = pure (m * 2 ^ up) := by
  rw [scale, if_pos (by omega), Checked.isub_eq_pure (by omega) (by omega),
    pure_bind, show (e - base).toNat = up by omega, Checked.ushl_eq_pure hup,
    Nat.shiftLeft_eq, Nat.mod_eq_of_lt hword]

theorem scale_down {m d : ℕ} {e base : ℤ} (hbase : base = e + d) (hd : 1 ≤ d)
    (hrange : d < 2 ^ 31) (hword : m < 2 ^ 128) :
    scale m e base = pure (jam m d) := by
  rw [scale, if_neg (by omega), Checked.isub_eq_pure (by omega) (by omega),
    pure_bind]
  dsimp only
  rw [show (base - e).toNat = d by omega]
  by_cases hall : 128 ≤ d
  · have hlt : m < 2 ^ d :=
      hword.trans_le (Nat.pow_le_pow_right (by decide) hall)
    rw [if_pos hall, jam, Nat.div_eq_of_lt hlt, Nat.mod_eq_of_lt hlt,
      Nat.zero_or]
  · have hshort : d < 128 := by omega
    rw [if_neg hall, Checked.ushr_eq_pure hshort, pure_bind,
      Checked.ushl_eq_pure hshort, pure_bind, one_shiftLeft_word hshort,
      Checked.usub_eq_pure (Nat.two_pow_pos d), pure_bind,
      Nat.and_two_pow_sub_one_eq_mod, Nat.shiftRight_eq_div_pow, jam]

/-- A significand and an exponent that an addition may be handed. -/
structure Operand (m : ℕ) (e : ℤ) : Prop where
  ne_zero : m ≠ 0
  lt : m < 2 ^ 106
  low : -2 ^ 12 ≤ e
  high : e ≤ 2 ^ 12

theorem Operand.pos {m : ℕ} {e : ℤ} (h : Operand m e) : (0 : ℚ) < m * 2 ^ e :=
  mul_pos (Nat.cast_pos.mpr (Nat.pos_of_ne_zero h.ne_zero))
    (zpow_pos two_pos e)

theorem Operand.scale_top {m : ℕ} {e base : ℤ} (h : Operand m e)
    (htop : e + bitLen m = base + 126) :
    ∃ s, scale m e base = pure s ∧ (m * 2 ^ (e - base) : ℚ) = s ∧ Even s ∧
      2 ^ 125 ≤ s ∧ s < 2 ^ 126 := by
  have hlen : bitLen m ≤ 106 := bitLen_le_iff.mpr h.lt
  have hbits := shiftUp_bounds h.ne_zero (hlen.trans (by decide : 106 ≤ 126))
  set up := 126 - bitLen m with hup
  refine ⟨m * 2 ^ up, scale_up (by omega) (by omega)
    (hbits.2.trans (by decide)), ?_, ?_, hbits⟩
  · rw [show e - base = up by omega, zpow_natCast]
    push_cast
    rfl
  · exact (Nat.even_pow.mpr ⟨even_two, by omega⟩).mul_left m

/-- The other one keeps every bit, or is small and has the lost ones jammed. -/
theorem Operand.scale_low {m : ℕ} {e base : ℤ} (h : Operand m e)
    (htop : e + bitLen m ≤ base + 126) (hfar : base ≤ 2 ^ 20) :
    ∃ s, scale m e base = pure s ∧ s < 2 ^ 126 ∧
      ((m * 2 ^ (e - base) : ℚ) = s ∨
        Odd s ∧ |(m * 2 ^ (e - base) : ℚ) - s| < 1 ∧ s ≤ 2 ^ 124) := by
  obtain ⟨hlow, hhigh⟩ := two_pow_bitLen h.ne_zero
  have hm := h.lt
  have helow := h.low
  by_cases hup : base ≤ e
  · obtain ⟨up, hshift⟩ := Int.eq_ofNat_of_zero_le (sub_nonneg.mpr hup)
    have hlt : m * 2 ^ up < 2 ^ 126 :=
      calc m * 2 ^ up < 2 ^ bitLen m * 2 ^ up :=
            Nat.mul_lt_mul_of_pos_right hhigh (Nat.two_pow_pos up)
        _ ≤ 2 ^ 126 := by
            rw [← pow_add]
            exact Nat.pow_le_pow_right (by decide) (by omega)
    refine ⟨m * 2 ^ up, scale_up (by omega) (by omega)
      (hlt.trans (by decide)), hlt, Or.inl ?_⟩
    rw [hshift, zpow_natCast]
    push_cast
    rfl
  · obtain ⟨d, hshift⟩ :=
      Int.eq_ofNat_of_zero_le (sub_nonneg.mpr (not_le.mp hup).le)
    have hvalue : (m * 2 ^ (e - base) : ℚ) = m / 2 ^ d := by
      rw [show e - base = -(d : ℤ) by omega, zpow_neg, zpow_natCast,
        div_eq_mul_inv]
    have hsmall : jam m d ≤ 2 ^ 106 :=
      (jam_le m d).trans (by
        have hdiv := Nat.div_le_self m (2 ^ d)
        omega)
    refine ⟨jam m d, scale_down (by omega) (by omega) (by omega) (by omega),
      by omega, ?_⟩
    rw [hvalue]
    exact (jammed_jam m d).imp id fun ⟨hodd, hnear⟩ => ⟨hodd, hnear, by omega⟩

/-- At most one of two operands loses bits, and then the other is even and far
larger. -/
theorem Operand.aligned {ma mb : ℕ} {ea eb base : ℤ} (ha : Operand ma ea)
    (hb : Operand mb eb)
    (hbase : base = max (ea + bitLen ma) (eb + bitLen mb) - 126) :
    ∃ a b, scale ma ea base = pure a ∧ scale mb eb base = pure b ∧
      a < 2 ^ 126 ∧ b < 2 ^ 126 ∧
      Aligned 124 a b (ma * 2 ^ (ea - base) : ℚ) (mb * 2 ^ (eb - base)) := by
  have hlenA : bitLen ma ≤ 106 := bitLen_le_iff.mpr ha.lt
  have hlenB : bitLen mb ≤ 106 := bitLen_le_iff.mpr hb.lt
  have hhighA := ha.high
  have hhighB := hb.high
  rcases le_total (eb + bitLen mb) (ea + bitLen ma) with hle | hle
  · rw [max_eq_left hle] at hbase
    obtain ⟨a, hrunA, hexact, heven, hlarge, hltA⟩ :=
      ha.scale_top (show ea + bitLen ma = base + 126 by omega)
    obtain ⟨b, hrunB, hltB, hb'⟩ :=
      hb.scale_low (show eb + bitLen mb ≤ base + 126 by omega) (by omega)
    refine ⟨a, b, hrunA, hrunB, hltA, hltB, ?_⟩
    rcases hb' with hexactB | ⟨hodd, hnear, hsmall⟩
    · exact Or.inl ⟨hexact, hexactB⟩
    · exact Or.inr (Or.inl ⟨hexact, heven, hlarge, hodd, hnear, hsmall⟩)
  · rw [max_eq_right hle] at hbase
    obtain ⟨b, hrunB, hexact, heven, hlarge, hltB⟩ :=
      hb.scale_top (show eb + bitLen mb = base + 126 by omega)
    obtain ⟨a, hrunA, hltA, ha'⟩ :=
      ha.scale_low (show ea + bitLen ma ≤ base + 126 by omega) (by omega)
    refine ⟨a, b, hrunA, hrunB, hltA, hltB, ?_⟩
    rcases ha' with hexactA | ⟨hodd, hnear, hsmall⟩
    · exact Or.inl ⟨hexactA, hexact⟩
    · exact Or.inr (Or.inr ⟨hexact, heven, hlarge, hodd, hnear, hsmall⟩)

theorem withSign_add (sign : Bool) (x y : ℚ) :
    withSign sign (x + y) = withSign sign x + withSign sign y := by
  cases sign with
  | false => rfl
  | true => exact neg_add x y

/-- The raw sum stands for the exact one. -/
theorem addRaw_spec {ma mb : ℕ} {ea eb : ℤ} (ha : Operand ma ea)
    (hb : Operand mb eb) (sa sb : Bool) :
    ∃ sign m base x, addRaw sa ma ea sb mb eb = pure (sign, m, base) ∧
      withSign sa (ma * 2 ^ ea) + withSign sb (mb * 2 ^ eb) =
        withSign sign (x * 2 ^ base) ∧
      JammedWide 124 m (x : ℚ) ∧ m < 2 ^ 127 ∧
      -2 ^ 13 ≤ base ∧ base ≤ 2 ^ 13 := by
  have hlenA : bitLen ma ≤ 106 := bitLen_le_iff.mpr ha.lt
  have hlenB : bitLen mb ≤ 106 := bitLen_le_iff.mpr hb.lt
  have hlowA := ha.low
  have hhighA := ha.high
  have hlowB := hb.low
  have hhighB := hb.high
  have htop := le_max_left (ea + bitLen ma) (eb + bitLen mb)
  have htop' : max (ea + bitLen ma) (eb + bitLen mb) ≤ 2 ^ 12 + 106 :=
    max_le (by omega) (by omega)
  set base := max (ea + bitLen ma) (eb + bitLen mb) - 126 with hbase
  obtain ⟨a, b, hrunA, hrunB, hltA, hltB, haligned⟩ := ha.aligned hb hbase
  have hscale : ∀ (k : ℕ) (e : ℤ),
      (k * 2 ^ e : ℚ) = k * 2 ^ (e - base) * 2 ^ base := by
    intro k e
    rw [mul_assoc, ← zpow_add₀ two_ne_zero, sub_add_cancel]
  rw [addRaw, Checked.iadd_eq_pure (by omega) (by omega), pure_bind,
    Checked.iadd_eq_pure (by omega) (by omega), pure_bind,
    Checked.isub_eq_pure (by omega) (by omega), pure_bind, ← hbase, hrunA,
    pure_bind, hrunB, pure_bind, hscale ma, hscale mb]
  set x := (ma * 2 ^ (ea - base) : ℚ)
  set y := (mb * 2 ^ (eb - base) : ℚ)
  by_cases hsigns : sa = sb
  · subst hsigns
    refine ⟨sa, a + b, base, x + y, ?_, ?_, haligned.add, by omega, by omega,
      by omega⟩
    · rw [if_pos rfl, Checked.uadd_eq_pure (by omega), pure_bind]
    · rw [← withSign_add, add_mul]
  · have hsb : sb = !sa := by
      cases sa <;> cases sb <;> first | rfl | exact absurd rfl hsigns
    rw [if_neg hsigns]
    by_cases hle : b ≤ a
    · refine ⟨sa, a - b, base, x - y, ?_, ?_, haligned.sub hle, by omega,
        by omega, by omega⟩
      · rw [if_pos hle, Checked.usub_eq_pure hle, pure_bind]
      · subst hsb
        cases sa
        · change x * 2 ^ base + -(y * 2 ^ base) = (x - y) * 2 ^ base
          ring
        · change -(x * 2 ^ base) + y * 2 ^ base = -((x - y) * 2 ^ base)
          ring
    · have hle' : a ≤ b := (not_le.mp hle).le
      refine ⟨sb, b - a, base, y - x, ?_, ?_, haligned.symm.sub hle',
        by omega, by omega, by omega⟩
      · rw [if_neg hle, Checked.usub_eq_pure hle', pure_bind]
      · subst hsb
        cases sa
        · change x * 2 ^ base + -(y * 2 ^ base) = -((y - x) * 2 ^ base)
          ring
        · change -(x * 2 ^ base) + y * 2 ^ base = (y - x) * 2 ^ base
          ring

theorem withSign_parts (sign : Bool) {x : ℚ} (hx : 0 < x) :
    withSign sign x ≠ 0 ∧ decide (withSign sign x < 0) = sign ∧
      |withSign sign x| = x := by
  cases sign with
  | false => exact ⟨hx.ne', decide_eq_false hx.not_gt, abs_of_pos hx⟩
  | true =>
      refine ⟨neg_ne_zero.mpr hx.ne', decide_eq_true (neg_lt_zero.mpr hx), ?_⟩
      exact (abs_neg x).trans (abs_of_pos hx)

theorem CorrectSum.of_correct {f : Fmt} {rm : Rm} {zeroSign sign : Bool}
    {x : ℚ} {result : ℕ × ℕ} (hx : 0 < x)
    (h : Correct f rm sign x result) :
    CorrectSum f rm zeroSign (withSign sign x) result := by
  obtain ⟨hne, hsign, habs⟩ := withSign_parts sign hx
  rw [CorrectSum, if_neg hne, hsign, habs]
  exact h

/-- An exact sum rounded, with every flag. -/
structure RoundsTotal (f : Fmt) (rm : Rm) (zeroSign : Bool) (x : ℚ)
    (result : ℕ × ℕ) : Prop where
  correct : CorrectSum f rm zeroSign x result
  underflow : FlagsUnderflow f rm (some x) result.2

theorem RoundsTotal.of_magnitude {f : Fmt} {rm : Rm} {zeroSign sign : Bool}
    {x : ℚ} {result : ℕ × ℕ} (hx : 0 < x) (hcorrect : Correct f rm sign x result)
    (hunderflow : UnderflowsAt f rm sign x result.2) :
    RoundsTotal f rm zeroSign (withSign sign x) result := by
  obtain ⟨-, hsign, habs⟩ := withSign_parts sign hx
  refine ⟨.of_correct hx hcorrect, ?_⟩
  rw [FlagsUnderflow, hsign, habs]
  exact hunderflow

theorem RoundsTotal.zero {f : Fmt} (hf : f.Standard) {rm : Rm} {sign : Bool}
    {x : ℚ} (hx : x = 0) : RoundsTotal f rm sign x (f.zero sign, 0) := by
  have hmem : (0 : ℚ) ∈ f.grid := by
    refine ⟨0, f.minE, Nat.two_pow_pos _, le_rfl, ?_⟩
    rw [Nat.cast_zero, zero_mul]
  constructor
  · rw [CorrectSum, if_pos hx]
    exact hf.gives_zero sign []
  · rw [FlagsUnderflow, hx, abs_zero]
    exact underflowsAt_self hmem rm _ underflows_none

section Sum

variable {f : Fmt} (hf : f.Standard) {rm : Rm}

include hf

theorem addRaw_roundSum {ma mb : ℕ} {ea eb : ℤ} (ha : Operand ma ea)
    (hb : Operand mb eb) (sa sb : Bool) (profile : Profile) :
    ∃ result, (addRaw sa ma ea sb mb eb >>= roundSum f rm) profile =
        some result ∧
      RoundsTotal f rm (if sa = sb then sa else zeroSign rm)
        (withSign sa (ma * 2 ^ ea) + withSign sb (mb * 2 ^ eb)) result := by
  obtain ⟨sign, m, base, x, hrun, hvalue, ⟨hjammed, hwide⟩, hlt, hlow, hhigh⟩ :=
    addRaw_spec ha hb sa sb
  have hsig := hf.sig_high
  rw [hrun, pure_bind, roundSum, hvalue]
  by_cases hzero : m = 0
  · have hx : x = 0 := by
      subst hzero
      rcases hjammed with hx | ⟨hodd, -⟩
      · rw [hx, Nat.cast_zero]
      · exact absurd hodd (by decide)
    have hsum : withSign sign (x * 2 ^ base) = 0 := by
      rw [hx, zero_mul, withSign, neg_zero, ite_self]
    have hsigns : sa ≠ sb := by
      rintro rfl
      apply (withSign_parts sa (add_pos ha.pos hb.pos)).1
      rw [withSign_add, hvalue, hsum]
    rw [if_pos hzero]
    refine ⟨_, rfl, ?_⟩
    rw [if_neg hsigns]
    exact .zero hf hsum
  · have hroundable : Roundable f m base x :=
      { ne_zero := hzero
        word := by omega
        fits := Or.inr hlt
        jammed := hjammed
        wide := hwide.imp_right fun hge => by
          have hlen : 124 < bitLen m := lt_bitLen_iff.mpr hge
          omega
        exponent_low := by omega
        exponent_high := by omega }
    obtain ⟨result, y, hround, hrounded⟩ :=
      roundPack_rounds hf hroundable sign rm profile
    rw [if_neg hzero]
    exact ⟨result, hround, .of_magnitude
      (mul_pos (hjammed.pos hzero) (zpow_pos two_pos base)) hrounded.correct
      hrounded.underflowsAt⟩

theorem Unpacked.operand {m : ℕ} {e : ℤ} (h : Unpacked f m e) :
    Operand m e := by
  have hsig := hf.sig_high
  have hbias := hf.bias_high
  have hfield := hf.field
  have hmin : f.minE = 1 - f.bias - f.sig := rfl
  have hlow := h.exponent_low
  have hhigh := h.exponent_high
  have hpos := Nat.two_pow_pos f.sig
  refine ⟨(hpos.trans_le h.low).ne', ?_, by omega, by omega⟩
  exact h.high.trans (Nat.pow_lt_pow_right (by decide) (by omega))

theorem Unpacked.mul {ma mb : ℕ} {ea eb : ℤ} (ha : Unpacked f ma ea)
    (hb : Unpacked f mb eb) : Operand (ma * mb) (ea + eb) := by
  have hsig := hf.sig_high
  have hbias := hf.bias_high
  have hfield := hf.field
  have hmin : f.minE = 1 - f.bias - f.sig := rfl
  have hlowA := ha.exponent_low
  have hhighA := ha.exponent_high
  have hlowB := hb.exponent_low
  have hhighB := hb.exponent_high
  refine ⟨Nat.mul_ne_zero (Unpacked.operand hf ha).ne_zero
    (Unpacked.operand hf hb).ne_zero, ?_, by omega, by omega⟩
  calc ma * mb < 2 ^ (f.sig + 1) * 2 ^ (f.sig + 1) :=
        Nat.mul_lt_mul'' ha.high hb.high
    _ ≤ 2 ^ 106 := by
        rw [← pow_add]
        exact Nat.pow_le_pow_right (by decide) (by omega)

theorem Operand.roundPack {m : ℕ} {e : ℤ} (h : Operand m e) (sign : Bool)
    (rm : Rm) (profile : Profile) :
    ∃ result y, roundPack f sign m e rm profile = some result ∧
      RoundedTo f rm sign (m * 2 ^ e : ℚ) y result := by
  have hlt := h.lt
  have hlow := h.low
  have hhigh := h.high
  exact roundPack_rounds hf
    { ne_zero := h.ne_zero
      word := by omega
      fits := Or.inr (by omega)
      jammed := Or.inl rfl
      wide := Or.inl rfl
      exponent_low := by omega
      exponent_high := by omega } sign rm profile

end Sum

/-! ## Addition and subtraction -/

theorem Represents.isSnan {f : Fmt} {c : Cls} {d : Datum}
    (h : Represents f c d) : c.isSnan = d.isSnan := by
  cases h <;> rfl

theorem nanResult_gives {f : Fmt} (hf : f.Standard) {operands : List Cls}
    {signalling : Bool} (hany : operands.any Cls.isSnan = signalling) :
    f.GivesNan (invalidIf signalling) (nanResult f operands) := by
  rw [nanResult, hany, ← flagWord_invalidIf]
  exact hf.givesNan_nan _

theorem nanResult_pair {f : Fmt} (hf : f.Standard) {ca cb : Cls}
    {da db : Datum} (ha : Represents f ca da) (hb : Represents f cb db) :
    f.GivesNan (invalidIf (da.isSnan || db.isSnan)) (nanResult f [ca, cb]) := by
  apply nanResult_gives hf
  rw [List.any_cons, List.any_cons, List.any_nil, Bool.or_false, ha.isSnan,
    hb.isSnan]

theorem withSign_zero (sign : Bool) : withSign sign 0 = 0 := by
  rw [withSign, neg_zero, ite_self]

theorem underflows_nan (f : Fmt) (operands : List Cls) :
    underflows (nanResult f operands).2 = false := by
  rw [nanResult]
  cases operands.any Cls.isSnan with
  | false => exact underflows_none
  | true => exact underflows_NV

theorem RoundsTotal.sum {f : Fmt} {rm : Rm} {sa sb : Bool} {x y : ℚ}
    {result : ℕ × ℕ}
    (h : RoundsTotal f rm (if sa = sb then sa else rm == .rdn)
      (withSign sa x + withSign sb y) result) :
    RoundsSum f rm sa (.finite x) sb (.finite y) result :=
  ⟨h.correct, h.underflow⟩

theorem RoundsSum.comm {f : Fmt} {rm : Rm} {sa sb : Bool} {x y : ℚ}
    {result : ℕ × ℕ} (h : RoundsSum f rm sa (.finite x) sb (.finite y) result) :
    RoundsSum f rm sb (.finite y) sa (.finite x) result := by
  have hsign : (if sb = sa then sb else rm == .rdn) =
      if sa = sb then sa else rm == .rdn := by
    cases sa <;> cases sb <;> rfl
  have hsum := h.sum
  have hunderflow := h.underflow
  rw [IsSum, add_comm, ← hsign] at hsum
  rw [exactSum, add_comm] at hunderflow
  exact ⟨hsum, hunderflow⟩

theorem RoundsSum.of_infinities {f : Fmt} (hf : f.Standard) (rm : Rm)
    (sa sb : Bool) :
    RoundsSum f rm sa .inf sb .inf
      (if sa ≠ sb then invalid f else (f.inf sa, 0)) := by
  by_cases hsigns : sa = sb
  · rw [if_neg (not_not.mpr hsigns)]
    refine ⟨?_, .none rfl underflows_none⟩
    rw [IsSum, if_pos hsigns]
    exact hf.gives_inf sa []
  · rw [if_pos hsigns]
    refine ⟨?_, .none rfl underflows_NV⟩
    rw [IsSum, if_neg hsigns]
    exact hf.givesNan_nan [.invalid]

theorem RoundsSum.of_zero {f : Fmt} {rm : Rm} {sz sign : Bool} {x bits : ℕ}
    {y : ℚ} (hy : 0 < y) (hdatum : datum f x = .finite y)
    (hparts : f.Parts bits sign (f.fieldOf x) (f.fracOf x)) :
    RoundsSum f rm sz (.finite 0) sign (.finite y) (bits, 0) := by
  apply RoundsTotal.sum
  rw [withSign_zero, zero_add]
  exact .of_magnitude hy (correct_of_parts hdatum hparts)
    (underflowsAt_self (mem_of_datum hdatum).1 rm sign underflows_none)

section Addition

variable {f : Fmt} (hf : f.Standard) (rm : Rm) (profile : Profile)

include hf

theorem addOrSub_spec (a b : ℕ) (negateB : Bool) :
    ∃ result, addOrSub f a b rm negateB profile = some result ∧
      RoundsSum f rm (f.signOf a) (datum f a) (f.signOf b != negateB)
        (datum f b) result := by
  obtain ⟨ca, hrunA, hA⟩ := unpack_spec hf a profile
  obtain ⟨cb, hrunB, hB⟩ := unpack_spec hf b profile
  have hpartsA := hf.parts_masked a
  have hpartsB := hf.parts_flip b negateB
  rw [addOrSub, Checked.bind_of_some hrunA]
  dsimp only
  rw [Checked.bind_of_some hrunB]
  dsimp only
  generalize hda : datum f a = da at hA
  generalize hdb : datum f b = db at hB
  have hnan := nanResult_pair hf hA hB
  have hclear := underflows_nan f [ca, cb]
  cases hA with
  | nan signalling => cases hB <;> exact ⟨_, rfl, hnan, .none rfl hclear⟩
  | inf =>
      cases hB with
      | nan signalling => exact ⟨_, rfl, hnan, .none rfl hclear⟩
      | inf => exact ⟨_, rfl, .of_infinities hf _ _ _⟩
      | zero => exact ⟨_, rfl, hf.gives_inf _ [], .none rfl underflows_none⟩
      | num hb => exact ⟨_, rfl, hf.gives_inf _ [], .none rfl underflows_none⟩
  | zero =>
      cases hB with
      | nan signalling => exact ⟨_, rfl, hnan, .none rfl hclear⟩
      | inf => exact ⟨_, rfl, hf.gives_inf _ [], .none rfl underflows_none⟩
      | zero =>
          refine ⟨_, rfl, RoundsTotal.sum (.zero hf ?_)⟩
          rw [withSign_zero, withSign_zero, zero_add]
      | num hb =>
          have hpos := (Unpacked.operand hf hb).pos
          exact ⟨_, rfl, .of_zero hpos hdb hpartsB⟩
  | num ha =>
      cases hB with
      | nan signalling => exact ⟨_, rfl, hnan, .none rfl hclear⟩
      | inf => exact ⟨_, rfl, hf.gives_inf _ [], .none rfl underflows_none⟩
      | zero =>
          have hpos := (Unpacked.operand hf ha).pos
          exact ⟨_, rfl, RoundsSum.comm (.of_zero hpos hda hpartsA)⟩
      | num hb =>
          obtain ⟨result, hrun, htotal⟩ := addRaw_roundSum hf
            (Unpacked.operand hf ha) (Unpacked.operand hf hb) _ _ profile
          exact ⟨result, hrun, htotal.sum⟩

end Addition

/-! ## Fused multiply-add -/

section MultiplyAdd

variable {f : Fmt} (hf : f.Standard) (rm : Rm) {profile : Profile}
  {a b : ℕ} {sa sb : Bool} {ca cb : Cls}
  (hrunA : unpack f a profile = some (sa, ca))
  (hrunB : unpack f b profile = some (sb, cb)) (c : ℕ)
  (negateProduct negateAddend : Bool)

include hf hrunA hrunB

theorem fma_invalid
    (hinvalid : ((ca.isInf && cb.isZero) || (ca.isZero && cb.isInf)) = true) :
    fma f a b c negateProduct negateAddend rm profile = some (f.nan, NV) := by
  obtain ⟨cc, hrunC, -⟩ := unpack_spec hf c profile
  rw [fma, Checked.bind_of_some hrunA]
  dsimp only
  rw [Checked.bind_of_some hrunB]
  dsimp only
  rw [Checked.bind_of_some hrunC]
  dsimp only
  rw [if_pos hinvalid]
  rfl

variable
  (hvalid : ((ca.isInf && cb.isZero) || (ca.isZero && cb.isInf)) = false)

include hvalid

theorem fma_nan {da db : Datum} (hA : Represents f ca da)
    (hB : Represents f cb db) (hnan : (ca.isNan || cb.isNan) = true) :
    ∃ result, fma f a b c negateProduct negateAddend rm profile =
        some result ∧
      RoundsSum f rm ((sa != sb) != negateProduct)
        (.nan (da.isSnan || db.isSnan)) (f.signOf c != negateAddend)
        (datum f c) result := by
  obtain ⟨cc, hrunC, hC⟩ := unpack_spec hf c profile
  have hresult : f.GivesNan
      (invalidIf ((da.isSnan || db.isSnan) || (datum f c).isSnan))
      (nanResult f [ca, cb, cc]) := by
    apply nanResult_gives hf
    rw [List.any_cons, List.any_cons, List.any_cons, List.any_nil,
      Bool.or_false, ← Bool.or_assoc, hA.isSnan, hB.isSnan, hC.isSnan]
  rw [fma, Checked.bind_of_some hrunA]
  dsimp only
  rw [Checked.bind_of_some hrunB]
  dsimp only
  rw [Checked.bind_of_some hrunC]
  dsimp only
  rw [hvalid, hnan]
  generalize datum f c = dc at hresult
  have hclear := underflows_nan f [ca, cb, cc]
  cases dc <;> exact ⟨_, rfl, hresult, .none rfl hclear⟩

variable (hnan : (ca.isNan || cb.isNan) = false)

include hnan

omit hrunA hrunB hvalid in
theorem nanResult_addend (signalling : Bool) :
    f.GivesNan (invalidIf signalling)
      (nanResult f [ca, cb, .nan signalling]) := by
  have hquiet : ∀ c : Cls, c.isNan = false → c.isSnan = false := by
    intro c hc
    cases c with
    | nan signalling => cases hc
    | _ => rfl
  obtain ⟨hA, hB⟩ := Bool.or_eq_false_iff.mp hnan
  apply nanResult_gives hf
  rw [List.any_cons, List.any_cons, List.any_cons, List.any_nil,
    Bool.or_false, hquiet ca hA, hquiet cb hB, Bool.false_or, Bool.false_or]
  rfl

theorem fma_inf (hinf : (ca.isInf || cb.isInf) = true) :
    ∃ result, fma f a b c negateProduct negateAddend rm profile =
        some result ∧
      RoundsSum f rm ((sa != sb) != negateProduct) .inf
        (f.signOf c != negateAddend) (datum f c) result := by
  obtain ⟨cc, hrunC, hC⟩ := unpack_spec hf c profile
  rw [fma, Checked.bind_of_some hrunA]
  dsimp only
  rw [Checked.bind_of_some hrunB]
  dsimp only
  rw [Checked.bind_of_some hrunC]
  dsimp only
  rw [hvalid, hnan, hinf]
  generalize (f.signOf c != negateAddend) = sc
  generalize ((sa != sb) != negateProduct) = sp
  generalize datum f c = dc at hC
  cases hC with
  | zero => exact ⟨_, rfl, hf.gives_inf _ [], .none rfl underflows_none⟩
  | num hc => exact ⟨_, rfl, hf.gives_inf _ [], .none rfl underflows_none⟩
  | inf =>
      have hsum := RoundsSum.of_infinities hf rm sp sc
      refine ⟨_, rfl, ?_⟩
      cases sc <;> cases sp <;> exact hsum
  | nan signalling =>
      exact ⟨_, rfl, nanResult_addend hf hnan signalling,
        .none rfl (underflows_nan f _)⟩

theorem fma_zero (hinf : (ca.isInf || cb.isInf) = false)
    (hproduct : product ca cb = pure none) :
    ∃ result, fma f a b c negateProduct negateAddend rm profile =
        some result ∧
      RoundsSum f rm ((sa != sb) != negateProduct) (.finite 0)
        (f.signOf c != negateAddend) (datum f c) result := by
  obtain ⟨cc, hrunC, hC⟩ := unpack_spec hf c profile
  have hparts := hf.parts_flip c negateAddend
  rw [fma, Checked.bind_of_some hrunA]
  dsimp only
  rw [Checked.bind_of_some hrunB]
  dsimp only
  rw [Checked.bind_of_some hrunC]
  dsimp only
  rw [hvalid, hnan, hinf, hproduct]
  generalize hdc : datum f c = dc at hC
  cases hC with
  | zero =>
      refine ⟨_, rfl, RoundsTotal.sum (.zero hf ?_)⟩
      rw [withSign_zero, withSign_zero, zero_add]
  | num hc =>
      have hpos := (Unpacked.operand hf hc).pos
      exact ⟨_, rfl, .of_zero hpos hdc hparts⟩
  | inf => exact ⟨_, rfl, hf.gives_inf _ [], .none rfl underflows_none⟩
  | nan signalling =>
      exact ⟨_, rfl, nanResult_addend hf hnan signalling,
        .none rfl (underflows_nan f _)⟩

theorem fma_num {m : ℕ} {e : ℤ} (hm : Operand m e)
    (hinf : (ca.isInf || cb.isInf) = false)
    (hproduct : product ca cb = pure (some (m, e))) :
    ∃ result, fma f a b c negateProduct negateAddend rm profile =
        some result ∧
      RoundsSum f rm ((sa != sb) != negateProduct) (.finite (m * 2 ^ e))
        (f.signOf c != negateAddend) (datum f c) result := by
  obtain ⟨cc, hrunC, hC⟩ := unpack_spec hf c profile
  rw [fma, Checked.bind_of_some hrunA]
  dsimp only
  rw [Checked.bind_of_some hrunB]
  dsimp only
  rw [Checked.bind_of_some hrunC]
  dsimp only
  rw [hvalid, hnan, hinf, hproduct]
  generalize datum f c = dc at hC
  cases hC with
  | zero =>
      obtain ⟨result, y, hrun, hrounded⟩ := hm.roundPack hf _ rm profile
      refine ⟨result, hrun, RoundsTotal.sum ?_⟩
      rw [withSign_zero, add_zero]
      exact .of_magnitude hm.pos hrounded.correct hrounded.underflowsAt
  | num hc =>
      obtain ⟨result, hrun, htotal⟩ :=
        addRaw_roundSum hf hm (Unpacked.operand hf hc) _ _ profile
      exact ⟨result, hrun, htotal.sum⟩
  | inf => exact ⟨_, rfl, hf.gives_inf _ [], .none rfl underflows_none⟩
  | nan signalling =>
      exact ⟨_, rfl, nanResult_addend hf hnan signalling,
        .none rfl (underflows_nan f _)⟩

end MultiplyAdd

/-- The exact value of a product plus an addend, if it has one. -/
def exactFma (sp : Bool) (a b : Datum) (sc : Bool) (c : Datum) : Option ℚ :=
  (a.mul b).bind fun product => exactSum sp product sc c

/-- A product plus an addend with every flag. -/
structure RoundsFma (f : Fmt) (rm : Rm) (sp : Bool) (a b : Datum) (sc : Bool)
    (c : Datum) (result : ℕ × ℕ) : Prop where
  fma : IsFma f rm sp a b sc c result
  underflow : FlagsUnderflow f rm (exactFma sp a b sc c) result.2

theorem RoundsFma.of_product {f : Fmt} {rm : Rm} {sp sc : Bool}
    {a b c p : Datum} (hproduct : a.mul b = some p) {result : ℕ × ℕ}
    (h : RoundsSum f rm sp p sc c result) :
    RoundsFma f rm sp a b sc c result := by
  constructor
  · rw [IsFma, hproduct]
    exact h.sum
  · rw [exactFma, hproduct]
    exact h.underflow

theorem RoundsFma.invalid {f : Fmt} (hf : f.Standard) {rm : Rm}
    {sp sc : Bool} {a b c : Datum} (hproduct : a.mul b = none) :
    RoundsFma f rm sp a b sc c (f.nan, NV) := by
  constructor
  · rw [IsFma, hproduct]
    exact hf.givesNan_nan [.invalid]
  · refine .none ?_ underflows_NV
    rw [exactFma, hproduct]
    rfl

theorem fma_spec {f : Fmt} (hf : f.Standard) (rm : Rm) (profile : Profile)
    (a b c : ℕ) (negateProduct negateAddend : Bool) :
    ∃ result, fma f a b c negateProduct negateAddend rm profile =
        some result ∧
      RoundsFma f rm ((f.signOf a != f.signOf b) != negateProduct) (datum f a)
        (datum f b) (f.signOf c != negateAddend) (datum f c) result := by
  obtain ⟨ca, hrunA, hA⟩ := unpack_spec hf a profile
  obtain ⟨cb, hrunB, hB⟩ := unpack_spec hf b profile
  generalize datum f a = da at hA
  generalize datum f b = db at hB
  have hnan := fma_nan hf rm hrunA hrunB c negateProduct negateAddend
  have hinf := fma_inf hf rm hrunA hrunB c negateProduct negateAddend
  have hzero := fma_zero hf rm hrunA hrunB c negateProduct negateAddend
  have hinvalid := fma_invalid hf rm hrunA hrunB c negateProduct negateAddend
  cases hA with
  | nan signalling =>
      exact (hnan rfl (.nan signalling) hB rfl).imp
        fun _ h => ⟨h.1, .of_product rfl h.2⟩
  | inf =>
      cases hB with
      | nan signalling =>
          exact (hnan rfl .inf (.nan signalling) rfl).imp
            fun _ h => ⟨h.1, .of_product rfl h.2⟩
      | inf =>
          exact (hinf rfl rfl rfl).imp fun _ h => ⟨h.1, .of_product rfl h.2⟩
      | zero =>
          exact ⟨_, hinvalid rfl, .invalid hf (by rw [Datum.mul, if_pos rfl])⟩
      | num hb =>
          have hpos := (Unpacked.operand hf hb).pos
          exact (hinf rfl rfl rfl).imp
            fun _ h => ⟨h.1, .of_product (by rw [Datum.mul, if_neg hpos.ne']) h.2⟩
  | zero =>
      cases hB with
      | nan signalling =>
          exact (hnan rfl .zero (.nan signalling) rfl).imp
            fun _ h => ⟨h.1, .of_product rfl h.2⟩
      | inf =>
          exact ⟨_, hinvalid rfl, .invalid hf (by rw [Datum.mul, if_pos rfl])⟩
      | zero =>
          exact (hzero rfl rfl rfl rfl).imp
            fun _ h => ⟨h.1, .of_product (by rw [Datum.mul, zero_mul]) h.2⟩
      | num hb =>
          exact (hzero rfl rfl rfl rfl).imp
            fun _ h => ⟨h.1, .of_product (by rw [Datum.mul, zero_mul]) h.2⟩
  | @num ma ea ha =>
      cases hB with
      | nan signalling =>
          exact (hnan rfl (.num ha) (.nan signalling) rfl).imp
            fun _ h => ⟨h.1, .of_product rfl h.2⟩
      | inf =>
          have hpos := (Unpacked.operand hf ha).pos
          exact (hinf rfl rfl rfl).imp
            fun _ h => ⟨h.1, .of_product (by rw [Datum.mul, if_neg hpos.ne']) h.2⟩
      | zero =>
          exact (hzero rfl rfl rfl rfl).imp
            fun _ h => ⟨h.1, .of_product (by rw [Datum.mul, mul_zero]) h.2⟩
      | @num mb eb hb =>
          have hm := Unpacked.mul hf ha hb
          have hvalue : (ma * 2 ^ ea * (mb * 2 ^ eb) : ℚ) =
              (ma * mb : ℕ) * 2 ^ (ea + eb) := by
            rw [zpow_add₀ two_ne_zero]
            push_cast
            ring
          have hlow := hm.low
          have hhigh := hm.high
          have hproduct : product (.num ma ea) (.num mb eb) =
              pure (some (ma * mb, ea + eb)) := by
            rw [product, Checked.umul_eq_pure (hm.lt.trans (by decide)),
              pure_bind, Checked.iadd_eq_pure (by omega) (by omega), pure_bind]
          exact (fma_num hf rm hrunA hrunB c negateProduct negateAddend rfl rfl
            hm rfl hproduct).imp
            fun _ h => ⟨h.1, .of_product (by rw [Datum.mul, hvalue]) h.2⟩

/-- Addition, subtraction and the fused multiply-adds round the exact result
once, in either format and under either build. -/
theorem add_sub_fma_correct (f : Fmt) (hf : f = S ∨ f = D) (rm : Rm)
    (profile : Profile) (a b c : ℕ) (negateProduct negateAddend : Bool) :
    (∃ result, add f a b rm profile = some result ∧
      IsSum f rm (f.signOf a) (datum f a) (f.signOf b) (datum f b) result) ∧
    (∃ result, sub f a b rm profile = some result ∧
      IsSum f rm (f.signOf a) (datum f a) (!f.signOf b) (datum f b) result) ∧
    ∃ result, fma f a b c negateProduct negateAddend rm profile =
        some result ∧
      IsFma f rm ((f.signOf a != f.signOf b) != negateProduct) (datum f a)
        (datum f b) (f.signOf c != negateAddend) (datum f c) result := by
  have hstandard := standard_of hf
  have hadd := addOrSub_spec hstandard rm profile a b false
  have hsub := addOrSub_spec hstandard rm profile a b true
  rw [Bool.bne_false] at hadd
  rw [Bool.bne_true] at hsub
  have hfma := fma_spec hstandard rm profile a b c negateProduct negateAddend
  exact ⟨hadd.imp fun _ h => ⟨h.1, h.2.sum⟩, hsub.imp fun _ h => ⟨h.1, h.2.sum⟩,
    hfma.imp fun _ h => ⟨h.1, h.2.fma⟩⟩

/-- One and the least subnormal in single precision, towards plus infinity; the
largest magnitude and itself, which overflow; and a difference of infinities. -/
theorem add_sub_fma_correct_single :
    (add S 0x3F800000 1 .rup .debug = some (0x3F800001, 1) ∧
      ∃ result, add S 0x3F800000 1 .rup .debug = some result ∧
        IsSum S .rup false (datum S 0x3F800000) false (datum S 1) result) ∧
    (add S 0x7F7FFFFF 0x7F7FFFFF .rne .debug = some (0x7F800000, 5) ∧
      ∃ result, add S 0x7F7FFFFF 0x7F7FFFFF .rne .debug = some result ∧
        IsSum S .rne false (datum S 0x7F7FFFFF) false (datum S 0x7F7FFFFF)
          result) ∧
    sub S 0x7F800000 0x7F800000 .rne .debug = some (0x7FC00000, 16) ∧
      ∃ result, sub S 0x7F800000 0x7F800000 .rne .debug = some result ∧
        IsSum S .rne false (datum S 0x7F800000) true (datum S 0x7F800000)
          result :=
  ⟨⟨by decide +kernel,
    (add_sub_fma_correct S (Or.inl rfl) .rup .debug 0x3F800000 1 0 false
      false).1⟩,
    ⟨by decide +kernel,
      (add_sub_fma_correct S (Or.inl rfl) .rne .debug 0x7F7FFFFF 0x7F7FFFFF 0
        false false).1⟩,
    by decide +kernel,
    (add_sub_fma_correct S (Or.inl rfl) .rne .debug 0x7F800000 0x7F800000 0
      false false).2.1⟩

end Fpu

end Nanoemu
