import Nanoemu.FloatSum

/-!
# Correctly rounded products and conversions

A product of two significands is exact, and so are a pattern of the other
format and an integer: each goes to the rounding routine as it is.  A value
that the target format has is returned without a flag.
-/

namespace Nanoemu

open CheckedProgram GridRounding

namespace Fpu

/-- The rounding of an exact magnitude under a given sign, which a zero keeps.
A value of the format raises no flag. -/
def CorrectValue (f : Fmt) (rm : Rm) (sign : Bool) (x : ℚ)
    (result : ℕ × ℕ) : Prop :=
  if x = 0 then f.Gives sign (.finite 0) [] result
  else Correct f rm sign x result ∧
    ((∃ bits, datum f bits = .finite x) → result.2 = 0)

/-- What an operation with an exact result must return; an operation that has
none is invalid. -/
def IsRounded (f : Fmt) (rm : Rm) (sign : Bool) (exact : Option Datum)
    (result : ℕ × ℕ) : Prop :=
  match exact with
  | some (.finite x) => CorrectValue f rm sign x result
  | some .inf => f.Gives sign .inf [] result
  | some (.nan signalling) => f.GivesNan (invalidIf signalling) result
  | none => f.GivesNan [.invalid] result

def exactValue (sign : Bool) (exact : Option Datum) : Option ℚ :=
  match exact with
  | some (.finite x) => some (withSign sign x)
  | _ => none

/-- An exact result with every flag. -/
structure RoundsExact (f : Fmt) (rm : Rm) (sign : Bool) (exact : Option Datum)
    (result : ℕ × ℕ) : Prop where
  rounded : IsRounded f rm sign exact result
  underflow : FlagsUnderflow f rm (exactValue sign exact) result.2

theorem flags_apart {inexact : Bool} {flags : ℕ}
    (hraises : RaisesApart (inexactIf inexact) flags)
    (hclear : underflows flags = false) :
    flags = flagWord (inexactIf inexact) := by
  apply hraises.resolve_right
  rintro rfl
  cases inexact <;> cases hclear

section Flags

variable {α : Type*} [Field α] [LinearOrder α] [IsStrictOrderedRing α]
  {f : Fmt} {rm : Rm} {sign : Bool} {x : α} {y : ℚ} {result : ℕ × ℕ}

omit [IsStrictOrderedRing α] in
theorem RoundedTo.flags (h : RoundedTo f rm sign x y result)
    (hlimit : y < f.limit) (hsmall : (y : α) = x ∨ f.leastNormal ≤ y) :
    result.2 = flagWord (inexactIf (decide ((y : α) ≠ x))) := by
  have hencodes := h.encodes
  rw [Encodes, if_neg (not_le.mpr hlimit)] at hencodes
  apply flags_apart hencodes.2
  rw [← Bool.not_eq_true, h.underflow, not_and, not_lt]
  exact fun hne => hsmall.resolve_left hne

end Flags

theorem RoundedTo.exact {f : Fmt} {rm : Rm} {sign : Bool} {x y : ℚ}
    {result : ℕ × ℕ} (h : RoundedTo f rm sign x y result) {bits : ℕ}
    (hdatum : datum f bits = .finite x) : result.2 = 0 := by
  obtain ⟨hmem, hlimit⟩ := mem_of_datum hdatum
  have heq : y = x := by
    have hcast := h.rounds.eq_of_mem hmem
    rwa [Rat.cast_id] at hcast
  rw [h.flags (heq ▸ hlimit) (Or.inl (heq ▸ Rat.cast_id y)), Rat.cast_id,
    decide_eq_false (not_not.mpr heq)]
  rfl

section Values

variable {f : Fmt} {rm : Rm} {sign : Bool} {x y : ℚ} {result : ℕ × ℕ}

theorem RoundsExact.of_rounded (hx : 0 < x)
    (h : RoundedTo f rm sign x y result) :
    RoundsExact f rm sign (some (.finite x)) result := by
  obtain ⟨-, hsign, habs⟩ := withSign_parts sign hx
  constructor
  · rw [IsRounded, CorrectValue, if_neg hx.ne']
    exact ⟨h.correct, fun ⟨_, hdatum⟩ => h.exact hdatum⟩
  · rw [exactValue, FlagsUnderflow, hsign, habs]
    exact h.underflowsAt

variable (hf : f.Standard)

include hf

theorem RoundsExact.zero (hx : x = 0) :
    RoundsExact f rm sign (some (.finite x)) (f.zero sign, 0) := by
  have hzero : withSign sign x = 0 := by rw [hx, withSign_zero]
  constructor
  · rw [IsRounded, CorrectValue, if_pos hx]
    exact hf.gives_zero sign []
  · have htotal : RoundsTotal f rm sign (withSign sign x) (f.zero sign, 0) :=
      .zero hf hzero
    exact htotal.underflow

theorem RoundsExact.inf : RoundsExact f rm sign (some .inf) (f.inf sign, 0) :=
  ⟨hf.gives_inf sign [], .none rfl underflows_none⟩

theorem RoundsExact.nan {operands : List Cls} {signalling : Bool}
    (hany : operands.any Cls.isSnan = signalling) :
    RoundsExact f rm sign (some (.nan signalling)) (nanResult f operands) :=
  ⟨nanResult_gives hf hany, .none rfl (underflows_nan f operands)⟩

theorem RoundsExact.invalid :
    RoundsExact f rm sign none (Fpu.invalid f) :=
  ⟨hf.givesNan_nan [.invalid], .none rfl underflows_NV⟩

end Values

section Product

variable {f : Fmt} (hf : f.Standard) (rm : Rm) (profile : Profile)

include hf

theorem mul_spec (a b : ℕ) :
    ∃ result, mul f a b rm profile = some result ∧
      RoundsExact f rm (f.signOf a != f.signOf b)
        ((datum f a).mul (datum f b)) result := by
  obtain ⟨ca, hrunA, hA⟩ := unpack_spec hf a profile
  obtain ⟨cb, hrunB, hB⟩ := unpack_spec hf b profile
  rw [mul, Checked.bind_of_some hrunA]
  dsimp only
  rw [Checked.bind_of_some hrunB]
  dsimp only
  generalize datum f a = da at hA
  generalize datum f b = db at hB
  have hnan : ∀ {result : ℕ × ℕ} {p : Option Datum},
      p = some (.nan (da.isSnan || db.isSnan)) →
      result = nanResult f [ca, cb] →
      RoundsExact f rm (f.signOf a != f.signOf b) p result := by
    rintro _ _ rfl rfl
    exact ⟨nanResult_pair hf hA hB, .none rfl (underflows_nan f _)⟩
  cases hA with
  | nan signalling => cases hB <;> exact ⟨_, rfl, hnan rfl rfl⟩
  | inf =>
      cases hB with
      | nan signalling => exact ⟨_, rfl, hnan rfl rfl⟩
      | inf => exact ⟨_, rfl, .inf hf⟩
      | zero =>
          rw [Datum.mul, if_pos rfl]
          exact ⟨_, rfl, .invalid hf⟩
      | num hb =>
          rw [Datum.mul, if_neg (Unpacked.operand hf hb).pos.ne']
          exact ⟨_, rfl, .inf hf⟩
  | zero =>
      cases hB with
      | nan signalling => exact ⟨_, rfl, hnan rfl rfl⟩
      | inf =>
          rw [Datum.mul, if_pos rfl]
          exact ⟨_, rfl, .invalid hf⟩
      | zero => exact ⟨_, rfl, .zero hf (zero_mul _)⟩
      | num hb => exact ⟨_, rfl, .zero hf (zero_mul _)⟩
  | @num ma ea ha =>
      cases hB with
      | nan signalling => exact ⟨_, rfl, hnan rfl rfl⟩
      | inf =>
          rw [Datum.mul, if_neg (Unpacked.operand hf ha).pos.ne']
          exact ⟨_, rfl, .inf hf⟩
      | zero => exact ⟨_, rfl, .zero hf (mul_zero _)⟩
      | @num mb eb hb =>
          have hm := Unpacked.mul hf ha hb
          have hlow := hm.low
          have hhigh := hm.high
          have hvalue : (ma * 2 ^ ea * (mb * 2 ^ eb) : ℚ) =
              (ma * mb : ℕ) * 2 ^ (ea + eb) := by
            rw [zpow_add₀ two_ne_zero]
            push_cast
            ring
          obtain ⟨result, y, hrun, hrounded⟩ := hm.roundPack hf
            (f.signOf a != f.signOf b) rm profile
          refine ⟨result, ?_, ?_⟩
          · have hproduct : Checked.umul 128 ma mb = pure (ma * mb) :=
              Checked.umul_eq_pure (hm.lt.trans (by decide))
            have hexponent : Checked.iadd 32 ea eb = pure (ea + eb) :=
              Checked.iadd_eq_pure (by omega) (by omega)
            simp only [Cls.isNan, Bool.or_self, Bool.false_eq_true, if_false,
              hproduct, hexponent, pure_bind]
            exact hrun
          · rw [Datum.mul, hvalue]
            exact .of_rounded hm.pos hrounded

end Product

/-! ## Conversions -/

theorem convert_spec {source target : Fmt} (hsource : source.Standard)
    (htarget : target.Standard) (rm : Rm) (profile : Profile) (a : ℕ) :
    ∃ result, convert source target a rm profile = some result ∧
      RoundsExact target rm (source.signOf a) (some (datum source a))
        result := by
  obtain ⟨c, hrun, hrepresents⟩ := unpack_spec hsource a profile
  rw [convert, Checked.bind_of_some hrun]
  generalize datum source a = d at hrepresents
  cases hrepresents with
  | nan signalling =>
      refine ⟨_, rfl, .nan htarget ?_⟩
      rw [List.any_cons, List.any_nil, Bool.or_false]
      rfl
  | inf => exact ⟨_, rfl, .inf htarget⟩
  | zero => exact ⟨_, rfl, .zero htarget rfl⟩
  | num hm =>
      have hoperand := Unpacked.operand hsource hm
      obtain ⟨result, y, hround, hrounded⟩ :=
        hoperand.roundPack htarget (source.signOf a) rm profile
      exact ⟨result, hround, .of_rounded hoperand.pos hrounded⟩

theorem fromInt_spec {f : Fmt} (hf : f.Standard) (rm : Rm) (profile : Profile)
    (sign : Bool) {magnitude : ℕ} (hword : magnitude < 2 ^ 64) :
    ∃ result, fromInt f sign magnitude rm profile = some result ∧
      RoundsExact f rm sign (some (.finite magnitude)) result := by
  by_cases hzero : magnitude = 0
  · rw [fromInt, roundPack, if_pos hzero]
    exact ⟨_, rfl, .zero hf (Nat.cast_eq_zero.mpr hzero)⟩
  · have hoperand : Operand magnitude 0 :=
      ⟨hzero, hword.trans (by decide), by decide, by decide⟩
    obtain ⟨result, y, hround, hrounded⟩ :=
      hoperand.roundPack hf sign rm profile
    have hpos := hoperand.pos
    rw [zpow_zero, mul_one] at hrounded hpos
    exact ⟨result, hround, .of_rounded hpos hrounded⟩

/-- Products, conversions between the formats and conversions from integers
round the exact value once and raise no flag for one the format has. -/
theorem mul_convert_fromInt_correct (f source : Fmt) (hf : f = S ∨ f = D)
    (hsource : source = S ∨ source = D) (rm : Rm) (profile : Profile)
    (a b : ℕ) (sign : Bool) (magnitude : BitVec 64) :
    (∃ result, mul f a b rm profile = some result ∧
      IsRounded f rm (f.signOf a != f.signOf b)
        ((datum f a).mul (datum f b)) result) ∧
    (∃ result, convert source f a rm profile = some result ∧
      IsRounded f rm (source.signOf a) (some (datum source a)) result) ∧
    ∃ result, fromInt f sign magnitude.toNat rm profile = some result ∧
      IsRounded f rm sign (some (.finite magnitude.toNat)) result := by
  have hstandard := standard_of hf
  have hmul := mul_spec hstandard rm profile a b
  have hconvert :=
    convert_spec (standard_of hsource) hstandard rm profile a
  have hint := fromInt_spec hstandard rm profile sign magnitude.isLt
  exact ⟨hmul.imp fun _ h => ⟨h.1, h.2.rounded⟩,
    hconvert.imp fun _ h => ⟨h.1, h.2.rounded⟩,
    hint.imp fun _ h => ⟨h.1, h.2.rounded⟩⟩

/-- A third, from double to single precision, and the square of the largest
magnitude, which overflows. -/
theorem mul_convert_fromInt_correct_third :
    (convert D S 0x3FD5555555555555 .rne .debug = some (0x3EAAAAAB, 1) ∧
      ∃ result, convert D S 0x3FD5555555555555 .rne .debug = some result ∧
        IsRounded S .rne (D.signOf 0x3FD5555555555555)
          (some (datum D 0x3FD5555555555555)) result) ∧
    mul S 0x7F7FFFFF 0xFF7FFFFF .rtz .debug = some (0xFF7FFFFF, 5) ∧
      ∃ result, mul S 0x7F7FFFFF 0xFF7FFFFF .rtz .debug = some result ∧
        IsRounded S .rtz true
          ((datum S 0x7F7FFFFF).mul (datum S 0xFF7FFFFF)) result :=
  ⟨⟨by decide +kernel,
    (mul_convert_fromInt_correct S D (Or.inl rfl) (Or.inr rfl) .rne .debug
      0x3FD5555555555555 0 false 0).2.1⟩,
    by decide +kernel,
    (mul_convert_fromInt_correct S S (Or.inl rfl) (Or.inl rfl) .rtz .debug
      0x7F7FFFFF 0xFF7FFFFF false 0).1⟩

end Fpu

end Nanoemu
