import Mathlib.Tactic

/-!
# Fields of a machine word

A field is a mask, and two words agree on it when they have the same bits
there.  The lemmas say which updates of a word a field does not see, so that a
register with many fields is reasoned about one field at a time.
-/

namespace BitFields

variable {w : ℕ} {a b c field mask : BitVec w}

def Agree (field a b : BitVec w) : Prop :=
  a &&& field = b &&& field

instance (field a b : BitVec w) : Decidable (Agree field a b) :=
  inferInstanceAs (Decidable (_ = _))

theorem agree_iff :
    Agree field a b ↔
      ∀ i, field.getLsbD i = true → a.getLsbD i = b.getLsbD i := by
  constructor
  · intro h i hi
    have hbit := congrArg (fun word => word.getLsbD i) h
    simpa only [BitVec.getLsbD_and, hi, Bool.and_true] using hbit
  · intro h
    apply BitVec.eq_of_getLsbD_eq
    intro i _
    rw [BitVec.getLsbD_and, BitVec.getLsbD_and]
    cases hi : field.getLsbD i with
    | false => rw [Bool.and_false, Bool.and_false]
    | true => rw [h i hi]

theorem Agree.refl (field a : BitVec w) : Agree field a a := rfl

theorem Agree.symm (h : Agree field a b) : Agree field b a :=
  Eq.symm h

theorem Agree.trans (hfirst : Agree field a b) (hsecond : Agree field b c) :
    Agree field a c :=
  Eq.trans hfirst hsecond

def Disjoint (field mask : BitVec w) : Prop :=
  field &&& mask = 0

instance (field mask : BitVec w) : Decidable (Disjoint field mask) :=
  inferInstanceAs (Decidable (_ = _))

theorem Disjoint.bit (h : Disjoint field mask) {i : ℕ}
    (hi : field.getLsbD i = true) : mask.getLsbD i = false := by
  have hbit := congrArg (fun word => word.getLsbD i) h
  simpa only [BitVec.getLsbD_and, hi, Bool.true_and, BitVec.ofNat_eq_ofNat,
    BitVec.getLsbD_zero] using hbit

def Within (field mask : BitVec w) : Prop :=
  field &&& mask = field

instance (field mask : BitVec w) : Decidable (Within field mask) :=
  inferInstanceAs (Decidable (_ = _))

theorem Within.bit (h : Within field mask) {i : ℕ}
    (hi : field.getLsbD i = true) : mask.getLsbD i = true := by
  have hbit := congrArg (fun word => word.getLsbD i) h
  simpa only [BitVec.getLsbD_and, hi, Bool.true_and] using hbit

theorem Disjoint.mono {part : BitVec w} (h : Disjoint field mask)
    (hpart : Within part mask) : Disjoint field part := by
  have hand : field &&& part = field &&& mask &&& part := by
    rw [BitVec.and_assoc, BitVec.and_comm mask part, hpart]
  exact hand.trans ((congrArg (· &&& part) h).trans BitVec.zero_and)

/-! ## Updates a field does not see -/

theorem Agree.or_right (h : Disjoint field mask) :
    Agree field (a ||| mask) a := by
  rw [agree_iff]
  intro i hi
  rw [BitVec.getLsbD_or, h.bit hi, Bool.or_false]

theorem Agree.ite_or {condition : Prop} [Decidable condition]
    (h : Disjoint field mask) :
    Agree field (if condition then a ||| mask else a) a := by
  split
  · exact Agree.or_right h
  · exact Agree.refl _ _

theorem Agree.and_not (h : Disjoint field mask) :
    Agree field (a &&& ~~~mask) a := by
  rw [agree_iff]
  intro i hi
  have hlt : i < w := BitVec.lt_of_getLsbD hi
  rw [BitVec.getLsbD_and, BitVec.getLsbD_not, h.bit hi, decide_eq_true hlt]
  simp

theorem Agree.and_mask (h : Within field mask) :
    Agree field (a &&& mask) a := by
  rw [agree_iff]
  intro i hi
  rw [BitVec.getLsbD_and, h.bit hi, Bool.and_true]

theorem Agree.merge (h : Disjoint field mask) :
    Agree field ((a &&& ~~~mask) ||| (b &&& mask)) a := by
  refine Agree.trans ?_ (Agree.and_not h)
  rw [agree_iff]
  intro i hi
  have hoff : (b &&& mask).getLsbD i = false := by
    rw [BitVec.getLsbD_and, h.bit hi, Bool.and_false]
  rw [BitVec.getLsbD_or, hoff, Bool.or_false]

theorem Agree.mono (h : Agree mask a b) (hwithin : Within field mask) :
    Agree field a b := by
  rw [agree_iff] at h ⊢
  exact fun i hi => h i (hwithin.bit hi)

theorem agree_and :
    Agree field (a &&& mask) (b &&& mask) ↔ Agree (field &&& mask) a b := by
  rw [Agree, Agree, BitVec.and_assoc, BitVec.and_assoc,
    BitVec.and_comm mask field]

theorem within_and_left : Within (field &&& mask) field := by
  rw [Within, BitVec.and_comm field mask, BitVec.and_assoc, BitVec.and_self]

theorem Agree.and (h : Agree field a b) (mask : BitVec w) :
    Agree field (a &&& mask) (b &&& mask) :=
  agree_and.mpr (h.mono within_and_left)

theorem and_bit_ne_zero (a : BitVec w) (k : ℕ) :
    a &&& (1#w <<< k) ≠ 0 ↔ a.getLsbD k = true := by
  rw [← BitVec.twoPow_eq, BitVec.and_twoPow]
  cases hbit : a.getLsbD k with
  | false => simp
  | true =>
      have hlt : k < w := BitVec.lt_of_getLsbD hbit
      have hone : (BitVec.twoPow w k).toNat = 2 ^ k :=
        BitVec.toNat_twoPow_of_lt hlt
      refine iff_of_true (fun hzero => ?_) rfl
      rw [if_pos rfl] at hzero
      rw [hzero] at hone
      exact (Nat.two_pow_pos k).ne hone

theorem and_bit (a : BitVec w) (k : ℕ) :
    a &&& (1#w <<< k) = 0 ∨ a &&& (1#w <<< k) = 1#w <<< k := by
  rw [← BitVec.twoPow_eq, BitVec.and_twoPow]
  split
  · exact Or.inr rfl
  · exact Or.inl rfl

theorem and_and_bit {bit : BitVec w} {k : ℕ} (hbit : bit = 1#w <<< k)
    (ha : a &&& bit ≠ 0) (hb : b &&& bit ≠ 0) : a &&& b &&& bit ≠ 0 := by
  subst hbit
  rw [BitVec.and_assoc, (and_bit b k).resolve_left hb]
  exact ha

theorem or_and_self (a mask : BitVec w) : (a ||| mask) &&& mask = mask := by
  apply BitVec.eq_of_getLsbD_eq
  intro i _
  rw [BitVec.getLsbD_and, BitVec.getLsbD_or]
  cases a.getLsbD i <;> cases mask.getLsbD i <;> rfl

theorem or_eq_self (h : mask &&& a = mask) : a ||| mask = a := by
  apply BitVec.eq_of_getLsbD_eq
  intro i _
  have hbit := congrArg (fun word => word.getLsbD i) h
  simp only [BitVec.getLsbD_and] at hbit
  rw [BitVec.getLsbD_or, ← hbit]
  cases a.getLsbD i <;> simp

theorem and_not_eq_self (h : Disjoint a mask) : a &&& ~~~mask = a := by
  apply BitVec.eq_of_getLsbD_eq
  intro i hi
  rw [BitVec.getLsbD_and, BitVec.getLsbD_not, decide_eq_true hi]
  cases hbit : a.getLsbD i with
  | false => rfl
  | true =>
      rw [h.bit hbit]
      rfl

theorem within_low_iff {k : ℕ} (hk : k ≤ w) :
    Within a (BitVec.ofNat w (2 ^ k - 1)) ↔ a.toNat < 2 ^ k := by
  have hmask : (BitVec.ofNat w (2 ^ k - 1)).toNat = 2 ^ k - 1 := by
    rw [BitVec.toNat_ofNat]
    apply Nat.mod_eq_of_lt
    have hle : 2 ^ k ≤ 2 ^ w := Nat.pow_le_pow_right (by decide) hk
    have hpos : 0 < 2 ^ k := Nat.two_pow_pos k
    omega
  rw [Within, ← BitVec.toNat_inj, BitVec.toNat_and, hmask,
    Nat.and_two_pow_sub_one_eq_mod]
  constructor
  · intro h
    rw [← h]
    exact Nat.mod_lt _ (Nat.two_pow_pos k)
  · exact Nat.mod_eq_of_lt

theorem replace_eq_part_iff (hpart : Within b mask) :
    (a &&& ~~~mask) ||| b = b ↔ Within a mask := by
  constructor
  · intro h
    apply BitVec.eq_of_getLsbD_eq
    intro i hi
    have hbit := congrArg (fun word => word.getLsbD i) h
    have hinside := congrArg (fun word => word.getLsbD i) hpart
    simp only [BitVec.getLsbD_or, BitVec.getLsbD_and, BitVec.getLsbD_not,
      decide_eq_true hi, Bool.true_and] at hbit hinside ⊢
    revert hbit hinside
    cases a.getLsbD i <;> cases b.getLsbD i <;> cases mask.getLsbD i <;> decide
  · intro h
    have hnone : a &&& ~~~mask = 0#w := by
      rw [← h, BitVec.and_assoc]
      simp
    rw [hnone]
    exact BitVec.zero_or

end BitFields
