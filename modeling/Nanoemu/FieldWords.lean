import Mathlib.Tactic

/-!
# Words put together from fields

A field that is cut out by a shift and a mask is an extraction, and fields that
are shifted into place and joined are an append.  Stated once for words of any
width, so that shuffled immediates are compared field by field.
-/

namespace FieldWords

variable {n k w : ℕ}

theorem append_setWidth (a : BitVec n) (b : BitVec k) :
    (a ++ b).setWidth w = (a.setWidth w <<< k) ||| b.setWidth w := by
  apply BitVec.eq_of_getLsbD_eq
  intro i hi
  rw [BitVec.getLsbD_or, BitVec.getLsbD_shiftLeft, BitVec.getLsbD_setWidth,
    BitVec.getLsbD_setWidth, BitVec.getLsbD_setWidth, BitVec.getLsbD_append]
  by_cases hlow : i < k
  · simp [hlow, hi]
  · have hhigh : i - k < w := by omega
    simp [hlow, hi, hhigh, BitVec.getLsbD_of_ge b i (by omega)]

theorem toNat_ones (hk : k ≤ w) :
    (BitVec.ofNat w (2 ^ k - 1)).toNat = 2 ^ k - 1 := by
  rw [BitVec.toNat_ofNat]
  apply Nat.mod_eq_of_lt
  have hpos := Nat.two_pow_pos k
  have hle : 2 ^ k ≤ 2 ^ w := Nat.pow_le_pow_right (by decide) hk
  omega

theorem and_ones (v : BitVec w) (hk : k ≤ w) :
    v &&& BitVec.ofNat w (2 ^ k - 1) = (v.setWidth k).setWidth w := by
  have hlt : v.toNat % 2 ^ k < 2 ^ w :=
    lt_of_le_of_lt (Nat.mod_le _ _) v.isLt
  apply BitVec.eq_of_toNat_eq
  rw [BitVec.toNat_and, toNat_ones hk, Nat.and_two_pow_sub_one_eq_mod,
    BitVec.toNat_setWidth, BitVec.toNat_setWidth, Nat.mod_eq_of_lt hlt]

theorem shift_and_ones (v : BitVec w) {hi lo : ℕ} (hfits : hi - lo + 1 ≤ w) :
    (v >>> lo) &&& BitVec.ofNat w (2 ^ (hi - lo + 1) - 1) =
      (v.extractLsb hi lo).setWidth w := by
  rw [and_ones _ hfits]
  congr 1
  apply BitVec.eq_of_toNat_eq
  rw [BitVec.toNat_setWidth, BitVec.toNat_ushiftRight, BitVec.extractLsb_toNat]

theorem extractLsb_setWidth (v : BitVec w) {hi lo : ℕ} (hhi : hi < n)
    (hle : lo ≤ hi) :
    (v.setWidth n).extractLsb hi lo = v.extractLsb hi lo := by
  apply BitVec.eq_of_getLsbD_eq
  intro i hi'
  have hin : lo + i < n := by omega
  simp [hin]

/-- A signed field is widened by moving it to the top of the word and back. -/
theorem sshiftRight_shiftLeft (v : BitVec k) (hpos : 0 < k) (hk : k ≤ w) :
    (v.setWidth w <<< (w - k)).sshiftRight (w - k) = v.signExtend w := by
  have hmsb : (v.setWidth w <<< (w - k)).msb = v.msb := by
    rw [BitVec.msb_eq_getLsbD_last, BitVec.msb_eq_getLsbD_last,
      BitVec.getLsbD_shiftLeft, BitVec.getLsbD_setWidth]
    have htop : w - 1 - (w - k) = k - 1 := by omega
    have hover : ¬ w - 1 < w - k := by omega
    simp [hover, htop, show k - 1 < w by omega, show w - 1 < w by omega]
  apply BitVec.eq_of_getLsbD_eq
  intro i hi
  rw [BitVec.getLsbD_sshiftRight, BitVec.getLsbD_signExtend, hmsb]
  by_cases hlow : i < k
  · have hbit : w - k + i - (w - k) = i := by omega
    rw [BitVec.getLsbD_shiftLeft]
    simp [hi, hlow, hbit, show w - k + i < w by omega,
      show ¬ w ≤ i by omega]
  · have hover : ¬ w - k + i < w := by omega
    simp [hi, hlow, hover]

theorem setWidth_signExtend (v : BitVec k) (hn : n ≤ w) :
    (v.signExtend w).setWidth n = v.signExtend n := by
  apply BitVec.eq_of_getLsbD_eq
  intro i hi
  have hin : i < w := by omega
  rw [BitVec.getLsbD_setWidth, BitVec.getLsbD_signExtend,
    BitVec.getLsbD_signExtend]
  simp [hi, hin]

theorem setWidth_setWidth_of_le (v : BitVec k) (hk : k ≤ w) :
    (v.setWidth w).setWidth n = v.setWidth n := by
  apply BitVec.eq_of_toNat_eq
  have hlt : v.toNat < 2 ^ w :=
    v.isLt.trans_le (Nat.pow_le_pow_right (by decide) hk)
  rw [BitVec.toNat_setWidth, BitVec.toNat_setWidth, BitVec.toNat_setWidth,
    Nat.mod_eq_of_lt hlt]

theorem setWidth_inj {a b : BitVec k} (hk : k ≤ w) :
    a.setWidth w = b.setWidth w ↔ a = b := by
  constructor
  · intro h
    have hback := congrArg (BitVec.setWidth k) h
    rwa [setWidth_setWidth_of_le _ hk, setWidth_setWidth_of_le _ hk,
      BitVec.setWidth_eq, BitVec.setWidth_eq] at hback
  · exact fun h => h ▸ rfl

theorem append_signExtend (a : BitVec n) (b : BitVec k) (hn : 0 < n) :
    (a ++ b).signExtend w = (a.signExtend w <<< k) ||| b.setWidth w := by
  apply BitVec.eq_of_getLsbD_eq
  intro i hi
  have hmsb : (a ++ b).msb = a.msb := by
    rw [BitVec.msb_append, if_neg hn.ne']
  rw [BitVec.getLsbD_or, BitVec.getLsbD_shiftLeft, BitVec.getLsbD_signExtend,
    BitVec.getLsbD_signExtend, BitVec.getLsbD_setWidth, BitVec.getLsbD_append,
    hmsb]
  by_cases hlow : i < k
  · have hinside : i < n + k := by omega
    simp [hlow, hi, hinside]
  · have hhigh : i - k < w := by omega
    have hfield : i < n + k ↔ i - k < n := by omega
    simp [hlow, hi, hhigh, hfield, BitVec.getLsbD_of_ge b i (by omega)]

theorem sshiftRight_eq (v : BitVec w) (hk : k < w) :
    v.sshiftRight k = (v.extractLsb' k (w - k)).signExtend w := by
  have hmsb : (v.extractLsb' k (w - k)).msb = v.msb := by
    have htop : k + (w - k - 1) = w - 1 := by omega
    simp [BitVec.msb_eq_getLsbD_last, htop, show w - k - 1 < w - k by omega]
  apply BitVec.eq_of_getLsbD_eq
  intro i hi
  rw [BitVec.getLsbD_sshiftRight, BitVec.getLsbD_signExtend,
    BitVec.getLsbD_extractLsb', hmsb]
  have hfield : k + i < w ↔ i < w - k := by omega
  by_cases hin : i < w - k
  · simp [hi, hin, hfield]
  · simp [hi, hin, hfield]

theorem ushiftRight_eq (v : BitVec w) (k : ℕ) :
    v >>> k = (v.extractLsb' k (w - k)).setWidth w := by
  apply BitVec.eq_of_getLsbD_eq
  intro i hi
  rw [BitVec.getLsbD_ushiftRight, BitVec.getLsbD_setWidth,
    BitVec.getLsbD_extractLsb']
  by_cases hin : i < w - k
  · simp [hi, hin]
  · simp [hi, hin, BitVec.getLsbD_of_ge v (k + i) (by omega)]

/-- A value that its low bits hold comes back from them. -/
theorem signExtend_setWidth {v : BitVec w} (hk : k < w)
    (hlow : -2 ^ k ≤ v.toInt) (hhigh : v.toInt < 2 ^ k) :
    (v.setWidth (k + 1)).signExtend w = v := by
  apply BitVec.eq_of_toInt_eq
  rw [BitVec.toInt_signExtend_of_le hk,
    ← BitVec.signExtend_eq_setWidth_of_le v hk,
    BitVec.toInt_signExtend_eq_toInt_bmod_of_le v hk]
  have hhalf : ((2 ^ (k + 1) : ℕ) : ℤ) = 2 * 2 ^ k := by
    push_cast
    ring
  apply Int.bmod_eq_of_le <;> omega

theorem shift_and_field (v : BitVec w) (lo : ℕ) (hk : k ≤ w) :
    (v >>> lo) &&& BitVec.ofNat w (2 ^ k - 1) =
      (v.extractLsb' lo k).setWidth w := by
  rw [and_ones _ hk]
  congr 1
  apply BitVec.eq_of_toNat_eq
  rw [BitVec.toNat_setWidth, BitVec.toNat_ushiftRight, BitVec.extractLsb'_toNat]

theorem extractLsb'_extractLsb (v : BitVec w) {hi lo start len : ℕ}
    (h : start + len ≤ hi - lo + 1) :
    (v.extractLsb hi lo).extractLsb' start len =
      v.extractLsb' (lo + start) len := by
  apply BitVec.eq_of_getLsbD_eq
  intro i hi'
  have hin : start + i < hi - lo + 1 := by omega
  rw [BitVec.getLsbD_extractLsb', BitVec.getLsbD_extractLsb',
    BitVec.getLsbD_extractLsb]
  simp [hi', Nat.le_of_lt_succ hin, Nat.add_assoc]

theorem extract_append (v : BitVec w) (lo m k : ℕ) :
    v.extractLsb' (lo + k) m ++ v.extractLsb' lo k =
      v.extractLsb' lo (m + k) :=
  BitVec.extractLsb'_append_extractLsb'_eq_extractLsb' rfl

theorem append_zero {v : BitVec (k + 1)} (heven : v.getLsbD 0 = false) :
    v.extractLsb' 1 k ++ 0#1 = v := by
  have hlow : v.extractLsb' 0 1 = 0#1 := by
    apply BitVec.eq_of_getLsbD_eq
    intro i hi
    have hzero : i = 0 := by omega
    rw [hzero, BitVec.getLsbD_extractLsb', heven]
    rfl
  rw [← hlow]
  exact BitVec.extractLsb'_append_extractLsb'

end FieldWords
