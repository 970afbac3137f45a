import Nanoemu.FieldWords
import Nanoemu.IntegerEncodings

/-!
# What the integer units compute

One ALU and one multiplier serve both widths.  The operations are given below
on words of any width, and the units compute them at the width they are asked
for, whatever the upper halves of their operands hold.
-/

namespace Nanoemu

open CheckedProgram FieldWords

inductive AluOp where
  | add | sub | sll | slt | sltu | xor | srl | sra | or | and
deriving DecidableEq, Repr

namespace AluOp

def ofFields (f3 f7 : BitVec 32) : Option AluOp :=
  match f3.toNat, f7.toNat with
  | 0x0, 0x00 => some .add
  | 0x0, 0x20 => some .sub
  | 0x1, 0x00 => some .sll
  | 0x2, 0x00 => some .slt
  | 0x3, 0x00 => some .sltu
  | 0x4, 0x00 => some .xor
  | 0x5, 0x00 => some .srl
  | 0x5, 0x20 => some .sra
  | 0x6, 0x00 => some .or
  | 0x7, 0x00 => some .and
  | _, _ => none

/-- Shifts go by the second operand modulo the width. -/
def eval {w : ℕ} (op : AluOp) (a b : BitVec w) : BitVec w :=
  match op with
  | .add => a + b
  | .sub => a - b
  | .sll => a <<< (b.toNat % w)
  | .slt => if a.toInt < b.toInt then 1 else 0
  | .sltu => if a.toNat < b.toNat then 1 else 0
  | .xor => a ^^^ b
  | .srl => a >>> (b.toNat % w)
  | .sra => a.sshiftRight (b.toNat % w)
  | .or => a ||| b
  | .and => a &&& b

end AluOp

inductive MulOp where
  | mul | mulh | mulhsu | mulhu | div | divu | rem | remu
deriving DecidableEq, Repr

namespace MulOp

def ofFields (f3 : BitVec 32) : Option MulOp :=
  match f3.toNat with
  | 0x0 => some .mul
  | 0x1 => some .mulh
  | 0x2 => some .mulhsu
  | 0x3 => some .mulhu
  | 0x4 => some .div
  | 0x5 => some .divu
  | 0x6 => some .rem
  | 0x7 => some .remu
  | _ => none

/-- Products are exact before a half of them is taken, and quotients are
truncated.  A quotient by zero has all bits set and leaves the dividend, and
the one that overflows is the dividend and leaves nothing. -/
def eval {w : ℕ} (op : MulOp) (a b : BitVec w) : BitVec w :=
  match op with
  | .mul => BitVec.ofInt w (a.toInt * b.toInt)
  | .mulh => BitVec.ofInt w (a.toInt * b.toInt / 2 ^ w)
  | .mulhsu => BitVec.ofInt w (a.toInt * b.toNat / 2 ^ w)
  | .mulhu => BitVec.ofNat w (a.toNat * b.toNat / 2 ^ w)
  | .div =>
      if b = 0 then BitVec.allOnes w
      else if a = BitVec.intMin w ∧ b = BitVec.allOnes w then a
      else BitVec.ofInt w (a.toInt.tdiv b.toInt)
  | .divu =>
      if b = 0 then BitVec.allOnes w else BitVec.ofNat w (a.toNat / b.toNat)
  | .rem =>
      if b = 0 then a
      else if a = BitVec.intMin w ∧ b = BitVec.allOnes w then 0
      else BitVec.ofInt w (a.toInt.tmod b.toInt)
  | .remu => if b = 0 then a else BitVec.ofNat w (a.toNat % b.toNat)

end MulOp

section Words

variable {w : ℕ} (v : BitVec 64)

theorem sext_word (hpos : 0 < w) (hw : w ≤ 64) :
    sext v w = pure ((v.setWidth w).signExtend 64) := by
  unfold sext
  by_cases hfull : 64 ≤ w
  · obtain rfl : w = 64 := by omega
    rw [if_pos hfull, BitVec.setWidth_eq, BitVec.signExtend_eq]
  · have hshift : (64 - w : ℕ) < 64 := by omega
    have hraised : (v.setWidth w).setWidth 64 <<< (64 - w) = v <<< (64 - w) := by
      apply BitVec.eq_of_getLsbD_eq
      intro i hi
      rw [BitVec.getLsbD_shiftLeft, BitVec.getLsbD_shiftLeft]
      by_cases hlow : i < 64 - w
      · simp [hlow]
      · have hin : i - (64 - w) < w := by omega
        have hin' : i - (64 - w) < 64 := by omega
        simp [hlow, hin, hin']
    rw [if_neg hfull, Checked.usub_eq_pure hw, pure_bind,
      Checked.shl_eq_pure hshift, pure_bind, Checked.sshr_eq_pure hshift,
      ← hraised, sshiftRight_shiftLeft _ hpos hw]

theorem trunc_word (hw : w ≤ 64) : trunc v w = (v.setWidth w).setWidth 64 := by
  unfold trunc
  by_cases hfull : 64 ≤ w
  · obtain rfl : w = 64 := by omega
    rw [if_pos hfull, BitVec.setWidth_eq, BitVec.setWidth_eq]
  · have hone : (1#64 <<< w) - 1 = BitVec.ofNat 64 (2 ^ w - 1) := by
      have hlt : 2 ^ w < 2 ^ 64 := Nat.pow_lt_pow_right (by decide) (by omega)
      have hpos := Nat.two_pow_pos w
      have hshifted : (1#64 <<< w).toNat = 2 ^ w := by
        rw [BitVec.toNat_shiftLeft, Nat.shiftLeft_eq, BitVec.toNat_ofNat,
          Nat.one_mod_two_pow (by decide), one_mul, Nat.mod_eq_of_lt hlt]
      apply BitVec.eq_of_toNat_eq
      rw [toNat_ones (by omega), BitVec.toNat_sub, hshifted]
      simp
      omega
    rw [if_neg hfull, hone, and_ones _ hw]

end Words

section Narrowing

variable {n w : ℕ} (hw : w ≤ n)

include hw

theorem setWidth_ofInt (z : ℤ) :
    (BitVec.ofInt n z).setWidth w = BitVec.ofInt w z := by
  apply BitVec.eq_of_toNat_eq
  have hdvd : (2 ^ w : ℤ) ∣ 2 ^ n := pow_dvd_pow 2 hw
  have hpos : (0 : ℤ) < 2 ^ n := by positivity
  zify
  rw [BitVec.toNat_setWidth, BitVec.toNat_ofInt, BitVec.toNat_ofInt]
  push_cast
  rw [Int.toNat_of_nonneg (Int.emod_nonneg _ hpos.ne'),
    Int.toNat_of_nonneg (Int.emod_nonneg _ (by positivity)),
    Int.emod_emod_of_dvd _ hdvd]

theorem setWidth_eq_ofInt (x : BitVec n) :
    x.setWidth w = BitVec.ofInt w x.toInt := by
  rw [← setWidth_ofInt hw, BitVec.ofInt_toInt]

theorem ofInt_bmod (z : ℤ) :
    BitVec.ofInt w (z.bmod (2 ^ n)) = BitVec.ofInt w z := by
  rw [← setWidth_ofInt hw, ← setWidth_ofInt hw, ← BitVec.toInt_ofInt,
    BitVec.ofInt_toInt]

theorem setWidth_signExtend_self (x : BitVec w) :
    (x.signExtend n).setWidth w = x := by
  rw [setWidth_signExtend x hw, BitVec.signExtend_eq]

theorem signExtend_eq_zero_iff (x : BitVec w) : x.signExtend n = 0 ↔ x = 0 := by
  constructor
  · intro h
    rw [← setWidth_signExtend_self hw x, h]
    simp
  · rintro rfl
    apply BitVec.eq_of_toInt_eq
    rw [BitVec.toInt_signExtend_of_le hw]
    simp

theorem setWidth_eq_zero_iff (x : BitVec w) : x.setWidth n = 0 ↔ x = 0 := by
  rw [show (0 : BitVec n) = (0 : BitVec w).setWidth n by simp, setWidth_inj hw]

theorem setWidth_allOnes :
    (BitVec.allOnes n).setWidth w = BitVec.allOnes w := by
  apply BitVec.eq_of_getLsbD_eq
  intro i hi
  have hin : i < n := by omega
  simp [hi, hin]

end Narrowing

/-- The quotient that does not fit wraps to its dividend. -/
theorem ofInt_intMin_tdiv {w : ℕ} (hpos : 0 < w) :
    BitVec.ofInt w ((BitVec.intMin w).toInt.tdiv (BitVec.allOnes w).toInt) =
      BitVec.intMin w := by
  rw [BitVec.toInt_allOnes, if_pos hpos, Int.tdiv_neg, Int.tdiv_one,
    BitVec.ofInt_neg, BitVec.ofInt_toInt, BitVec.neg_intMin]

section Operations

variable {w : ℕ} (hw : w ≤ 64)

include hw

theorem setWidth_sub (a b : BitVec 64) :
    (a - b).setWidth w = a.setWidth w - b.setWidth w := by
  have hback : (a - b).setWidth w + b.setWidth w = a.setWidth w := by
    rw [← BitVec.setWidth_add _ _ hw, BitVec.sub_add_cancel]
  rw [← hback, BitVec.add_sub_cancel]

theorem shiftAmount {k : ℕ} (hk : w = 2 ^ k) (b : BitVec 64) :
    (b &&& BitVec.ofNat 64 (w - 1)).toNat = (b.setWidth w).toNat % w := by
  have hdvd : w ∣ 2 ^ w := by
    nth_rewrite 1 [hk]
    exact pow_dvd_pow 2 (hk ▸ Nat.lt_two_pow_self.le)
  have hlt : w - 1 < 2 ^ 64 := by omega
  rw [BitVec.toNat_and, BitVec.toNat_ofNat, Nat.mod_eq_of_lt hlt,
    BitVec.toNat_setWidth, Nat.mod_mod_of_dvd _ hdvd]
  subst hk
  exact Nat.and_two_pow_sub_one_eq_mod _ _

theorem setWidth_ushiftRight_word (x : BitVec w) (count : ℕ) :
    ((x.setWidth 64) >>> count).setWidth w = x >>> count := by
  apply BitVec.eq_of_toNat_eq
  have hlt : x.toNat >>> count < 2 ^ w :=
    lt_of_le_of_lt (Nat.shiftRight_le _ _) x.isLt
  rw [BitVec.toNat_setWidth, BitVec.toNat_ushiftRight,
    BitVec.toNat_setWidth_of_le hw, BitVec.toNat_ushiftRight,
    Nat.mod_eq_of_lt hlt]

theorem setWidth_sshiftRight_word (x : BitVec w) (count : ℕ) :
    ((x.signExtend 64).sshiftRight count).setWidth w = x.sshiftRight count := by
  rw [setWidth_eq_ofInt hw, BitVec.toInt_sshiftRight,
    BitVec.toInt_signExtend_of_le hw, ← BitVec.toInt_sshiftRight,
    BitVec.ofInt_toInt]

theorem setWidth_boolWord (condition : Bool) :
    (boolWord condition).setWidth w =
      if condition then (1 : BitVec w) else 0 := by
  cases condition
  · simp [boolWord]
  · simp only [boolWord, if_true]
    exact BitVec.setWidth_ofNat_of_le hw 1

theorem setWidth_sdiv_word (hpos : 0 < w) (x y : BitVec w) :
    ((x.signExtend 64).sdiv (y.signExtend 64)).setWidth w =
      if x = BitVec.intMin w ∧ y = BitVec.allOnes w then x
      else BitVec.ofInt w (x.toInt.tdiv y.toInt) := by
  rw [setWidth_eq_ofInt hw, BitVec.toInt_sdiv, ofInt_bmod hw,
    BitVec.toInt_signExtend_of_le hw, BitVec.toInt_signExtend_of_le hw]
  split
  · next hover =>
      rw [hover.1, hover.2, ofInt_intMin_tdiv hpos]
  · rfl

theorem setWidth_srem_word (hpos : 0 < w) (x y : BitVec w) :
    ((x.signExtend 64).srem (y.signExtend 64)).setWidth w =
      if x = BitVec.intMin w ∧ y = BitVec.allOnes w then 0
      else BitVec.ofInt w (x.toInt.tmod y.toInt) := by
  rw [setWidth_eq_ofInt hw, BitVec.toInt_srem,
    BitVec.toInt_signExtend_of_le hw, BitVec.toInt_signExtend_of_le hw]
  split
  · next hover =>
      rw [hover.2, BitVec.toInt_allOnes, if_pos hpos, Int.tmod_neg,
        Int.tmod_one]
      simp
  · rfl

theorem setWidth_udiv_word (x y : BitVec w) :
    (x.setWidth 64 / y.setWidth 64).setWidth w =
      BitVec.ofNat w (x.toNat / y.toNat) := by
  apply BitVec.eq_of_toNat_eq
  rw [BitVec.toNat_setWidth, BitVec.toNat_udiv, BitVec.toNat_ofNat,
    BitVec.toNat_setWidth_of_le hw, BitVec.toNat_setWidth_of_le hw]

theorem setWidth_umod_word (x y : BitVec w) :
    (x.setWidth 64 % y.setWidth 64).setWidth w =
      BitVec.ofNat w (x.toNat % y.toNat) := by
  apply BitVec.eq_of_toNat_eq
  rw [BitVec.toNat_setWidth, BitVec.toNat_umod, BitVec.toNat_ofNat,
    BitVec.toNat_setWidth_of_le hw, BitVec.toNat_setWidth_of_le hw]

end Operations

namespace Cpu

/-! ## The units -/

section Units

variable {w : ℕ} (hpos : 0 < w) (hw : w ≤ 64) (profile : Profile)

include hpos hw

theorem alu_eval {k : ℕ} (hk : w = 2 ^ k) (f3 f7 : BitVec 32)
    (a b : BitVec 64) :
    alu f3 f7 a b w profile = some ((AluOp.ofFields f3 f7).map fun op =>
      (op.eval (a.setWidth w) (b.setWidth w)).signExtend 64) := by
  have hcount : (b.setWidth w).toNat % w < 64 :=
    (Nat.mod_lt _ hpos).trans_le hw
  unfold alu AluOp.ofFields
  simp only [sext_word _ hpos hw, trunc_word _ hw, shiftAmount hw hk,
    Checked.shl_eq_pure hcount, Checked.shr_eq_pure hcount,
    Checked.sshr_eq_pure hcount, map_pure, pure_bind]
  generalize f3.toNat = m
  generalize f7.toNat = n
  split
  · simp [Checked.pure_run, AluOp.eval, BitVec.setWidth_add _ _ hw]
  · simp [Checked.pure_run, AluOp.eval, setWidth_sub hw]
  · simp [Checked.pure_run, AluOp.eval, BitVec.setWidth_shiftLeft_of_le hw]
  · simp [Checked.pure_run, AluOp.eval, setWidth_boolWord hw,
      BitVec.slt_eq_decide, BitVec.toInt_signExtend_of_le hw]
  · simp [Checked.pure_run, AluOp.eval, setWidth_boolWord hw,
      BitVec.lt_def, BitVec.toNat_setWidth_of_le hw]
  · simp [Checked.pure_run, AluOp.eval]
  · simp [Checked.pure_run, AluOp.eval, setWidth_ushiftRight_word hw]
  · simp [Checked.pure_run, AluOp.eval, setWidth_sshiftRight_word hw]
  · simp [Checked.pure_run, AluOp.eval]
  · simp [Checked.pure_run, AluOp.eval]
  · simp [Checked.pure_run, *]

end Units

section Products

variable {w : ℕ} (x y : BitVec w)

theorem abs_toInt_le : |x.toInt| ≤ 2 ^ (w - 1) :=
  abs_le.mpr ⟨BitVec.le_toInt x, BitVec.toInt_lt.le⟩

theorem abs_toInt_lt (hpos : 0 < w) : |x.toInt| < 2 ^ w :=
  (abs_toInt_le x).trans_lt (pow_lt_pow_right₀ one_lt_two (by omega))

theorem abs_toNat_lt : |(x.toNat : ℤ)| < 2 ^ w := by
  rw [Nat.abs_cast]
  exact_mod_cast x.isLt

variable {wide : ℕ} (hwide : wide = 2 * w)

include hwide

theorem mulHigh_signed (hpos : 0 < w) :
    mulHigh wide x.toInt y.toInt w =
      pure (BitVec.ofInt 64 (x.toInt * y.toInt / 2 ^ w)) := by
  have hfits := product_lt (abs_toInt_le x) (abs_toInt_lt y hpos)
  rw [show w - 1 + w = wide - 1 by omega] at hfits
  obtain ⟨hlow, hhigh⟩ := abs_lt.mp hfits
  unfold mulHigh
  rw [Checked.imul_eq_pure hlow.le hhigh, pure_bind]

theorem mulHigh_mixed (hpos : 0 < w) :
    mulHigh wide x.toInt y.toNat w =
      pure (BitVec.ofInt 64 (x.toInt * y.toNat / 2 ^ w)) := by
  have hfits := product_lt (abs_toInt_le x) (abs_toNat_lt y)
  rw [show w - 1 + w = wide - 1 by omega] at hfits
  obtain ⟨hlow, hhigh⟩ := abs_lt.mp hfits
  unfold mulHigh
  rw [Checked.imul_eq_pure hlow.le hhigh, pure_bind]

theorem mulHighU_unsigned :
    mulHighU wide x.toNat y.toNat w =
      pure (BitVec.ofNat 64 (x.toNat * y.toNat / 2 ^ w)) := by
  have hfits : x.toNat * y.toNat < 2 ^ wide := by
    rw [hwide, two_mul, pow_add]
    exact Nat.mul_lt_mul'' x.isLt y.isLt
  unfold mulHighU
  rw [Checked.umul_eq_pure hfits, pure_bind]

end Products

theorem muldiv_eval {w : ℕ} (hwidth : w = 32 ∨ w = 64) (profile : Profile)
    (f3 : BitVec 32) (a b : BitVec 64) :
    muldiv f3 a b w profile = some ((MulOp.ofFields f3).map fun op =>
      (op.eval (a.setWidth w) (b.setWidth w)).signExtend 64) := by
  have hpos : 0 < w := by omega
  have hw : w ≤ 64 := by omega
  unfold muldiv MulOp.ofFields
  have hmul : (a * b).setWidth w =
      MulOp.mul.eval (a.setWidth w) (b.setWidth w) := by
    rw [BitVec.setWidth_mul _ _ hw, MulOp.eval, BitVec.ofInt_mul,
      BitVec.ofInt_toInt, BitVec.ofInt_toInt]
  simp only [sext_word _ hpos hw, trunc_word _ hw, map_pure, pure_bind,
    BitVec.toInt_signExtend_of_le hw, BitVec.toNat_setWidth_of_le hw, hmul]
  generalize a.setWidth w = x
  generalize b.setWidth w = y
  generalize f3.toNat = m
  split
  · rfl
  · rcases hwidth with rfl | rfl
    · simp [mulHigh_signed x y, Checked.pure_run, MulOp.eval, setWidth_ofInt]
    · simp [mulHigh_signed x y, Checked.pure_run, MulOp.eval]
  · rcases hwidth with rfl | rfl
    · have hnonneg : (y.setWidth 64).toInt = y.toNat := by
        rw [BitVec.toInt_eq_toNat_of_lt] <;>
          rw [BitVec.toNat_setWidth_of_le hw]
        have hlt := y.isLt
        omega
      simp [hnonneg, mulHigh_mixed x y, Checked.pure_run, MulOp.eval,
        setWidth_ofInt]
    · simp [mulHigh_mixed x y, Checked.pure_run, MulOp.eval]
  · rcases hwidth with rfl | rfl
    · simp [mulHighU_unsigned x y, Checked.pure_run, MulOp.eval]
    · simp [mulHighU_unsigned x y, Checked.pure_run, MulOp.eval]
  · have hdiv : (if y.signExtend 64 = 0 then BitVec.allOnes 64
        else (x.signExtend 64).sdiv (y.signExtend 64)).setWidth w =
          MulOp.div.eval x y := by
      simp only [signExtend_eq_zero_iff hw, apply_ite (BitVec.setWidth w),
        setWidth_sdiv_word hw hpos, setWidth_allOnes hw, MulOp.eval]
    rw [hdiv]
    rfl
  · have hdivu : (if y.setWidth 64 = 0 then BitVec.allOnes 64
        else x.setWidth 64 / y.setWidth 64).setWidth w =
          MulOp.divu.eval x y := by
      simp only [setWidth_eq_zero_iff hw, apply_ite (BitVec.setWidth w),
        setWidth_udiv_word hw, setWidth_allOnes hw, MulOp.eval]
    rw [hdivu]
    rfl
  · have hrem : (if y.signExtend 64 = 0 then x.signExtend 64
        else (x.signExtend 64).srem (y.signExtend 64)).setWidth w =
          MulOp.rem.eval x y := by
      simp only [signExtend_eq_zero_iff hw, apply_ite (BitVec.setWidth w),
        setWidth_srem_word hw hpos, setWidth_signExtend_self hw, MulOp.eval]
    rw [hrem]
    rfl
  · have hremu : (if y.setWidth 64 = 0 then x.setWidth 64
        else x.setWidth 64 % y.setWidth 64).setWidth w =
          MulOp.remu.eval x y := by
      simp only [setWidth_eq_zero_iff hw, apply_ite (BitVec.setWidth w),
        setWidth_umod_word hw, setWidth_setWidth_of_le x hw,
        BitVec.setWidth_eq, MulOp.eval]
    rw [hremu]
    rfl
  · simp [Checked.pure_run, *]

/-! ## Word instructions -/

/-- The instruction of the other opcode: bit 3 tells OP-32 from OP and
OP-IMM-32 from OP-IMM. -/
def baseForm (inst : BitVec 32) : BitVec 32 := inst &&& ~~~8

/-- The RV32 hart whose registers are the low words of this one's. -/
def lowWords (c : Cpu) : Cpu :=
  { c with
    xlen := .rv32
    regs := fun r => ((c.regs r).setWidth 32).setWidth 64 }

/-- An instruction whose unit has answered: the answer is written in the form
of the hart's registers, and without one the instruction is illegal. -/
def answered (inst : BitVec 32) (r : Option (BitVec 64)) (c : Cpu) :
    Except Exception Unit × Cpu :=
  match r with
  | none => (.error (.illegalInstruction inst), c)
  | some v => (.ok (), c.setReg (rd inst) v)

section BaseForm

variable (inst : BitVec 32) {k : ℕ} (hk : 4 ≤ k)

theorem getLsbD_eight {i : ℕ} (hi : 4 ≤ i) :
    (8 : BitVec 32).getLsbD i = false := by
  rw [show (8 : BitVec 32) = BitVec.twoPow 32 3 by rfl, BitVec.getLsbD_twoPow]
  simp
  omega

theorem baseForm_getLsbD {i : ℕ} (hi : 4 ≤ i) :
    (baseForm inst).getLsbD i = inst.getLsbD i := by
  unfold baseForm
  rw [BitVec.getLsbD_and, BitVec.getLsbD_not, getLsbD_eight hi]
  by_cases hin : i < 32
  · simp [hin]
  · simp [BitVec.getLsbD_of_ge inst i (by omega)]

include hk

theorem baseForm_ushiftRight : baseForm inst >>> k = inst >>> k := by
  apply BitVec.eq_of_getLsbD_eq
  intro i hi
  rw [BitVec.getLsbD_ushiftRight, BitVec.getLsbD_ushiftRight,
    baseForm_getLsbD inst (by omega)]

theorem baseForm_sshiftRight :
    (baseForm inst).sshiftRight k = inst.sshiftRight k := by
  have hmsb : (baseForm inst).msb = inst.msb := by
    rw [BitVec.msb_eq_getLsbD_last, BitVec.msb_eq_getLsbD_last,
      baseForm_getLsbD inst (by decide)]
  apply BitVec.eq_of_getLsbD_eq
  intro i hi
  rw [BitVec.getLsbD_sshiftRight, BitVec.getLsbD_sshiftRight, hmsb,
    baseForm_getLsbD inst (by omega)]

end BaseForm

@[simp] theorem rd_baseForm (inst : BitVec 32) :
    rd (baseForm inst) = rd inst := by
  rw [rd, baseForm_ushiftRight inst (by decide), rd]

@[simp] theorem rs1_baseForm (inst : BitVec 32) :
    rs1 (baseForm inst) = rs1 inst := by
  rw [rs1, baseForm_ushiftRight inst (by decide), rs1]

@[simp] theorem rs2_baseForm (inst : BitVec 32) :
    rs2 (baseForm inst) = rs2 inst := by
  rw [rs2, baseForm_ushiftRight inst (by decide), rs2]

@[simp] theorem funct3_baseForm (inst : BitVec 32) :
    funct3 (baseForm inst) = funct3 inst := by
  rw [funct3, baseForm_ushiftRight inst (by decide), funct3]

@[simp] theorem funct7_baseForm (inst : BitVec 32) :
    funct7 (baseForm inst) = funct7 inst := by
  rw [funct7, baseForm_ushiftRight inst (by decide), funct7]

@[simp] theorem immI_baseForm (inst : BitVec 32) :
    immI (baseForm inst) = immI inst := by
  rw [immI, baseForm_sshiftRight inst (by decide), immI]

theorem opcode_baseForm (inst : BitVec 32) :
    opcode (baseForm inst) = opcode inst &&& ~~~8 := by
  unfold opcode baseForm
  rw [BitVec.and_assoc, BitVec.and_assoc, BitVec.and_comm (~~~8)]

@[simp] theorem lowWords_rr (c : Cpu) (r : Fin 32) :
    ((lowWords c).rr r).setWidth 32 = (c.rr r).setWidth 32 := by
  unfold rr lowWords
  split
  · rfl
  · exact setWidth_setWidth_of_le _ (by decide)

theorem setReg_signExtend {c : Cpu} (hxlen : c.xlen = .rv32) (r : Fin 32)
    (v : BitVec 32) :
    c.setReg r (v.signExtend 64) = c.setReg r (v.setWidth 64) := by
  have hbits : c.xbits = 32 := by simp [xbits, hxlen, Xlen.bits]
  unfold setReg
  rw [hbits, trunc_word _ (by decide), trunc_word _ (by decide),
    setWidth_signExtend_self (by decide),
    setWidth_setWidth_of_le v (by decide), BitVec.setWidth_eq]

theorem answered_run {unit : Checked (Option (BitVec 64))}
    {r : Option (BitVec 64)} {profile : Profile}
    (hunit : unit profile = some r) (inst : BitVec 32) (c : Cpu) :
    (Program.check unit >>= fun v => writeUnit inst v) profile c =
      some (answered inst r c) := by
  rw [Program.bind_run_ok (Program.check_run_some hunit c)]
  cases r <;> rfl

def wordOp (inst : BitVec 32) (a b : BitVec 32) : Option (BitVec 32) :=
  if funct7 inst = 0x01 then
    (MulOp.ofFields (funct3 inst)).map fun op => op.eval a b
  else (AluOp.ofFields (funct3 inst) (funct7 inst)).map fun op => op.eval a b

def wordOpImm (inst : BitVec 32) (a : BitVec 32) : Option (BitVec 32) :=
  if funct3 inst = 0x1 ∨ funct3 inst = 0x5 then
    if funct7 inst &&& 1 ≠ 0 then none
    else
      (AluOp.ofFields (funct3 inst) (funct7 inst &&& ~~~1)).map fun op =>
        op.eval a ((inst >>> 20) &&& 0x3f)
  else
    (AluOp.ofFields (funct3 inst) 0).map fun op => op.eval a (immI inst)

section Instructions

variable {inst : BitVec 32} {c : Cpu} (profile : Profile)

theorem executeOp_word (hgate : ¬ (opcode inst = 0x3b ∧ c.xbits = 32))
    (hword : (if opcode inst = 0x3b then 32 else c.xbits) = 32) :
    executeOp inst profile c = some (answered inst
      ((wordOp inst ((c.rr (rs1 inst)).setWidth 32)
        ((c.rr (rs2 inst)).setWidth 32)).map (BitVec.signExtend 64)) c) := by
  unfold executeOp wordOp
  rw [Program.bind_run_ok (Program.read_run id profile c)]
  simp only [id_eq, hword, if_neg hgate]
  apply answered_run
  by_cases hmul : funct7 inst = 0x01
  · rw [if_pos hmul, if_pos hmul, muldiv_eval (Or.inl rfl), Option.map_map]
    rfl
  · rw [if_neg hmul, if_neg hmul, @alu_eval 32 (by decide) (by decide) _ 5 rfl,
      Option.map_map]
    rfl

theorem executeOpImm_word (hgate : ¬ (opcode inst = 0x1b ∧ c.xbits = 32))
    (hword : (if opcode inst = 0x1b then 32 else c.xbits) = 32) :
    executeOpImm inst profile c = some (answered inst
      ((wordOpImm inst ((c.rr (rs1 inst)).setWidth 32)).map
        (BitVec.signExtend 64)) c) := by
  have hshamt : (((inst >>> 20) &&& 0x3f).setWidth 64).setWidth 32 =
      (inst >>> 20) &&& 0x3f :=
    (setWidth_setWidth_of_le _ (by decide)).trans (BitVec.setWidth_eq _)
  have himm : (widen (immI inst)).setWidth 32 = immI inst :=
    setWidth_signExtend_self (by decide) _
  unfold executeOpImm wordOpImm
  rw [Program.bind_run_ok (Program.read_run id profile c)]
  simp only [id_eq, hword, if_neg hgate]
  by_cases hshift : funct3 inst = 0x1 ∨ funct3 inst = 0x5
  · by_cases hbit : funct7 inst &&& 1 ≠ 0
    · rw [if_pos ⟨hshift, trivial, hbit⟩, if_pos hshift, if_pos hbit]
      rfl
    · rw [if_neg (fun h => hbit h.2.2), if_pos hshift, if_neg hbit]
      simp only [if_pos hshift]
      apply answered_run
      rw [@alu_eval 32 (by decide) (by decide) _ 5 rfl, hshamt, Option.map_map]
      rfl
  · rw [if_neg (fun h => hshift h.1), if_neg hshift]
    simp only [if_neg hshift]
    apply answered_run
    rw [@alu_eval 32 (by decide) (by decide) _ 5 rfl, himm, Option.map_map]
    rfl

theorem wordOp_baseForm (a b : BitVec 32) :
    wordOp (baseForm inst) a b = wordOp inst a b := by
  simp [wordOp]

theorem wordOpImm_baseForm (a : BitVec 32) :
    wordOpImm (baseForm inst) a = wordOpImm inst a := by
  simp [wordOpImm, baseForm_ushiftRight inst]

/-- A word instruction answers what the other opcode answers at RV32. -/
theorem word_baseForm (hword : opcode inst = 0x1b ∨ opcode inst = 0x3b)
    (hxlen : c.xlen = .rv64) (instPc nextPc : BitVec 64) :
    ∃ r : Option (BitVec 32),
      execute inst instPc nextPc profile c =
        some (answered inst (r.map (BitVec.signExtend 64))
          { c with pc := nextPc }) ∧
      execute (baseForm inst) instPc nextPc profile (lowWords c) =
        some (answered (baseForm inst) (r.map (BitVec.setWidth 64))
          { lowWords c with pc := nextPc }) := by
  have hbits : ({ c with pc := nextPc } : Cpu).xbits = 64 := by
    simp [xbits, hxlen, Xlen.bits]
  have hlow : ({ lowWords c with pc := nextPc } : Cpu).xlen = .rv32 := rfl
  have hlowBits : ({ lowWords c with pc := nextPc } : Cpu).xbits = 32 := rfl
  have hanswered : ∀ r : Option (BitVec 32),
      answered (baseForm inst) (r.map (BitVec.signExtend 64))
          { lowWords c with pc := nextPc } =
        answered (baseForm inst) (r.map (BitVec.setWidth 64))
          { lowWords c with pc := nextPc } := by
    intro r
    cases r with
    | none => rfl
    | some v => simp [answered, setReg_signExtend hlow]
  have hrr : ∀ r : Fin 32,
      (({ lowWords c with pc := nextPc } : Cpu).rr r).setWidth 32 =
        (({ c with pc := nextPc } : Cpu).rr r).setWidth 32 :=
    lowWords_rr c
  have hbase := opcode_baseForm inst
  rcases hword with hop | hop
  · rw [hop] at hbase
    refine ⟨wordOpImm inst ((c.rr (rs1 inst)).setWidth 32), ?_, ?_⟩
    · unfold execute
      rw [hop]
      exact executeOpImm_word profile (by simp [hbits]) (by simp [hop])
    · have hrun := @executeOpImm_word (baseForm inst)
        { lowWords c with pc := nextPc } profile (by simp [hbase])
        (by simp [hbase, hlowBits])
      rw [wordOpImm_baseForm, rs1_baseForm, hrr, hanswered] at hrun
      unfold execute
      rw [hbase]
      exact hrun
  · rw [hop] at hbase
    refine ⟨wordOp inst ((c.rr (rs1 inst)).setWidth 32)
      ((c.rr (rs2 inst)).setWidth 32), ?_, ?_⟩
    · unfold execute
      rw [hop]
      exact executeOp_word profile (by simp [hbits]) (by simp [hop])
    · have hrun := @executeOp_word (baseForm inst)
        { lowWords c with pc := nextPc } profile (by simp [hbase])
        (by simp [hbase, hlowBits])
      rw [wordOp_baseForm, rs1_baseForm, rs2_baseForm, hrr, hrr,
        hanswered] at hrun
      unfold execute
      rw [hbase]
      exact hrun

end Instructions

theorem xlen_bits_cases (xlen : Xlen) : xlen.bits = 32 ∨ xlen.bits = 64 := by
  cases xlen with
  | rv32 => exact Or.inl rfl
  | rv64 => exact Or.inr rfl

/-- Both units compute the operation of the width under either build, so no
step of theirs overflows, and a word instruction is the RV32 instruction on the
low words with its result sign-extended. -/
theorem integer_units_exact :
    (∀ (xlen : Xlen) (profile : Profile) (f3 f7 : BitVec 32)
        (a b : BitVec 64),
      alu f3 f7 a b xlen.bits profile =
          some ((AluOp.ofFields f3 f7).map fun op =>
            (op.eval (a.setWidth xlen.bits)
              (b.setWidth xlen.bits)).signExtend 64) ∧
        muldiv f3 a b xlen.bits profile =
          some ((MulOp.ofFields f3).map fun op =>
            (op.eval (a.setWidth xlen.bits)
              (b.setWidth xlen.bits)).signExtend 64)) ∧
    (∀ (f3 f7 : BitVec 32) (a b a' b' : BitVec 64),
      a.setWidth 32 = a'.setWidth 32 → b.setWidth 32 = b'.setWidth 32 →
        alu f3 f7 a b 32 = alu f3 f7 a' b' 32 ∧
          muldiv f3 a b 32 = muldiv f3 a' b' 32) ∧
    (∀ (profile : Profile) (inst : BitVec 32) (c : Cpu)
        (instPc nextPc : BitVec 64),
      opcode inst = 0x1b ∨ opcode inst = 0x3b → c.xlen = .rv64 →
        ∃ r : Option (BitVec 32),
          execute inst instPc nextPc profile c =
            some (answered inst (r.map (BitVec.signExtend 64))
              { c with pc := nextPc }) ∧
          execute (baseForm inst) instPc nextPc profile (lowWords c) =
            some (answered (baseForm inst) (r.map (BitVec.setWidth 64))
              { lowWords c with pc := nextPc })) := by
  refine ⟨?_, ?_, ?_⟩
  · intro xlen profile f3 f7 a b
    have hbits := xlen_bits_cases xlen
    refine ⟨?_, muldiv_eval hbits profile f3 a b⟩
    rcases hbits with h32 | h64
    · exact @alu_eval _ (by omega) (by omega) profile 5 h32 f3 f7 a b
    · exact @alu_eval _ (by omega) (by omega) profile 6 h64 f3 f7 a b
  · intro f3 f7 a b a' b' ha hb
    constructor
    · funext profile
      rw [@alu_eval 32 (by decide) (by decide) _ 5 rfl,
        @alu_eval 32 (by decide) (by decide) _ 5 rfl, ha, hb]
    · funext profile
      rw [muldiv_eval (Or.inl rfl), muldiv_eval (Or.inl rfl), ha, hb]
  · intro profile inst c instPc nextPc hword hxlen
    exact word_baseForm profile hword hxlen instPc nextPc

/-- An addition of words, beside the RV32 addition. -/
theorem integer_units_exact_addw :
    alu 0 0 0xffffffff80000000 1 32 .debug =
        alu 0 0 0x80000000 1 32 .debug ∧
      ∃ r : Option (BitVec 32),
        execute 0x00b5053b DRAM_BASE (DRAM_BASE + 4) .debug
            (programmedHart .rv64 [0x00b5053b]) =
          some (answered 0x00b5053b (r.map (BitVec.signExtend 64))
            { programmedHart .rv64 [0x00b5053b] with pc := DRAM_BASE + 4 }) ∧
        execute (baseForm 0x00b5053b) DRAM_BASE (DRAM_BASE + 4) .debug
            (lowWords (programmedHart .rv64 [0x00b5053b])) =
          some (answered (baseForm 0x00b5053b) (r.map (BitVec.setWidth 64))
            { lowWords (programmedHart .rv64 [0x00b5053b]) with
              pc := DRAM_BASE + 4 }) :=
  ⟨congrFun (integer_units_exact.2.1 0 0 0xffffffff80000000 1 0x80000000 1
      (by decide) rfl).1 .debug,
    integer_units_exact.2.2 .debug 0x00b5053b
      (programmedHart .rv64 [0x00b5053b]) DRAM_BASE (DRAM_BASE + 4)
      (Or.inr (by decide)) rfl⟩

end Cpu

end Nanoemu
