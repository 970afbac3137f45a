import Nanoemu.Compress
import Nanoemu.FieldWords

/-!
# What the compressed instructions stand for

The table of the C extension, by quadrant and `funct3`: every 16-bit encoding
is reserved, or it is assigned a base instruction, some of them as a hint.  The
immediates are written as the specification gives them, field by field from
the top.  The decoder expands every encoding to the instruction the table has,
except two kinds of hints.
-/

namespace Nanoemu

namespace Rvc

/-- A base instruction, by its format. -/
inductive Base where
  | r (opcode : BitVec 7) (funct3 : BitVec 3) (funct7 : BitVec 7)
      (rd rs1 rs2 : BitVec 5)
  | i (opcode : BitVec 7) (funct3 : BitVec 3) (rd rs1 : BitVec 5)
      (imm : BitVec 12)
  | s (opcode : BitVec 7) (funct3 : BitVec 3) (rs1 rs2 : BitVec 5)
      (imm : BitVec 12)
  | b (funct3 : BitVec 3) (rs1 rs2 : BitVec 5) (offset : BitVec 13)
  | u (opcode : BitVec 7) (rd : BitVec 5) (imm : BitVec 20)
  | j (rd : BitVec 5) (offset : BitVec 21)
deriving DecidableEq, Repr

namespace Base

def encode : Base → BitVec 32
  | .r opcode funct3 funct7 rd rs1 rs2 =>
      funct7 ++ rs2 ++ rs1 ++ funct3 ++ rd ++ opcode
  | .i opcode funct3 rd rs1 imm => imm ++ rs1 ++ funct3 ++ rd ++ opcode
  | .s opcode funct3 rs1 rs2 imm =>
      imm.extractLsb 11 5 ++ rs2 ++ rs1 ++ funct3 ++ imm.extractLsb 4 0 ++
        opcode
  | .b funct3 rs1 rs2 offset =>
      offset.extractLsb 12 12 ++ offset.extractLsb 10 5 ++ rs2 ++ rs1 ++
        funct3 ++ offset.extractLsb 4 1 ++ offset.extractLsb 11 11 ++ 0x63#7
  | .u opcode rd imm => imm ++ rd ++ opcode
  | .j rd offset =>
      offset.extractLsb 20 20 ++ offset.extractLsb 10 1 ++
        offset.extractLsb 11 11 ++ offset.extractLsb 19 12 ++ rd ++ 0x6f#7

def addi (rd rs1 : BitVec 5) (imm : BitVec 12) : Base := .i 0x13 0 rd rs1 imm
def andi (rd rs1 : BitVec 5) (imm : BitVec 12) : Base := .i 0x13 7 rd rs1 imm
def addiw (rd rs1 : BitVec 5) (imm : BitVec 12) : Base := .i 0x1b 0 rd rs1 imm

def slli (rd rs1 : BitVec 5) (shamt : BitVec 6) : Base :=
  .i 0x13 1 rd rs1 (0b000000#6 ++ shamt)

def srli (rd rs1 : BitVec 5) (shamt : BitVec 6) : Base :=
  .i 0x13 5 rd rs1 (0b000000#6 ++ shamt)

def srai (rd rs1 : BitVec 5) (shamt : BitVec 6) : Base :=
  .i 0x13 5 rd rs1 (0b010000#6 ++ shamt)

def add (rd rs1 rs2 : BitVec 5) : Base := .r 0x33 0 0x00 rd rs1 rs2
def sub (rd rs1 rs2 : BitVec 5) : Base := .r 0x33 0 0x20 rd rs1 rs2
def xor (rd rs1 rs2 : BitVec 5) : Base := .r 0x33 4 0x00 rd rs1 rs2
def or (rd rs1 rs2 : BitVec 5) : Base := .r 0x33 6 0x00 rd rs1 rs2
def and (rd rs1 rs2 : BitVec 5) : Base := .r 0x33 7 0x00 rd rs1 rs2
def addw (rd rs1 rs2 : BitVec 5) : Base := .r 0x3b 0 0x00 rd rs1 rs2
def subw (rd rs1 rs2 : BitVec 5) : Base := .r 0x3b 0 0x20 rd rs1 rs2

def lui (rd : BitVec 5) (imm : BitVec 20) : Base := .u 0x37 rd imm
def jal (rd : BitVec 5) (offset : BitVec 21) : Base := .j rd offset
def jalr (rd rs1 : BitVec 5) (imm : BitVec 12) : Base := .i 0x67 0 rd rs1 imm
def beq (rs1 rs2 : BitVec 5) (offset : BitVec 13) : Base := .b 0 rs1 rs2 offset
def bne (rs1 rs2 : BitVec 5) (offset : BitVec 13) : Base := .b 1 rs1 rs2 offset
def ebreak : Base := .i 0x73 0 0 0 1

def lw (rd rs1 : BitVec 5) (imm : BitVec 12) : Base := .i 0x03 2 rd rs1 imm
def ld (rd rs1 : BitVec 5) (imm : BitVec 12) : Base := .i 0x03 3 rd rs1 imm
def flw (rd rs1 : BitVec 5) (imm : BitVec 12) : Base := .i 0x07 2 rd rs1 imm
def fld (rd rs1 : BitVec 5) (imm : BitVec 12) : Base := .i 0x07 3 rd rs1 imm
def sw (rs2 rs1 : BitVec 5) (imm : BitVec 12) : Base := .s 0x23 2 rs1 rs2 imm
def sd (rs2 rs1 : BitVec 5) (imm : BitVec 12) : Base := .s 0x23 3 rs1 rs2 imm
def fsw (rs2 rs1 : BitVec 5) (imm : BitVec 12) : Base := .s 0x27 2 rs1 rs2 imm
def fsd (rs2 rs1 : BitVec 5) (imm : BitVec 12) : Base := .s 0x27 3 rs1 rs2 imm

end Base

section Fields

variable (h : BitVec 16)

def op : BitVec 2 := h.extractLsb 1 0
def funct3 : BitVec 3 := h.extractLsb 15 13
def rd : BitVec 5 := h.extractLsb 11 7
def rs2 : BitVec 5 := h.extractLsb 6 2

/-- The three-bit fields name x8 to x15. -/
def rs1Prime : BitVec 5 := 0b01#2 ++ h.extractLsb 9 7
def rs2Prime : BitVec 5 := 0b01#2 ++ h.extractLsb 4 2

/-- CI: imm[5|4:0]. -/
def ciImm : BitVec 6 := h.extractLsb 12 12 ++ h.extractLsb 6 2

/-- CIW: uimm[9:6|5:4|3|2]. -/
def addi4spnImm : BitVec 10 :=
  h.extractLsb 10 7 ++ h.extractLsb 12 11 ++ h.extractLsb 5 5 ++
    h.extractLsb 6 6 ++ 0#2

/-- CI, scaled by 16: imm[9|8:7|6|5|4]. -/
def addi16spImm : BitVec 10 :=
  h.extractLsb 12 12 ++ h.extractLsb 4 3 ++ h.extractLsb 5 5 ++
    h.extractLsb 2 2 ++ h.extractLsb 6 6 ++ 0#4

/-- CL and CS, scaled by 4: uimm[6|5:3|2]. -/
def wordImm : BitVec 7 :=
  h.extractLsb 5 5 ++ h.extractLsb 12 10 ++ h.extractLsb 6 6 ++ 0#2

/-- CL and CS, scaled by 8: uimm[7:6|5:3]. -/
def doubleImm : BitVec 8 :=
  h.extractLsb 6 5 ++ h.extractLsb 12 10 ++ 0#3

/-- CI, scaled by 4: uimm[7:6|5|4:2]. -/
def lwspImm : BitVec 8 :=
  h.extractLsb 3 2 ++ h.extractLsb 12 12 ++ h.extractLsb 6 4 ++ 0#2

/-- CI, scaled by 8: uimm[8:6|5|4:3]. -/
def ldspImm : BitVec 9 :=
  h.extractLsb 4 2 ++ h.extractLsb 12 12 ++ h.extractLsb 6 5 ++ 0#3

/-- CSS, scaled by 4: uimm[7:6|5:2]. -/
def swspImm : BitVec 8 := h.extractLsb 8 7 ++ h.extractLsb 12 9 ++ 0#2

/-- CSS, scaled by 8: uimm[8:6|5:3]. -/
def sdspImm : BitVec 9 := h.extractLsb 9 7 ++ h.extractLsb 12 10 ++ 0#3

/-- CJ: offset[11|10|9:8|7|6|5|4|3:1]. -/
def cjOffset : BitVec 12 :=
  h.extractLsb 12 12 ++ h.extractLsb 8 8 ++ h.extractLsb 10 9 ++
    h.extractLsb 6 6 ++ h.extractLsb 7 7 ++ h.extractLsb 2 2 ++
    h.extractLsb 11 11 ++ h.extractLsb 5 3 ++ 0#1

/-- CB: offset[8|7:6|5|4:3|2:1]. -/
def cbOffset : BitVec 9 :=
  h.extractLsb 12 12 ++ h.extractLsb 6 5 ++ h.extractLsb 2 2 ++
    h.extractLsb 11 10 ++ h.extractLsb 4 3 ++ 0#1

end Fields

/-! ## The table -/

inductive Meaning where
  | reserved
  | plain (b : Base)
  | hint (b : Base)
deriving DecidableEq, Repr

def Meaning.expansion : Meaning → Option (BitVec 32)
  | .reserved => none
  | .plain b | .hint b => some b.encode

/-- A shift by an immediate: the sixth bit of the amount is RV64 only, and an
amount of zero is a hint, as is the destination x0. -/
def shift (xlen : Xlen) (h : BitVec 16) (rd : BitVec 5)
    (base : BitVec 5 → BitVec 5 → BitVec 6 → Base) : Meaning :=
  if xlen = .rv32 ∧ (ciImm h).getLsbD 5 = true then .reserved
  else if rd = 0 ∨ ciImm h = 0 then .hint (base rd rd (ciImm h))
  else .plain (base rd rd (ciImm h))

def byWidth (xlen : Xlen) (narrow wide : Meaning) : Meaning :=
  match xlen with
  | .rv32 => narrow
  | .rv64 => wide

def meaning0 (xlen : Xlen) (h : BitVec 16) : Meaning :=
  let rd' := rs2Prime h
  let rs2' := rs2Prime h
  let rs1' := rs1Prime h
  match (funct3 h).toNat with
  | 0b000 =>
      -- C.ADDI4SPN
      if addi4spnImm h = 0 then .reserved
      else .plain (.addi rd' 2 ((addi4spnImm h).setWidth 12))
  | 0b001 => .plain (.fld rd' rs1' ((doubleImm h).setWidth 12))
  | 0b010 => .plain (.lw rd' rs1' ((wordImm h).setWidth 12))
  | 0b011 =>
      byWidth xlen (.plain (.flw rd' rs1' ((wordImm h).setWidth 12)))
        (.plain (.ld rd' rs1' ((doubleImm h).setWidth 12)))
  | 0b101 => .plain (.fsd rs2' rs1' ((doubleImm h).setWidth 12))
  | 0b110 => .plain (.sw rs2' rs1' ((wordImm h).setWidth 12))
  | 0b111 =>
      byWidth xlen (.plain (.fsw rs2' rs1' ((wordImm h).setWidth 12)))
        (.plain (.sd rs2' rs1' ((doubleImm h).setWidth 12)))
  | _ => .reserved

def meaning1Alu (xlen : Xlen) (h : BitVec 16) : Meaning :=
  let rd' := rs1Prime h
  let rs2' := rs2Prime h
  match (h.extractLsb 11 10).toNat with
  | 0b00 => shift xlen h rd' .srli
  | 0b01 => shift xlen h rd' .srai
  | 0b10 => .plain (.andi rd' rd' ((ciImm h).signExtend 12))
  | _ =>
      match (h.extractLsb 12 12).toNat, (h.extractLsb 6 5).toNat with
      | 0, 0b00 => .plain (.sub rd' rd' rs2')
      | 0, 0b01 => .plain (.xor rd' rd' rs2')
      | 0, 0b10 => .plain (.or rd' rd' rs2')
      | 0, 0b11 => .plain (.and rd' rd' rs2')
      | 1, 0b00 => byWidth xlen .reserved (.plain (.subw rd' rd' rs2'))
      | 1, 0b01 => byWidth xlen .reserved (.plain (.addw rd' rd' rs2'))
      | _, _ => .reserved

def meaning1 (xlen : Xlen) (h : BitVec 16) : Meaning :=
  let imm : BitVec 12 := (ciImm h).signExtend 12
  match (funct3 h).toNat with
  | 0b000 =>
      -- C.NOP has neither a register nor an immediate, C.ADDI has both.
      if rd h = 0 ↔ ciImm h = 0 then .plain (.addi (rd h) (rd h) imm)
      else .hint (.addi (rd h) (rd h) imm)
  | 0b001 =>
      byWidth xlen (.plain (.jal 1 ((cjOffset h).signExtend 21)))
        (if rd h = 0 then .reserved else .plain (.addiw (rd h) (rd h) imm))
  | 0b010 =>
      -- C.LI
      if rd h = 0 then .hint (.addi 0 0 imm) else .plain (.addi (rd h) 0 imm)
  | 0b011 =>
      if rd h = 2 then
        -- C.ADDI16SP
        if addi16spImm h = 0 then .reserved
        else .plain (.addi 2 2 ((addi16spImm h).signExtend 12))
      else if ciImm h = 0 then .reserved
      else if rd h = 0 then .hint (.lui 0 ((ciImm h).signExtend 20))
      else .plain (.lui (rd h) ((ciImm h).signExtend 20))
  | 0b100 => meaning1Alu xlen h
  | 0b101 => .plain (.jal 0 ((cjOffset h).signExtend 21))
  | 0b110 => .plain (.beq (rs1Prime h) 0 ((cbOffset h).signExtend 13))
  | _ => .plain (.bne (rs1Prime h) 0 ((cbOffset h).signExtend 13))

def meaning2Move (h : BitVec 16) : Meaning :=
  if h.extractLsb 12 12 = 0 then
    if rs2 h = 0 then
      if rd h = 0 then .reserved else .plain (.jalr 0 (rd h) 0)
    else if rd h = 0 then .hint (.add 0 0 (rs2 h))
    else .plain (.add (rd h) 0 (rs2 h))
  else if rs2 h = 0 then
    if rd h = 0 then .plain .ebreak else .plain (.jalr 1 (rd h) 0)
  else if rd h = 0 then .hint (.add 0 0 (rs2 h))
  else .plain (.add (rd h) (rd h) (rs2 h))

def meaning2 (xlen : Xlen) (h : BitVec 16) : Meaning :=
  match (funct3 h).toNat with
  | 0b000 => shift xlen h (rd h) .slli
  | 0b001 => .plain (.fld (rd h) 2 ((ldspImm h).setWidth 12))
  | 0b010 =>
      if rd h = 0 then .reserved
      else .plain (.lw (rd h) 2 ((lwspImm h).setWidth 12))
  | 0b011 =>
      byWidth xlen (.plain (.flw (rd h) 2 ((lwspImm h).setWidth 12)))
        (if rd h = 0 then .reserved
          else .plain (.ld (rd h) 2 ((ldspImm h).setWidth 12)))
  | 0b100 => meaning2Move h
  | 0b101 => .plain (.fsd (rs2 h) 2 ((sdspImm h).setWidth 12))
  | 0b110 => .plain (.sw (rs2 h) 2 ((swspImm h).setWidth 12))
  | _ =>
      byWidth xlen (.plain (.fsw (rs2 h) 2 ((swspImm h).setWidth 12)))
        (.plain (.sd (rs2 h) 2 ((sdspImm h).setWidth 12)))

/-- What the C extension of a width says of a 16-bit encoding. -/
def meaning (xlen : Xlen) (h : BitVec 16) : Meaning :=
  match (op h).toNat with
  | 0b00 => meaning0 xlen h
  | 0b01 => meaning1 xlen h
  | 0b10 => meaning2 xlen h
  | _ => .reserved

/-- C.LUI or C.MV with x0 as the destination. -/
def DroppedHint (h : BitVec 16) : Prop :=
  op h = 1 ∧ funct3 h = 3 ∧ rd h = 0 ∧ ciImm h ≠ 0 ∨
    op h = 2 ∧ funct3 h = 4 ∧ h.extractLsb 12 12 = 0 ∧ rd h = 0 ∧ rs2 h ≠ 0

instance (h : BitVec 16) : Decidable (DroppedHint h) :=
  inferInstanceAs (Decidable (_ ∨ _))

/-! ## The fields of the decoder -/

section Decoder

open Compress FieldWords

variable (h : BitVec 16)

theorem bits_eq {hi lo : ℕ} (hhi : hi < 16) (hle : lo ≤ hi) :
    bits (h.setWidth 32) hi lo = (h.extractLsb hi lo).setWidth 32 := by
  have hmask : (1#32 <<< (hi - lo + 1)) - 1 =
      BitVec.ofNat 32 (2 ^ (hi - lo + 1) - 1) := by
    have hlen : hi - lo + 1 ≤ 16 := by omega
    generalize hi - lo + 1 = len at hlen
    interval_cases len <;> rfl
  calc bits (h.setWidth 32) hi lo
      = ((h.setWidth 32) >>> lo) &&& ((1#32 <<< (hi - lo + 1)) - 1) := rfl
    _ = ((h.setWidth 32).extractLsb hi lo).setWidth 32 := by
        rw [hmask, shift_and_ones _ (by omega)]
    _ = (h.extractLsb hi lo).setWidth 32 := by
        rw [extractLsb_setWidth h (by omega) hle]

theorem bits_toNat {hi lo : ℕ} (hhi : hi < 16) (hle : lo ≤ hi) :
    (bits (h.setWidth 32) hi lo).toNat = (h.extractLsb hi lo).toNat := by
  rw [bits_eq h hhi hle, BitVec.toNat_setWidth]
  apply Nat.mod_eq_of_lt
  apply (h.extractLsb hi lo).isLt.trans_le
  exact Nat.pow_le_pow_right (by decide) (by omega)

theorem prime_eq (field : BitVec 3) :
    field.setWidth 32 + 8 = (0b01#2 ++ field).setWidth 32 := by
  revert field
  decide

theorem rp_high : rp (h.setWidth 32) 7 = (rs1Prime h).setWidth 32 := by
  rw [rp, bits_eq h (by decide) (by decide)]
  exact prime_eq (h.extractLsb 9 7)

theorem rp_low : rp (h.setWidth 32) 2 = (rs2Prime h).setWidth 32 := by
  rw [rp, bits_eq h (by decide) (by decide)]
  exact prime_eq (h.extractLsb 4 2)

theorem rd_eq : bits (h.setWidth 32) 11 7 = (rd h).setWidth 32 :=
  bits_eq h (by decide) (by decide)

theorem rs2_eq : bits (h.setWidth 32) 6 2 = (rs2 h).setWidth 32 :=
  bits_eq h (by decide) (by decide)

theorem zero_iff {k : ℕ} (hk : k ≤ 32) (field : BitVec k) :
    field.setWidth 32 = 0 ↔ field = 0 := by
  have hzero : (0 : BitVec 32) = (0 : BitVec k).setWidth 32 := by simp
  rw [hzero, setWidth_inj hk]

theorem ciImm_eq :
    Compress.ciImm (h.setWidth 32) = (ciImm h).setWidth 32 := by
  unfold Compress.ciImm ciImm
  simp (disch := decide) only [bits_eq, append_setWidth]

theorem addi4spnImm_eq :
    (bits (h.setWidth 32) 10 7 <<< 6) ||| (bits (h.setWidth 32) 12 11 <<< 4) |||
        (bits (h.setWidth 32) 5 5 <<< 3) ||| (bits (h.setWidth 32) 6 6 <<< 2) =
      (addi4spnImm h).setWidth 32 := by
  unfold addi4spnImm
  simp (disch := decide) only [bits_eq, append_setWidth,
    BitVec.shiftLeft_or_distrib, ← BitVec.shiftLeft_add]
  exact BitVec.or_zero.symm

theorem addi16spImm_eq :
    (bits (h.setWidth 32) 12 12 <<< 9) ||| (bits (h.setWidth 32) 4 3 <<< 7) |||
        (bits (h.setWidth 32) 5 5 <<< 6) ||| (bits (h.setWidth 32) 2 2 <<< 5) |||
        (bits (h.setWidth 32) 6 6 <<< 4) =
      (addi16spImm h).setWidth 32 := by
  unfold addi16spImm
  simp (disch := decide) only [bits_eq, append_setWidth,
    BitVec.shiftLeft_or_distrib, ← BitVec.shiftLeft_add]
  exact BitVec.or_zero.symm

theorem wordOffset_eq : wordOffset (h.setWidth 32) = (wordImm h).setWidth 32 := by
  unfold wordOffset wordImm
  simp (disch := decide) only [bits_eq, append_setWidth,
    BitVec.shiftLeft_or_distrib, ← BitVec.shiftLeft_add]
  exact BitVec.or_zero.symm

theorem doubleOffset_eq :
    doubleOffset (h.setWidth 32) = (doubleImm h).setWidth 32 := by
  unfold doubleOffset doubleImm
  simp (disch := decide) only [bits_eq, append_setWidth,
    BitVec.shiftLeft_or_distrib, ← BitVec.shiftLeft_add]
  exact BitVec.or_zero.symm

theorem loadSpWord_eq : loadSpWord (h.setWidth 32) = (lwspImm h).setWidth 32 := by
  unfold loadSpWord lwspImm
  simp (disch := decide) only [bits_eq, append_setWidth,
    BitVec.shiftLeft_or_distrib, ← BitVec.shiftLeft_add]
  exact BitVec.or_zero.symm

theorem loadSpDouble_eq :
    loadSpDouble (h.setWidth 32) = (ldspImm h).setWidth 32 := by
  unfold loadSpDouble ldspImm
  simp (disch := decide) only [bits_eq, append_setWidth,
    BitVec.shiftLeft_or_distrib, ← BitVec.shiftLeft_add]
  exact BitVec.or_zero.symm

theorem storeSpWord_eq :
    storeSpWord (h.setWidth 32) = (swspImm h).setWidth 32 := by
  unfold storeSpWord swspImm
  simp (disch := decide) only [bits_eq, append_setWidth,
    BitVec.shiftLeft_or_distrib, ← BitVec.shiftLeft_add]
  exact BitVec.or_zero.symm

theorem storeSpDouble_eq :
    storeSpDouble (h.setWidth 32) = (sdspImm h).setWidth 32 := by
  unfold storeSpDouble sdspImm
  simp (disch := decide) only [bits_eq, append_setWidth,
    BitVec.shiftLeft_or_distrib, ← BitVec.shiftLeft_add]
  exact BitVec.or_zero.symm

theorem sext_eq {k : ℕ} (field : BitVec k) (hpos : 0 < k) (hk : k ≤ 32) :
    Compress.sext (field.setWidth 32) k = field.signExtend 32 :=
  sshiftRight_shiftLeft field hpos hk

theorem cjOffset_eq :
    Compress.cjOffset (h.setWidth 32) = (cjOffset h).signExtend 32 := by
  rw [← sext_eq _ (by decide) (by decide)]
  unfold Compress.cjOffset cjOffset
  simp (disch := decide) only [bits_eq, append_setWidth,
    BitVec.shiftLeft_or_distrib, ← BitVec.shiftLeft_add]
  exact congrArg (fun imm => Compress.sext imm 12) BitVec.or_zero.symm

theorem cbOffset_eq :
    Compress.cbOffset (h.setWidth 32) = (cbOffset h).signExtend 32 := by
  rw [← sext_eq _ (by decide) (by decide)]
  unfold Compress.cbOffset cbOffset
  simp (disch := decide) only [bits_eq, append_setWidth,
    BitVec.shiftLeft_or_distrib, ← BitVec.shiftLeft_add]
  exact congrArg (fun imm => Compress.sext imm 9) BitVec.or_zero.symm

end Decoder

section Formats

open Compress FieldWords

variable (opcode : BitVec 7) (funct3 : BitVec 3) (rd rs1 rs2 : BitVec 5)

theorem rType_eq (funct7 : BitVec 7) :
    rType (opcode.setWidth 32) (funct3.setWidth 32) (funct7.setWidth 32)
        (rd.setWidth 32) (rs1.setWidth 32) (rs2.setWidth 32) =
      (Base.r opcode funct3 funct7 rd rs1 rs2).encode := by
  rw [← BitVec.setWidth_eq (Base.encode _)]
  unfold rType Base.encode
  simp only [append_setWidth, BitVec.shiftLeft_or_distrib,
    ← BitVec.shiftLeft_add]

theorem iType_eq (imm : BitVec 32) :
    iType (opcode.setWidth 32) (funct3.setWidth 32) (rd.setWidth 32)
        (rs1.setWidth 32) imm =
      (Base.i opcode funct3 rd rs1 (imm.setWidth 12)).encode := by
  have himm : imm &&& 0xfff = (imm.setWidth 12).setWidth 32 :=
    and_ones imm (k := 12) (by decide)
  rw [← BitVec.setWidth_eq (Base.encode _)]
  unfold iType Base.encode
  rw [himm]
  simp only [append_setWidth, BitVec.shiftLeft_or_distrib,
    ← BitVec.shiftLeft_add]

theorem field_eq (imm : BitVec 32) (k hi lo : ℕ) (hhi : hi < k)
    (hle : lo ≤ hi) (hk : k ≤ 32) :
    (imm >>> lo) &&& BitVec.ofNat 32 (2 ^ (hi - lo + 1) - 1) =
      ((imm.setWidth k).extractLsb hi lo).setWidth 32 := by
  rw [extractLsb_setWidth imm hhi hle, shift_and_ones imm (by omega)]

theorem sType_eq (imm : BitVec 32) :
    sType (opcode.setWidth 32) (funct3.setWidth 32) (rs1.setWidth 32)
        (rs2.setWidth 32) imm =
      (Base.s opcode funct3 rs1 rs2 (imm.setWidth 12)).encode := by
  have hhigh : (imm >>> 5) &&& 0x7f =
      ((imm.setWidth 12).extractLsb 11 5).setWidth 32 :=
    field_eq imm 12 11 5 (by decide) (by decide) (by decide)
  have hlow : imm &&& 0x1f =
      ((imm.setWidth 12).extractLsb 4 0).setWidth 32 := by
    have hfield := field_eq imm 12 4 0 (by decide) (by decide) (by decide)
    rwa [BitVec.ushiftRight_zero] at hfield
  rw [← BitVec.setWidth_eq (Base.encode _)]
  unfold sType Base.encode
  rw [hhigh, hlow]
  simp only [append_setWidth, BitVec.shiftLeft_or_distrib,
    ← BitVec.shiftLeft_add]

theorem bType_eq (offset : BitVec 32) :
    bType (funct3.setWidth 32) (rs1.setWidth 32) (rs2.setWidth 32) offset =
      (Base.b funct3 rs1 rs2 (offset.setWidth 13)).encode := by
  have h₁ : (offset >>> 12) &&& 1 =
      ((offset.setWidth 13).extractLsb 12 12).setWidth 32 :=
    field_eq offset 13 12 12 (by decide) (by decide) (by decide)
  have h₂ : (offset >>> 5) &&& 0x3f =
      ((offset.setWidth 13).extractLsb 10 5).setWidth 32 :=
    field_eq offset 13 10 5 (by decide) (by decide) (by decide)
  have h₃ : (offset >>> 1) &&& 0xf =
      ((offset.setWidth 13).extractLsb 4 1).setWidth 32 :=
    field_eq offset 13 4 1 (by decide) (by decide) (by decide)
  have h₄ : (offset >>> 11) &&& 1 =
      ((offset.setWidth 13).extractLsb 11 11).setWidth 32 :=
    field_eq offset 13 11 11 (by decide) (by decide) (by decide)
  rw [← BitVec.setWidth_eq (Base.encode _)]
  unfold bType Base.encode
  rw [h₁, h₂, h₃, h₄]
  simp only [append_setWidth, BitVec.shiftLeft_or_distrib,
    ← BitVec.shiftLeft_add]
  rfl

theorem uType_eq (imm : BitVec 32) :
    uType (opcode.setWidth 32) (rd.setWidth 32) (imm <<< 12) =
      (Base.u opcode rd (imm.setWidth 20)).encode := by
  have himm : (imm <<< 12) &&& 0xfffff000 =
      (imm.setWidth 20).setWidth 32 <<< 12 := by
    have hones : imm &&& 0xfffff = (imm.setWidth 20).setWidth 32 :=
      and_ones imm (k := 20) (by decide)
    rw [← hones, BitVec.shiftLeft_and_distrib]
    rfl
  rw [← BitVec.setWidth_eq (Base.encode _)]
  unfold uType Base.encode
  rw [himm]
  simp only [append_setWidth, BitVec.shiftLeft_or_distrib,
    ← BitVec.shiftLeft_add]

theorem jType_eq (offset : BitVec 32) :
    jType (rd.setWidth 32) offset =
      (Base.j rd (offset.setWidth 21)).encode := by
  have h₁ : (offset >>> 20) &&& 1 =
      ((offset.setWidth 21).extractLsb 20 20).setWidth 32 :=
    field_eq offset 21 20 20 (by decide) (by decide) (by decide)
  have h₂ : (offset >>> 1) &&& 0x3ff =
      ((offset.setWidth 21).extractLsb 10 1).setWidth 32 :=
    field_eq offset 21 10 1 (by decide) (by decide) (by decide)
  have h₃ : (offset >>> 11) &&& 1 =
      ((offset.setWidth 21).extractLsb 11 11).setWidth 32 :=
    field_eq offset 21 11 11 (by decide) (by decide) (by decide)
  have h₄ : (offset >>> 12) &&& 0xff =
      ((offset.setWidth 21).extractLsb 19 12).setWidth 32 :=
    field_eq offset 21 19 12 (by decide) (by decide) (by decide)
  rw [← BitVec.setWidth_eq (Base.encode _)]
  unfold jType Base.encode
  rw [h₁, h₂, h₃, h₄]
  simp only [append_setWidth, BitVec.shiftLeft_or_distrib,
    ← BitVec.shiftLeft_add]
  rfl

end Formats

/-! ## The decoder follows the table -/

section Quadrants

open Compress FieldWords

variable (h : BitVec 16)

theorem funct3_toNat :
    (bits (h.setWidth 32) 15 13).toNat = (funct3 h).toNat :=
  bits_toNat h (by decide) (by decide)

theorem iType_field (opcode : BitVec 7) (f3 : BitVec 3) (rd rs1 : BitVec 5)
    {k : ℕ} (imm : BitVec k) (hk : k ≤ 32) :
    iType (opcode.setWidth 32) (f3.setWidth 32) (rd.setWidth 32)
        (rs1.setWidth 32) (imm.setWidth 32) =
      (Base.i opcode f3 rd rs1 (imm.setWidth 12)).encode := by
  rw [iType_eq, setWidth_setWidth_of_le imm hk]

theorem sType_field (opcode : BitVec 7) (f3 : BitVec 3) (rs1 rs2 : BitVec 5)
    {k : ℕ} (imm : BitVec k) (hk : k ≤ 32) :
    sType (opcode.setWidth 32) (f3.setWidth 32) (rs1.setWidth 32)
        (rs2.setWidth 32) (imm.setWidth 32) =
      (Base.s opcode f3 rs1 rs2 (imm.setWidth 12)).encode := by
  rw [sType_eq, setWidth_setWidth_of_le imm hk]

theorem quadrant0_eq (xlen : Xlen) :
    quadrant0 (h.setWidth 32) (xlen == .rv64) =
      (meaning0 xlen h).expansion := by
  have hlt := (funct3 h).isLt
  unfold quadrant0 meaning0
  rw [funct3_toNat]
  dsimp only
  rw [addi4spnImm_eq, rp_high, rp_low, wordOffset_eq, doubleOffset_eq]
  generalize (funct3 h).toNat = n at hlt
  interval_cases n
  · simp only [zero_iff (k := 10) (by decide)]
    split
    · rfl
    · exact congrArg some (iType_field 0x13 0 _ 2 (addi4spnImm h) (by decide))
  · exact congrArg some (iType_field 0x07 3 _ _ (doubleImm h) (by decide))
  · exact congrArg some (iType_field 0x03 2 _ _ (wordImm h) (by decide))
  · cases xlen with
    | rv32 => exact congrArg some (iType_field 0x07 2 _ _ (wordImm h) (by decide))
    | rv64 =>
        exact congrArg some (iType_field 0x03 3 _ _ (doubleImm h) (by decide))
  · rfl
  · exact congrArg some (sType_field 0x27 3 _ _ (doubleImm h) (by decide))
  · exact congrArg some (sType_field 0x23 2 _ _ (wordImm h) (by decide))
  · cases xlen with
    | rv32 => exact congrArg some (sType_field 0x27 2 _ _ (wordImm h) (by decide))
    | rv64 =>
        exact congrArg some (sType_field 0x23 3 _ _ (doubleImm h) (by decide))

theorem iType_signed (opcode : BitVec 7) (f3 : BitVec 3) (rd rs1 : BitVec 5)
    {k : ℕ} (imm : BitVec k) (hpos : 0 < k) (hk : k ≤ 32) :
    iType (opcode.setWidth 32) (f3.setWidth 32) (rd.setWidth 32)
        (rs1.setWidth 32) (Compress.sext (imm.setWidth 32) k) =
      (Base.i opcode f3 rd rs1 (imm.signExtend 12)).encode := by
  rw [iType_eq, sext_eq imm hpos hk, setWidth_signExtend imm (by decide)]

theorem bType_signed (f3 : BitVec 3) (rs1 rs2 : BitVec 5) :
    bType (f3.setWidth 32) (rs1.setWidth 32) (rs2.setWidth 32)
        ((cbOffset h).signExtend 32) =
      (Base.b f3 rs1 rs2 ((cbOffset h).signExtend 13)).encode := by
  rw [bType_eq, setWidth_signExtend _ (by decide)]

theorem jType_signed (rd : BitVec 5) :
    jType (rd.setWidth 32) ((cjOffset h).signExtend 32) =
      (Base.j rd ((cjOffset h).signExtend 21)).encode := by
  rw [jType_eq, setWidth_signExtend _ (by decide)]

theorem high_shamt (shamt : BitVec 6) :
    32 ≤ shamt.setWidth 32 ↔ shamt.getLsbD 5 = true := by
  revert shamt
  decide

theorem shift_eq (xlen : Xlen) (rd : BitVec 5)
    (base : BitVec 5 → BitVec 5 → BitVec 6 → Base) {word : BitVec 32}
    (hword : word = (base rd rd (ciImm h)).encode) :
    (if !(xlen == .rv64) && 32 ≤ Compress.ciImm (h.setWidth 32) then none
        else some word) = (shift xlen h rd base).expansion := by
  have hexpansion : ∀ hinted : Prop, [Decidable hinted] →
      (if hinted then Meaning.hint (base rd rd (ciImm h))
        else .plain (base rd rd (ciImm h))).expansion = some word := by
    intro hinted _
    rw [hword]
    split <;> rfl
  unfold shift
  rw [ciImm_eq]
  simp only [high_shamt]
  cases xlen with
  | rv32 =>
      cases (ciImm h).getLsbD 5 with
      | true => rfl
      | false => exact (hexpansion _).symm
  | rv64 => exact (hexpansion _).symm

theorem shamt_plain (shamt : BitVec 6) :
    (shamt.setWidth 32).setWidth 12 = 0b000000#6 ++ shamt := by
  revert shamt
  decide

theorem shamt_arithmetic (shamt : BitVec 6) :
    (0x400 ||| shamt.setWidth 32).setWidth 12 = 0b010000#6 ++ shamt := by
  revert shamt
  decide

theorem quadrant1Alu_eq (xlen : Xlen) :
    quadrant1Alu (h.setWidth 32) (xlen == .rv64) =
      (meaning1Alu xlen h).expansion := by
  have hlt := (h.extractLsb 11 10).isLt
  have hhigh := (h.extractLsb 12 12).isLt
  have hlow := (h.extractLsb 6 5).isLt
  unfold quadrant1Alu meaning1Alu
  rw [bits_toNat h (by decide) (by decide), bits_toNat h (by decide) (by decide),
    bits_toNat h (by decide) (by decide)]
  dsimp only
  rw [rp_high, rp_low]
  generalize (h.extractLsb 11 10).toNat = n at hlt
  generalize (h.extractLsb 12 12).toNat = high at hhigh
  generalize (h.extractLsb 6 5).toNat = low at hlow
  interval_cases n
  · apply shift_eq h xlen (rs1Prime h) .srli
    change iType _ _ _ _ (0#32 ||| _) = _
    rw [BitVec.zero_or, ciImm_eq]
    exact (iType_eq 0x13 5 _ _ _).trans (by rw [shamt_plain]; rfl)
  · apply shift_eq h xlen (rs1Prime h) .srai
    rw [ciImm_eq]
    exact (iType_eq 0x13 5 _ _ _).trans (by rw [shamt_arithmetic]; rfl)
  · change some (iType _ _ _ _ _) = _
    rw [ciImm_eq]
    exact congrArg some
      (iType_signed 0x13 7 _ _ (ciImm h) (by decide) (by decide))
  · interval_cases high <;> interval_cases low
    · exact congrArg some (rType_eq 0x33 0 _ _ _ 0x20)
    · exact congrArg some (rType_eq 0x33 4 _ _ _ 0x00)
    · exact congrArg some (rType_eq 0x33 6 _ _ _ 0x00)
    · exact congrArg some (rType_eq 0x33 7 _ _ _ 0x00)
    · cases xlen with
      | rv32 => rfl
      | rv64 => exact congrArg some (rType_eq 0x3b 0 _ _ _ 0x20)
    · cases xlen with
      | rv32 => rfl
      | rv64 => exact congrArg some (rType_eq 0x3b 0 _ _ _ 0x00)
    · rfl
    · rfl

/-- The decoder has no C.LUI with x0 as the destination. -/
theorem quadrant1_eq (xlen : Xlen) :
    quadrant1 (h.setWidth 32) (xlen == .rv64) =
      if funct3 h = 3 ∧ rd h = 0 ∧ ciImm h ≠ 0 then none
      else (meaning1 xlen h).expansion := by
  have hlt := (funct3 h).isLt
  have hthree : funct3 h = 3 ↔ (funct3 h).toNat = 3 :=
    ⟨fun heq => heq ▸ rfl, fun heq => BitVec.eq_of_toNat_eq heq⟩
  have hci : ∀ (opcode : BitVec 7) (rd rs1 : BitVec 5),
      iType (opcode.setWidth 32) 0 (rd.setWidth 32) (rs1.setWidth 32)
          (Compress.sext (Compress.ciImm (h.setWidth 32)) 6) =
        (Base.i opcode 0 rd rs1 ((ciImm h).signExtend 12)).encode := by
    intro opcode rd rs1
    rw [ciImm_eq]
    exact iType_signed opcode 0 rd rs1 (ciImm h) (by decide) (by decide)
  unfold quadrant1 meaning1
  rw [funct3_toNat]
  simp only [hthree]
  rw [rd_eq, rp_high, cjOffset_eq, cbOffset_eq, addi16spImm_eq]
  generalize (funct3 h).toNat = n at hlt
  have hkept : ∀ {f3 : ℕ} {m : Meaning}, f3 ≠ 3 →
      (if f3 = 3 ∧ rd h = 0 ∧ ciImm h ≠ 0 then none else m.expansion) =
        m.expansion := fun hother => if_neg fun hlui => hother hlui.1
  interval_cases n
  · rw [hkept (by decide)]
    change some _ = Meaning.expansion (if rd h = 0 ↔ ciImm h = 0 then _ else _)
    split
    · exact congrArg some (hci 0x13 (rd h) (rd h))
    · exact congrArg some (hci 0x13 (rd h) (rd h))
  · rw [hkept (by decide)]
    cases xlen with
    | rv32 => exact congrArg some (jType_signed h 1)
    | rv64 =>
        change (if (rd h).setWidth 32 = 0 then none else some _) =
          Meaning.expansion (if rd h = 0 then _ else _)
        rw [if_congr (zero_iff (by decide) (rd h)) rfl rfl]
        split
        · rfl
        · exact congrArg some (hci 0x1b (rd h) (rd h))
  · rw [hkept (by decide)]
    change some _ = Meaning.expansion (if rd h = 0 then _ else _)
    split
    · next hzero =>
        rw [hzero]
        exact congrArg some (hci 0x13 0 0)
    · exact congrArg some (hci 0x13 (rd h) 0)
  · have htwo : (rd h).setWidth 32 = 2 ↔ rd h = 2 :=
      setWidth_inj (b := 2#5) (by decide)
    change (if (rd h).setWidth 32 = 2 then
        (if (addi16spImm h).setWidth 32 = 0 then none else some _)
      else if Compress.ciImm (h.setWidth 32) = 0 ∨ (rd h).setWidth 32 = 0 then
        none
      else some _) = if _ then _ else Meaning.expansion (if _ then _ else _)
    rw [ciImm_eq]
    simp only [htwo, zero_iff (k := 5) (by decide),
      zero_iff (k := 6) (by decide), zero_iff (k := 10) (by decide),
      true_and]
    by_cases hlui : rd h = 0 ∧ ciImm h ≠ 0
    · have hsp : rd h ≠ 2 := fun heq => by cases heq.symm.trans hlui.1
      rw [if_neg hsp, if_pos (Or.inr hlui.1), if_pos hlui]
    rw [if_neg hlui]
    by_cases hsp : rd h = 2
    · rw [if_pos hsp, if_pos hsp]
      split
      · rfl
      · exact congrArg some
          (iType_signed 0x13 0 2 2 (addi16spImm h) (by decide) (by decide))
    rw [if_neg hsp, if_neg hsp]
    by_cases himm : ciImm h = 0
    · rw [if_pos (Or.inl himm), if_pos himm]
      rfl
    · have hrd : rd h ≠ 0 := fun heq => hlui ⟨heq, himm⟩
      rw [if_neg (not_or.mpr ⟨himm, hrd⟩), if_neg himm, if_neg hrd]
      refine congrArg some ((uType_eq 0x37 (rd h) _).trans ?_)
      rw [sext_eq _ (by decide) (by decide),
        setWidth_signExtend _ (by decide)]
      rfl
  · rw [hkept (by decide)]
    exact quadrant1Alu_eq h xlen
  · rw [hkept (by decide)]
    exact congrArg some (jType_signed h 0)
  · rw [hkept (by decide)]
    exact congrArg some (bType_signed h 0 _ 0)
  · rw [hkept (by decide)]
    exact congrArg some (bType_signed h 1 _ 0)

/-- The decoder has no C.MV with x0 as the destination. -/
theorem quadrant2_eq (xlen : Xlen) :
    quadrant2 (h.setWidth 32) (xlen == .rv64) =
      if funct3 h = 4 ∧ h.extractLsb 12 12 = 0 ∧ rd h = 0 ∧ rs2 h ≠ 0 then none
      else (meaning2 xlen h).expansion := by
  have hlt := (funct3 h).isLt
  have hfour : funct3 h = 4 ↔ (funct3 h).toNat = 4 :=
    ⟨fun heq => heq ▸ rfl, fun heq => BitVec.eq_of_toNat_eq heq⟩
  unfold quadrant2 meaning2
  rw [funct3_toNat]
  simp only [hfour]
  rw [rd_eq, rs2_eq, loadSpWord_eq, loadSpDouble_eq, storeSpWord_eq,
    storeSpDouble_eq]
  generalize (funct3 h).toNat = n at hlt
  have hkept : ∀ {f3 : ℕ} {m : Meaning}, f3 ≠ 4 →
      (if f3 = 4 ∧ h.extractLsb 12 12 = 0 ∧ rd h = 0 ∧ rs2 h ≠ 0 then none
        else m.expansion) = m.expansion :=
    fun hother => if_neg fun hmove => hother hmove.1
  have hload : ∀ {word : BitVec 32} {b : Base}, word = b.encode →
      (if (rd h).setWidth 32 = 0 then none else some word) =
        Meaning.expansion (if rd h = 0 then .reserved else .plain b) := by
    intro word b hword
    rw [if_congr (zero_iff (by decide) (rd h)) rfl rfl, hword]
    split <;> rfl
  interval_cases n
  · rw [hkept (by decide)]
    apply shift_eq h xlen (rd h) .slli
    rw [ciImm_eq]
    exact (iType_eq 0x13 1 _ _ _).trans (by rw [shamt_plain]; rfl)
  · rw [hkept (by decide)]
    exact congrArg some (iType_field 0x07 3 _ 2 (ldspImm h) (by decide))
  · rw [hkept (by decide)]
    exact hload (iType_field 0x03 2 _ 2 (lwspImm h) (by decide))
  · rw [hkept (by decide)]
    cases xlen with
    | rv32 =>
        exact congrArg some (iType_field 0x07 2 _ 2 (lwspImm h) (by decide))
    | rv64 => exact hload (iType_field 0x03 3 _ 2 (ldspImm h) (by decide))
  · simp only [true_and]
    change (if bits (h.setWidth 32) 12 12 = 0 then
        (if (rd h).setWidth 32 = 0 then none
          else if (rs2 h).setWidth 32 = 0 then some _ else some _)
      else if (rd h).setWidth 32 = 0 ∧ (rs2 h).setWidth 32 = 0 then some _
      else if (rs2 h).setWidth 32 = 0 then some _ else some _) =
        if _ then none else (meaning2Move h).expansion
    rw [bits_eq h (by decide) (by decide)]
    simp only [zero_iff (k := 5) (by decide)]
    rw [if_congr (zero_iff (k := 1) (by decide) (h.extractLsb 12 12)) rfl rfl]
    unfold meaning2Move
    by_cases hbit : h.extractLsb 12 12 = 0 <;> by_cases hrs2 : rs2 h = 0 <;>
      by_cases hrd : rd h = 0 <;>
      simp only [hbit, hrs2, hrd, if_true, if_false, and_self, and_true,
        and_false, ne_eq, not_true, not_false_eq_true]
    · rfl
    · exact congrArg some (iType_eq 0x67 0 0 (rd h) 0)
    · exact congrArg some (rType_eq 0x33 0 (rd h) 0 (rs2 h) 0)
    · rfl
    · exact congrArg some (iType_eq 0x67 0 1 (rd h) 0)
    · exact congrArg some (rType_eq 0x33 0 0 0 (rs2 h) 0)
    · exact congrArg some (rType_eq 0x33 0 (rd h) (rd h) (rs2 h) 0)
  · rw [hkept (by decide)]
    exact congrArg some (sType_field 0x27 3 2 _ (sdspImm h) (by decide))
  · rw [hkept (by decide)]
    exact congrArg some (sType_field 0x23 2 2 _ (swspImm h) (by decide))
  · rw [hkept (by decide)]
    cases xlen with
    | rv32 =>
        exact congrArg some (sType_field 0x27 2 2 _ (swspImm h) (by decide))
    | rv64 =>
        exact congrArg some (sType_field 0x23 3 2 _ (sdspImm h) (by decide))

/-- Every encoding is expanded as the table has it, up to the hints that are
dropped. -/
theorem decompress_eq (xlen : Xlen) :
    decompress (h.setWidth 32) xlen =
      if DroppedHint h then none else (meaning xlen h).expansion := by
  have hlt := (op h).isLt
  have hop : ∀ k : BitVec 2, op h = k ↔ (op h).toNat = k.toNat :=
    fun k => ⟨fun heq => heq ▸ rfl, fun heq => BitVec.eq_of_toNat_eq heq⟩
  have hdropped : DroppedHint h ↔
      (op h).toNat = 1 ∧ (funct3 h = 3 ∧ rd h = 0 ∧ ciImm h ≠ 0) ∨
        (op h).toNat = 2 ∧ (funct3 h = 4 ∧ h.extractLsb 12 12 = 0 ∧
          rd h = 0 ∧ rs2 h ≠ 0) := by
    rw [DroppedHint, hop, hop]
    rfl
  have hfield : (bits (h.setWidth 32) 1 0).toNat = (op h).toNat :=
    bits_toNat h (by decide) (by decide)
  rw [if_congr hdropped rfl rfl]
  unfold decompress meaning
  rw [hfield]
  generalize (op h).toNat = n at hlt
  interval_cases n
  · exact (quadrant0_eq h xlen).trans (if_neg (by simp)).symm
  · refine (quadrant1_eq h xlen).trans (if_congr ?_ rfl rfl)
    simp
  · refine (quadrant2_eq h xlen).trans (if_congr ?_ rfl rfl)
    simp
  · exact (if_neg (by simp)).symm

end Quadrants

end Rvc

end Nanoemu
