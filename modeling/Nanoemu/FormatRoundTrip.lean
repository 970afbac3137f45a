import Nanoemu.Decode
import Nanoemu.Rvc

/-!
# Encoding and decoding

The encoders of the base formats and the extractors of the decoder scatter and
gather the same bits.  A word is an append of its fields, and each extractor
cuts out the field, or puts the parts of an immediate together again.
-/

namespace Nanoemu

namespace Rvc

open FieldWords

namespace Base

def opcode : Base → BitVec 7
  | .r opcode .. | .i opcode .. | .s opcode .. | .u opcode .. => opcode
  | .b .. => 0x63
  | .j .. => 0x6f

/-- The field that selects the operation, in the formats that have it. -/
def funct3 : Base → Option (BitVec 3)
  | .r _ funct3 .. | .i _ funct3 .. | .s _ funct3 .. | .b funct3 .. =>
      some funct3
  | .u .. | .j .. => none

theorem opcode_encode (b : Base) :
    Nanoemu.opcode b.encode = b.opcode.setWidth 32 := by
  have hlow : b.encode.setWidth 7 = b.opcode := by
    cases b <;> exact BitVec.setWidth_append_eq_right
  rw [← hlow]
  exact and_ones (k := 7) b.encode (by decide)

theorem funct3_encode (b : Base) {f3 : BitVec 3} (h : b.funct3 = some f3) :
    Nanoemu.funct3 b.encode = f3.setWidth 32 := by
  have hfield : b.encode.extractLsb 14 12 = f3 := by
    rw [BitVec.extractLsb]
    cases b <;> cases h <;> unfold encode <;>
      simp (disch := decide) only [BitVec.extractLsb'_append_eq_of_le] <;>
      exact BitVec.extractLsb'_append_eq_right
  rw [← hfield]
  exact @shift_and_ones 32 b.encode 14 12 (by decide)

/-- The three places of a register number. -/
inductive Place where
  | rd
  | rs1
  | rs2
deriving DecidableEq, Repr

def Place.low : Place → ℕ
  | .rd => 7
  | .rs1 => 15
  | .rs2 => 20

/-- The register that a format has at a place. -/
def register : Base → Place → Option (BitVec 5)
  | .r _ _ _ rd rs1 rs2, place =>
      some (match place with | .rd => rd | .rs1 => rs1 | .rs2 => rs2)
  | .i _ _ rd rs1 _, place =>
      match place with | .rd => some rd | .rs1 => some rs1 | .rs2 => none
  | .s _ _ rs1 rs2 _, place | .b _ rs1 rs2 _, place =>
      match place with | .rd => none | .rs1 => some rs1 | .rs2 => some rs2
  | .u _ rd _, place | .j rd _, place =>
      match place with | .rd => some rd | .rs1 | .rs2 => none

theorem register_encode (b : Base) {place : Place} {r : BitVec 5}
    (h : b.register place = some r) :
    b.encode.extractLsb' place.low 5 = r := by
  cases b <;> cases place <;> cases h <;> unfold encode Place.low <;>
    simp (disch := decide) only [BitVec.extractLsb'_append_eq_of_le] <;>
    exact BitVec.extractLsb'_append_eq_right

theorem regField_shift (word : BitVec 32) (low : ℕ) :
    (regField (word >>> low)).val = (word.extractLsb' low 5).toNat := by
  have hfield := @shift_and_field 5 32 word low (by decide)
  have hnat := congrArg BitVec.toNat hfield
  rwa [BitVec.toNat_setWidth_of_le (by decide)] at hnat

theorem rd_encode {b : Base} {r : BitVec 5} (h : b.register .rd = some r) :
    (Nanoemu.rd b.encode).val = r.toNat := by
  rw [← register_encode b h]
  exact regField_shift b.encode 7

theorem rs1_encode {b : Base} {r : BitVec 5} (h : b.register .rs1 = some r) :
    (Nanoemu.rs1 b.encode).val = r.toNat := by
  rw [← register_encode b h]
  exact regField_shift b.encode 15

theorem rs2_encode {b : Base} {r : BitVec 5} (h : b.register .rs2 = some r) :
    (Nanoemu.rs2 b.encode).val = r.toNat := by
  rw [← register_encode b h]
  exact regField_shift b.encode 20

theorem funct7_eq (word : BitVec 32) :
    Nanoemu.funct7 word = (word.extractLsb' 25 7).setWidth 32 :=
  ushiftRight_eq word 25

variable (opcode : BitVec 7) (f3 : BitVec 3) (rd rs1 rs2 : BitVec 5)

theorem funct7_register (f7 : BitVec 7) :
    Nanoemu.funct7 (Base.r opcode f3 f7 rd rs1 rs2).encode =
      f7.setWidth 32 := by
  rw [funct7_eq, encode]
  simp (disch := decide) only [BitVec.extractLsb'_append_eq_of_le]
  simp

theorem funct7_immediate (imm : BitVec 12) :
    Nanoemu.funct7 (Base.i opcode f3 rd rs1 imm).encode =
      (imm.extractLsb' 5 7).setWidth 32 := by
  rw [funct7_eq, encode]
  simp (disch := decide) only [BitVec.extractLsb'_append_eq_of_le]

section Extractors

variable (word : BitVec 32)

theorem immI_eq : immI word = (word.extractLsb' 20 12).signExtend 32 :=
  sshiftRight_eq word (by decide)

theorem immS_eq :
    immS word =
      (word.extractLsb' 25 7 ++ word.extractLsb' 7 5).signExtend 32 := by
  have hlow : (word >>> 7) &&& 0x1f =
      (word.extractLsb' 7 5).setWidth 32 :=
    @shift_and_field 5 32 word 7 (by decide)
  rw [append_signExtend _ _ (by decide), immS, hlow,
    sshiftRight_eq word (by decide)]

theorem immB_eq :
    immB word =
      (word.extractLsb' 31 1 ++ word.extractLsb' 7 1 ++
        word.extractLsb' 25 6 ++ word.extractLsb' 8 4 ++ 0#1).signExtend 32 := by
  have h₁ : (word >>> 7) &&& 1 = (word.extractLsb' 7 1).setWidth 32 :=
    @shift_and_field 1 32 word 7 (by decide)
  have h₂ : (word >>> 25) &&& 0x3f = (word.extractLsb' 25 6).setWidth 32 :=
    @shift_and_field 6 32 word 25 (by decide)
  have h₃ : (word >>> 8) &&& 0xf = (word.extractLsb' 8 4).setWidth 32 :=
    @shift_and_field 4 32 word 8 (by decide)
  simp (disch := decide) only [append_signExtend,
    BitVec.shiftLeft_or_distrib, ← BitVec.shiftLeft_add]
  rw [immB, h₁, h₂, h₃, sshiftRight_eq word (by decide)]
  exact BitVec.or_zero.symm

theorem immU_shift : immU word = word >>> 12 <<< 12 := by
  rw [BitVec.shiftLeft_ushiftRight]
  rfl

theorem immU_eq : immU word = word.extractLsb' 12 20 ++ 0#12 :=
  calc immU word = (word.extractLsb' 12 20).setWidth 32 <<< 12 := by
        rw [immU_shift, ushiftRight_eq]
    _ = (word.extractLsb' 12 20 ++ 0#12).setWidth 32 := by
        rw [append_setWidth]
        exact BitVec.or_zero.symm
    _ = word.extractLsb' 12 20 ++ 0#12 := BitVec.setWidth_eq _

theorem immJ_eq :
    immJ word =
      (word.extractLsb' 31 1 ++ word.extractLsb' 12 8 ++
        word.extractLsb' 20 1 ++ word.extractLsb' 21 10 ++ 0#1).signExtend 32 := by
  have h₁ : word &&& 0x000ff000 = (word.extractLsb' 12 8).setWidth 32 <<< 12 := by
    have hfield := @shift_and_field 8 32 word 12 (by decide)
    rw [← hfield, BitVec.shiftLeft_and_distrib, BitVec.shiftLeft_ushiftRight,
      BitVec.and_assoc]
    rfl
  have h₂ : (word >>> 20) &&& 1 = (word.extractLsb' 20 1).setWidth 32 :=
    @shift_and_field 1 32 word 20 (by decide)
  have h₃ : (word >>> 21) &&& 0x3ff = (word.extractLsb' 21 10).setWidth 32 :=
    @shift_and_field 10 32 word 21 (by decide)
  simp (disch := decide) only [append_signExtend,
    BitVec.shiftLeft_or_distrib, ← BitVec.shiftLeft_add]
  rw [immJ, h₁, h₂, h₃, sshiftRight_eq word (by decide)]
  exact BitVec.or_zero.symm

end Extractors

theorem immI_encode (imm : BitVec 12) :
    immI (Base.i opcode f3 rd rs1 imm).encode = imm.signExtend 32 := by
  rw [immI_eq, encode]
  simp (disch := decide) only [BitVec.extractLsb'_append_eq_of_le]
  exact congrArg (BitVec.signExtend 32) BitVec.extractLsb'_eq_self

/-- A CSR is numbered by the immediate, unsigned. -/
theorem csr_encode (imm : BitVec 12) :
    Nanoemu.csr (Base.i opcode f3 rd rs1 imm).encode = imm := by
  have hfield : Nanoemu.csr (Base.i opcode f3 rd rs1 imm).encode =
      (Base.i opcode f3 rd rs1 imm).encode.extractLsb' 20 12 := rfl
  rw [hfield, encode]
  simp (disch := decide) only [BitVec.extractLsb'_append_eq_of_le]
  exact BitVec.extractLsb'_eq_self

theorem immS_encode (imm : BitVec 12) :
    immS (Base.s opcode f3 rs1 rs2 imm).encode = imm.signExtend 32 := by
  have hjoin : imm.extractLsb' 5 7 ++ imm.extractLsb' 0 5 = imm :=
    BitVec.extractLsb'_append_extractLsb'
  rw [immS_eq, encode]
  simp (disch := decide) only [BitVec.extractLsb'_append_eq_of_le,
    BitVec.extractLsb'_append_eq_of_add_le, extractLsb'_extractLsb]
  exact congrArg (BitVec.signExtend 32) hjoin

theorem immB_encode {offset : BitVec 13} (heven : offset.getLsbD 0 = false) :
    immB (Base.b f3 rs1 rs2 offset).encode = offset.signExtend 32 := by
  have hjoin : offset.extractLsb' 12 1 ++ offset.extractLsb' 11 1 ++
      offset.extractLsb' 5 6 ++ offset.extractLsb' 1 4 ++ 0#1 = offset :=
    calc offset.extractLsb' 12 1 ++ offset.extractLsb' 11 1 ++
          offset.extractLsb' 5 6 ++ offset.extractLsb' 1 4 ++ 0#1
        = offset.extractLsb' 11 2 ++ offset.extractLsb' 5 6 ++
            offset.extractLsb' 1 4 ++ 0#1 := by
          rw [extract_append offset 11 1 1]
      _ = offset.extractLsb' 5 8 ++ offset.extractLsb' 1 4 ++ 0#1 := by
          rw [extract_append offset 5 2 6]
      _ = offset.extractLsb' 1 12 ++ 0#1 := by
          rw [extract_append offset 1 8 4]
      _ = offset := append_zero heven
  rw [immB_eq, encode]
  simp (disch := decide) only [BitVec.extractLsb'_append_eq_of_le,
    BitVec.extractLsb'_append_eq_of_add_le, extractLsb'_extractLsb]
  exact congrArg (BitVec.signExtend 32) hjoin

theorem immU_encode (imm : BitVec 20) :
    immU (Base.u opcode rd imm).encode = imm ++ 0#12 := by
  rw [immU_eq, encode]
  simp (disch := decide) only [BitVec.extractLsb'_append_eq_of_le]
  exact congrArg (· ++ 0#12) (BitVec.extractLsb'_eq_self (x := imm))

theorem immJ_encode {offset : BitVec 21} (heven : offset.getLsbD 0 = false) :
    immJ (Base.j rd offset).encode = offset.signExtend 32 := by
  have hjoin : offset.extractLsb' 20 1 ++ offset.extractLsb' 12 8 ++
      offset.extractLsb' 11 1 ++ offset.extractLsb' 1 10 ++ 0#1 = offset :=
    calc offset.extractLsb' 20 1 ++ offset.extractLsb' 12 8 ++
          offset.extractLsb' 11 1 ++ offset.extractLsb' 1 10 ++ 0#1
        = offset.extractLsb' 12 9 ++ offset.extractLsb' 11 1 ++
            offset.extractLsb' 1 10 ++ 0#1 := by
          rw [extract_append offset 12 1 8]
      _ = offset.extractLsb' 11 10 ++ offset.extractLsb' 1 10 ++ 0#1 := by
          rw [extract_append offset 11 9 1]
      _ = offset.extractLsb' 1 20 ++ 0#1 := by
          rw [extract_append offset 1 10 10]
      _ = offset := append_zero heven
  rw [immJ_eq, encode]
  simp (disch := decide) only [BitVec.extractLsb'_append_eq_of_le,
    BitVec.extractLsb'_append_eq_of_add_le, extractLsb'_extractLsb]
  exact congrArg (BitVec.signExtend 32) hjoin

end Base

end Rvc

/-! ## The round trip -/

/-- What a base instruction is built from, each in the range of its field.  A
format uses some of them. -/
structure Operands where
  opcode : BitVec 7
  funct3 : BitVec 3
  funct7 : BitVec 7
  rd : BitVec 5
  rs1 : BitVec 5
  rs2 : BitVec 5
  imm : BitVec 32
deriving DecidableEq, Repr

inductive Format where
  | r
  | i
  | s
  | b
  | u
  | j
deriving DecidableEq, Repr

namespace Format

open Compress FieldWords Rvc.Base

/-- The immediates that a format has room for. -/
def Representable (imm : BitVec 32) : Format → Prop
  | .r => True
  | .i | .s => -2 ^ 11 ≤ imm.toInt ∧ imm.toInt < 2 ^ 11
  | .b => 2 ∣ imm.toInt ∧ -2 ^ 12 ≤ imm.toInt ∧ imm.toInt < 2 ^ 12
  | .u => 4096 ∣ imm.toInt
  | .j => 2 ∣ imm.toInt ∧ -2 ^ 20 ≤ imm.toInt ∧ imm.toInt < 2 ^ 20

instance (imm : BitVec 32) :
    (format : Format) → Decidable (format.Representable imm)
  | .r => inferInstanceAs (Decidable True)
  | .i | .s | .b | .j => inferInstanceAs (Decidable (_ ∧ _))
  | .u => inferInstanceAs (Decidable (_ ∣ _))

/-- The word that the encoder of a format puts together. -/
def build (o : Operands) : Format → BitVec 32
  | .r =>
      rType (o.opcode.setWidth 32) (o.funct3.setWidth 32)
        (o.funct7.setWidth 32) (o.rd.setWidth 32) (o.rs1.setWidth 32)
        (o.rs2.setWidth 32)
  | .i =>
      iType (o.opcode.setWidth 32) (o.funct3.setWidth 32) (o.rd.setWidth 32)
        (o.rs1.setWidth 32) o.imm
  | .s =>
      sType (o.opcode.setWidth 32) (o.funct3.setWidth 32) (o.rs1.setWidth 32)
        (o.rs2.setWidth 32) o.imm
  | .b =>
      bType (o.funct3.setWidth 32) (o.rs1.setWidth 32) (o.rs2.setWidth 32)
        o.imm
  | .u => uType (o.opcode.setWidth 32) (o.rd.setWidth 32) o.imm
  | .j => jType (o.rd.setWidth 32) o.imm

/-- The decoder reads the operands of a format out of a word.  Branches and
jumps have an opcode of their own. -/
def Decodes (word : BitVec 32) (o : Operands) : Format → Prop
  | .r =>
      opcode word = o.opcode.setWidth 32 ∧ (rd word).val = o.rd.toNat ∧
        funct3 word = o.funct3.setWidth 32 ∧ (rs1 word).val = o.rs1.toNat ∧
        (rs2 word).val = o.rs2.toNat ∧ funct7 word = o.funct7.setWidth 32
  | .i =>
      opcode word = o.opcode.setWidth 32 ∧ (rd word).val = o.rd.toNat ∧
        funct3 word = o.funct3.setWidth 32 ∧ (rs1 word).val = o.rs1.toNat ∧
        immI word = o.imm ∧ csr word = o.imm.setWidth 12
  | .s =>
      opcode word = o.opcode.setWidth 32 ∧
        funct3 word = o.funct3.setWidth 32 ∧ (rs1 word).val = o.rs1.toNat ∧
        (rs2 word).val = o.rs2.toNat ∧ immS word = o.imm
  | .b =>
      opcode word = 0x63 ∧ funct3 word = o.funct3.setWidth 32 ∧
        (rs1 word).val = o.rs1.toNat ∧ (rs2 word).val = o.rs2.toNat ∧
        immB word = o.imm
  | .u =>
      opcode word = o.opcode.setWidth 32 ∧ (rd word).val = o.rd.toNat ∧
        immU word = o.imm
  | .j =>
      opcode word = 0x6f ∧ (rd word).val = o.rd.toNat ∧ immJ word = o.imm

section Built

variable (o : Operands)

theorem r_decodes : Decodes (build o .r) o .r := by
  have hword : build o .r =
      (Rvc.Base.r o.opcode o.funct3 o.funct7 o.rd o.rs1 o.rs2).encode :=
    Rvc.rType_eq o.opcode o.funct3 o.rd o.rs1 o.rs2 o.funct7
  rw [hword]
  exact ⟨opcode_encode _, rd_encode rfl, funct3_encode _ rfl, rs1_encode rfl,
    rs2_encode rfl, funct7_register ..⟩

theorem i_decodes (hlow : -2 ^ 11 ≤ o.imm.toInt) (hhigh : o.imm.toInt < 2 ^ 11) :
    Decodes (build o .i) o .i := by
  have hword : build o .i =
      (Rvc.Base.i o.opcode o.funct3 o.rd o.rs1 (o.imm.setWidth 12)).encode :=
    Rvc.iType_eq o.opcode o.funct3 o.rd o.rs1 o.imm
  have himm : immI (build o .i) = o.imm := by
    rw [hword, immI_encode]
    exact signExtend_setWidth (by decide) hlow hhigh
  rw [hword] at himm ⊢
  exact ⟨opcode_encode _, rd_encode rfl, funct3_encode _ rfl, rs1_encode rfl,
    himm, csr_encode ..⟩

theorem s_decodes (hlow : -2 ^ 11 ≤ o.imm.toInt) (hhigh : o.imm.toInt < 2 ^ 11) :
    Decodes (build o .s) o .s := by
  have hword : build o .s =
      (Rvc.Base.s o.opcode o.funct3 o.rs1 o.rs2 (o.imm.setWidth 12)).encode :=
    Rvc.sType_eq o.opcode o.funct3 o.rs1 o.rs2 o.imm
  have himm : immS (build o .s) = o.imm := by
    rw [hword, immS_encode]
    exact signExtend_setWidth (by decide) hlow hhigh
  rw [hword] at himm ⊢
  exact ⟨opcode_encode _, funct3_encode _ rfl, rs1_encode rfl, rs2_encode rfl,
    himm⟩

theorem even_field {imm : BitVec 32} (heven : 2 ∣ imm.toInt) (k : ℕ) :
    (imm.setWidth (k + 1)).getLsbD 0 = false := by
  have hnat : imm.toNat % 2 = 0 := by
    rw [BitVec.toInt_eq_toNat_cond] at heven
    split at heven <;> omega
  rw [BitVec.getLsbD_setWidth, BitVec.getLsbD, Nat.testBit_zero, hnat]
  simp

theorem b_decodes (heven : 2 ∣ o.imm.toInt) (hlow : -2 ^ 12 ≤ o.imm.toInt)
    (hhigh : o.imm.toInt < 2 ^ 12) : Decodes (build o .b) o .b := by
  have hword : build o .b =
      (Rvc.Base.b o.funct3 o.rs1 o.rs2 (o.imm.setWidth 13)).encode :=
    Rvc.bType_eq o.funct3 o.rs1 o.rs2 o.imm
  have himm : immB (build o .b) = o.imm := by
    rw [hword, immB_encode _ _ _ (even_field heven 12)]
    exact signExtend_setWidth (by decide) hlow hhigh
  rw [hword] at himm ⊢
  exact ⟨opcode_encode _, funct3_encode _ rfl, rs1_encode rfl, rs2_encode rfl,
    himm⟩

theorem immU_multiple {imm : BitVec 32} (hmul : 4096 ∣ imm.toInt) :
    imm >>> 12 <<< 12 = imm := by
  have hnat : imm.toNat % 4096 = 0 := by
    rw [BitVec.toInt_eq_toNat_cond] at hmul
    split at hmul <;> omega
  apply BitVec.eq_of_toNat_eq
  rw [BitVec.toNat_shiftLeft, BitVec.toNat_ushiftRight, Nat.shiftLeft_eq,
    Nat.shiftRight_eq_div_pow]
  omega

theorem u_decodes (hmul : 4096 ∣ o.imm.toInt) : Decodes (build o .u) o .u := by
  have hword : build o .u =
      (Rvc.Base.u o.opcode o.rd ((o.imm >>> 12).setWidth 20)).encode := by
    rw [← Rvc.uType_eq, immU_multiple hmul]
    rfl
  have himm : immU (build o .u) = o.imm := by
    have hfield : (o.imm >>> 12).setWidth 20 = o.imm.extractLsb' 12 20 := rfl
    rw [hword, immU_encode, hfield, ← immU_eq, immU_shift, immU_multiple hmul]
  rw [hword] at himm ⊢
  exact ⟨opcode_encode _, rd_encode rfl, himm⟩

theorem j_decodes (heven : 2 ∣ o.imm.toInt) (hlow : -2 ^ 20 ≤ o.imm.toInt)
    (hhigh : o.imm.toInt < 2 ^ 20) : Decodes (build o .j) o .j := by
  have hword : build o .j =
      (Rvc.Base.j o.rd (o.imm.setWidth 21)).encode :=
    Rvc.jType_eq o.rd o.imm
  have himm : immJ (build o .j) = o.imm := by
    rw [hword, immJ_encode _ (even_field heven 20)]
    exact signExtend_setWidth (by decide) hlow hhigh
  rw [hword] at himm ⊢
  exact ⟨opcode_encode _, rd_encode rfl, himm⟩

end Built

/-- What an encoder puts together, the decoder takes apart: every operand comes
back as it was, whatever the others are. -/
theorem build_decodes (format : Format) (o : Operands)
    (h : format.Representable o.imm) : format.Decodes (build o format) o := by
  cases format with
  | r => exact r_decodes o
  | i => exact i_decodes o h.1 h.2
  | s => exact s_decodes o h.1 h.2
  | b => exact b_decodes o h.1 h.2.1 h.2.2
  | u => exact u_decodes o h
  | j => exact j_decodes o h.1 h.2.1 h.2.2

/-- bne a0, a1, .-4 -/
theorem backward_branch_decodes :
    let bne : Operands := ⟨0x63, 1, 0, 0, 10, 11, -4⟩
    build bne .b = 0xfeb51ee3 ∧ Decodes (build bne .b) bne .b :=
  ⟨by decide, build_decodes .b _ (by decide)⟩

end Format

end Nanoemu
