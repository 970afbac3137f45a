import Nanoemu.Width

/-!
# The C extension

Each 16-bit instruction is expanded at fetch into the base instruction it
stands for.  The immediate fields are scrambled, so most of this is moving
bits; every shift count and field bound is a literal.
-/

namespace Nanoemu

namespace Compress

def bits (i : BitVec 32) (hi lo : ℕ) : BitVec 32 :=
  (i >>> lo) &&& ((1 <<< (hi - lo + 1)) - 1)

def sext (v : BitVec 32) (width : ℕ) : BitVec 32 :=
  (v <<< (32 - width)).sshiftRight (32 - width)

/-- The three-bit register fields name x8 to x15. -/
def rp (i : BitVec 32) (lo : ℕ) : BitVec 32 :=
  bits i (lo + 2) lo + 8

def rType (op f3 f7 rd rs1 rs2 : BitVec 32) : BitVec 32 :=
  (f7 <<< 25) ||| (rs2 <<< 20) ||| (rs1 <<< 15) ||| (f3 <<< 12) |||
    (rd <<< 7) ||| op

def iType (op f3 rd rs1 imm : BitVec 32) : BitVec 32 :=
  ((imm &&& 0xfff) <<< 20) ||| (rs1 <<< 15) ||| (f3 <<< 12) |||
    (rd <<< 7) ||| op

def sType (op f3 rs1 rs2 imm : BitVec 32) : BitVec 32 :=
  (((imm >>> 5) &&& 0x7f) <<< 25) ||| (rs2 <<< 20) ||| (rs1 <<< 15) |||
    (f3 <<< 12) ||| ((imm &&& 0x1f) <<< 7) ||| op

def bType (f3 rs1 rs2 imm : BitVec 32) : BitVec 32 :=
  (((imm >>> 12) &&& 1) <<< 31) ||| (((imm >>> 5) &&& 0x3f) <<< 25) |||
    (rs2 <<< 20) ||| (rs1 <<< 15) ||| (f3 <<< 12) |||
    (((imm >>> 1) &&& 0xf) <<< 8) ||| (((imm >>> 11) &&& 1) <<< 7) ||| 0x63

def uType (op rd imm : BitVec 32) : BitVec 32 :=
  (imm &&& 0xfffff000) ||| (rd <<< 7) ||| op

def jType (rd imm : BitVec 32) : BitVec 32 :=
  (((imm >>> 20) &&& 1) <<< 31) ||| (((imm >>> 1) &&& 0x3ff) <<< 21) |||
    (((imm >>> 11) &&& 1) <<< 20) ||| (((imm >>> 12) &&& 0xff) <<< 12) |||
    (rd <<< 7) ||| 0x6f

def OP_IMM : BitVec 32 := 0x13
def OP_IMM32 : BitVec 32 := 0x1b
def OP : BitVec 32 := 0x33
def OP32 : BitVec 32 := 0x3b
def LOAD : BitVec 32 := 0x03
def STORE : BitVec 32 := 0x23
def JALR : BitVec 32 := 0x67
def LOAD_FP : BitVec 32 := 0x07
def STORE_FP : BitVec 32 := 0x27

/-- The CJ format's jump offset: an 11-bit signed value scaled by 2. -/
def cjOffset (i : BitVec 32) : BitVec 32 :=
  let imm := (bits i 12 12 <<< 11) ||| (bits i 8 8 <<< 10) |||
    (bits i 10 9 <<< 8) ||| (bits i 6 6 <<< 7) ||| (bits i 7 7 <<< 6) |||
    (bits i 2 2 <<< 5) ||| (bits i 11 11 <<< 4) ||| (bits i 5 3 <<< 1)
  sext imm 12

/-- The CB format's branch offset: an 8-bit signed value scaled by 2. -/
def cbOffset (i : BitVec 32) : BitVec 32 :=
  let imm := (bits i 12 12 <<< 8) ||| (bits i 6 5 <<< 6) |||
    (bits i 2 2 <<< 5) ||| (bits i 11 10 <<< 3) ||| (bits i 4 3 <<< 1)
  sext imm 9

/-- The scaled-by-four offset of C.LW, C.SW, C.FLW and C.FSW. -/
def wordOffset (i : BitVec 32) : BitVec 32 :=
  (bits i 5 5 <<< 6) ||| (bits i 12 10 <<< 3) ||| (bits i 6 6 <<< 2)

/-- The scaled-by-eight offset of C.LD, C.SD, C.FLD and C.FSD. -/
def doubleOffset (i : BitVec 32) : BitVec 32 :=
  (bits i 6 5 <<< 6) ||| (bits i 12 10 <<< 3)

def loadSpWord (i : BitVec 32) : BitVec 32 :=
  (bits i 3 2 <<< 6) ||| (bits i 12 12 <<< 5) ||| (bits i 6 4 <<< 2)

def loadSpDouble (i : BitVec 32) : BitVec 32 :=
  (bits i 4 2 <<< 6) ||| (bits i 12 12 <<< 5) ||| (bits i 6 5 <<< 3)

def storeSpWord (i : BitVec 32) : BitVec 32 :=
  (bits i 8 7 <<< 6) ||| (bits i 12 9 <<< 2)

def storeSpDouble (i : BitVec 32) : BitVec 32 :=
  (bits i 9 7 <<< 6) ||| (bits i 12 10 <<< 3)

def ciImm (i : BitVec 32) : BitVec 32 :=
  (bits i 12 12 <<< 5) ||| bits i 6 2

/-! ## The three quadrants -/

/-- Quadrant 0: loads and stores off a pointer, plus the stack helper. -/
def quadrant0 (i : BitVec 32) (rv64 : Bool) : Option (BitVec 32) :=
  match (bits i 15 13).toNat with
  | 0b000 =>
      -- C.ADDI4SPN.  An all-zero halfword lands here and is illegal.
      let imm := (bits i 10 7 <<< 6) ||| (bits i 12 11 <<< 4) |||
        (bits i 5 5 <<< 3) ||| (bits i 6 6 <<< 2)
      if imm = 0 then none else some (iType OP_IMM 0x0 (rp i 2) 2 imm)
  | 0b010 => some (iType LOAD 0x2 (rp i 2) (rp i 7) (wordOffset i))
  | 0b011 =>
      if rv64 then some (iType LOAD 0x3 (rp i 2) (rp i 7) (doubleOffset i))
      else some (iType LOAD_FP 0x2 (rp i 2) (rp i 7) (wordOffset i))
  | 0b001 => some (iType LOAD_FP 0x3 (rp i 2) (rp i 7) (doubleOffset i))
  | 0b101 => some (sType STORE_FP 0x3 (rp i 7) (rp i 2) (doubleOffset i))
  | 0b110 => some (sType STORE 0x2 (rp i 7) (rp i 2) (wordOffset i))
  | 0b111 =>
      if rv64 then some (sType STORE 0x3 (rp i 7) (rp i 2) (doubleOffset i))
      else some (sType STORE_FP 0x2 (rp i 7) (rp i 2) (wordOffset i))
  | _ => none

def quadrant1Alu (i : BitVec 32) (rv64 : Bool) : Option (BitVec 32) :=
  let shamt := ciImm i
  match (bits i 11 10).toNat with
  | 0b00 =>
      if !rv64 && 32 ≤ shamt then none
      else some (iType OP_IMM 0x5 (rp i 7) (rp i 7) (0x000 ||| shamt))
  | 0b01 =>
      if !rv64 && 32 ≤ shamt then none
      else some (iType OP_IMM 0x5 (rp i 7) (rp i 7) (0x400 ||| shamt))
  | 0b10 => some (iType OP_IMM 0x7 (rp i 7) (rp i 7) (sext (ciImm i) 6))
  | _ =>
      let d := rp i 7
      let s := rp i 2
      match (bits i 12 12).toNat, (bits i 6 5).toNat with
      | 0, 0b00 => some (rType OP 0x0 0x20 d d s)
      | 0, 0b01 => some (rType OP 0x4 0x00 d d s)
      | 0, 0b10 => some (rType OP 0x6 0x00 d d s)
      | 0, 0b11 => some (rType OP 0x7 0x00 d d s)
      | 1, 0b00 => if rv64 then some (rType OP32 0x0 0x20 d d s) else none
      | 1, 0b01 => if rv64 then some (rType OP32 0x0 0x00 d d s) else none
      | _, _ => none

/-- Quadrant 1: immediate arithmetic and control flow. -/
def quadrant1 (i : BitVec 32) (rv64 : Bool) : Option (BitVec 32) :=
  let rd := bits i 11 7
  match (bits i 15 13).toNat with
  | 0b000 => some (iType OP_IMM 0x0 rd rd (sext (ciImm i) 6))
  | 0b001 =>
      if rv64 then
        -- C.ADDIW with rd = x0 is reserved.
        if rd = 0 then none
        else some (iType OP_IMM32 0x0 rd rd (sext (ciImm i) 6))
      else some (jType 1 (cjOffset i))
  | 0b010 => some (iType OP_IMM 0x0 rd 0 (sext (ciImm i) 6))
  | 0b011 =>
      if rd = 2 then
        -- C.ADDI16SP
        let imm := (bits i 12 12 <<< 9) ||| (bits i 4 3 <<< 7) |||
          (bits i 5 5 <<< 6) ||| (bits i 2 2 <<< 5) ||| (bits i 6 6 <<< 4)
        if imm = 0 then none else some (iType OP_IMM 0x0 2 2 (sext imm 10))
      else
        -- C.LUI
        if ciImm i = 0 ∨ rd = 0 then none
        else some (uType 0x37 rd (sext (ciImm i) 6 <<< 12))
  | 0b100 => quadrant1Alu i rv64
  | 0b101 => some (jType 0 (cjOffset i))
  | 0b110 => some (bType 0x0 (rp i 7) 0 (cbOffset i))
  | _ => some (bType 0x1 (rp i 7) 0 (cbOffset i))

/-- Quadrant 2: stack-pointer-relative access and the register moves. -/
def quadrant2 (i : BitVec 32) (rv64 : Bool) : Option (BitVec 32) :=
  let rd := bits i 11 7
  let rs2 := bits i 6 2
  match (bits i 15 13).toNat with
  | 0b000 =>
      if !rv64 && 32 ≤ ciImm i then none
      else some (iType OP_IMM 0x1 rd rd (ciImm i))
  | 0b010 =>
      -- C.LWSP with rd = x0 is reserved.
      if rd = 0 then none else some (iType LOAD 0x2 rd 2 (loadSpWord i))
  | 0b011 =>
      if rv64 then
        if rd = 0 then none else some (iType LOAD 0x3 rd 2 (loadSpDouble i))
      else some (iType LOAD_FP 0x2 rd 2 (loadSpWord i))
  | 0b100 =>
      if bits i 12 12 = 0 then
        if rd = 0 then none
        else if rs2 = 0 then some (iType JALR 0x0 0 rd 0)
        else some (rType OP 0x0 0x00 rd 0 rs2)
      else if rd = 0 ∧ rs2 = 0 then some 0x00100073
      else if rs2 = 0 then some (iType JALR 0x0 1 rd 0)
      else some (rType OP 0x0 0x00 rd rd rs2)
  | 0b001 => some (iType LOAD_FP 0x3 rd 2 (loadSpDouble i))
  | 0b101 => some (sType STORE_FP 0x3 2 rs2 (storeSpDouble i))
  | 0b110 => some (sType STORE 0x2 2 rs2 (storeSpWord i))
  | _ =>
      if rv64 then some (sType STORE 0x3 2 rs2 (storeSpDouble i))
      else some (sType STORE_FP 0x2 2 rs2 (storeSpWord i))

end Compress

/-- Expands one 16-bit instruction, or fails if the encoding is illegal or
reserved at this width. -/
def decompress (i : BitVec 32) (xlen : Xlen) : Option (BitVec 32) :=
  let rv64 := xlen == .rv64
  match (Compress.bits i 1 0).toNat with
  | 0b00 => Compress.quadrant0 i rv64
  | 0b01 => Compress.quadrant1 i rv64
  | 0b10 => Compress.quadrant2 i rv64
  | _ => none

end Nanoemu
