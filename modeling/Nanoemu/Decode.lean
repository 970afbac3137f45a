import Mathlib.Tactic

/-!
# Instruction fields

The bit positions are fixed by the base encoding, so every field and every
immediate can be pulled out of a raw word without knowing the opcode.
-/

namespace Nanoemu

/-- A five-bit field names one of the 32 registers. -/
def regField (v : BitVec 32) : Fin 32 :=
  ⟨(v &&& 0x1f).toNat, by
    rw [BitVec.toNat_and]
    exact lt_of_le_of_lt Nat.and_le_right (by decide)⟩

def opcode (i : BitVec 32) : BitVec 32 := i &&& 0x7f

def rd (i : BitVec 32) : Fin 32 := regField (i >>> 7)

def rs1 (i : BitVec 32) : Fin 32 := regField (i >>> 15)

def rs2 (i : BitVec 32) : Fin 32 := regField (i >>> 20)

def funct3 (i : BitVec 32) : BitVec 32 := (i >>> 12) &&& 0x7

def funct7 (i : BitVec 32) : BitVec 32 := i >>> 25

/-- The third source of the fused multiply-adds: the top five bits of
`funct7`. -/
def rs3 (i : BitVec 32) : Fin 32 := regField (funct7 i >>> 2)

def csr (i : BitVec 32) : BitVec 12 := (i >>> 20).setWidth 12

/-- I-type: sign-extended [31:20]. -/
def immI (i : BitVec 32) : BitVec 32 := i.sshiftRight 20

/-- S-type: sign-extended {[31:25], [11:7]}. -/
def immS (i : BitVec 32) : BitVec 32 :=
  (i.sshiftRight 25 <<< 5) ||| ((i >>> 7) &&& 0x1f)

/-- B-type: sign-extended {[31], [7], [30:25], [11:8], 0}. -/
def immB (i : BitVec 32) : BitVec 32 :=
  (i.sshiftRight 31 <<< 12) ||| (((i >>> 7) &&& 1) <<< 11) |||
    (((i >>> 25) &&& 0x3f) <<< 5) ||| (((i >>> 8) &&& 0xf) <<< 1)

/-- U-type: [31:12] placed in the high bits. -/
def immU (i : BitVec 32) : BitVec 32 := i &&& 0xfffff000

/-- J-type: sign-extended {[31], [19:12], [20], [30:21], 0}. -/
def immJ (i : BitVec 32) : BitVec 32 :=
  (i.sshiftRight 31 <<< 20) ||| (i &&& 0x000ff000) |||
    (((i >>> 20) &&& 1) <<< 11) ||| (((i >>> 21) &&& 0x3ff) <<< 1)

/-- The `as i64 as u64` of an immediate. -/
def widen (imm : BitVec 32) : BitVec 64 := imm.signExtend 64

end Nanoemu
