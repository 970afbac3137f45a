import Nanoemu.CheckedProgram

/-!
# Register widths

Both widths of the hart live in one implementation: registers are 64-bit
words, and a width of 8, 16, 32 or 64 says how many of the low bits count.
-/

namespace Nanoemu

open CheckedProgram

inductive Xlen where
  | rv32
  | rv64
deriving DecidableEq, Repr

def Xlen.bits : Xlen → ℕ
  | .rv32 => 32
  | .rv64 => 64

/-- Sign-extends the low `width` bits of `v` to 64 bits. -/
def sext (v : BitVec 64) (width : ℕ) : Checked (BitVec 64) :=
  if 64 ≤ width then pure v
  else do
    let shift ← Checked.usub 32 64 width
    let raised ← Checked.shl v shift
    Checked.sshr raised shift

/-- Keeps only the low `width` bits.  The guard keeps both the shift and the
subtraction in range. -/
def trunc (v : BitVec 64) (width : ℕ) : BitVec 64 :=
  if 64 ≤ width then v else v &&& ((1#64 <<< width) - 1)

/-- A condition as the register value Rust's `as u64` makes of it. -/
def boolWord (condition : Bool) : BitVec 64 :=
  if condition then 1 else 0

end Nanoemu
