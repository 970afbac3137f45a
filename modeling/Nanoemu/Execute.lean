import Nanoemu.Cpu
import Nanoemu.Decode

/-!
# Executing one instruction

One definition for each group of opcodes, and `execute` which dispatches on
them.  Every group decides whether its instruction is legal before it touches
memory or a register, except where the source does otherwise.
-/

namespace Nanoemu

open CheckedProgram

namespace Cpu

def illegal {α : Type} (inst : BitVec 32) : Hart α :=
  Program.fail (.illegalInstruction inst)

/-- The integer ALU, computed at `width` bits and sign-extended to 64. -/
def alu (f3 f7 : BitVec 32) (a b : BitVec 64) (width : ℕ) :
    Checked (Option (BitVec 64)) := do
  let shamt := (b &&& BitVec.ofNat 64 (width - 1)).toNat
  let sa ← sext a width
  let sb ← sext b width
  let v : Option (BitVec 64) ←
    match f3.toNat, f7.toNat with
    | 0x0, 0x00 => pure (some (a + b))
    | 0x0, 0x20 => pure (some (a - b))
    | 0x1, 0x00 => some <$> Checked.shl a shamt
    | 0x2, 0x00 => pure (some (boolWord (sa.slt sb)))
    | 0x3, 0x00 => pure (some (boolWord (trunc a width < trunc b width)))
    | 0x4, 0x00 => pure (some (a ^^^ b))
    | 0x5, 0x00 => some <$> Checked.shr (trunc a width) shamt
    | 0x5, 0x20 => some <$> Checked.sshr sa shamt
    | 0x6, 0x00 => pure (some (a ||| b))
    | 0x7, 0x00 => pure (some (a &&& b))
    | _, _ => pure none
  match v with
  | none => pure none
  | some v => some <$> sext v width

/-- A signed product in a `wide`-bit type, shifted down by `width`. -/
def mulHigh (wide : ℕ) (a b : ℤ) (width : ℕ) : Checked (BitVec 64) := do
  let prod ← Checked.imul wide a b
  pure (BitVec.ofInt 64 (prod / 2 ^ width))

def mulHighU (wide a b width : ℕ) : Checked (BitVec 64) := do
  let prod ← Checked.umul wide a b
  pure (BitVec.ofNat 64 (prod / 2 ^ width))

/-- The M extension at `width` bits.  The high-half multiplies have no W form,
but at `width = 32` they are computed in 64-bit arithmetic. -/
def muldiv (f3 : BitVec 32) (a b : BitVec 64) (width : ℕ) :
    Checked (Option (BitVec 64)) := do
  let sa ← sext a width
  let sb ← sext b width
  let ua := trunc a width
  let ub := trunc b width
  let v : Option (BitVec 64) ←
    match f3.toNat with
    | 0x0 => pure (some (a * b))
    | 0x1 =>
        if width = 64 then some <$> mulHigh 128 sa.toInt sb.toInt 64
        else if width = 32 then some <$> mulHigh 64 sa.toInt sb.toInt 32
        else pure none
    | 0x2 =>
        if width = 64 then some <$> mulHigh 128 sa.toInt ub.toNat 64
        else if width = 32 then some <$> mulHigh 64 sa.toInt ub.toInt 32
        else pure none
    | 0x3 =>
        if width = 64 then some <$> mulHighU 128 ua.toNat ub.toNat 64
        else if width = 32 then some <$> mulHighU 64 ua.toNat ub.toNat 32
        else pure none
    | 0x4 => pure (some (if sb = 0 then BitVec.allOnes 64 else sa.sdiv sb))
    | 0x5 => pure (some (if ub = 0 then BitVec.allOnes 64 else ua / ub))
    | 0x6 => pure (some (if sb = 0 then sa else sa.srem sb))
    | 0x7 => pure (some (if ub = 0 then ua else ua % ub))
    | _ => pure none
  match v with
  | none => pure none
  | some v => some <$> sext v width

def writeUnit (inst : BitVec 32) (v : Option (BitVec 64)) : Hart Unit :=
  match v with
  | none => illegal inst
  | some v => wr (rd inst) v

/-- OP-IMM and OP-IMM-32; the 32-bit forms are RV64 only. -/
def executeOpImm (inst : BitVec 32) : Hart Unit := do
  let c ← Program.read id
  let word := opcode inst = 0x1b
  let width := if word then 32 else c.xbits
  let f3 := funct3 inst
  let f7 := funct7 inst
  let isShift := f3 = 0x1 ∨ f3 = 0x5
  if word ∧ c.xbits = 32 then illegal inst
  else if isShift ∧ width = 32 ∧ f7 &&& 1 ≠ 0 then
    -- A 32-bit shift takes a 5-bit amount, so bit 25 must be clear.
    illegal inst
  else do
    let b :=
      if isShift then ((inst >>> 20) &&& 0x3f).setWidth 64
      else widen (immI inst)
    let sel := if isShift then f7 &&& ~~~1 else 0
    let v ← Program.check (alu f3 sel (c.rr (rs1 inst)) b width)
    writeUnit inst v

/-- OP and OP-32; the 32-bit forms are RV64 only. -/
def executeOp (inst : BitVec 32) : Hart Unit := do
  let c ← Program.read id
  let word := opcode inst = 0x3b
  let width := if word then 32 else c.xbits
  if word ∧ c.xbits = 32 then illegal inst
  else do
    let a := c.rr (rs1 inst)
    let b := c.rr (rs2 inst)
    let v ← Program.check
      (if funct7 inst = 0x01 then muldiv (funct3 inst) a b width
        else alu (funct3 inst) (funct7 inst) a b width)
    writeUnit inst v

def setPc (pc : BitVec 64) : Hart Unit :=
  Program.update fun c => { c with pc := pc }

def executeJal (inst : BitVec 32) (instPc nextPc : BitVec 64) : Hart Unit := do
  wr (rd inst) nextPc
  setPc (instPc + widen (immJ inst))

/-- The low bit of the target is cleared after the addition. -/
def executeJalr (inst : BitVec 32) (nextPc : BitVec 64) : Hart Unit := do
  let c ← Program.read id
  let target := (c.rr (rs1 inst) + widen (immI inst)) &&& ~~~1
  wr (rd inst) nextPc
  setPc (trunc target c.xbits)

/-- Whether a branch is taken; two encodings are reserved. -/
def branchTaken (f3 : BitVec 32) (a b sa sb : BitVec 64) : Option Bool :=
  match f3.toNat with
  | 0x0 => some (a == b)
  | 0x1 => some (a != b)
  | 0x4 => some (sa.slt sb)
  | 0x5 => some (!sa.slt sb)
  | 0x6 => some (a < b)
  | 0x7 => some (b ≤ a)
  | _ => none

def executeBranch (inst : BitVec 32) (instPc : BitVec 64) : Hart Unit := do
  let c ← Program.read id
  let sa ← Program.check (c.rs (rs1 inst))
  let sb ← Program.check (c.rs (rs2 inst))
  match branchTaken (funct3 inst) (c.rr (rs1 inst)) (c.rr (rs2 inst)) sa sb with
  | none => illegal inst
  | some taken =>
      if taken then setPc (trunc (instPc + widen (immB inst)) c.xbits)
      else pure ()

/-- The size of a load and the width it is sign-extended from; an unsigned
load keeps all 64 bits of what was read. -/
def loadForm (f3 : BitVec 32) (xlen : Xlen) : Option (ℕ × ℕ) :=
  match f3.toNat with
  | 0x0 => some (1, 8)
  | 0x1 => some (2, 16)
  | 0x2 => some (4, 32)
  | 0x3 => if xlen = .rv64 then some (8, 64) else none
  | 0x4 => some (1, 64)
  | 0x5 => some (2, 64)
  | 0x6 => if xlen = .rv64 then some (4, 64) else none
  | _ => none

def executeLoad (inst : BitVec 32) : Hart Unit := do
  let c ← Program.read id
  let addr := trunc (c.rr (rs1 inst) + widen (immI inst)) c.xbits
  match loadForm (funct3 inst) c.xlen with
  | none => illegal inst
  | some (size, width) => do
      let v ← readMem addr size
      let v ← Program.check (sext v width)
      wr (rd inst) v

def storeSize (f3 : BitVec 32) (xlen : Xlen) : Option ℕ :=
  match f3.toNat with
  | 0x0 => some 1
  | 0x1 => some 2
  | 0x2 => some 4
  | 0x3 => if xlen = .rv64 then some 8 else none
  | _ => none

def executeStore (inst : BitVec 32) : Hart Unit := do
  let c ← Program.read id
  let addr := trunc (c.rr (rs1 inst) + widen (immS inst)) c.xbits
  match storeSize (funct3 inst) c.xlen with
  | none => illegal inst
  | some size => writeMem addr size (c.rr (rs2 inst))

def amoWidth (f3 : BitVec 32) (xlen : Xlen) : Option ℕ :=
  match f3.toNat with
  | 0x2 => some 32
  | 0x3 => if xlen = .rv64 then some 64 else none
  | _ => none

/-- The new memory value of a read-modify-write operation: `a` is the
sign-extended old value and `b` the register operand. -/
def amoOp (op : BitVec 32) (a b : BitVec 64) (width : ℕ) :
    Checked (Option (BitVec 64)) := do
  let sb ← sext b width
  let ua := trunc a width
  let ub := trunc b width
  pure <|
    match op.toNat with
    | 0x00 => some (a + b)
    | 0x01 => some b
    | 0x04 => some (a ^^^ b)
    | 0x08 => some (a ||| b)
    | 0x0c => some (a &&& b)
    | 0x10 => some (if sb.slt a then sb else a)
    | 0x14 => some (if sb.slt a then a else sb)
    | 0x18 => some (if ub < ua then ub else ua)
    | 0x1c => some (if ub < ua then ua else ub)
    | _ => none

def setReservation (reservation : Option (BitVec 64)) : Hart Unit :=
  Program.update fun c => { c with reservation := reservation }

def executeLr (inst : BitVec 32) (addr : BitVec 64) (width : ℕ) :
    Hart Unit := do
  if rs2 inst ≠ 0 then illegal inst
  else do
    let v ← readMem addr (width / 8)
    let v ← Program.check (sext v width)
    setReservation (some addr)
    wr (rd inst) v

/-- SC writes 0 to rd on success and 1 on failure, and clears the reservation
either way. -/
def executeSc (inst : BitVec 32) (addr : BitVec 64) (width : ℕ) :
    Hart Unit := do
  let c ← Program.read id
  let ok := c.reservation == some addr
  if ok then writeMem addr (width / 8) (c.rr (rs2 inst)) else pure ()
  setReservation none
  wr (rd inst) (boolWord !ok)

def executeRmw (inst : BitVec 32) (addr : BitVec 64) (width : ℕ) :
    Hart Unit := do
  let old ← readMem addr (width / 8)
  let a ← Program.check (sext old width)
  let c ← Program.read id
  let new ← Program.check
    (amoOp (funct7 inst >>> 2) a (c.rr (rs2 inst)) width)
  match new with
  | none => illegal inst
  | some new => do
      writeMem addr (width / 8) new
      -- rd gets the value that was in memory beforehand.
      wr (rd inst) a

/-- The A extension.  Atomics must be naturally aligned. -/
def executeAmo (inst : BitVec 32) : Hart Unit := do
  let c ← Program.read id
  match amoWidth (funct3 inst) c.xlen with
  | none => illegal inst
  | some width =>
      let addr := c.rr (rs1 inst)
      if addr.toNat % (width / 8) ≠ 0 then
        Program.fail (.storeAddressMisaligned addr)
      else if funct7 inst >>> 2 = 0x02 then executeLr inst addr width
      else if funct7 inst >>> 2 = 0x03 then executeSc inst addr width
      else executeRmw inst addr width

/-! ## Floating point -/

def fpFmt (bits : ℕ) : Option Fpu.Fmt :=
  match bits with
  | 0 => some Fpu.S
  | 1 => some Fpu.D
  | _ => none

/-- Reads an operand in `fmt`, unboxing a single-precision one. -/
def freg (c : Cpu) (fmt : Fpu.Fmt) (r : Fin 32) : ℕ :=
  if fmt = Fpu.S then (unbox (c.fregs r)).toNat else (c.fregs r).toNat

/-- Writes a register, which makes the floating-point state dirty. -/
def fw (r : Fin 32) (v : BitVec 64) : Hart Unit :=
  Program.update fun c => c.setFreg r v

/-- Writes a result in `fmt`, boxing a single-precision one. -/
def writeFreg (fmt : Fpu.Fmt) (r : Fin 32) (v : ℕ) : Hart Unit :=
  fw r (if fmt = Fpu.S then box32 (BitVec.ofNat 64 v) else BitVec.ofNat 64 v)

def accrue (flags : ℕ) : Hart Unit :=
  Program.update fun c => c.setFflags flags

def writeFp (fmt : Fpu.Fmt) (r : Fin 32) (result : ℕ × ℕ) : Hart Unit := do
  writeFreg fmt r result.1
  accrue result.2

def executeFpMem (inst : BitVec 32) : Hart Unit := do
  let c ← Program.read id
  let store := opcode inst = 0x27
  let offset := if store then immS inst else immI inst
  let addr := trunc (c.rr (rs1 inst) + widen offset) c.xbits
  if !c.fpEnabled then illegal inst
  else if funct3 inst = 0x2 then
    if store then writeMem addr 4 (c.fregs (rs2 inst))
    else do
      let v ← readMem addr 4
      fw (rd inst) (box32 v)
  else if funct3 inst = 0x3 then
    if store then writeMem addr 8 (c.fregs (rs2 inst))
    else do
      let v ← readMem addr 8
      fw (rd inst) v
  else illegal inst

/-- The fused multiply-add family: whether the product and whether the addend
is negated. -/
def fmaSigns (op : BitVec 32) : Bool × Bool :=
  if op = 0x43 then (false, false)
  else if op = 0x47 then (false, true)
  else if op = 0x4b then (true, false)
  else (true, true)

def executeFma (inst : BitVec 32) : Hart Unit := do
  let c ← Program.read id
  match fpFmt (funct7 inst &&& 0x3).toNat, c.rounding (funct3 inst) with
  | some fmt, some rm =>
      if c.fpEnabled then do
        let (negProduct, negAddend) := fmaSigns (opcode inst)
        let result ← Program.check
          (Fpu.fma fmt (c.freg fmt (rs1 inst)) (c.freg fmt (rs2 inst))
            (c.freg fmt (rs3 inst)) negProduct negAddend rm)
        writeFp fmt (rd inst) result
      else illegal inst
  | _, _ => illegal inst

def fpArith (op : ℕ) (fmt : Fpu.Fmt) (a b : ℕ) (rm : Fpu.Rm) :
    Checked (ℕ × ℕ) :=
  match op with
  | 0x00 => Fpu.add fmt a b rm
  | 0x01 => Fpu.sub fmt a b rm
  | 0x02 => Fpu.mul fmt a b rm
  | _ => Fpu.div fmt a b rm

/-- The sign bit FSGNJ, FSGNJN and FSGNJX give the result. -/
def fpSign (f3 : BitVec 32) (fmt : Fpu.Fmt) (a b : ℕ) : Option ℕ :=
  match f3.toNat with
  | 0x0 => some (b &&& fmt.signMask)
  | 0x1 => some ((2 ^ 64 - 1 - b) &&& fmt.signMask)
  | 0x2 => some ((a ^^^ b) &&& fmt.signMask)
  | _ => none

def fpCompare (f3 : BitVec 32) (fmt : Fpu.Fmt) (a b : ℕ) :
    Option (Checked (Bool × ℕ)) :=
  match f3.toNat with
  | 0x0 => some (Fpu.lt fmt a b true)
  | 0x1 => some (Fpu.lt fmt a b false)
  | 0x2 => some (Fpu.eq fmt a b)
  | _ => none

/-- The width and signedness `rs2` selects in an integer conversion; the
64-bit forms do not exist on RV32. -/
def fcvtForm (rs2 : Fin 32) (xlen : Xlen) : Option (ℕ × Bool) :=
  match rs2.val with
  | 0 => some (32, true)
  | 1 => some (32, false)
  | 2 => if xlen = .rv64 then some (64, true) else none
  | 3 => if xlen = .rv64 then some (64, false) else none
  | _ => none

def fcvtSource (src : BitVec 64) (width : ℕ) (signed : Bool) :
    Checked (Bool × ℕ) := do
  if signed then do
    let v ← sext src width
    pure (v.toInt < 0, v.toInt.natAbs)
  else pure (false, (trunc src width).toNat)

def executeFmvX (inst : BitVec 32) (fmt : Fpu.Fmt) : Hart Unit := do
  let c ← Program.read id
  if rs2 inst ≠ 0 then illegal inst
  else if funct3 inst = 0x0 ∧ fmt = Fpu.S then do
    let v ← Program.check (sext (c.fregs (rs1 inst)) 32)
    wr (rd inst) v
  else if funct3 inst = 0x0 ∧ c.xbits = 64 then
    wr (rd inst) (c.fregs (rs1 inst))
  else if funct3 inst = 0x1 then do
    let v ← Program.check (Fpu.classify fmt (c.freg fmt (rs1 inst)))
    wr (rd inst) (BitVec.ofNat 64 v)
  else illegal inst

def executeFmvF (inst : BitVec 32) (fmt : Fpu.Fmt) : Hart Unit := do
  let c ← Program.read id
  if rs2 inst ≠ 0 ∨ funct3 inst ≠ 0 then illegal inst
  else if fmt = Fpu.S then fw (rd inst) (box32 (c.rr (rs1 inst)))
  else if c.xbits = 64 then fw (rd inst) (c.rr (rs1 inst))
  else illegal inst

/-- The operations of OP-FP, once the format is known; `rm` is the resolved
rounding mode, if the field names one. -/
def executeFpOp (inst : BitVec 32) (fmt : Fpu.Fmt) (rm : Option Fpu.Rm) :
    Hart Unit := do
  let c ← Program.read id
  let a := c.freg fmt (rs1 inst)
  let b := c.freg fmt (rs2 inst)
  match (funct7 inst >>> 2).toNat, rm with
  | 0x00, some rm | 0x01, some rm | 0x02, some rm | 0x03, some rm => do
      let result ← Program.check
        (fpArith (funct7 inst >>> 2).toNat fmt a b rm)
      writeFp fmt (rd inst) result
  | 0x0b, some rm =>
      if rs2 inst ≠ 0 then illegal inst
      else do
        let result ← Program.check (Fpu.sqrt fmt a rm)
        writeFp fmt (rd inst) result
  | 0x04, _ =>
      match fpSign (funct3 inst) fmt a b with
      | none => illegal inst
      | some sign =>
          writeFreg fmt (rd inst) ((a &&& (2 ^ 64 - 1 - fmt.signMask)) ||| sign)
  | 0x05, _ =>
      if 1 < funct3 inst then illegal inst
      else do
        let result ← Program.check (Fpu.minMax fmt a b (funct3 inst = 1))
        writeFp fmt (rd inst) result
  | 0x08, some rm =>
      -- fmt names the destination and rs2 the source.
      match fpFmt (rs2 inst).val with
      | none => illegal inst
      | some source =>
          if source = fmt then illegal inst
          else do
            let result ← Program.check
              (Fpu.convert source fmt (c.freg source (rs1 inst)) rm)
            writeFp fmt (rd inst) result
  | 0x14, _ =>
      match fpCompare (funct3 inst) fmt a b with
      | none => illegal inst
      | some comparison => do
          let (v, flags) ← Program.check comparison
          wr (rd inst) (boolWord v)
          accrue flags
  | 0x18, some rm =>
      match fcvtForm (rs2 inst) c.xlen with
      | none => illegal inst
      | some (width, signed) => do
          let (v, flags) ← Program.check (Fpu.toInt fmt a width signed rm)
          let v ← Program.check (sext (BitVec.ofNat 64 v) width)
          wr (rd inst) v
          accrue flags
  | 0x1a, some rm =>
      match fcvtForm (rs2 inst) c.xlen with
      | none => illegal inst
      | some (width, signed) => do
          let (sign, magnitude) ← Program.check
            (fcvtSource (c.rr (rs1 inst)) width signed)
          let result ← Program.check (Fpu.fromInt fmt sign magnitude rm)
          writeFp fmt (rd inst) result
  | 0x1c, _ => executeFmvX inst fmt
  | 0x1e, _ => executeFmvF inst fmt
  | _, _ => illegal inst

/-- OP-FP: arithmetic, comparisons, conversions and the register moves. -/
def executeOpFp (inst : BitVec 32) : Hart Unit := do
  let c ← Program.read id
  if !c.fpEnabled then illegal inst
  else
    match fpFmt (funct7 inst &&& 0x3).toNat with
    | none => illegal inst
    | some fmt => executeFpOp inst fmt (c.rounding (funct3 inst))

end Cpu

end Nanoemu
