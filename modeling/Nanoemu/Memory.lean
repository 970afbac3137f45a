import Nanoemu.Plic
import Nanoemu.Trap
import Nanoemu.Uart
import Nanoemu.Width

/-!
# Physical memory and the memory map

Flat little-endian DRAM, the CLINT, the PLIC, the UART and the `tohost`
handshake.  An access that lands in neither DRAM nor a device is `Unmapped`.
-/

namespace Nanoemu

open CheckedProgram

def DRAM_BASE : BitVec 64 := 0x80000000

def CLINT_BASE : BitVec 64 := 0x02000000
def CLINT_END : BitVec 64 := CLINT_BASE + 0xC000
def CLINT_MSIP : BitVec 64 := CLINT_BASE
def CLINT_MTIMECMP : BitVec 64 := CLINT_BASE + 0x4000
def CLINT_MTIME : BitVec 64 := CLINT_BASE + 0xBFF8

/-- A byte array: `byte i` is meaningful below `len`. -/
structure Dram where
  len : ℕ
  byte : ℕ → BitVec 8

namespace Dram

def loadLe (dram : Dram) (i : ℕ) : ℕ → BitVec 64
  | 0 => 0
  | count + 1 =>
      (dram.byte i).setWidth 64 ||| (dram.loadLe (i + 1) count <<< 8)

def leByte (value : BitVec 64) (k : ℕ) : BitVec 8 :=
  (value >>> (8 * k)).setWidth 8

def storeLe (dram : Dram) (i count : ℕ) (value : BitVec 64) : Dram :=
  { dram with
    byte := fun j =>
      if i ≤ j ∧ j < i + count then leByte value (j - i) else dram.byte j }

/-- Reading a slice that reaches past the end panics. -/
def read (dram : Dram) (i count : ℕ) : Checked (BitVec 64) :=
  if i + count ≤ dram.len then pure (dram.loadLe i count) else Checked.panic

def write (dram : Dram) (i count : ℕ) (value : BitVec 64) : Checked Dram :=
  if i + count ≤ dram.len then pure (dram.storeLe i count value)
  else Checked.panic

end Dram

/-- The core-local interruptor. -/
structure Clint where
  msip : BitVec 32
  mtimecmp : BitVec 64
  mtime : BitVec 64
deriving DecidableEq, Repr

namespace Clint

def default : Clint :=
  { msip := 0, mtimecmp := 0, mtime := 0 }

def field (clint : Clint) (addr : BitVec 64) : BitVec 64 × BitVec 64 :=
  if CLINT_MTIME ≤ addr then (CLINT_MTIME, clint.mtime)
  else if CLINT_MTIMECMP ≤ addr then (CLINT_MTIMECMP, clint.mtimecmp)
  else (CLINT_MSIP, clint.msip.setWidth 64)

def bitOffset (addr base : BitVec 64) : Checked ℕ := do
  let offset ← Checked.sub addr base
  let shift ← Checked.mul offset 8
  pure shift.toNat

/-- The low `size` bytes of a word as a mask. -/
def lowMask (size : ℕ) : Checked (BitVec 64) := do
  let width ← Checked.umul 64 size 8
  let top ← Checked.shl 1#64 width
  Checked.sub top 1

def read (clint : Clint) (addr : BitVec 64) (size : ℕ) :
    Checked (BitVec 64) := do
  let (base, full) := clint.field addr
  let shift ← bitOffset addr base
  let v ← Checked.shr full shift
  if 8 ≤ size then pure v
  else do
    let mask ← lowMask size
    pure (v &&& mask)

def write (clint : Clint) (addr : BitVec 64) (size : ℕ) (value : BitVec 64) :
    Checked Clint := do
  let (base, full) := clint.field addr
  let shift ← bitOffset addr base
  let mask ←
    if 8 ≤ size then pure (BitVec.allOnes 64)
    else do
      let low ← lowMask size
      Checked.shl low shift
  let raised ← Checked.shl value shift
  let merged := (full &&& ~~~mask) ||| (raised &&& mask)
  pure <|
    if base = CLINT_MSIP then
      { clint with msip := merged.setWidth 32 &&& 1 }
    else if base = CLINT_MTIMECMP then { clint with mtimecmp := merged }
    else { clint with mtime := merged }

end Clint

/-! ## The memory map -/

structure Memory where
  dram : Dram
  clint : Clint
  plic : Plic
  uart : Uart
  /-- Address the payload writes to signal termination, if it declares one. -/
  tohost : Option (BitVec 64)
  /-- Last value written to `tohost`. -/
  tohostValue : Option (BitVec 64)
  /-- Set whenever a device register is touched. -/
  devicesDirty : Bool

namespace Memory

def new (size : ℕ) : Memory :=
  { dram := { len := size, byte := fun _ => 0 }
    clint := Clint.default
    plic := Plic.default
    uart := Uart.default
    tohost := none
    tohostValue := none
    devicesDirty := true }

/-- The DRAM index of an access, if all of it lies in DRAM. -/
def index (mem : Memory) (addr : BitVec 64) (size : ℕ) : Option ℕ :=
  if addr < DRAM_BASE then none
  else
    let off := addr.toNat - DRAM_BASE.toNat
    if 2 ^ 64 ≤ off + size then none
    else if mem.dram.len < off + size then none
    else some off

def validSize (size : ℕ) : Bool :=
  size == 1 || size == 2 || size == 4 || size == 8

def touchDevices : Program Memory Unmapped Unit :=
  Program.update fun mem => { mem with devicesDirty := true }

/-- Reads physical memory or a device; a device read can have side effects. -/
def read (addr : BitVec 64) (size : ℕ) :
    Program Memory Unmapped (BitVec 64) := do
  if DRAM_BASE ≤ addr then
    match ← Program.read fun mem => mem.index addr size with
    | none => Program.fail .unmapped
    | some i =>
        if validSize size then do
          let dram ← Program.read Memory.dram
          Program.check (dram.read i size)
        else Program.fail .unmapped
  else do
    touchDevices
    let mem ← Program.read id
    if CLINT_BASE ≤ addr ∧ addr < CLINT_END then
      Program.check (mem.clint.read addr size)
    else if Plic.PLIC_BASE ≤ addr ∧ addr < Plic.PLIC_BASE + Plic.PLIC_SIZE then do
      let (v, plic) := mem.plic.read (addr - Plic.PLIC_BASE)
      Program.update fun mem => { mem with plic := plic }
      pure v
    else if Uart.UART_BASE ≤ addr ∧ addr < Uart.UART_BASE + Uart.UART_SIZE then do
      let (v, uart) := mem.uart.read (addr - Uart.UART_BASE)
      Program.update fun mem => { mem with uart := uart }
      pure v
    else Program.fail .unmapped

/-- A store to the `tohost` address of anything but zero is recorded. -/
def noteTohost (mem : Memory) (addr value : BitVec 64) : Memory :=
  if mem.tohost = some addr ∧ value ≠ 0 then
    { mem with tohostValue := some value }
  else mem

def write (addr : BitVec 64) (size : ℕ) (value : BitVec 64) :
    Program Memory Unmapped Unit := do
  if DRAM_BASE ≤ addr then
    match ← Program.read fun mem => mem.index addr size with
    | none => Program.fail .unmapped
    | some i =>
        if validSize size then do
          let dram ← Program.read Memory.dram
          let dram ← Program.check (dram.write i size value)
          Program.update fun mem =>
            noteTohost { mem with dram := dram } addr value
        else Program.fail .unmapped
  else do
    touchDevices
    let mem ← Program.read id
    if CLINT_BASE ≤ addr ∧ addr < CLINT_END then do
      let clint ← Program.check (mem.clint.write addr size value)
      Program.update fun mem => { mem with clint := clint }
    else if Plic.PLIC_BASE ≤ addr ∧ addr < Plic.PLIC_BASE + Plic.PLIC_SIZE then
      Program.update fun mem =>
        { mem with plic := mem.plic.write (addr - Plic.PLIC_BASE) value }
    else if Uart.UART_BASE ≤ addr ∧ addr < Uart.UART_BASE + Uart.UART_SIZE then
      Program.update fun mem =>
        { mem with uart := mem.uart.write (addr - Uart.UART_BASE) value }
    else Program.fail .unmapped

end Memory

end Nanoemu
