import Nanoemu.Privileged

/-!
# The Supervisor Binary Interface

The calls a kernel makes into the firmware beneath it, answered here instead
of by a machine-mode program.
-/

namespace Nanoemu

open CheckedProgram

namespace Sbi

def EXT_BASE : BitVec 64 := 0x10
def EXT_TIME : BitVec 64 := 0x54494D45
def EXT_IPI : BitVec 64 := 0x00735049
def EXT_RFENCE : BitVec 64 := 0x52464E43
def EXT_HSM : BitVec 64 := 0x0048534D
def EXT_SRST : BitVec 64 := 0x53525354
def EXT_DBCN : BitVec 64 := 0x4442434E

def LEGACY_SET_TIMER : BitVec 64 := 0x00
def LEGACY_CONSOLE_PUTCHAR : BitVec 64 := 0x01
def LEGACY_CONSOLE_GETCHAR : BitVec 64 := 0x02
def LEGACY_CLEAR_IPI : BitVec 64 := 0x03
def LEGACY_SEND_IPI : BitVec 64 := 0x04
def LEGACY_REMOTE_FENCE_I : BitVec 64 := 0x05
def LEGACY_REMOTE_SFENCE_VMA : BitVec 64 := 0x06
def LEGACY_REMOTE_SFENCE_VMA_ASID : BitVec 64 := 0x07
def LEGACY_SHUTDOWN : BitVec 64 := 0x08

/-- What a call returns: an error code in a0 and a value in a1. -/
structure Ret where
  error : BitVec 64
  value : BitVec 64

def Ret.ok (value : BitVec 64) : Ret := { error := 0, value := value }

def Ret.success : Ret := { error := 0, value := 0 }

def Ret.notSupported : Ret := { error := -2, value := 0 }

/-- Whether `hart` is named by an SBI hart mask. -/
def hartSelected (mask base hart : BitVec 64) : Checked Bool := do
  if base = BitVec.allOnes 64 then pure true
  else if hart < base then pure false
  else
    let bit := (hart - base).toNat
    if bit < 64 then do
      let one ← Checked.shl 1#64 bit
      pure (mask &&& one != 0)
    else pure false

def probed : List (BitVec 64) :=
  [EXT_BASE, EXT_TIME, EXT_IPI, EXT_RFENCE, EXT_HSM, EXT_SRST, EXT_DBCN,
    LEGACY_SET_TIMER, LEGACY_CONSOLE_PUTCHAR, LEGACY_CONSOLE_GETCHAR,
    LEGACY_SHUTDOWN]

end Sbi

namespace Cpu

open Sbi

def setArg (r : Fin 32) (v : BitVec 64) : Hart Unit :=
  Program.update fun c => { c with regs := Function.update c.regs r v }

def a0 : Fin 32 := 10
def a1 : Fin 32 := 11

def onUart (change : Uart → Uart) : Hart Unit :=
  Program.update fun c =>
    { c with mem := { c.mem with uart := change c.mem.uart } }

def setMip (bits : BitVec 64) : Hart Unit :=
  Program.update fun c => { c with csrs := c.csrs.setBits Csr.MIP bits }

def clearMip (bits : BitVec 64) : Hart Unit :=
  Program.update fun c => { c with csrs := c.csrs.clearBits Csr.MIP bits }

def setTimer (deadline : BitVec 64) : Hart Unit :=
  Program.update fun c =>
    { c with
      mem := { c.mem with
        clint := { c.mem.clint with mtimecmp := deadline } }
      timerArmed := true
      csrs := c.csrs.clearBits Csr.MIP IntBit.STIP }

/-- A physical read whose failure is handed to the caller. -/
def tryRead (addr : BitVec 64) (size : ℕ) :
    Hart (Except Unmapped (BitVec 64)) :=
  Program.attempt (onMemory (Memory.read addr size))

/-- The console takes one queued byte; -1 means nothing is waiting. -/
def consoleGetchar : Hart Unit := do
  let c ← Program.read id
  let (byte, uart) := c.mem.uart.takeInput
  onUart fun _ => uart
  setArg a0 (match byte with
    | some b => b.setWidth 64
    | none => -1)

/-- The legacy IPI call takes a pointer to the hart mask; a null pointer means
every hart. -/
def legacySendIpi (pointer : BitVec 64) : Hart Unit := do
  let selected ←
    if pointer = 0 then pure true
    else do
      let mask ← tryRead pointer 8
      pure (match mask with
        | .ok mask => mask &&& 1 != 0
        | .error _ => false)
  if selected then setMip IntBit.SSIP else pure ()
  setArg a0 0

/-- The calls that predate the error and value pair; `false` means the guest
asked to shut down. -/
def handleLegacy (eid arg : BitVec 64) : Hart Bool := do
  if eid = LEGACY_SET_TIMER then do
    setTimer arg
    setArg a0 0
    pure true
  else if eid = LEGACY_CONSOLE_PUTCHAR then do
    onUart fun uart => uart.putchar (arg.setWidth 8)
    setArg a0 0
    pure true
  else if eid = LEGACY_CONSOLE_GETCHAR then do
    consoleGetchar
    pure true
  else if eid = LEGACY_SHUTDOWN then pure false
  else if eid = LEGACY_SEND_IPI then do
    legacySendIpi arg
    pure true
  else if eid = LEGACY_CLEAR_IPI then do
    clearMip IntBit.SSIP
    setArg a0 0
    pure true
  else if eid = LEGACY_REMOTE_FENCE_I ∨ eid = LEGACY_REMOTE_SFENCE_VMA ∨
      eid = LEGACY_REMOTE_SFENCE_VMA_ASID then do
    Program.update flushTlb
    setArg a0 0
    pure true
  else do
    setArg a0 (-2)
    pure true

/-- The copy loop of the debug console: `remaining` bytes are left, the next
is number `i`, and `i` have been written. -/
def consoleWrite (addr : BitVec 64) :
    (remaining : ℕ) → (i : BitVec 64) → Hart (BitVec 64)
  | 0, i => pure i
  | remaining + 1, i => do
      let source ← Program.check (Checked.add addr i)
      match ← tryRead source 1 with
      | .error _ => pure i
      | .ok b => do
          onUart fun uart => uart.putchar (b.setWidth 8)
          let i ← Program.check (Checked.add i 1)
          consoleWrite addr remaining i

/-- The base extension: versions, ids and the probe. -/
def handleBase (fid arg : BitVec 64) : Ret :=
  match fid.toNat with
  | 0 => Ret.ok (2#64 <<< 24)
  | 1 => Ret.ok 3
  | 2 => Ret.ok 1
  | 3 => Ret.ok (boolWord (probed.contains arg))
  | 4 | 5 | 6 => Ret.ok 0
  | _ => Ret.notSupported

/-- The calls that return a pair; `none` means the guest asked to shut down. -/
def handleExtension (eid fid arg0 arg1 : BitVec 64) :
    Hart (Option Ret) := do
  if eid = EXT_BASE then pure (some (handleBase fid arg0))
  else if eid = EXT_TIME ∧ fid = 0 then do
    setTimer arg0
    pure (some Ret.success)
  else if eid = EXT_IPI ∧ fid = 0 then do
    let selected ← Program.check (hartSelected arg0 arg1 0)
    if selected then setMip IntBit.SSIP else pure ()
    pure (some Ret.success)
  else if eid = EXT_RFENCE then do
    Program.update flushTlb
    pure (some Ret.success)
  else if eid = EXT_HSM then
    pure (some (if fid = 2 then Ret.ok 0 else Ret.notSupported))
  else if eid = EXT_SRST ∧ fid = 0 then pure none
  else if eid = EXT_DBCN ∧ fid = 0 then do
    let written ← consoleWrite arg1 arg0.toNat 0
    pure (some (Ret.ok written))
  else if eid = EXT_DBCN ∧ fid = 2 then do
    onUart fun uart => uart.putchar (arg0.setWidth 8)
    pure (some Ret.success)
  else pure (some Ret.notSupported)

/-- Handles one call from supervisor mode.  The result is false if the guest
asked to shut down. -/
def handleSbi : Hart Bool := do
  let c ← Program.read id
  let eid := c.regs 17
  let fid := c.regs 16
  if eid < 0x10 then handleLegacy eid (c.regs a0)
  else do
    match ← handleExtension eid fid (c.regs a0) (c.regs a1) with
    | none => pure false
    | some ret => do
        setArg a0 ret.error
        setArg a1 ret.value
        pure true

end Cpu

end Nanoemu
