import Nanoemu.Sbi

/-!
# One step of the hart

`step` ticks the timer, takes a pending interrupt or else fetches, executes
and retires one instruction, and takes the trap of an instruction that raised
an exception.
-/

namespace Nanoemu

open CheckedProgram

namespace Cpu

def reflect (csrs : CsrFile) (bit : BitVec 64) (condition : Bool) : CsrFile :=
  if condition then csrs.setBits Csr.MIP bit else csrs.clearBits Csr.MIP bit

/-- The timer and software interrupt bits; under SBI the expiry of the timer
becomes a supervisor interrupt instead. -/
def tickClint (c : Cpu) : Cpu :=
  let mtime := c.mem.clint.mtime + 1
  let c := { c with
    mem := { c.mem with clint := { c.mem.clint with mtime := mtime } }
    csrs := c.csrs.force Csr.TIME mtime }
  let expired : Bool := c.mem.clint.mtimecmp ≤ c.mem.clint.mtime
  let c :=
    if c.sbi then
      if c.timerArmed && expired then
        { c with
          csrs := c.csrs.setBits Csr.MIP IntBit.STIP
          timerArmed := false }
      else c
    else { c with csrs := reflect c.csrs IntBit.MTIP expired }
  { c with csrs := reflect c.csrs IntBit.MSIP (c.mem.clint.msip != 0) }

/-- The device scan: the UART line goes into the PLIC, and each context's
external-interrupt bit comes out of it. -/
def scanDevices (c : Cpu) : Cpu :=
  let plic := c.mem.plic.setLevel Uart.UART_IRQ c.mem.uart.isInterrupting
  let csrs := reflect c.csrs IntBit.MEIP (plic.isPending CONTEXT_MACHINE)
  let csrs := reflect csrs IntBit.SEIP (plic.isPending CONTEXT_SUPERVISOR)
  { c with
    mem := { c.mem with devicesDirty := false, plic := plic }
    csrs := csrs }

/-- Advances the machine timer and reflects the devices into `mip`.  The scan
runs only when a device was touched, when input is queued, or at the poll
interval. -/
def tickTimer (c : Cpu) : Cpu :=
  let c := c.tickClint
  if !c.mem.devicesDirty && !c.mem.uart.hasInput &&
      c.cycle.toNat % DEVICE_POLL_INTERVAL.toNat != 0 then c
  else c.scanDevices

def countCycle : Hart Unit := do
  let c ← Program.read id
  let cycle ← Program.check (Checked.add c.cycle 1)
  Program.update fun c =>
    { c with cycle := cycle, csrs := c.csrs.force Csr.MCYCLE cycle }

/-- Counts a retired instruction, unless it wrote the counter itself. -/
def retire (c : Cpu) : Cpu :=
  if c.wroteInstret then c
  else
    { c with
      csrs := c.csrs.force Csr.MINSTRET (c.csrs.read Csr.MINSTRET + 1) }

def fetchExecute (instPc : BitVec 64) : Hart Unit := do
  let (inst, len) ← fetch
  let pc ← Program.read Cpu.pc
  execute inst instPc (pc + len)

/-- Whether an exception is a call into the firmware. -/
def callsFirmware (c : Cpu) (e : Exception) : Bool :=
  e == .environmentCall && c.sbi && c.privMode == .supervisor

def answerCall : Hart Unit := do
  let running ← handleSbi
  if running then pure ()
  else Program.update fun c => { c with shutdown := true }

/-- The instruction part of a step: no interrupt is taken. -/
def runInstruction : Hart Unit := do
  let instPc ← Program.read Cpu.pc
  Program.update fun c => { c with wroteInstret := false }
  let result : Except Exception Unit ←
    Program.attempt (fetchExecute instPc)
  match result with
  | .ok () => Program.update retire
  | .error e => do
      let c ← Program.read id
      if c.callsFirmware e then answerCall
      else do
        trap e instPc
        Program.fail e

/-- Fetches, executes and retires one instruction; on an exception the trap is
taken here. -/
def step : Hart Unit := do
  countCycle
  Program.update tickTimer
  let c ← Program.read id
  match c.pendingInterrupt with
  | some cause => takeTrap cause 0 c.pc true
  | none => runInstruction

/-- Sets the hart up the way machine-mode firmware hands control to a kernel.
Every cause but a call from supervisor mode is delegated. -/
def bootSupervisor (c : Cpu) (entry hartid dtb : BitVec 64) : Cpu :=
  let csrs := c.csrs.force Csr.MEDELEG 0xb1ff
  let csrs := csrs.force Csr.MIDELEG
    (IntBit.SSIP ||| IntBit.STIP ||| IntBit.SEIP)
  let csrs := csrs.force Csr.MCOUNTEREN (BitVec.allOnes 64)
  let csrs := csrs.force Csr.SCOUNTEREN (BitVec.allOnes 64)
  { c with
    csrs := csrs
    sbi := true
    privMode := .supervisor
    pc := entry
    regs := Function.update (Function.update c.regs a0 hartid) a1 dtb }

end Cpu

end Nanoemu
