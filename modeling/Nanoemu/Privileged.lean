import Nanoemu.Execute

/-!
# Traps, returns and the SYSTEM instructions

Entering a trap pushes the interrupt enable and the privilege into the xPIE
and xPP fields; returning pops them back out.
-/

namespace Nanoemu

open CheckedProgram

namespace Cpu

/-- Interrupt bits and causes in their fixed priority order. -/
def interruptOrder : List (BitVec 64 × ℕ) :=
  [(IntBit.MEIP, Interrupt.MACHINE_EXTERNAL),
    (IntBit.MSIP, Interrupt.MACHINE_SOFTWARE),
    (IntBit.MTIP, Interrupt.MACHINE_TIMER),
    (IntBit.SEIP, Interrupt.SUPERVISOR_EXTERNAL),
    (IntBit.SSIP, Interrupt.SUPERVISOR_SOFTWARE),
    (IntBit.STIP, Interrupt.SUPERVISOR_TIMER)]

/-- Whether a pending interrupt may fire at the current privilege. -/
def interruptEnabled (c : Cpu) (bit : BitVec 64) : Bool :=
  let status := c.csrs.read Csr.MSTATUS
  if c.csrs.read Csr.MIDELEG &&& bit ≠ 0 then
    match c.privMode with
    | .machine => false
    | .supervisor => status &&& Mstatus.SIE != 0
    | .user => true
  else decide (c.privMode < .machine) || status &&& Mstatus.MIE != 0

/-- The highest-priority interrupt that is pending, enabled, and allowed to
fire at the current privilege. -/
def pendingInterrupt (c : Cpu) : Option ℕ :=
  let pending := c.csrs.read Csr.MIE &&& c.csrs.read Csr.MIP
  if pending = 0 then none
  else
    (interruptOrder.find? fun (bit, _) =>
      pending &&& bit != 0 && c.interruptEnabled bit).map Prod.snd

/-- The handler address; in vectored mode interrupts fan out by cause. -/
def trapVector (c : Cpu) (which : BitVec 12) (cause : ℕ) (isInterrupt : Bool) :
    Checked (BitVec 64) := do
  let tvec := c.csrs.read which
  let base := tvec &&& ~~~0x3
  if tvec &&& 0x3 = 1 ∧ isInterrupt then do
    let offset ← Checked.mul 4 (BitVec.ofNat 64 cause)
    Checked.add base offset
  else pure base

/-- The cause register: the interrupt flag is its top bit. -/
def causeWord (c : Cpu) (cause : ℕ) (isInterrupt : Bool) :
    Checked (BitVec 64) := do
  let flag ←
    if isInterrupt then do
      let top ← Checked.usub 32 c.xbits 1
      Checked.shl 1#64 top
    else pure 0
  pure (BitVec.ofNat 64 cause ||| flag)

/-- Whether a trap enters supervisor mode: its cause is delegated and the hart
is not already in machine mode. -/
def delegates (c : Cpu) (cause : ℕ) (isInterrupt : Bool) : Checked Bool := do
  let deleg :=
    if isInterrupt then c.csrs.read Csr.MIDELEG else c.csrs.read Csr.MEDELEG
  let shifted ← Checked.shr deleg cause
  pure (decide (c.privMode ≤ .supervisor) && shifted &&& 1 == 1)

def statusIntoSupervisor (status : BitVec 64) (mode : Priv) : BitVec 64 :=
  let s := status &&& ~~~(Mstatus.SPIE ||| Mstatus.SIE ||| Mstatus.SPP)
  let s := if status &&& Mstatus.SIE ≠ 0 then s ||| Mstatus.SPIE else s
  if mode = .supervisor then s ||| Mstatus.SPP else s

def statusIntoMachine (status : BitVec 64) (mode : Priv) : BitVec 64 :=
  let s := status &&& ~~~(Mstatus.MPIE ||| Mstatus.MIE ||| Mstatus.MPP)
  let s := if status &&& Mstatus.MIE ≠ 0 then s ||| Mstatus.MPIE else s
  s ||| (mode.toBits <<< Mstatus.MPP_SHIFT)

def enterSupervisor (c : Cpu) (cause tval epc : BitVec 64) : Cpu :=
  let status := c.csrs.read Csr.MSTATUS
  { c with
    csrs := (((c.csrs.force Csr.SEPC epc).force Csr.SCAUSE cause).force
      Csr.STVAL tval).force Csr.MSTATUS
        (statusIntoSupervisor status c.privMode)
    privMode := .supervisor }

def enterMachine (c : Cpu) (cause tval epc : BitVec 64) : Cpu :=
  let status := c.csrs.read Csr.MSTATUS
  { c with
    csrs := (((c.csrs.force Csr.MEPC epc).force Csr.MCAUSE cause).force
      Csr.MTVAL tval).force Csr.MSTATUS
        (statusIntoMachine status c.privMode)
    privMode := .machine }

def takeTrap (cause : ℕ) (tval epc : BitVec 64) (isInterrupt : Bool) :
    Hart Unit := do
  let c ← Program.read id
  let toSupervisor ← Program.check (c.delegates cause isInterrupt)
  let word ← Program.check (c.causeWord cause isInterrupt)
  if toSupervisor then do
    Program.update fun c => c.enterSupervisor word tval epc
    let c ← Program.read id
    let pc ← Program.check (c.trapVector Csr.STVEC cause isInterrupt)
    setPc pc
  else do
    Program.update fun c => c.enterMachine word tval epc
    let c ← Program.read id
    let pc ← Program.check (c.trapVector Csr.MTVEC cause isInterrupt)
    setPc pc

/-- An exception traps with the address of the instruction that raised it. -/
def trap (e : Exception) (instPc : BitVec 64) : Hart Unit := do
  let c ← Program.read id
  takeTrap (e.cause c.privMode) e.tval instPc false

def returnTarget (status : BitVec 64) (fromMachine : Bool) : Priv :=
  if fromMachine then
    Priv.fromBits ((status &&& Mstatus.MPP) >>> Mstatus.MPP_SHIFT)
  else if status &&& Mstatus.SPP ≠ 0 then .supervisor
  else .user

/-- `mstatus` after a return: the saved enable is popped, xPIE is left set and
xPP drops to user.  Returning below machine mode clears MPRV. -/
def statusAfterReturn (status : BitVec 64) (fromMachine : Bool) : BitVec 64 :=
  let pie := if fromMachine then Mstatus.MPIE else Mstatus.SPIE
  let ie := if fromMachine then Mstatus.MIE else Mstatus.SIE
  let ppMask := if fromMachine then Mstatus.MPP else Mstatus.SPP
  let s := status &&& ~~~(ie ||| ppMask)
  let s := if status &&& pie ≠ 0 then s ||| ie else s
  let s := s ||| pie
  if returnTarget status fromMachine ≠ .machine then s &&& ~~~Mstatus.MPRV
  else s

def trapReturn (c : Cpu) (fromMachine : Bool) : Cpu :=
  let status := c.csrs.read Csr.MSTATUS
  let csrs := c.csrs.force Csr.MSTATUS (statusAfterReturn status fromMachine)
  { c with
    csrs := csrs
    privMode := returnTarget status fromMachine
    pc := csrs.read (if fromMachine then Csr.MEPC else Csr.SEPC) }

/-! ## SYSTEM -/

/-- SRET, SFENCE.VMA and `satp` are out of reach of user mode, and of
supervisor mode when its trap bit is set. -/
def supervisorTraps (c : Cpu) (bit : BitVec 64) : Bool :=
  decide (c.privMode < .supervisor) ||
    (c.privMode == .supervisor && c.csrs.read Csr.MSTATUS &&& bit != 0)

def executePriv (inst : BitVec 32) : Hart Unit := do
  let c ← Program.read id
  let funct12 := inst >>> 20
  if funct12 = 0x000 then Program.fail .environmentCall
  else if funct12 = 0x001 then Program.fail .breakpoint
  else if funct12 = 0x102 then
    -- SRET
    if c.supervisorTraps Mstatus.TSR then illegal inst
    else Program.update fun c => c.trapReturn false
  else if funct12 = 0x302 then
    -- MRET
    if c.privMode < .machine then illegal inst
    else Program.update fun c => c.trapReturn true
  else if funct12 = 0x105 then
    -- WFI retires immediately; TW makes it trap below machine mode.
    if c.privMode < .machine ∧ c.csrs.read Csr.MSTATUS &&& Mstatus.TW ≠ 0 then
      illegal inst
    else pure ()
  else if funct12 >>> 5 = 0x09 then
    -- SFENCE.VMA drops the whole cache, whatever its operands.
    if c.supervisorTraps Mstatus.TVM then illegal inst
    else Program.update flushTlb
  else illegal inst

def counterEnabled (c : Cpu) (addr : BitVec 12) : Bool :=
  let gate (bit : ℕ) : Bool :=
    if c.privMode < .machine ∧
        (c.csrs.read Csr.MCOUNTEREN >>> bit) &&& 1 = 0 then false
    else if c.privMode < .supervisor ∧
        (c.csrs.read Csr.SCOUNTEREN >>> bit) &&& 1 = 0 then false
    else true
  if addr = Csr.CYCLE ∨ addr = Csr.CYCLEH then gate 0
  else if addr = Csr.TIME ∨ addr = Csr.TIMEH then gate 1
  else if addr = Csr.INSTRET ∨ addr = Csr.INSTRETH then gate 2
  else true

def isFpCsr (addr : BitVec 12) : Bool :=
  addr == Csr.FFLAGS || addr == Csr.FRM || addr == Csr.FCSR

def isInstretCsr (addr : BitVec 12) : Bool :=
  addr == Csr.MINSTRET || addr == Csr.MINSTRETH || addr == Csr.INSTRET

/-- Whether a CSR access passes every gate. -/
def csrPermitted (c : Cpu) (addr : BitVec 12) (writes : Bool) : Bool :=
  c.csrs.existsCsr addr && CsrFile.accessible addr c.privMode writes &&
    c.counterEnabled addr && !(isFpCsr addr && !c.fpEnabled) &&
    !(addr == Csr.SATP && c.privMode == .supervisor &&
      c.csrs.read Csr.MSTATUS &&& Mstatus.TVM != 0)

def csrNew (f3 : BitVec 32) (old src : BitVec 64) : Option (BitVec 64) :=
  match (f3 &&& 0x3).toNat with
  | 0x1 => some src
  | 0x2 => some (old ||| src)
  | 0x3 => some (old &&& ~~~src)
  | _ => none

def writeCsr (c : Cpu) (addr : BitVec 12) (value : BitVec 64) : Cpu :=
  let c := { c with csrs := c.csrs.write addr (trunc value c.xbits) }
  let c := if isInstretCsr addr then { c with wroteInstret := true } else c
  if isFpCsr addr then c.dirtyFp else c

/-- Zicsr.  A set or clear with rs1 = x0 is a read. -/
def executeCsr (inst : BitVec 32) : Hart Unit := do
  let c ← Program.read id
  let addr := csr inst
  let f3 := funct3 inst
  let writes := f3 &&& 0x3 == 0x1 || rs1 inst != 0
  if !c.csrPermitted addr writes then illegal inst
  else do
    let old := c.csrs.read addr
    let src :=
      if f3 &&& 0x4 ≠ 0 then BitVec.ofNat 64 (rs1 inst).val
      else c.rr (rs1 inst)
    match csrNew f3 old src with
    | none => illegal inst
    | some value => do
        if writes then Program.update fun c => c.writeCsr addr value
        else pure ()
        wr (rd inst) old

/-- Executes one instruction; `nextPc` is the address after it. -/
def execute (inst : BitVec 32) (instPc nextPc : BitVec 64) : Hart Unit := do
  setPc nextPc
  match (opcode inst).toNat with
  | 0x37 => wr (rd inst) (widen (immU inst))
  | 0x17 => wr (rd inst) (instPc + widen (immU inst))
  | 0x6f => executeJal inst instPc nextPc
  | 0x67 => if funct3 inst = 0 then executeJalr inst nextPc else illegal inst
  | 0x63 => executeBranch inst instPc
  | 0x03 => executeLoad inst
  | 0x23 => executeStore inst
  | 0x13 | 0x1b => executeOpImm inst
  | 0x33 | 0x3b => executeOp inst
  | 0x2f => executeAmo inst
  | 0x07 | 0x27 => executeFpMem inst
  | 0x43 | 0x47 | 0x4b | 0x4f => executeFma inst
  | 0x53 => executeOpFp inst
  | 0x0f => pure ()
  | 0x73 => if funct3 inst = 0 then executePriv inst else executeCsr inst
  | _ => illegal inst

end Cpu

end Nanoemu
