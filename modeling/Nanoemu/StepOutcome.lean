import Nanoemu.InstructionPhases
import Nanoemu.Load

/-!
# The outcomes of a step

After the timer tick a step does one of four things: it takes an interrupt,
retires an instruction, answers a supervisor call, or takes the trap of an
exception.  Each case says what moved; every invariant of the hart is read off
these cases.
-/

namespace Nanoemu

open CheckedProgram

namespace Cpu

def tickedCsrs : List (BitVec 12) :=
  [Csr.MCYCLE, Csr.TIME, Csr.MIP]

/-- Counters, the timer, the pending bits and the devices have moved. -/
structure Ticked (c c' : Cpu) : Prop where
  frame : c' = { c with
    cycle := c'.cycle
    csrs := c'.csrs
    mem := c'.mem
    timerArmed := c'.timerArmed }
  xlen : c'.csrs.xlen = c.csrs.xlen
  csrs : ∀ addr ∉ tickedCsrs, c'.csrs.regs addr = c.csrs.regs addr
  dram : c'.mem.dram = c.mem.dram

namespace Ticked

variable {c c' c'' : Cpu}

theorem refl (c : Cpu) : Ticked c c :=
  ⟨rfl, rfl, fun _ _ => rfl, rfl⟩

theorem trans (hfirst : Ticked c c') (hsecond : Ticked c' c'') :
    Ticked c c'' := by
  refine ⟨?_, hsecond.xlen.trans hfirst.xlen,
    fun addr haddr => (hsecond.csrs addr haddr).trans (hfirst.csrs addr haddr),
    hsecond.dram.trans hfirst.dram⟩
  rw [hsecond.frame, hfirst.frame]

theorem force {addr : BitVec 12} (haddr : addr ∈ tickedCsrs)
    (value : BitVec 64) :
    Ticked c { c with csrs := c.csrs.force addr value } :=
  ⟨rfl, rfl, fun _ hother => CsrFile.force_regs_other _ _ fun h =>
    hother (h ▸ haddr), rfl⟩

theorem reflect (bit : BitVec 64) (condition : Bool) :
    Ticked c { c with csrs := Cpu.reflect c.csrs bit condition } := by
  rw [Cpu.reflect]
  split
  · exact force (by decide) _
  · exact force (by decide) _

theorem privMode (h : Ticked c c') : c'.privMode = c.privMode :=
  (congrArg Cpu.privMode h.frame :)

theorem tlb (h : Ticked c c') : c'.tlb = c.tlb :=
  (congrArg Cpu.tlb h.frame :)

theorem xlenEq (h : Ticked c c') : c'.xlen = c.xlen :=
  (congrArg Cpu.xlen h.frame :)

end Ticked

theorem tickClint_ticked (c : Cpu) : Ticked c c.tickClint := by
  have htime : Ticked c { c with
      mem := { c.mem with
        clint := { c.mem.clint with mtime := c.mem.clint.mtime + 1 } }
      csrs := c.csrs.force Csr.TIME (c.mem.clint.mtime + 1) } :=
    ⟨rfl, rfl, fun other hother => CsrFile.force_regs_other _ _ fun h =>
      hother (h ▸ (by decide : Csr.TIME ∈ tickedCsrs)), rfl⟩
  refine htime.trans ?_
  rw [tickClint]
  refine Ticked.trans ?_ (Ticked.reflect _ _)
  split
  · split
    · refine ⟨rfl, rfl, fun other hother => CsrFile.force_regs_other _ _ fun h =>
        hother (h ▸ (by decide : Csr.MIP ∈ tickedCsrs)), rfl⟩
    · exact Ticked.refl _
  · exact Ticked.reflect _ _

theorem scanDevices_ticked (c : Cpu) : Ticked c c.scanDevices := by
  rw [scanDevices]
  have hdevices : ∀ plic : Plic, Ticked c { c with
      mem := { c.mem with devicesDirty := false, plic := plic } } :=
    fun plic => ⟨rfl, rfl, fun _ _ => rfl, rfl⟩
  exact ((hdevices (c.mem.plic.setLevel Uart.UART_IRQ
      c.mem.uart.isInterrupting)).trans (Ticked.reflect IntBit.MEIP _)).trans
    (Ticked.reflect IntBit.SEIP _)

theorem tickTimer_ticked (c : Cpu) : Ticked c c.tickTimer := by
  rw [tickTimer]
  split
  · exact tickClint_ticked c
  · exact (tickClint_ticked c).trans (scanDevices_ticked _)

def counted (c : Cpu) : Cpu :=
  { c with
    cycle := c.cycle + 1
    csrs := c.csrs.force Csr.MCYCLE (c.cycle + 1) }

/-- The hart after the tick, when the step decides what to do. -/
def ticked (c : Cpu) : Cpu :=
  c.counted.tickTimer

theorem ticked_ticked (c : Cpu) : Ticked c c.ticked := by
  have hcounted : Ticked c c.counted :=
    ⟨rfl, rfl, fun other hother => CsrFile.force_regs_other _ _ fun h =>
      hother (h ▸ (by decide : Csr.MCYCLE ∈ tickedCsrs)), rfl⟩
  exact hcounted.trans (tickTimer_ticked _)

theorem countCycle_ensures (profile : Profile) (c : Cpu) :
    countCycle.Ensures profile c (fun _ c' => c' = c.counted)
      (fun _ _ => False) := by
  apply Program.Ensures.bind
  apply Program.Ensures.read
  apply Program.Ensures.bind
  apply Program.Ensures.check
  intro cycle hcycle
  apply Program.Ensures.update
  rw [Checked.add_eq_some hcycle]
  rfl

/-- Whether the trap of a cause goes to supervisor mode. -/
def Delegated (c : Cpu) (cause : ℕ) (isInterrupt : Bool) : Bool :=
  decide (c.privMode ≤ .supervisor) &&
    ((if isInterrupt then c.csrs.read Csr.MIDELEG
      else c.csrs.read Csr.MEDELEG) >>> cause) &&& 1 == 1

def causeValue (c : Cpu) (cause : ℕ) (isInterrupt : Bool) : BitVec 64 :=
  BitVec.ofNat 64 cause |||
    (if isInterrupt then 1#64 <<< (c.xbits - 1) else 0)

theorem delegates_eq_pure (c : Cpu) {cause : ℕ} (hcause : cause < 64)
    (isInterrupt : Bool) :
    c.delegates cause isInterrupt = pure (c.Delegated cause isInterrupt) := by
  rw [delegates, Checked.shr_eq_pure hcause, pure_bind]
  rfl

theorem causeWord_eq_pure (c : Cpu) (cause : ℕ) (isInterrupt : Bool) :
    c.causeWord cause isInterrupt = pure (c.causeValue cause isInterrupt) := by
  have hbits : 1 ≤ c.xbits ∧ c.xbits - 1 < 64 := by
    rw [xbits]
    cases c.xlen <;> decide
  rw [causeWord, causeValue]
  cases isInterrupt with
  | false => rfl
  | true =>
      rw [if_pos rfl, if_pos rfl, Checked.usub_eq_pure hbits.1, pure_bind,
        Checked.shl_eq_pure hbits.2, pure_bind]

/-- What taking a trap comes to. -/
inductive TrapCourse (profile : Profile) (c : Cpu) (cause : ℕ)
    (tval epc : BitVec 64) (isInterrupt : Bool) : Cpu → Prop where
  | supervisor {word pc : BitVec 64} :
      c.delegates cause isInterrupt profile = some true →
      c.causeWord cause isInterrupt profile = some word →
      (c.enterSupervisor word tval epc).trapVector Csr.STVEC cause isInterrupt
        profile = some pc →
      TrapCourse profile c cause tval epc isInterrupt
        { c.enterSupervisor word tval epc with pc := pc }
  | machine {word pc : BitVec 64} :
      c.delegates cause isInterrupt profile = some false →
      c.causeWord cause isInterrupt profile = some word →
      (c.enterMachine word tval epc).trapVector Csr.MTVEC cause isInterrupt
        profile = some pc →
      TrapCourse profile c cause tval epc isInterrupt
        { c.enterMachine word tval epc with pc := pc }

theorem takeTrap_course (cause : ℕ) (tval epc : BitVec 64)
    (isInterrupt : Bool) (profile : Profile) (c : Cpu) :
    (takeTrap cause tval epc isInterrupt).Ensures profile c
      (fun _ c' => TrapCourse profile c cause tval epc isInterrupt c')
      (fun _ _ => False) := by
  apply Program.Ensures.bind
  apply Program.Ensures.read
  apply Program.Ensures.bind
  apply Program.Ensures.check
  intro toSupervisor hdelegates
  apply Program.Ensures.bind
  apply Program.Ensures.check
  intro word hword
  cases toSupervisor with
  | true =>
      apply Program.Ensures.bind
      apply Program.Ensures.update
      apply Program.Ensures.bind
      apply Program.Ensures.read
      apply Program.Ensures.bind
      apply Program.Ensures.check
      intro pc hpc
      exact Program.Ensures.update (.supervisor hdelegates hword hpc)
  | false =>
      apply Program.Ensures.bind
      apply Program.Ensures.update
      apply Program.Ensures.bind
      apply Program.Ensures.read
      apply Program.Ensures.bind
      apply Program.Ensures.check
      intro pc hpc
      exact Program.Ensures.update (.machine hdelegates hword hpc)

/-- The hart after a trap has been entered; the handler's address is left
open. -/
def TrapTaken (c : Cpu) (cause : ℕ) (tval epc : BitVec 64)
    (isInterrupt : Bool) (c' : Cpu) : Prop :=
  (c.Delegated cause isInterrupt = true ∧ ∃ pc, c' =
      { c.enterSupervisor (c.causeValue cause isInterrupt) tval epc with
        pc := pc }) ∨
    (c.Delegated cause isInterrupt = false ∧ ∃ pc, c' =
      { c.enterMachine (c.causeValue cause isInterrupt) tval epc with
        pc := pc })

/-- The trap registers of a mode: where the address, the cause and the value
of a trap into it land. -/
def trapEpc (mode : Priv) : BitVec 12 :=
  if mode = .supervisor then Csr.SEPC else Csr.MEPC

def trapCause (mode : Priv) : BitVec 12 :=
  if mode = .supervisor then Csr.SCAUSE else Csr.MCAUSE

def trapTval (mode : Priv) : BitVec 12 :=
  if mode = .supervisor then Csr.STVAL else Csr.MTVAL

def trapStatus (entered : Priv) (status : BitVec 64) (mode : Priv) :
    BitVec 64 :=
  if entered = .supervisor then statusIntoSupervisor status mode
  else statusIntoMachine status mode

def trapCsrs (c : Cpu) (entered : Priv) (word tval epc : BitVec 64) :
    CsrFile :=
  (((c.csrs.force (trapEpc entered) epc).force (trapCause entered) word).force
    (trapTval entered) tval).force Csr.MSTATUS
      (trapStatus entered (c.csrs.read Csr.MSTATUS) c.privMode)

theorem TrapTaken.spec {c c' : Cpu} {cause : ℕ} {tval epc : BitVec 64}
    {isInterrupt : Bool} (h : TrapTaken c cause tval epc isInterrupt c') :
    (∃ entered pc,
      (entered = .supervisor ∧ c.Delegated cause isInterrupt = true ∨
        entered = .machine ∧ c.Delegated cause isInterrupt = false) ∧
      c' = { c with
        csrs := c.trapCsrs entered (c.causeValue cause isInterrupt) tval epc
        privMode := entered
        pc := pc }) := by
  rcases h with ⟨hdelegated, pc, rfl⟩ | ⟨hdelegated, pc, rfl⟩
  · exact ⟨.supervisor, pc, Or.inl ⟨rfl, hdelegated⟩, rfl⟩
  · exact ⟨.machine, pc, Or.inr ⟨rfl, hdelegated⟩, rfl⟩

theorem takeTrap_ensures {cause : ℕ} (hcause : cause < 64)
    (tval epc : BitVec 64) (isInterrupt : Bool) (profile : Profile) (c : Cpu) :
    (takeTrap cause tval epc isInterrupt).Ensures profile c
      (fun _ c' => TrapTaken c cause tval epc isInterrupt c')
      (fun _ _ => False) := by
  apply (takeTrap_course cause tval epc isInterrupt profile c).mono
  · intro _ c' hcourse
    cases hcourse with
    | supervisor hdelegates hword =>
        rw [delegates_eq_pure c hcause] at hdelegates
        rw [causeWord_eq_pure] at hword
        cases hword
        exact Or.inl ⟨Option.some.inj hdelegates, _, rfl⟩
    | machine hdelegates hword =>
        rw [delegates_eq_pure c hcause] at hdelegates
        rw [causeWord_eq_pure] at hword
        cases hword
        exact Or.inr ⟨Option.some.inj hdelegates, _, rfl⟩
  · exact fun _ _ h => h

theorem pendingInterrupt_lt {c : Cpu} {cause : ℕ}
    (hpending : c.pendingInterrupt = some cause) : cause < 64 := by
  rw [pendingInterrupt] at hpending
  split at hpending
  · cases hpending
  · rw [Option.map_eq_some_iff] at hpending
    obtain ⟨entry, hfound, rfl⟩ := hpending
    have hall : ∀ entry ∈ interruptOrder, entry.2 < 64 := by decide
    exact hall entry (List.mem_of_find?_eq_some hfound)

theorem exception_cause_lt (e : Exception) (mode : Priv) :
    e.cause mode < 64 := by
  cases e <;> cases mode <;> simp [Exception.cause]

/-! ## Supervisor calls -/

/-- A frame that the parts of a call respect, the timer aside: the argument
registers, the console's output, the software interrupt, the translation cache,
the shutdown flag and the reads of a mask or a text. -/
structure RespectsReplies (frame : Frame Cpu) : Prop where
  arg : ∀ c r v, frame.rel c { c with regs := Function.update c.regs r v }
  output : ∀ c byte, frame.rel c
    { c with mem := { c.mem with uart := c.mem.uart.putchar byte } }
  send : ∀ c, frame.rel c
    { c with csrs := c.csrs.setBits Csr.MIP IntBit.SSIP }
  clear : ∀ c, frame.rel c
    { c with csrs := c.csrs.clearBits Csr.MIP IntBit.SSIP }
  flush : ∀ c, frame.rel c c.flushTlb
  stop : ∀ c, frame.rel c { c with shutdown := true }
  read : ∀ addr size, (tryRead addr size).Moves frame

/-- A frame that every part of a call respects. -/
structure RespectsCalls (frame : Frame Cpu) : Prop
    extends RespectsReplies frame where
  timer : ∀ c deadline, frame.rel c
    { c with
      mem := { c.mem with
        clint := { c.mem.clint with mtimecmp := deadline } }
      timerArmed := true
      csrs := c.csrs.clearBits Csr.MIP IntBit.STIP }

section Calls

variable {frame : Frame Cpu} (h : RespectsReplies frame)

include h

theorem setArg_moves (r : Fin 32) (v : BitVec 64) : (setArg r v).Moves frame :=
  Program.Moves.update fun c => h.arg c r v

theorem putchar_moves (byte : BitVec 8) :
    (onUart fun uart => uart.putchar byte).Moves frame :=
  Program.Moves.update fun c => h.output c byte

theorem consoleGetchar_moves (huart : ∀ c uart,
      frame.rel c { c with mem := { c.mem with uart := uart } }) :
    consoleGetchar.Moves frame := by
  apply Program.Moves.bind (Program.Moves.read _)
  intro c
  apply Program.Moves.bind
  · exact Program.Moves.update fun x => huart x _
  · exact fun _ => setArg_moves h _ _

theorem legacySendIpi_moves (pointer : BitVec 64) :
    (legacySendIpi pointer).Moves frame := by
  have hfinish : ∀ selected : Bool, Program.Moves frame (do
      if selected then setMip IntBit.SSIP else pure ()
      setArg a0 0) := by
    intro selected
    apply Program.Moves.ite
    · exact Program.Moves.bind (Program.Moves.update h.send)
        fun _ => setArg_moves h _ _
    · exact setArg_moves h _ _
  apply Program.Moves.ite
  · exact hfinish true
  · apply Program.Moves.bind (h.read pointer 8)
    intro mask
    exact hfinish _

theorem handleLegacy_moves (eid arg : BitVec 64)
    (htimer : eid = Sbi.LEGACY_SET_TIMER → (setTimer arg).Moves frame)
    (hgetchar : eid = Sbi.LEGACY_CONSOLE_GETCHAR →
      consoleGetchar.Moves frame) : (handleLegacy eid arg).Moves frame := by
  have hreply : ∀ value, Program.Moves frame (do
      setArg a0 value
      pure true) :=
    fun value => (setArg_moves h _ value).bind fun _ => Program.Moves.pure _
  by_cases heid : eid = Sbi.LEGACY_SET_TIMER
  · rw [handleLegacy, if_pos heid]
    exact (htimer heid).bind fun _ => hreply 0
  rw [handleLegacy, if_neg heid]
  clear heid
  apply Program.Moves.ite
  · exact (putchar_moves h _).bind fun _ => hreply 0
  by_cases heid : eid = Sbi.LEGACY_CONSOLE_GETCHAR
  · rw [if_pos heid]
    exact (hgetchar heid).bind fun _ => Program.Moves.pure _
  rw [if_neg heid]
  apply Program.Moves.ite (Program.Moves.pure _)
  apply Program.Moves.ite
  · exact (legacySendIpi_moves h arg).bind fun _ => Program.Moves.pure _
  apply Program.Moves.ite
  · exact Program.Moves.bind (Program.Moves.update h.clear) fun _ => hreply 0
  apply Program.Moves.ite
  · exact Program.Moves.bind (Program.Moves.update h.flush) fun _ => hreply 0
  · exact hreply (-2)

theorem consoleWrite_moves (addr : BitVec 64) (remaining : ℕ) (i : BitVec 64) :
    (consoleWrite addr remaining i).Moves frame := by
  induction remaining generalizing i with
  | zero => exact Program.Moves.pure _
  | succ remaining ih =>
      apply Program.Moves.bind (Program.Moves.check _)
      intro source
      apply Program.Moves.bind (h.read source 1)
      intro byte
      cases byte with
      | error _ => exact Program.Moves.pure _
      | ok b =>
          apply (putchar_moves h _).bind
          intro _
          apply Program.Moves.bind (Program.Moves.check _)
          intro i
          exact ih i

theorem handleExtension_moves (eid fid arg0 arg1 : BitVec 64)
    (htimer : eid = Sbi.EXT_TIME → fid = 0 → (setTimer arg0).Moves frame) :
    (handleExtension eid fid arg0 arg1).Moves frame := by
  apply Program.Moves.ite (Program.Moves.pure _)
  by_cases heid : eid = Sbi.EXT_TIME ∧ fid = 0
  · rw [if_pos heid]
    exact (htimer heid.1 heid.2).bind fun _ => Program.Moves.pure _
  rw [if_neg heid]
  apply Program.Moves.ite
  · apply Program.Moves.bind (Program.Moves.check _)
    intro selected
    apply Program.Moves.ite
    · exact Program.Moves.bind (Program.Moves.update h.send)
        fun _ => Program.Moves.pure _
    · exact Program.Moves.pure _
  apply Program.Moves.ite
  · exact Program.Moves.bind (Program.Moves.update h.flush)
      fun _ => Program.Moves.pure _
  apply Program.Moves.ite (Program.Moves.pure _)
  apply Program.Moves.ite (Program.Moves.pure _)
  apply Program.Moves.ite
  · exact (consoleWrite_moves h arg1 _ 0).bind fun _ => Program.Moves.pure _
  apply Program.Moves.ite
  · exact (putchar_moves h _).bind fun _ => Program.Moves.pure _
  · exact Program.Moves.pure _

/-- Hands the answer of an extension to the caller, if there is one. -/
def replyCall : Option Sbi.Ret → Hart Bool
  | none => pure false
  | some ret => do
      setArg a0 ret.error
      setArg a1 ret.value
      pure true

theorem replyCall_moves (reply : Option Sbi.Ret) :
    (replyCall reply).Moves frame := by
  cases reply with
  | none => exact Program.Moves.pure _
  | some ret =>
      apply (setArg_moves h a0 ret.error).bind
      intro _
      exact (setArg_moves h a1 ret.value).bind fun _ => Program.Moves.pure _

/-- A call stays within such a frame, if setting the timer and taking a byte
from the console do where the call asks for it. -/
theorem answerCall_within (profile : Profile) (c : Cpu)
    (hlegacy : c.regs 17 = Sbi.LEGACY_SET_TIMER →
      (setTimer (c.regs a0)).Moves frame)
    (htimer : c.regs 17 = Sbi.EXT_TIME → c.regs 16 = 0 →
      (setTimer (c.regs a0)).Moves frame)
    (hgetchar : c.regs 17 = Sbi.LEGACY_CONSOLE_GETCHAR →
      consoleGetchar.Moves frame) :
    answerCall.Ensures profile c (fun _ c' => frame.rel c c')
      (fun _ _ => False) := by
  have hlast : ∀ running : Bool, Program.Moves frame (do
      if running then pure ()
      else Program.update fun c => { c with shutdown := true } : Hart Unit) := by
    intro running
    exact Program.Moves.ite (Program.Moves.pure _)
      (Program.Moves.update h.stop)
  have hsbi : Program.Moves frame
      (if c.regs 17 < 0x10 then handleLegacy (c.regs 17) (c.regs a0)
        else handleExtension (c.regs 17) (c.regs 16) (c.regs a0) (c.regs a1) >>=
          replyCall) :=
    Program.Moves.ite (handleLegacy_moves h _ _ hlegacy hgetchar)
      ((handleExtension_moves h _ _ _ _ htimer).bind (replyCall_moves h))
  apply Program.Ensures.bind
  apply Program.Ensures.bind
  apply Program.Ensures.read
  apply (hsbi profile c).mono
  · intro running c₁ hmoved
    apply (hlast running profile c₁).mono
    · exact fun _ _ hmoved' => frame.trans hmoved hmoved'
    · exact fun _ _ hfalse => hfalse
  · exact fun _ _ hfalse => hfalse

end Calls

theorem answerCall_ensures {frame : Frame Cpu} (h : RespectsCalls frame)
    (profile : Profile) (c : Cpu)
    (hgetchar : c.regs 17 = Sbi.LEGACY_CONSOLE_GETCHAR →
      consoleGetchar.Moves frame) :
    answerCall.Ensures profile c (fun _ c' => frame.rel c c')
      (fun _ _ => False) := by
  have htimer : (setTimer (c.regs a0)).Moves frame :=
    Program.Moves.update fun x => h.timer x (c.regs a0)
  exact answerCall_within h.toRespectsReplies profile c (fun _ => htimer)
    (fun _ _ => htimer) hgetchar

/-- Argument registers, the pending bits, the devices, the timer and the
shutdown flag have moved, and the cache may have been dropped. -/
structure Answered (c c' : Cpu) : Prop where
  frame : c' = { c with
    regs := c'.regs
    csrs := c'.csrs
    mem := c'.mem
    timerArmed := c'.timerArmed
    shutdown := c'.shutdown
    tlb := c'.tlb }
  xlen : c'.csrs.xlen = c.csrs.xlen
  csrs : ∀ addr, addr ≠ Csr.MIP → c'.csrs.regs addr = c.csrs.regs addr
  dram : c'.mem.dram = c.mem.dram
  entries : ∀ slot way, (c'.tlb slot way).valid = true →
    c'.tlb slot way = c.tlb slot way

theorem Answered.refl (c : Cpu) : Answered c c :=
  ⟨rfl, rfl, fun _ _ => rfl, rfl, fun _ _ _ => rfl⟩

theorem Answered.trans {c c' c'' : Cpu} (hfirst : Answered c c')
    (hsecond : Answered c' c'') : Answered c c'' := by
  refine ⟨?_, hsecond.xlen.trans hfirst.xlen,
    fun addr haddr => (hsecond.csrs addr haddr).trans (hfirst.csrs addr haddr),
    hsecond.dram.trans hfirst.dram, fun slot way hvalid => ?_⟩
  · rw [hsecond.frame, hfirst.frame]
  · have hsame := hsecond.entries slot way hvalid
    rw [hsame] at hvalid ⊢
    exact hfirst.entries slot way hvalid

def answerFrame : Frame Cpu where
  rel := Answered
  refl := Answered.refl
  trans := Answered.trans

theorem flushTlb_answered (c : Cpu) : Answered c c.flushTlb :=
  ⟨rfl, rfl, fun _ _ => rfl, rfl, fun _ _ hvalid => by cases hvalid⟩

theorem tryRead_answers (addr : BitVec 64) (size : ℕ) :
    (tryRead addr size).Moves answerFrame := by
  apply Program.Moves.attempt
  apply Program.Keeps.zoom (Memory.read_keeps_dram addr size)
  exact fun _ _ hdram => ⟨rfl, rfl, fun _ _ => rfl, hdram, fun _ _ _ => rfl⟩

theorem answerFrame_respects : RespectsCalls answerFrame where
  arg _ _ _ := ⟨rfl, rfl, fun _ _ => rfl, rfl, fun _ _ _ => rfl⟩
  output _ _ := ⟨rfl, rfl, fun _ _ => rfl, rfl, fun _ _ _ => rfl⟩
  send _ := ⟨rfl, rfl, fun _ haddr => CsrFile.force_regs_other _ _ haddr, rfl,
    fun _ _ _ => rfl⟩
  clear _ := ⟨rfl, rfl, fun _ haddr => CsrFile.force_regs_other _ _ haddr, rfl,
    fun _ _ _ => rfl⟩
  timer _ _ := ⟨rfl, rfl, fun _ haddr => CsrFile.force_regs_other _ _ haddr,
    rfl, fun _ _ _ => rfl⟩
  flush := flushTlb_answered
  stop _ := ⟨rfl, rfl, fun _ _ => rfl, rfl, fun _ _ _ => rfl⟩
  read := tryRead_answers

theorem consoleGetchar_answers : consoleGetchar.Moves answerFrame :=
  consoleGetchar_moves answerFrame_respects.toRespectsReplies fun _ _ =>
    ⟨rfl, rfl, fun _ _ => rfl, rfl, fun _ _ _ => rfl⟩

theorem answerCall_answers : answerCall.Moves answerFrame :=
  fun profile c => answerCall_ensures answerFrame_respects profile c
    fun _ => consoleGetchar_answers

/-! ## The cases of a step -/

theorem fetchExecute_phased (instPc : BitVec 64) :
    Phased (fetchExecute instPc) := by
  apply Phased.bind fetch_keeps
  intro fetched
  exact Phased.read fun pc => execute_phased fetched.1 instPc _

/-- What a step from `c` does after the tick. -/
inductive Stepped (c : Cpu) : Except Exception Unit → Cpu → Prop where
  | interrupt {cause : ℕ} {c' : Cpu} :
      c.ticked.pendingInterrupt = some cause →
      TrapTaken c.ticked cause 0 c.ticked.pc true c' →
      Stepped c (.ok ()) c'
  | retired {c₁ c₂ : Cpu} :
      c.ticked.pendingInterrupt = none → Accessed c.ticked c₁ →
      Committed c₁ c₂ → Stepped c (.ok ()) c₂.retire
  | answered {c₁ c' : Cpu} :
      c.ticked.pendingInterrupt = none → Accessed c.ticked c₁ →
      c₁.sbi = true → c₁.privMode = .supervisor → Answered c₁ c' →
      Stepped c (.ok ()) c'
  | exception {e : Exception} {c₁ c' : Cpu} :
      c.ticked.pendingInterrupt = none → Accessed c.ticked c₁ →
      c₁.callsFirmware e = false →
      TrapTaken c₁ (e.cause c₁.privMode) e.tval c.ticked.pc false c' →
      Stepped c (.error e) c'

theorem callsFirmware_eq_true {c : Cpu} {e : Exception}
    (hcalls : c.callsFirmware e = true) :
    e = .environmentCall ∧ c.sbi = true ∧ c.privMode = .supervisor := by
  rw [callsFirmware, Bool.and_eq_true, Bool.and_eq_true, beq_iff_eq,
    beq_iff_eq] at hcalls
  exact ⟨hcalls.1.1, hcalls.1.2, hcalls.2⟩

theorem runInstruction_ensures (profile : Profile) (c : Cpu)
    (hpending : c.ticked.pendingInterrupt = none) :
    runInstruction.Ensures profile c.ticked
      (fun _ c' => Stepped c (.ok ()) c')
      (fun e c' => Stepped c (.error e) c') := by
  apply Program.Ensures.bind
  apply Program.Ensures.read
  apply Program.Ensures.bind
  apply Program.Ensures.update
  have hstart : Walked c.ticked { c.ticked with wroteInstret := false } :=
    ⟨rfl, Mmu.SameTables.refl _ _, fun _ _ _ => Or.inl rfl⟩
  apply Program.Ensures.bind
  apply Program.Ensures.attempt
  apply (fetchExecute_phased c.ticked.pc profile _).mono
  · rintro _ c₂ ⟨c₁, haccessed, hcommitted⟩
    exact Program.Ensures.update
      (.retired hpending (hstart.then_accessed haccessed) hcommitted)
  · intro e c₁ hrun
    have haccessed := hstart.then_accessed hrun
    apply Program.Ensures.bind
    apply Program.Ensures.read
    apply Program.Ensures.ite
    · intro hcalls
      obtain ⟨-, hsbi, hmode⟩ := callsFirmware_eq_true hcalls
      apply (answerCall_answers profile c₁).mono
      · exact fun _ _ hanswered =>
          .answered hpending haccessed hsbi hmode hanswered
      · exact fun _ _ h => h.elim
    · intro hcalls
      apply Program.Ensures.bind
      apply Program.Ensures.bind
      apply Program.Ensures.read
      apply (takeTrap_ensures (exception_cause_lt e c₁.privMode) e.tval
        c.ticked.pc false profile c₁).mono
      · intro _ c' htrap
        exact Program.Ensures.fail (.exception hpending haccessed
          (Bool.eq_false_iff.mpr hcalls) htrap)
      · exact fun _ _ h => h.elim

/-- What a step does once the tick has passed. -/
def afterTick (c : Cpu) : Hart Unit :=
  match c.pendingInterrupt with
  | some cause => takeTrap cause 0 c.pc true
  | none => runInstruction

theorem afterTick_interrupt {c : Cpu} {cause : ℕ}
    (hpending : c.pendingInterrupt = some cause) :
    c.afterTick = takeTrap cause 0 c.pc true := by
  rw [afterTick, hpending]

theorem afterTick_instruction {c : Cpu} (hpending : c.pendingInterrupt = none) :
    c.afterTick = runInstruction := by
  rw [afterTick, hpending]

theorem step_ensures (profile : Profile) (c : Cpu) :
    step.Ensures profile c (fun _ c' => Stepped c (.ok ()) c')
      (fun e c' => Stepped c (.error e) c') := by
  apply Program.Ensures.bind
  apply (countCycle_ensures profile c).mono
  · rintro _ _ rfl
    apply Program.Ensures.bind
    apply Program.Ensures.update
    apply Program.Ensures.bind
    apply Program.Ensures.read
    change Program.Ensures c.ticked.afterTick profile c.ticked _ _
    cases hpending : c.ticked.pendingInterrupt with
    | some cause =>
        rw [afterTick_interrupt hpending]
        apply (takeTrap_ensures (pendingInterrupt_lt hpending) 0 c.ticked.pc
          true profile c.ticked).mono
        · exact fun _ _ htrap => .interrupt hpending htrap
        · exact fun _ _ h => h.elim
    | none =>
        rw [afterTick_instruction hpending]
        exact runInstruction_ensures profile c hpending
  · exact fun _ _ h => h.elim

theorem step_stepped {profile : Profile} {c c' : Cpu}
    {outcome : Except Exception Unit}
    (hstep : step profile c = some (outcome, c')) :
    Stepped c outcome c' := by
  cases outcome with
  | ok value => exact (step_ensures profile c).ok hstep
  | error e => exact (step_ensures profile c).error hstep

end Cpu

end Nanoemu
