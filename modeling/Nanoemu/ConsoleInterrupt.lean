import Nanoemu.ConsoleStreams
import Nanoemu.InterruptPriority
import Nanoemu.PlicArbitration

/-!
# The interrupt of the console

The UART raises its line, the scan of a tick passes it through the interrupt
controller, and the hart traps before it runs another instruction.  No other
device has a line, so what the handler claims is the UART, and the claim takes
the interrupt down.
-/

namespace Nanoemu

open CheckedProgram BitFields

namespace Plic

variable {plic plic' : Plic} {source : Source} {number : BitVec 32}
  {context : Context} {asserted : Bool}

/-- No other source asserts its line. -/
def Only (plic : Plic) (source : Source) : Prop :=
  ∀ other : Source, plic.levels.getLsbD other.val = true → other = source

theorem Only.congr (hlevels : plic'.levels = plic.levels)
    (h : plic.Only source) : plic'.Only source := by
  intro other hother
  rw [hlevels] at hother
  exact h other hother

theorem setLevel_of_source (hsource : source? number = some source)
    (hnonzero : source ≠ 0) (asserted : Bool) :
    plic.setLevel number asserted =
      { plic with
        levels := if asserted then plic.levels ||| sourceBit source
          else plic.levels &&& ~~~sourceBit source } := by
  unfold setLevel
  rw [hsource]
  dsimp only
  rw [if_neg hnonzero]
  cases asserted <;> rfl

theorem Only.setLevel (h : plic.Only source)
    (hsource : source? number = some source) (hnonzero : source ≠ 0)
    (asserted : Bool) : (plic.setLevel number asserted).Only source := by
  intro other hother
  rw [setLevel_of_source hsource hnonzero] at hother
  cases asserted with
  | true =>
      simp only [if_true, BitVec.getLsbD_or, Bool.or_eq_true,
        getLsbD_sourceBit, decide_eq_true_eq] at hother
      exact hother.elim (h other) Fin.ext
  | false =>
      simp only [Bool.false_eq_true, if_false, BitVec.getLsbD_and,
        Bool.and_eq_true] at hother
      exact h other hother.1

/-- A source whose line has been set may interrupt if it was asserted, and the
other conditions hold. -/
theorem setLevel_eligible_iff (hsource : source? number = some source)
    (hnonzero : source ≠ 0) :
    (plic.setLevel number asserted).Eligible context source ↔
      asserted = true ∧ plic.claimed.getLsbD source.val = false ∧
        (plic.enable context).getLsbD source.val = true ∧
          plic.threshold context < plic.priority source := by
  have hlevel : (plic.setLevel number asserted).levels.getLsbD source.val =
      asserted := by
    rw [setLevel_of_source hsource hnonzero]
    cases asserted <;> simp [getLsbD_sourceBit]
  constructor
  · intro h
    have hasserting := h.asserting
    have hunclaimed := h.unclaimed
    have henabled := h.enabled
    have habove := h.above_threshold
    rw [hlevel] at hasserting
    rw [setLevel_of_source hsource hnonzero] at hunclaimed henabled habove
    exact ⟨hasserting, hunclaimed, henabled, habove⟩
  · rintro ⟨hasserted, hunclaimed, henabled, habove⟩
    refine ⟨hlevel.trans hasserted, ?_, ?_, ?_⟩ <;>
      rw [setLevel_of_source hsource hnonzero]
    · exact hunclaimed
    · exact henabled
    · exact habove

/-- With one line the arbiter picks its source or none. -/
theorem Only.best_cases (h : plic.Only source) (hnonzero : source ≠ 0)
    (context : Context) :
    (plic.best context = source ∧ plic.Eligible context source) ∨
      (plic.best context = 0 ∧ ¬ plic.Eligible context source) := by
  rcases plic.best_spec context with ⟨hnone, hidle⟩ | ⟨-, heligible, -⟩
  · exact Or.inr ⟨hnone, hidle source hnonzero⟩
  · have hbest := h _ heligible.asserting
    rw [hbest] at heligible
    exact Or.inl ⟨hbest, heligible⟩

theorem Only.isPending_iff (h : plic.Only source) (hnonzero : source ≠ 0) :
    plic.isPending context = true ↔ plic.Eligible context source := by
  unfold isPending
  rw [bne_iff_ne]
  rcases h.best_cases hnonzero context with ⟨hbest, heligible⟩ | ⟨hbest, hidle⟩
  · exact iff_of_true (hbest ▸ hnonzero) heligible
  · exact iff_of_false (fun hpending => hpending hbest) hidle

/-- A claim answers with the source, and nothing interrupts any more. -/
theorem Only.claim (h : plic.Only source) (hnonzero : source ≠ 0)
    (heligible : plic.Eligible context source) :
    (plic.claim context).1 = source ∧
      ∀ other, (plic.claim context).2.isPending other = false := by
  have hbest : plic.best context = source :=
    (h.best_cases hnonzero context).resolve_right
      (fun hidle => hidle.2 heligible) |>.1
  have hclaim : plic.claim context = (source,
      { plic with claimed := plic.claimed ||| sourceBit source }) := by
    unfold Plic.claim
    dsimp only
    rw [hbest, if_neg hnonzero]
  rw [hclaim]
  refine ⟨rfl, fun other => ?_⟩
  have honly : ({ plic with
      claimed := plic.claimed ||| sourceBit source } : Plic).Only source := h
  rw [← Bool.not_eq_true, honly.isPending_iff hnonzero]
  intro hagain
  have hunclaimed := hagain.unclaimed
  rw [BitVec.getLsbD_or, getLsbD_sourceBit, decide_eq_true rfl, Bool.or_true]
    at hunclaimed
  cases hunclaimed

end Plic

namespace Memory

theorem source_uart : Plic.source? Uart.UART_IRQ = some uartSource := rfl

/-- The UART has the only line. -/
def Wired (mem : Memory) : Prop :=
  mem.plic.Only uartSource

def wiredFrame : Frame Memory where
  rel mem mem' := mem.Wired → mem'.Wired
  refl _ h := h
  trans hfirst hsecond h := hsecond (hfirst h)

theorem wiredFrame_levels {mem mem' : Memory}
    (hlevels : mem'.plic.levels = mem.plic.levels) :
    wiredFrame.rel mem mem' :=
  fun h => h.congr hlevels

theorem wiredFrame_respects : Respects wiredFrame where
  read addr size := by
    apply Program.Keeps.intro
    intro profile mem outcome mem' hrun
    cases read_course hrun with
    | dram | outside => exact wiredFrame.refl mem
    | plic => exact wiredFrame_levels (mem.plic.read_levels _)
    | clint | uart | unmapped => exact wiredFrame_levels rfl
  write addr size value := by
    apply Program.Keeps.intro
    intro profile mem outcome mem' hrun
    cases write_course hrun with
    | dram =>
        unfold stored noteTohost
        split <;> exact wiredFrame_levels rfl
    | outside => exact wiredFrame.refl mem
    | plic => exact wiredFrame_levels (mem.plic.write_levels _ value)
    | clint | uart | unmapped => exact wiredFrame_levels rfl

end Memory

namespace Cpu

variable {profile : Profile} {c c' : Cpu} {outcome : Except Exception Unit}

theorem scanned_plic (hscans : Scans c) :
    c.ticked.mem.plic =
      c.mem.plic.setLevel Uart.UART_IRQ c.mem.uart.isInterrupting := by
  have hlines := (counted_lines c).trans (tickClint_lines c.counted)
  rw [ticked_of_scans hscans, ← hlines.plic, ← hlines.line]
  rfl

theorem scanned_supervisor (hscans : Scans c) :
    c.ticked.csrs.read Csr.MIP &&& IntBit.SEIP =
      if c.ticked.mem.plic.isPending CONTEXT_SUPERVISOR then IntBit.SEIP
      else 0 := by
  rw [read_mip_and _ (by decide), ticked_of_scans hscans]
  exact scan_supervisor c.counted.tickClint

theorem ticked_wired (c : Cpu) :
    Memory.wiredFrame.rel c.mem c.ticked.mem := by
  intro hwired
  by_cases hscans : Scans c
  · unfold Memory.Wired
    rw [scanned_plic hscans]
    exact hwired.setLevel Memory.source_uart (by decide) _
  · have hlines := (counted_lines c).trans (tickClint_lines c.counted)
    rw [(ticked_of_not_scans hscans).1]
    exact hwired.congr (congrArg Plic.levels hlines.plic)

theorem step_wired (hstep : step profile c = some (outcome, c')) :
    Memory.wiredFrame.rel c.mem c'.mem := by
  have hcalls : IgnoresCalls Memory.wiredFrame :=
    ⟨fun _ _ => Memory.wiredFrame_levels rfl,
      fun _ _ => Memory.wiredFrame_levels rfl, Memory.wiredFrame_respects.read⟩
  exact step_within Memory.wiredFrame_respects (ticked_wired c)
    (answerCall_memory hcalls) hstep

theorem Started.wired (h : Started profile c) : c.mem.Wired := by
  have hloads : IgnoresLoads Memory.wiredFrame :=
    ⟨fun _ _ => Memory.wiredFrame_levels rfl,
      fun _ _ => Memory.wiredFrame_levels rfl⟩
  apply h.memory hloads (fun hkept => hkept)
  intro size source hsource
  cases (BitVec.getLsbD_zero).symm.trans hsource

/-- In every run no line but that of the UART is asserted. -/
theorem Reachable.wired (hreach : Reachable profile (Started profile) c) :
    c.mem.Wired := by
  apply hreach.invariant
  · exact fun _ hstarted => hstarted.wired
  · intro c c' hwired hnext
    cases hnext with
    | step hstep => exact step_wired hstep hwired
    | input bytes => exact hwired

/-! ## The trap -/

/-- The console wants the attention of the supervisor: its line is up, and the
interrupt controller passes it on. -/
structure Asking (c : Cpu) : Prop where
  raised : c.mem.uart.isInterrupting = true
  unclaimed : c.mem.plic.claimed.getLsbD Memory.uartSource.val = false
  enabled : (c.mem.plic.enable CONTEXT_SUPERVISOR).getLsbD
    Memory.uartSource.val = true
  above_threshold : c.mem.plic.threshold CONTEXT_SUPERVISOR <
    c.mem.plic.priority Memory.uartSource

def machineBits : BitVec 64 :=
  IntBit.MEIP ||| IntBit.MSIP ||| IntBit.MTIP

/-- The supervisor may be interrupted by the devices, and machine mode by
nothing. -/
structure Attentive (c : Cpu) : Prop where
  enabled : c.csrs.read Csr.MIE &&& IntBit.SEIP ≠ 0
  machine : BitFields.Disjoint (c.csrs.read Csr.MIE) machineBits
  delegated : c.csrs.read Csr.MIDELEG &&& IntBit.SEIP ≠ 0
  interruptible : c.privMode = .user ∨ c.privMode = .supervisor ∧
    c.csrs.read Csr.MSTATUS &&& Mstatus.SIE ≠ 0

theorem Attentive.ticked (h : Attentive c) : Attentive c.ticked := by
  have hticked := ticked_ticked c
  have hmie : c.ticked.csrs.read Csr.MIE = c.csrs.read Csr.MIE :=
    hticked.read (by decide)
  constructor
  · rw [hmie]
    exact h.enabled
  · rw [hmie]
    exact h.machine
  · rw [hticked.read (by decide)]
    exact h.delegated
  · rw [hticked.read (by decide), hticked.privMode]
    exact h.interruptible

theorem Attentive.deliverable_iff (h : Attentive c) :
    c.Deliverable IntBit.SEIP ↔
      c.csrs.read Csr.MIP &&& IntBit.SEIP ≠ 0 := by
  have hdestination : c.destination IntBit.SEIP = .supervisor :=
    if_pos h.delegated
  constructor
  · intro hdeliverable hidle
    apply hdeliverable.1
    rw [BitVec.and_assoc, hidle]
    exact BitVec.and_zero
  · intro hpending
    have hbit : IntBit.SEIP = 1#64 <<< 9 := rfl
    refine ⟨and_and_bit hbit h.enabled hpending, ?_⟩
    rw [hdestination]
    rcases h.interruptible with huser | ⟨hsupervisor, henabled⟩
    · rw [huser]
      exact Or.inl (by decide)
    · exact Or.inr ⟨hsupervisor, bne_iff_ne.mpr henabled⟩

/-- The devices come first of what the supervisor is interrupted by. -/
theorem Attentive.pending_iff (h : Attentive c) :
    c.pendingInterrupt = some Interrupt.SUPERVISOR_EXTERNAL ↔
      c.csrs.read Csr.MIP &&& IntBit.SEIP ≠ 0 := by
  rw [← h.deliverable_iff, pendingInterrupt_eq_some]
  constructor
  · rintro ⟨entry, front, back, horder, hcause, hdeliverable, -⟩
    have hentry : entry ∈ priorityOrder := by
      rw [horder]
      simp
    obtain rfl := priorityOrder_causes entry hentry
      (IntBit.SEIP, Interrupt.SUPERVISOR_EXTERNAL) (by decide) hcause
    exact hdeliverable
  · intro hdeliverable
    refine ⟨(IntBit.SEIP, Interrupt.SUPERVISOR_EXTERNAL),
      priorityOrder.take 3, priorityOrder.drop 4, rfl, rfl, hdeliverable, ?_⟩
    intro other hother hdel
    have hbits : ∀ entry ∈ priorityOrder.take 3,
        Within entry.1 machineBits := by decide
    have hdisabled : c.csrs.read Csr.MIE &&& other.1 = 0 :=
      h.machine.mono (hbits other hother)
    apply hdel.1
    rw [BitVec.and_comm (c.csrs.read Csr.MIE), BitVec.and_assoc, hdisabled]
    exact BitVec.and_zero

theorem TrapTaken.mem {cause : ℕ} {tval epc : BitVec 64} {isInterrupt : Bool}
    (h : TrapTaken c cause tval epc isInterrupt c') : c'.mem = c.mem := by
  obtain ⟨entered, pc, -, rfl⟩ := h.spec
  rfl

/-- The trap enters supervisor mode. -/
theorem Attentive.enters (h : Attentive c) {tval epc : BitVec 64}
    (htrap : TrapTaken c Interrupt.SUPERVISOR_EXTERNAL tval epc true c') :
    c'.privMode = .supervisor := by
  have hentry :
      (IntBit.SEIP, Interrupt.SUPERVISOR_EXTERNAL) ∈ priorityOrder := by decide
  have hmode : c.privMode ≤ .supervisor := by
    rcases h.interruptible with huser | ⟨hsupervisor, -⟩
    · rw [huser]
      decide
    · rw [hsupervisor]
      decide
  have hdelegated : c.Delegated Interrupt.SUPERVISOR_EXTERNAL true = true := by
    unfold Delegated
    rw [if_pos rfl, decide_eq_true hmode, Bool.true_and,
      delegation_bit hentry, decide_eq_true h.delegated]
  obtain ⟨entered, pc, ⟨rfl, -⟩ | ⟨-, hkept⟩, rfl⟩ := htrap.spec
  · rfl
  · cases hdelegated.symm.trans hkept

theorem scanned_asking_iff (hscans : Scans c) :
    c.ticked.mem.plic.Eligible CONTEXT_SUPERVISOR Memory.uartSource ↔
      Asking c := by
  rw [scanned_plic hscans,
    Plic.setLevel_eligible_iff Memory.source_uart (by decide)]
  constructor
  · rintro ⟨hraised, hunclaimed, henabled, habove⟩
    exact ⟨hraised, hunclaimed, henabled, habove⟩
  · intro h
    exact ⟨h.raised, h.unclaimed, h.enabled, h.above_threshold⟩

/-- In any run, when the devices are scanned, as they are while input is
queued, an attentive supervisor is interrupted by them exactly if the console
asks.  Then no instruction runs, and the handler that claims is given the UART,
once. -/
theorem console_interrupts (hreach : Reachable profile (Started profile) c)
    (hattentive : Attentive c) (hscans : Scans c) :
    (c.ticked.pendingInterrupt = some Interrupt.SUPERVISOR_EXTERNAL ↔
        Asking c) ∧
      (Asking c → ∀ outcome c',
        Cpu.step profile c = some (outcome, c') →
          outcome = .ok () ∧
          TrapTaken c.ticked Interrupt.SUPERVISOR_EXTERNAL 0 c.pc true c' ∧
          c'.privMode = .supervisor ∧ c'.mem.uart = c.mem.uart ∧
          (c'.mem.plic.claim CONTEXT_SUPERVISOR).1 = Memory.uartSource ∧
          ∀ context, (c'.mem.plic.claim CONTEXT_SUPERVISOR).2.isPending
            context = false) := by
  have hwired : c.ticked.mem.plic.Only Memory.uartSource :=
    ticked_wired c hreach.wired
  have hnonzero : Memory.uartSource ≠ 0 := by decide
  have hbit : c.ticked.csrs.read Csr.MIP &&& IntBit.SEIP ≠ 0 ↔ Asking c := by
    rw [scanned_supervisor hscans, ← scanned_asking_iff hscans,
      ← hwired.isPending_iff hnonzero]
    cases c.ticked.mem.plic.isPending CONTEXT_SUPERVISOR <;> decide
  have hpending : c.ticked.pendingInterrupt =
      some Interrupt.SUPERVISOR_EXTERNAL ↔ Asking c :=
    hattentive.ticked.pending_iff.trans hbit
  refine ⟨hpending, fun hasks outcome c' hstep => ?_⟩
  have htaken := hpending.mpr hasks
  cases step_stepped hstep with
  | retired hnone _ _ | answered hnone _ _ _ _ | exception hnone _ _ _ =>
      rw [htaken] at hnone
      cases hnone
  | interrupt hcause htrap =>
      cases htaken.symm.trans hcause
      have hwaiting : c.ticked.mem.plic.Eligible CONTEXT_SUPERVISOR
          Memory.uartSource := (scanned_asking_iff hscans).mpr hasks
      have hpc : c.ticked.pc = c.pc :=
        (congrArg Cpu.pc (ticked_ticked c).frame :)
      have hentered := hattentive.ticked.enters htrap
      have hmem := htrap.mem
      rw [hpc] at htrap
      refine ⟨rfl, htrap, hentered, ?_, ?_⟩
      · rw [hmem]
        exact ticked_uart c
      · rw [hmem]
        exact hwired.claim hnonzero hwaiting

/-- A kernel that enables the receive interrupt of the UART and its source in
the controller, and opens itself to the devices. -/
def attentiveHart : Cpu :=
  (programmedHart .rv64
    [ -- sb a0, -1024(a0); sw a0, 0(a1)
      0xc0a50023, 0x00a5a023,
      -- lui t0, 0xc002; sw a0, 128(t0)
      0x0c0022b7, 0x08a2a023,
      -- li t0, 0x200; csrw sie, t0; csrsi sstatus, 2; j .
      0x20000293, 0x10429073, 0x10016073, 0x0000006f]).bootSupervisor
    DRAM_BASE 0x10000401 0x0c000028

/-- A byte is typed. -/
def askedAttentive : Cpu :=
  ((stepped .debug)^[7] attentiveHart).pushInput [0x41]

theorem console_interrupts_typed :
    (askedAttentive.ticked.pendingInterrupt =
        some Interrupt.SUPERVISOR_EXTERNAL ↔ Asking askedAttentive) ∧
      (Asking askedAttentive → ∀ outcome c',
        Cpu.step .debug askedAttentive = some (outcome, c') →
          outcome = .ok () ∧
          TrapTaken askedAttentive.ticked Interrupt.SUPERVISOR_EXTERNAL 0
            askedAttentive.pc true c' ∧
          c'.privMode = .supervisor ∧
          c'.mem.uart = askedAttentive.mem.uart ∧
          (c'.mem.plic.claim CONTEXT_SUPERVISOR).1 = Memory.uartSource ∧
          ∀ context, (c'.mem.plic.claim CONTEXT_SUPERVISOR).2.isPending
            context = false) := by
  have hstart : Started .debug attentiveHart :=
    Or.inr (.boot DRAM_BASE 0x10000401 0x0c000028
      (programmedHart_loaded .debug .rv64 (by decide)))
  have hsteps : Run .debug (fun _ => True) attentiveHart
      ((stepped .debug)^[7] attentiveHart) :=
    Run.iterate (by decide +kernel) fun _ _ => trivial
  have hreach : Reachable .debug (Started .debug) askedAttentive :=
    ⟨_, hstart, hsteps.tail (.input [0x41]) trivial⟩
  have hattentive : Attentive askedAttentive :=
    ⟨by decide +kernel, by decide +kernel, by decide +kernel,
      Or.inr ⟨by decide +kernel, by decide +kernel⟩⟩
  exact console_interrupts hreach hattentive
    (Or.inr (Or.inl (by decide +kernel)))

/-- The console asks, and the handler is entered. -/
example : askedAttentive.ticked.pendingInterrupt = some 9 ∧
    (stepped .debug askedAttentive).privMode = .supervisor := by
  decide +kernel

end Cpu

end Nanoemu
