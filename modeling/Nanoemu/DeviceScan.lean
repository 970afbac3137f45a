import Nanoemu.PlicArbitration
import Nanoemu.StepHistory

/-!
# The device scan and when it is skipped

The scan copies the lines of the devices into `mip`.  It is skipped while
nothing can have moved them: an access to a device raises the dirty flag, and
input keeps the scan going while it is queued.
-/

namespace Nanoemu

open CheckedProgram BitFields

/-- The source of the UART. -/
def Memory.uartSource : Plic.Source := 10

namespace Plic

theorem setLevel_idem (plic : Plic) (source : BitVec 32) (asserted : Bool) :
    (plic.setLevel source asserted).setLevel source asserted =
      plic.setLevel source asserted := by
  cases hsource : source? source with
  | none => simp only [setLevel, hsource]
  | some s =>
      by_cases hzero : s = 0
      · simp only [setLevel, hsource, if_pos hzero]
      · cases asserted with
        | true =>
            simp only [setLevel, hsource, if_neg hzero, if_true]
            rw [BitVec.or_assoc, BitVec.or_self]
        | false =>
            simp only [setLevel, hsource, if_neg hzero, if_false,
              Bool.false_eq_true]
            rw [BitVec.and_assoc, BitVec.and_self]

theorem isPending_iff (plic : Plic) (context : Context) :
    plic.isPending context = true ↔
      ∃ source, source ≠ 0 ∧ plic.Eligible context source := by
  rw [isPending, bne_iff_ne]
  rcases plic.best_spec context with ⟨hnone, hidle⟩ | ⟨hsome, heligible, -⟩
  · refine iff_of_false (not_not.mpr hnone) ?_
    rintro ⟨source, hsource, heligible⟩
    exact hidle source hsource heligible
  · exact iff_of_true hsome ⟨_, hsome, heligible⟩

/-- An answer to the context hangs on the line of the UART: with the line up
its source would be the only eligible one. -/
structure HearsUart (plic : Plic) (context : Context) : Prop where
  unclaimed : plic.claimed.getLsbD Memory.uartSource.val = false
  enabled : (plic.enable context).getLsbD Memory.uartSource.val = true
  above_threshold : plic.threshold context < plic.priority Memory.uartSource
  alone : ∀ other, other ≠ 0 → other ≠ Memory.uartSource →
    ¬ plic.Eligible context other

theorem setLevel_uart (plic : Plic) (asserted : Bool) :
    plic.setLevel Uart.UART_IRQ asserted =
      { plic with
        levels :=
          if asserted then plic.levels ||| sourceBit Memory.uartSource
          else plic.levels &&& ~~~sourceBit Memory.uartSource } := by
  cases asserted <;> rfl

theorem eligible_setLevel_uart (plic : Plic) (asserted : Bool)
    (context : Context) (source : Source) :
    (plic.setLevel Uart.UART_IRQ asserted).Eligible context source ↔
      if source = Memory.uartSource then
        asserted = true ∧ plic.claimed.getLsbD Memory.uartSource.val = false ∧
          (plic.enable context).getLsbD Memory.uartSource.val = true ∧
          plic.threshold context < plic.priority Memory.uartSource
      else plic.Eligible context source := by
  have hlt : source.val < 32 := source.isLt
  have hlevel : (plic.setLevel Uart.UART_IRQ asserted).levels.getLsbD
      source.val = if source = Memory.uartSource then asserted
        else plic.levels.getLsbD source.val := by
    rw [setLevel_uart]
    cases asserted with
    | true =>
        simp only [if_true, BitVec.getLsbD_or, getLsbD_sourceBit]
        split
        · next h => simp [h]
        · next h => simp [Fin.val_ne_of_ne h]
    | false =>
        simp only [Bool.false_eq_true, if_false, BitVec.getLsbD_and,
          BitVec.getLsbD_not, getLsbD_sourceBit]
        split
        · next h => simp [h]
        · next h => simp [Fin.val_ne_of_ne h, hlt]
  split
  · next h =>
      subst h
      rw [if_pos rfl] at hlevel
      constructor
      · rintro ⟨hasserting, hunclaimed, henabled, habove⟩
        rw [setLevel_uart] at hunclaimed henabled habove
        exact ⟨hlevel.symm.trans hasserting, hunclaimed, henabled, habove⟩
      · rintro ⟨hasserted, hunclaimed, henabled, habove⟩
        refine ⟨hlevel.trans hasserted, ?_, ?_, ?_⟩
        · rwa [setLevel_uart]
        · rwa [setLevel_uart]
        · rwa [setLevel_uart]
  · next h =>
      rw [if_neg h] at hlevel
      constructor
      · rintro ⟨hasserting, hunclaimed, henabled, habove⟩
        rw [setLevel_uart] at hunclaimed henabled habove
        exact ⟨hlevel.symm.trans hasserting, hunclaimed, henabled, habove⟩
      · rintro ⟨hasserting, hunclaimed, henabled, habove⟩
        refine ⟨hlevel.trans hasserting, ?_, ?_, ?_⟩
        · rwa [setLevel_uart]
        · rwa [setLevel_uart]
        · rwa [setLevel_uart]

/-- A context that hears the UART alone hears it exactly while the line is up,
and another one hears the same whether it is or not. -/
theorem isPending_uart (plic : Plic) (context : Context) :
    (plic.HearsUart context ∧ ∀ asserted,
        (plic.setLevel Uart.UART_IRQ asserted).isPending context = asserted) ∨
      ¬ plic.HearsUart context ∧
        (plic.setLevel Uart.UART_IRQ true).isPending context =
          (plic.setLevel Uart.UART_IRQ false).isPending context := by
  by_cases hhears : plic.HearsUart context
  · refine Or.inl ⟨hhears, fun asserted => ?_⟩
    rw [Bool.eq_iff_iff, isPending_iff]
    constructor
    · rintro ⟨source, hsource, heligible⟩
      rw [eligible_setLevel_uart] at heligible
      split at heligible
      · exact heligible.1
      · next hother => exact absurd heligible (hhears.alone source hsource hother)
    · intro hasserted
      refine ⟨Memory.uartSource, by decide, ?_⟩
      rw [eligible_setLevel_uart, if_pos rfl]
      exact ⟨hasserted, hhears.unclaimed, hhears.enabled,
        hhears.above_threshold⟩
  · refine Or.inr ⟨hhears, ?_⟩
    rw [Bool.eq_iff_iff, isPending_iff, isPending_iff]
    constructor
    · rintro ⟨source, hsource, heligible⟩
      by_contra hnone
      rw [eligible_setLevel_uart] at heligible
      have halone : ∀ other, other ≠ 0 → other ≠ Memory.uartSource →
          ¬ plic.Eligible context other := by
        intro other hzero hother hsome
        refine hnone ⟨other, hzero, ?_⟩
        rw [eligible_setLevel_uart, if_neg hother]
        exact hsome
      split at heligible
      · exact hhears ⟨heligible.2.1, heligible.2.2.1, heligible.2.2.2, halone⟩
      · next hother => exact halone source hsource hother heligible
    · rintro ⟨source, hsource, heligible⟩
      refine ⟨source, hsource, ?_⟩
      rw [eligible_setLevel_uart] at heligible ⊢
      split at heligible
      · cases heligible.1
      · next hother => rwa [if_neg hother]

end Plic

namespace Uart

/-- The line is up for the one byte that is queued. -/
structure LineHangsOnByte (uart : Uart) : Prop where
  receive : uart.ier &&& IER_RX ≠ 0
  transmit : uart.ier &&& IER_THR = 0
  one : uart.rx.length = 1

theorem isInterrupting_take (uart : Uart) :
    (uart.LineHangsOnByte ∧ uart.isInterrupting = true ∧
        uart.takeInput.2.isInterrupting = false ∧
        uart.takeInput.2.hasInput = false) ∨
      ¬ uart.LineHangsOnByte ∧
        uart.takeInput.2.isInterrupting = uart.isInterrupting := by
  have hbefore : uart.isInterrupting =
      ((uart.ier &&& IER_RX != 0 && !uart.rx.isEmpty) ||
        uart.ier &&& IER_THR != 0) := rfl
  have hafter : uart.takeInput.2.isInterrupting =
      ((uart.ier &&& IER_RX != 0 && !uart.rx.tail.isEmpty) ||
        uart.ier &&& IER_THR != 0) := rfl
  have hinput : uart.takeInput.2.hasInput = !uart.rx.tail.isEmpty := rfl
  rw [hbefore, hafter, hinput]
  by_cases hline : uart.LineHangsOnByte
  · obtain ⟨hreceive, htransmit, hone⟩ := hline
    obtain ⟨byte, hrx⟩ := List.length_eq_one_iff.mp hone
    refine Or.inl ⟨⟨hreceive, htransmit, hone⟩, ?_⟩
    rw [hrx, htransmit]
    simpa using hreceive
  · refine Or.inr ⟨hline, ?_⟩
    rcases hrx : uart.rx with _ | ⟨byte, _ | ⟨next, rest⟩⟩
    · rfl
    · by_cases hreceive : uart.ier &&& IER_RX = 0
      · rw [hreceive]
        rfl
      · have htransmit : uart.ier &&& IER_THR ≠ 0 := fun hzero =>
          hline ⟨hreceive, hzero, by rw [hrx]; rfl⟩
        have hup : (uart.ier &&& IER_THR != 0) = true := bne_iff_ne.mpr htransmit
        rw [hup, Bool.or_true, Bool.or_true]
    · rfl

end Uart

namespace Cpu

variable {profile : Profile} {c c' : Cpu} {outcome : Except Exception Unit}

def externalBits : List (BitVec 64) :=
  [IntBit.MEIP, IntBit.SEIP]

theorem external_cases {bit : BitVec 64} (hbit : bit ∈ externalBits) :
    bit = IntBit.MEIP ∨ bit = IntBit.SEIP := by
  simpa [externalBits] using hbit

/-- The external pending bits are those that a scan would give. -/
def Current (c : Cpu) : Prop :=
  ∀ bit ∈ externalBits,
    Agree bit (c.csrs.regs Csr.MIP) (c.scanDevices.csrs.regs Csr.MIP)

instance (c : Cpu) : Decidable (Current c) :=
  inferInstanceAs (Decidable (∀ bit ∈ externalBits, _))

theorem reflect_regs (f : CsrFile) (bit : BitVec 64) (condition : Bool) :
    (reflect f bit condition).regs Csr.MIP &&& bit =
      if condition then bit else 0 := by
  cases condition with
  | true => exact or_and_self _ _
  | false =>
      change f.regs Csr.MIP &&& ~~~bit &&& bit = 0
      rw [BitVec.and_assoc, BitVec.and_comm (~~~bit), BitVec.and_not_self]
      exact BitVec.and_zero

theorem reflect_regs_other {field bit : BitVec 64}
    (h : BitFields.Disjoint field bit) (f : CsrFile) (condition : Bool) :
    Agree field ((reflect f bit condition).regs Csr.MIP)
      (f.regs Csr.MIP) := by
  cases condition with
  | true => exact Agree.or_right h
  | false => exact Agree.and_not h

def contextBit (mem : Memory) (context : Plic.Context) (bit : BitVec 64) :
    BitVec 64 :=
  if (mem.plic.setLevel Uart.UART_IRQ mem.uart.isInterrupting).isPending
    context then bit else 0

theorem scan_machine (c : Cpu) :
    c.scanDevices.csrs.regs Csr.MIP &&& IntBit.MEIP =
      contextBit c.mem CONTEXT_MACHINE IntBit.MEIP := by
  have hkept := reflect_regs_other
    (by decide : BitFields.Disjoint IntBit.MEIP IntBit.SEIP)
    (reflect c.csrs IntBit.MEIP ((c.mem.plic.setLevel Uart.UART_IRQ
      c.mem.uart.isInterrupting).isPending CONTEXT_MACHINE))
    ((c.mem.plic.setLevel Uart.UART_IRQ
      c.mem.uart.isInterrupting).isPending CONTEXT_SUPERVISOR)
  exact Eq.trans hkept (reflect_regs _ _ _)

theorem scan_supervisor (c : Cpu) :
    c.scanDevices.csrs.regs Csr.MIP &&& IntBit.SEIP =
      contextBit c.mem CONTEXT_SUPERVISOR IntBit.SEIP :=
  reflect_regs _ _ _

theorem scan_congr
    (hbits : ∀ context bit,
      contextBit c'.mem context bit = contextBit c.mem context bit) :
    ∀ bit ∈ externalBits, Agree bit (c'.scanDevices.csrs.regs Csr.MIP)
      (c.scanDevices.csrs.regs Csr.MIP) := by
  intro bit hbit
  rcases external_cases hbit with rfl | rfl
  · rw [Agree, scan_machine, scan_machine, hbits]
  · rw [Agree, scan_supervisor, scan_supervisor, hbits]

theorem scan_current (c : Cpu) : Current c.scanDevices := by
  have hbits : ∀ context bit, contextBit c.scanDevices.mem context bit =
      contextBit c.mem context bit := by
    intro context bit
    rw [contextBit, contextBit]
    change (if ((c.mem.plic.setLevel Uart.UART_IRQ
      c.mem.uart.isInterrupting).setLevel Uart.UART_IRQ
        c.mem.uart.isInterrupting).isPending context then bit else 0) = _
    rw [Plic.setLevel_idem]
  exact fun bit hbit => (scan_congr hbits bit hbit).symm

/-- The lines of the devices, their pending bits and the dirty flag stay. -/
structure SameLines (c c' : Cpu) : Prop where
  plic : c'.mem.plic = c.mem.plic
  line : c'.mem.uart.isInterrupting = c.mem.uart.isInterrupting
  flag : c'.mem.devicesDirty = c.mem.devicesDirty
  bits : ∀ bit ∈ externalBits,
    Agree bit (c'.csrs.regs Csr.MIP) (c.csrs.regs Csr.MIP)

theorem SameLines.refl (c : Cpu) : SameLines c c :=
  ⟨rfl, rfl, rfl, fun _ _ => Agree.refl _ _⟩

theorem SameLines.trans {c'' : Cpu} (hfirst : SameLines c c')
    (hsecond : SameLines c' c'') : SameLines c c'' :=
  ⟨hsecond.plic.trans hfirst.plic, hsecond.line.trans hfirst.line,
    hsecond.flag.trans hfirst.flag,
    fun bit hbit => (hsecond.bits bit hbit).trans (hfirst.bits bit hbit)⟩

theorem SameLines.current_iff (h : SameLines c c') :
    Current c' ↔ Current c := by
  have hscan : ∀ bit ∈ externalBits, Agree bit
      (c'.scanDevices.csrs.regs Csr.MIP) (c.scanDevices.csrs.regs Csr.MIP) := by
    apply scan_congr
    intro context bit
    rw [contextBit, contextBit, h.plic, h.line]
  constructor
  · exact fun hcurrent bit hbit => (h.bits bit hbit).symm.trans
      ((hcurrent bit hbit).trans (hscan bit hbit))
  · exact fun hcurrent bit hbit => (h.bits bit hbit).trans
      ((hcurrent bit hbit).trans (hscan bit hbit).symm)

theorem SameLines.of_mem (hmem : c'.mem = c.mem)
    (hbits : ∀ bit ∈ externalBits,
      Agree bit (c'.csrs.regs Csr.MIP) (c.csrs.regs Csr.MIP)) :
    SameLines c c' :=
  ⟨by rw [hmem], by rw [hmem], by rw [hmem], hbits⟩

/-- The lines stay, or the flag says that they may have moved. -/
def lineFrame : Frame Cpu where
  rel c c' := c'.mem.devicesDirty = true ∨ SameLines c c'
  refl c := Or.inr (SameLines.refl c)
  trans := by
    intro c c' c'' hfirst hsecond
    rcases hsecond with hdirty | hsecond
    · exact Or.inl hdirty
    rcases hfirst with hdirty | hfirst
    · exact Or.inl (hsecond.flag.trans hdirty)
    · exact Or.inr (hfirst.trans hsecond)

theorem lineFrame_of_mip (hmem : c'.mem = c.mem)
    (hmip : c'.csrs.regs Csr.MIP = c.csrs.regs Csr.MIP) :
    lineFrame.rel c c' :=
  Or.inr (SameLines.of_mem hmem fun _ _ => by rw [hmip]; exact Agree.refl _ _)

theorem lineFrame_of_noted (hcsrs : c'.csrs = c.csrs)
    (hnoted : Memory.Noted c.mem c'.mem) : lineFrame.rel c c' := by
  rcases hnoted with hdirty | ⟨hplic, huart, hflag⟩
  · exact Or.inl hdirty
  · refine Or.inr ⟨hplic, by rw [huart], hflag, fun bit _ => ?_⟩
    rw [hcsrs]
    exact Agree.refl _ _

theorem mip_of_writeTarget {addr : BitVec 12}
    (h : CsrFile.writeTarget addr = Csr.MIP) :
    addr = Csr.SIP ∨ addr = Csr.MIP := by
  have hone := CsrFile.writeTarget_forall Csr.MIP
    (fun addr => addr == Csr.SIP || addr == Csr.MIP) (by decide) h
  rwa [Bool.or_eq_true, beq_iff_eq, beq_iff_eq] at hone

theorem write_external (f : CsrFile) (addr : BitVec 12) (value : BitVec 64) :
    ∀ bit ∈ externalBits,
      Agree bit ((f.write addr value).regs Csr.MIP) (f.regs Csr.MIP) := by
  intro bit hbit
  by_cases htarget : CsrFile.writeTarget addr = Csr.MIP
  · have hdisjoint : BitFields.Disjoint bit IntBit.SSIP ∧
        BitFields.Disjoint bit
          (IntBit.SSIP ||| IntBit.MSIP ||| IntBit.STIP) := by
      rcases external_cases hbit with rfl | rfl <;> decide
    rcases mip_of_writeTarget htarget with rfl | rfl
    · have hwrite : (f.write Csr.SIP value).regs Csr.MIP =
          CsrFile.merge (f.regs Csr.MIP) IntBit.SSIP value :=
        CsrFile.force_regs_same _ _ _
      rw [hwrite]
      exact Agree.merge hdisjoint.1
    · have hwrite : (f.write Csr.MIP value).regs Csr.MIP =
          CsrFile.merge (f.regs Csr.MIP)
            (IntBit.SSIP ||| IntBit.MSIP ||| IntBit.STIP) value :=
        CsrFile.force_regs_same _ _ _
      rw [hwrite]
      exact Agree.merge hdisjoint.2
  · rw [f.write_regs_other value (Ne.symm htarget)]
    exact Agree.refl _ _

theorem Command.lines {start : Cpu} {inst : BitVec 32}
    (h : Command start inst c c') : lineFrame.rel c c' := by
  cases h with
  | none _ => exact lineFrame.refl c
  | csr value _ _ =>
      refine Or.inr (SameLines.of_mem ?_ fun bit hbit => ?_)
      · rw [writeCsr_frame]
      · rw [writeCsr_regs c _ value (by decide)]
        exact write_external _ _ _ bit hbit
  | sret _ _ =>
      exact lineFrame_of_mip rfl (CsrFile.force_regs_other _ _ (by decide))
  | mret _ _ =>
      exact lineFrame_of_mip rfl (CsrFile.force_regs_other _ _ (by decide))
  | fence _ _ => exact lineFrame_of_mip rfl rfl

theorem Effect.lines {start : Cpu} {inst : BitVec 32} {instPc : BitVec 64}
    (h : Effect start inst instPc c c') : lineFrame.rel c c' := by
  cases h with
  | register r v =>
      rw [setReg]
      split <;> exact lineFrame_of_mip rfl rfl
  | jump _ => exact lineFrame_of_mip rfl rfl
  | reserve _ => exact lineFrame_of_mip rfl rfl
  | release _ => exact lineFrame_of_mip rfl rfl
  | float r v _ =>
      exact lineFrame_of_mip rfl
        ((dirtyFp_touched _).others _ (by decide) (by decide))
  | flags raised _ =>
      refine lineFrame_of_mip ?_
        ((setFflags_touched c raised).others _ (by decide) (by decide))
      rw [setFflags]
      split <;> rfl

theorem Touched.lines (h : Touched c c') : lineFrame.rel c c' :=
  lineFrame_of_noted (congrArg Cpu.csrs h.frame :) h.noted

theorem Executed.lines {start : Cpu} {inst : BitVec 32} {instPc : BitVec 64}
    (h : Executed start inst instPc c c') : lineFrame.rel c c' := by
  exact h.induction Touched.lines
    (fun hcommand hlines => lineFrame.trans hlines hcommand.lines)
    fun heffect hlines => lineFrame.trans hlines heffect.lines

theorem trapCsrs_mip (c : Cpu) (entered : Priv) (word tval epc : BitVec 64) :
    (c.trapCsrs entered word tval epc).regs Csr.MIP =
      c.csrs.regs Csr.MIP := by
  rw [trapCsrs, CsrFile.force_regs_other _ _ (by decide),
    CsrFile.force_regs_other _ _ (by cases entered <;> decide),
    CsrFile.force_regs_other _ _ (by cases entered <;> decide),
    CsrFile.force_regs_other _ _ (by cases entered <;> decide)]

theorem takeTrap_lines {cause : ℕ} {tval epc : BitVec 64} {isInterrupt : Bool}
    (htrap : takeTrap cause tval epc isInterrupt profile c =
      some (.ok (), c')) : lineFrame.rel c c' := by
  obtain ⟨entered, word, pc, -, -, rfl⟩ :=
    (takeTrap_enters cause tval epc isInterrupt profile c).ok htrap
  exact lineFrame_of_mip rfl (trapCsrs_mip c entered word tval epc)

theorem Reached.lines {x : Cpu} (h : Reached c x) :
    lineFrame.rel c.ticked x :=
  lineFrame_of_noted h.csrs h.noted

theorem mip_lines {f : CsrFile} {bits : BitVec 64}
    (hbits : ∀ bit ∈ externalBits, BitFields.Disjoint bit bits) :
    (∀ bit ∈ externalBits, Agree bit ((f.setBits Csr.MIP bits).regs Csr.MIP)
        (f.regs Csr.MIP)) ∧
      ∀ bit ∈ externalBits, Agree bit
        ((f.clearBits Csr.MIP bits).regs Csr.MIP) (f.regs Csr.MIP) := by
  constructor
  · intro bit hbit
    rw [CsrFile.setBits, CsrFile.force_regs_same]
    exact Agree.or_right (hbits bit hbit)
  · intro bit hbit
    rw [CsrFile.clearBits, CsrFile.force_regs_same]
    exact Agree.and_not (hbits bit hbit)

theorem external_software :
    ∀ bit ∈ externalBits, BitFields.Disjoint bit IntBit.SSIP := by
  intro bit hbit
  rcases external_cases hbit with rfl | rfl <;> decide

theorem external_timer :
    ∀ bit ∈ externalBits, BitFields.Disjoint bit IntBit.STIP := by
  intro bit hbit
  rcases external_cases hbit with rfl | rfl <;> decide

theorem tryRead_lines (addr : BitVec 64) (size : ℕ) :
    (tryRead addr size).Moves lineFrame := by
  apply Program.Moves.attempt
  apply Program.Keeps.zoom (Memory.read_noted addr size)
  exact fun _ _ hnoted => lineFrame_of_noted rfl hnoted

theorem lineFrame_respects : RespectsCalls lineFrame where
  arg _ _ _ := lineFrame_of_mip rfl rfl
  output _ _ := Or.inr ⟨rfl, rfl, rfl, fun _ _ => Agree.refl _ _⟩
  send _ := Or.inr (SameLines.of_mem rfl (mip_lines external_software).1)
  clear _ := Or.inr (SameLines.of_mem rfl (mip_lines external_software).2)
  timer _ _ := Or.inr ⟨rfl, rfl, rfl, (mip_lines external_timer).2⟩
  flush _ := lineFrame_of_mip rfl rfl
  stop _ := lineFrame_of_mip rfl rfl
  read := tryRead_lines

def inputTaken (c : Cpu) : Cpu :=
  { c with mem := { c.mem with uart := c.mem.uart.takeInput.2 } }

theorem answerCall_getchar (hgetchar : c.regs 17 = Sbi.LEGACY_CONSOLE_GETCHAR)
    (hanswer : answerCall profile c = some (outcome, c')) :
    c' = { c.inputTaken with regs := c'.regs } := by
  have hlegacy : ∀ arg, handleLegacy Sbi.LEGACY_CONSOLE_GETCHAR arg = (do
      consoleGetchar
      pure true) := by
    intro arg
    rw [handleLegacy, if_neg (by decide), if_neg (by decide), if_pos rfl]
  have hsbi : handleSbi profile c =
      handleLegacy Sbi.LEGACY_CONSOLE_GETCHAR (c.regs a0) profile c := by
    rw [handleSbi, Program.bind_run_ok (Program.read_run _ _ _), id]
    rw [hgetchar, if_pos (by decide)]
  rw [hlegacy] at hsbi
  cases hanswer.symm.trans (Program.bind_run_ok hsbi)
  rfl

/-! ## The tick -/

/-- The next tick scans, or it has no need to: a device was touched, input is
queued, the poll interval is over, or the bits are current. -/
def Awake (c : Cpu) : Prop :=
  c.mem.devicesDirty = true ∨ c.mem.uart.hasInput = true ∨
    (c.cycle + 1).toNat % DEVICE_POLL_INTERVAL.toNat = 0 ∨ Current c

theorem reflect_lines {bit : BitVec 64}
    (hbits : ∀ external ∈ externalBits, BitFields.Disjoint external bit)
    (condition : Bool) :
    SameLines c { c with csrs := reflect c.csrs bit condition } :=
  SameLines.of_mem rfl fun external hexternal =>
    reflect_regs_other (hbits external hexternal) _ _

theorem tickClint_lines (c : Cpu) : SameLines c c.tickClint := by
  have hmachine : ∀ external ∈ externalBits,
      BitFields.Disjoint external IntBit.MTIP ∧
        BitFields.Disjoint external IntBit.MSIP := by
    intro external hexternal
    rcases external_cases hexternal with rfl | rfl <;> decide
  have htime : SameLines c { c with
      mem := { c.mem with
        clint := { c.mem.clint with mtime := c.mem.clint.mtime + 1 } }
      csrs := c.csrs.force Csr.TIME (c.mem.clint.mtime + 1) } := by
    refine ⟨rfl, rfl, rfl, fun _ _ => ?_⟩
    dsimp only
    rw [CsrFile.force_regs_other _ _ (by decide)]
    exact Agree.refl _ _
  refine htime.trans ?_
  rw [tickClint]
  refine SameLines.trans ?_
    (reflect_lines (fun bit hbit => (hmachine bit hbit).2) _)
  split
  · split
    · exact ⟨rfl, rfl, rfl, (mip_lines external_timer).1⟩
    · exact SameLines.refl _
  · exact reflect_lines (fun bit hbit => (hmachine bit hbit).1) _

theorem counted_lines (c : Cpu) : SameLines c c.counted := by
  refine ⟨rfl, rfl, rfl, fun _ _ => ?_⟩
  rw [counted]
  dsimp only
  rw [CsrFile.force_regs_other _ _ (by decide)]
  exact Agree.refl _ _

theorem tickClint_kept (c : Cpu) :
    c.tickClint.mem.uart = c.mem.uart ∧ c.tickClint.cycle = c.cycle := by
  rw [tickClint]
  dsimp only
  split
  · split <;> exact ⟨rfl, rfl⟩
  · exact ⟨rfl, rfl⟩

def Scans (c : Cpu) : Prop :=
  c.mem.devicesDirty = true ∨ c.mem.uart.hasInput = true ∨
    (c.cycle + 1).toNat % DEVICE_POLL_INTERVAL.toNat = 0

theorem ticked_of_scans (h : Scans c) :
    c.ticked = c.counted.tickClint.scanDevices := by
  obtain ⟨huart, hcycle⟩ := tickClint_kept c.counted
  rw [ticked, tickTimer]
  refine if_neg ?_
  rw [(tickClint_lines c.counted).flag, huart, hcycle]
  intro hskips
  simp only [Bool.and_eq_true, Bool.not_eq_true', bne_iff_ne] at hskips
  rcases h with hdirty | hinput | hpoll
  · cases hdirty.symm.trans hskips.1.1
  · cases hinput.symm.trans hskips.1.2
  · exact hskips.2 hpoll

theorem ticked_of_not_scans (h : ¬ Scans c) :
    c.ticked = c.counted.tickClint ∧ c.mem.devicesDirty = false := by
  obtain ⟨huart, hcycle⟩ := tickClint_kept c.counted
  rw [Scans, not_or, not_or, Bool.not_eq_true, Bool.not_eq_true] at h
  obtain ⟨hclean, hempty, hpoll⟩ := h
  refine ⟨?_, hclean⟩
  rw [ticked, tickTimer]
  refine if_pos ?_
  rw [(tickClint_lines c.counted).flag, huart, hcycle]
  simp only [Bool.and_eq_true, Bool.not_eq_true', bne_iff_ne]
  exact ⟨⟨hclean, hempty⟩, hpoll⟩

/-- A tick leaves the external bits current exactly if the hart is awake. -/
theorem ticked_current_iff (c : Cpu) : Current c.ticked ↔ Awake c := by
  have hlines : SameLines c c.counted.tickClint :=
    (counted_lines c).trans (tickClint_lines _)
  have hawake : Awake c ↔ Scans c ∨ Current c := by
    rw [Awake, Scans, or_assoc, or_assoc]
  rw [hawake]
  by_cases hscans : Scans c
  · rw [ticked_of_scans hscans]
    exact iff_of_true (scan_current _) (Or.inl hscans)
  · rw [(ticked_of_not_scans hscans).1, hlines.current_iff]
    exact ⟨Or.inr, fun h => h.resolve_left hscans⟩

/-! ## Steps and runs -/

theorem lineFrame_awake (h : lineFrame.rel c c') (hcurrent : Current c) :
    Awake c' := by
  rcases h with hdirty | hlines
  · exact Or.inl hdirty
  · exact Or.inr (Or.inr (Or.inr (hlines.current_iff.mpr hcurrent)))

/-- Taking a byte from the queue leaves the external bits as a scan has them,
or the next tick scans: a device was touched or the poll interval is over, or
the line of the UART stays where it is, or no context hears of it. -/
def TakesQuietly (c : Cpu) : Prop :=
  c.mem.devicesDirty = true ∨
    (c.cycle + 1).toNat % DEVICE_POLL_INTERVAL.toNat = 0 ∨
    ¬ c.mem.uart.LineHangsOnByte ∨
    ∀ context, ¬ c.mem.plic.HearsUart context

theorem contextBit_line {mem : Memory} {asserted : Bool}
    (hline : mem.uart.isInterrupting = asserted) (context : Plic.Context)
    (bit : BitVec 64) :
    contextBit mem context bit =
      if (mem.plic.setLevel Uart.UART_IRQ asserted).isPending context then bit
      else 0 := by
  rw [contextBit, hline]

/-- Where the line falls, a context hears it exactly if its bit changes. -/
theorem contextBit_falls {mem mem' : Memory} (hplic : mem'.plic = mem.plic)
    (hup : mem.uart.isInterrupting = true)
    (hdown : mem'.uart.isInterrupting = false) (context : Plic.Context)
    {bit : BitVec 64} (hbit : bit ≠ 0) :
    contextBit mem context bit = contextBit mem' context bit ↔
      ¬ mem.plic.HearsUart context := by
  rw [contextBit_line hup, contextBit_line hdown, hplic]
  rcases mem.plic.isPending_uart context with ⟨hhears, hline⟩ | ⟨hdeaf, hline⟩
  · rw [hline, hline]
    exact iff_of_false hbit (not_not.mpr hhears)
  · rw [hline]
    exact iff_of_true rfl hdeaf

/-- Where the byte lowers the line, the bits stay those of a scan exactly if
nobody hears it. -/
theorem inputTaken_current_iff (hcurrent : Current c)
    (hup : c.mem.uart.isInterrupting = true)
    (hdown : c.mem.uart.takeInput.2.isInterrupting = false) :
    Current c.inputTaken ↔ ∀ context, ¬ c.mem.plic.HearsUart context := by
  have hheard : ∀ context {bit : BitVec 64}, bit ≠ 0 →
      (contextBit c.mem context bit = contextBit c.inputTaken.mem context bit ↔
        ¬ c.mem.plic.HearsUart context) :=
    fun context _ => @contextBit_falls c.mem c.inputTaken.mem rfl hup hdown
      context _
  have hbits : Current c.inputTaken ↔ ∀ bit ∈ externalBits,
      Agree bit (c.scanDevices.csrs.regs Csr.MIP)
        (c.inputTaken.scanDevices.csrs.regs Csr.MIP) := by
    constructor
    · exact fun h bit hbit => (hcurrent bit hbit).symm.trans (h bit hbit)
    · exact fun h bit hbit => (hcurrent bit hbit).trans (h bit hbit)
  rw [hbits]
  constructor
  · intro hagree context
    have hcontext : context = CONTEXT_MACHINE ∨
        context = CONTEXT_SUPERVISOR := by
      revert context
      decide
    rcases hcontext with rfl | rfl
    · have h := hagree IntBit.MEIP (by simp [externalBits])
      rw [Agree, scan_machine, scan_machine] at h
      exact (hheard _ (by decide)).mp h
    · have h := hagree IntBit.SEIP (by simp [externalBits])
      rw [Agree, scan_supervisor, scan_supervisor] at h
      exact (hheard _ (by decide)).mp h
  · intro hdeaf bit hmem
    rcases external_cases hmem with rfl | rfl
    · rw [Agree, scan_machine, scan_machine]
      exact (hheard _ (by decide)).mpr (hdeaf _)
    · rw [Agree, scan_supervisor, scan_supervisor]
      exact (hheard _ (by decide)).mpr (hdeaf _)

/-- Where the bits are those of a scan, the call leaves the hart awake exactly
if it takes the byte quietly. -/
theorem inputTaken_awake_iff (hcurrent : Current c) :
    Awake c.inputTaken ↔ TakesQuietly c := by
  rcases c.mem.uart.isInterrupting_take with
    ⟨hline, hup, hdown, hempty⟩ | ⟨hline, hsame⟩
  · have hnone : ¬ c.inputTaken.mem.uart.hasInput = true := by
      rw [Bool.not_eq_true]
      exact hempty
    rw [Awake, inputTaken_current_iff hcurrent hup hdown, or_iff_right hnone,
      TakesQuietly, or_iff_right (not_not.mpr hline)]
    rfl
  · have hlines : SameLines c c.inputTaken :=
      ⟨rfl, hsame, rfl, fun _ _ => Agree.refl _ _⟩
    exact iff_of_true
      (Or.inr (Or.inr (Or.inr (hlines.current_iff.mpr hcurrent))))
      (Or.inr (Or.inr (Or.inl hline)))

/-- If the step from `c` is a call that takes a byte from the console, the
byte is taken quietly. -/
def CallsQuietly (profile : Profile) (c : Cpu) : Prop :=
  ∀ e c₁, c.ticked.pendingInterrupt = none →
    fetchExecute c.ticked.pc profile c.fetching = some (.error e, c₁) →
    c₁.callsFirmware e = true →
    c₁.regs 17 = Sbi.LEGACY_CONSOLE_GETCHAR → TakesQuietly c₁

theorem step_awake (hawake : Awake c) (hquiet : CallsQuietly profile c)
    (hstep : step profile c = some (outcome, c')) : Awake c' := by
  have hcurrent : Current c.ticked := (ticked_current_iff c).mpr hawake
  cases step_course hstep with
  | interrupt _ htrap => exact lineFrame_awake (takeTrap_lines htrap) hcurrent
  | @retired inst len c₁ c₂ _ hfetch hexecute =>
      obtain ⟨htouched, -, hexecuted⟩ := retired_executed hfetch hexecute
      have hplaced : lineFrame.rel c₁ { c₁ with pc := c₁.pc + len } :=
        lineFrame_of_mip rfl rfl
      have hretire : lineFrame.rel c₂ c₂.retire := by
        rw [retire]
        split
        · exact lineFrame.refl _
        · exact lineFrame_of_mip rfl (CsrFile.force_regs_other _ _ (by decide))
      exact lineFrame_awake (lineFrame.trans htouched.reached.lines
        (lineFrame.trans hplaced (lineFrame.trans hexecuted.lines hretire)))
        hcurrent
  | @answered e c₁ _ hpending hfail hcalls hanswer =>
      by_cases hgetchar : c₁.regs 17 = Sbi.LEGACY_CONSOLE_GETCHAR
      · have htakes := hquiet e c₁ hpending hfail hcalls hgetchar
        rw [answerCall_getchar hgetchar hanswer]
        rcases (fetchExecute_reached hfail).lines with hdirty | hlines
        · exact Or.inl hdirty
        · exact (inputTaken_awake_iff (hlines.current_iff.mpr hcurrent)).mpr
            htakes
      · have hanswered := (answerCall_ensures lineFrame_respects profile c₁
          fun h => absurd h hgetchar).ok hanswer
        exact lineFrame_awake
          (lineFrame.trans (fetchExecute_reached hfail).lines hanswered) hcurrent
  | exception _ hfail _ htrap =>
      exact lineFrame_awake (lineFrame.trans (fetchExecute_reached hfail).lines
        (takeTrap_lines htrap)) hcurrent

theorem Awake.input (h : Awake c) (bytes : List (BitVec 8)) :
    Awake (c.pushInput bytes) := by
  cases bytes with
  | nil =>
      have hsame : c.pushInput [] = c := by
        rw [pushInput, Uart.pushInput, List.append_nil]
      rw [hsame]
      exact h
  | cons byte rest =>
      right
      left
      change (!(c.mem.uart.rx ++ byte :: rest).isEmpty) = true
      cases c.mem.uart.rx <;> rfl

theorem Started.awake (h : Started profile c) : Awake c := by
  rcases h with hloaded | ⟨entry, hartid, dtb, hloaded⟩
  · exact Or.inl hloaded.fresh.dirty
  · exact Or.inl hloaded.fresh.dirty

/-- In every run whose calls take input quietly, each tick leaves the external
pending bits as a full scan would. -/
theorem external_bits_current {c₀ : Cpu} (hstart : Started profile c₀)
    {past : List Cpu} (hrun : History profile c₀ past c)
    (hquiet : ∀ x ∈ past, CallsQuietly profile x) : Current c.ticked := by
  rw [ticked_current_iff]
  exact (hrun.invariant hstart.awake step_awake
    (fun bytes hawake => hawake.input bytes) hquiet).1

/-- A kernel that enables the receive interrupt of the UART and its source in
the PLIC, and then takes the one byte that is queued by a call:
`sb a0, -1024(a0)`, `sw a0, 0(a1)`, `lui x5, 0xc002`, `sw a0, 128(x5)`,
`addi a7, x0, 2`, `ecall`. -/
def consoleHart : Cpu :=
  (programmedHart .rv64 [0xc0a50023, 0x00a5a023, 0x0c0022b7, 0x08a2a023, 0x00200893, 0x00000073]).bootSupervisor
      DRAM_BASE 0x10000401 0x0c000028

theorem consoleHart_started (profile : Profile) :
    Started profile consoleHart :=
  Or.inr (.boot DRAM_BASE 0x10000401 0x0c000028
    (programmedHart_loaded profile .rv64 (by decide)))

/-- A kernel that takes a byte by the same call and leaves the interrupts of
the UART off: `addi a7, x0, 2`, `ecall`. -/
def pollingHart : Cpu :=
  (programmedHart .rv64 [0x00200893, 0x00000073]).bootSupervisor DRAM_BASE 0 0

/-- The call takes the byte that was typed, and the bits are current. -/
theorem external_bits_current_taken :
    (pollingHart.pushInput [0x41]).mem.uart.rx = [0x41] ∧
      ((stepped .debug)^[2] (pollingHart.pushInput [0x41])).mem.uart.rx = [] ∧
      ((stepped .debug)^[2] (pollingHart.pushInput [0x41])).regs a0 = 0x41 ∧
      Current ((stepped .debug)^[2] (pollingHart.pushInput [0x41])).ticked := by
  refine ⟨by decide +kernel, by decide +kernel, by decide +kernel, ?_⟩
  have hstart : Started .debug pollingHart := Or.inr (.boot DRAM_BASE 0 0
    (programmedHart_loaded .debug .rv64 (by decide)))
  have hfirst : step .debug (pollingHart.pushInput [0x41]) = some (.ok (), _) :=
    step_eq_stepped (by decide +kernel)
  have hsecond : step .debug (stepped .debug (pollingHart.pushInput [0x41])) =
      some (.ok (), _) := step_eq_stepped (by decide +kernel)
  have hrun := ((History.start.input [0x41]).step hfirst).step hsecond
  refine external_bits_current hstart hrun ?_
  intro x hx e c₁ _ hfail hcalls _
  have hoff : ∀ y ∈ [stepped .debug (pollingHart.pushInput [0x41]),
        pollingHart.pushInput [0x41]],
      ((fetchExecute y.ticked.pc .debug y.fetching).all fun r =>
        decide (r.2.mem.uart.ier &&& Uart.IER_RX = 0)) = true := by
    decide +kernel
  have hquiet := hoff x hx
  rw [hfail] at hquiet
  exact Or.inr (Or.inr (Or.inl fun hline =>
    hline.receive (of_decide_eq_true hquiet)))

/-- After the call the queue is empty and the line is down, but the tick that
follows leaves the supervisor's bit set. -/
theorem external_bits_stale :
    Reachable .debug (Started .debug)
        ((stepped .debug)^[6] (consoleHart.pushInput [0x41])) ∧
      ¬ Current
        ((stepped .debug)^[6] (consoleHart.pushInput [0x41])).ticked := by
  have htyped : Run .debug (fun _ => True) consoleHart
      (consoleHart.pushInput [0x41]) :=
    (Run.refl trivial).tail (.input [0x41]) trivial
  have hsteps : Run .debug (fun _ => True) (consoleHart.pushInput [0x41])
      ((stepped .debug)^[6] (consoleHart.pushInput [0x41])) :=
    Run.iterate (by decide +kernel) fun _ _ => trivial
  refine ⟨⟨_, consoleHart_started .debug, htyped.trans hsteps⟩, ?_⟩
  intro hcurrent
  have hpending : ((stepped .debug)^[6]
      (consoleHart.pushInput [0x41])).ticked.csrs.regs Csr.MIP &&&
        IntBit.SEIP = IntBit.SEIP := by decide +kernel
  have hidle : contextBit ((stepped .debug)^[6]
      (consoleHart.pushInput [0x41])).ticked.mem CONTEXT_SUPERVISOR
        IntBit.SEIP = 0 := by decide +kernel
  have hsame := hcurrent IntBit.SEIP (by simp [externalBits])
  rw [Agree, hpending, scan_supervisor, hidle] at hsame
  exact absurd hsame (by decide)

end Cpu

end Nanoemu
