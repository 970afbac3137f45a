import Nanoemu.DeviceScan
import Nanoemu.SupervisorBoot

/-!
# The supervisor timer

A kernel sets a deadline by a call, and the firmware turns its expiry into a
pending bit.  The call passes the deadline in two registers on a narrow hart,
and the firmware looks at the first one only.
-/

namespace Nanoemu

open CheckedProgram BitFields

namespace Cpu

variable {profile : Profile} {c c' : Cpu} {outcome : Except Exception Unit}

/-- The step from `c` is a call into the firmware. -/
def Calls (profile : Profile) (c : Cpu) : Prop :=
  c.ticked.pendingInterrupt = none ∧
    ∃ e x, fetchExecute c.ticked.pc profile c.fetching =
      some (.error e, x) ∧ x.callsFirmware e = true

/-- The function that a7 and a6 name sets the timer: the legacy function, or
the one of the TIME extension. -/
def NamesTimer (c : Cpu) : Prop :=
  c.regs 17 = Sbi.LEGACY_SET_TIMER ∨
    c.regs 17 = Sbi.EXT_TIME ∧ c.regs 16 = 0

instance (c : Cpu) : Decidable (NamesTimer c) :=
  inferInstanceAs (Decidable (_ ∨ _))

def SetsTimer (profile : Profile) (c : Cpu) : Prop :=
  Calls profile c ∧ NamesTimer c

/-- The deadline as the calling convention passes it: in a0, or in a1 and a0
where a register holds half of it. -/
def deadline (c : Cpu) : BitVec 64 :=
  match c.xlen with
  | .rv32 => (c.regs a1).setWidth 32 ++ (c.regs a0).setWidth 32
  | .rv64 => c.regs a0

theorem read_mip_and (f : CsrFile) {bit : BitVec 64}
    (hlow : Within bit 0xffffffff) :
    f.read Csr.MIP &&& bit = f.regs Csr.MIP &&& bit := by
  change (if f.xlen = .rv32 then f.regs Csr.MIP &&& 0xffffffff
    else f.regs Csr.MIP) &&& bit = _
  split
  · exact Agree.and_mask hlow
  · rfl

def TimerPending (c : Cpu) : Prop :=
  c.csrs.read Csr.MIP &&& IntBit.STIP ≠ 0

instance (c : Cpu) : Decidable (TimerPending c) :=
  inferInstanceAs (Decidable (_ ≠ _))

theorem timerPending_iff :
    TimerPending c ↔ c.csrs.regs Csr.MIP &&& IntBit.STIP ≠ 0 := by
  rw [TimerPending, read_mip_and c.csrs (by decide)]

def withTimer (c : Cpu) (deadline : BitVec 64) : Cpu :=
  { c with
    mem := { c.mem with
      clint := { c.mem.clint with mtimecmp := deadline } }
    timerArmed := true
    csrs := c.csrs.clearBits Csr.MIP IntBit.STIP }

theorem handleSbi_timer (h : NamesTimer c) :
    ∃ regs, handleSbi profile c =
      some (.ok true, { c.withTimer (c.regs a0) with regs := regs }) := by
  rw [handleSbi, Program.bind_run_ok (Program.read_run _ _ _), id]
  dsimp only
  rcases h with hlegacy | ⟨htime, hfid⟩
  · rw [hlegacy, if_pos (by decide), handleLegacy, if_pos rfl]
    exact ⟨_, rfl⟩
  · rw [htime, hfid, if_neg (by decide), handleExtension, if_neg (by decide),
      if_pos ⟨rfl, rfl⟩]
    exact ⟨_, rfl⟩

theorem answerCall_timer (h : NamesTimer c)
    (hanswer : answerCall profile c = some (outcome, c')) :
    ∃ regs, c' = { c.withTimer (c.regs a0) with regs := regs } := by
  obtain ⟨regs, hsbi⟩ : ∃ regs, handleSbi profile c =
      some (.ok true, { c.withTimer (c.regs a0) with regs := regs }) :=
    handleSbi_timer h
  cases hanswer.symm.trans (Program.bind_run_ok hsbi)
  exact ⟨regs, rfl⟩

/-- The timer stays armed or not, and its interrupt pending or not. -/
structure SameTimer (c c' : Cpu) : Prop where
  armed : c'.timerArmed = c.timerArmed
  bit : Agree IntBit.STIP (c'.csrs.regs Csr.MIP) (c.csrs.regs Csr.MIP)

theorem SameTimer.refl (c : Cpu) : SameTimer c c :=
  ⟨rfl, Agree.refl _ _⟩

theorem SameTimer.trans {c'' : Cpu} (hfirst : SameTimer c c')
    (hsecond : SameTimer c' c'') : SameTimer c c'' :=
  ⟨hsecond.armed.trans hfirst.armed, hsecond.bit.trans hfirst.bit⟩

theorem SameTimer.of_mip (harmed : c'.timerArmed = c.timerArmed)
    (hmip : c'.csrs.regs Csr.MIP = c.csrs.regs Csr.MIP) : SameTimer c c' :=
  ⟨harmed, by rw [hmip]; exact Agree.refl _ _⟩

theorem SameTimer.pending_iff (h : SameTimer c c') :
    TimerPending c' ↔ TimerPending c := by
  rw [timerPending_iff, timerPending_iff, show c'.csrs.regs Csr.MIP &&& _ = _
    from h.bit]

def timerFrame : Frame Cpu where
  rel := SameTimer
  refl := SameTimer.refl
  trans := SameTimer.trans

/-- Below machine mode an instruction writes only the software bit of
`mip`. -/
theorem write_timer {addr : BitVec 12} (haddr : addr ≠ Csr.MIP) (f : CsrFile)
    (value : BitVec 64) :
    Agree IntBit.STIP ((f.write addr value).regs Csr.MIP)
      (f.regs Csr.MIP) := by
  by_cases htarget : CsrFile.writeTarget addr = Csr.MIP
  · obtain rfl := (mip_of_writeTarget htarget).resolve_right haddr
    have hwrite : (f.write Csr.SIP value).regs Csr.MIP =
        CsrFile.merge (f.regs Csr.MIP) IntBit.SSIP value :=
      CsrFile.force_regs_same _ _ _
    rw [hwrite]
    exact Agree.merge (by decide)
  · rw [f.write_regs_other value (Ne.symm htarget)]
    exact Agree.refl _ _

theorem Command.timer {start : Cpu} {inst : BitVec 32}
    (h : Command start inst c c') (hbelow : start.privMode ≠ .machine) :
    SameTimer c c' := by
  cases h with
  | none _ => exact SameTimer.refl c
  | csr value _ hpermitted =>
      have haddr : Nanoemu.csr inst ≠ Csr.MIP := by
        intro hmip
        have hlevel := CsrFile.not_machineLevel_of_accessible
          (accessible_of_csrPermitted hpermitted) hbelow
        rw [hmip] at hlevel
        exact hlevel (by decide)
      constructor
      · rw [writeCsr_frame]
      · rw [writeCsr_regs c _ value (by decide)]
        exact write_timer haddr _ _
  | sret _ _ => exact .of_mip rfl (CsrFile.force_regs_other _ _ (by decide))
  | mret _ _ => exact .of_mip rfl (CsrFile.force_regs_other _ _ (by decide))
  | fence _ _ => exact .of_mip rfl rfl

theorem Effect.timer {start : Cpu} {inst : BitVec 32} {instPc : BitVec 64}
    (h : Effect start inst instPc c c') : SameTimer c c' := by
  cases h with
  | register r v =>
      rw [setReg]
      split <;> exact .of_mip rfl rfl
  | jump _ => exact .of_mip rfl rfl
  | reserve _ => exact .of_mip rfl rfl
  | release _ => exact .of_mip rfl rfl
  | float r v _ =>
      exact .of_mip rfl ((dirtyFp_touched _).others _ (by decide) (by decide))
  | flags raised _ =>
      refine .of_mip ?_
        ((setFflags_touched c raised).others _ (by decide) (by decide))
      rw [setFflags]
      split <;> rfl

theorem Touched.timer (h : Touched c c') : SameTimer c c' := by
  apply SameTimer.of_mip
  · exact (congrArg Cpu.timerArmed h.frame :)
  · rw [(congrArg Cpu.csrs h.frame :)]

theorem Executed.timer {start : Cpu} {inst : BitVec 32} {instPc : BitVec 64}
    (h : Executed start inst instPc c c')
    (hbelow : start.privMode ≠ .machine) : SameTimer c c' := by
  exact h.induction Touched.timer
    (fun hcommand hsame => hsame.trans (hcommand.timer hbelow))
    fun heffect hsame => hsame.trans heffect.timer

theorem takeTrap_timer {cause : ℕ} {tval epc : BitVec 64} {isInterrupt : Bool}
    (htrap : takeTrap cause tval epc isInterrupt profile c =
      some (.ok (), c')) : SameTimer c c' := by
  obtain ⟨entered, word, pc, -, -, rfl⟩ :=
    (takeTrap_enters cause tval epc isInterrupt profile c).ok htrap
  exact .of_mip rfl (trapCsrs_mip c entered word tval epc)

theorem Reached.timer {x : Cpu} (h : Reached c x) : SameTimer c.ticked x :=
  .of_mip (congrArg Cpu.timerArmed h.frame :) (by rw [h.csrs])

theorem timerFrame_respects : RespectsReplies timerFrame where
  arg _ _ _ := SameTimer.of_mip rfl rfl
  output _ _ := SameTimer.of_mip rfl rfl
  send _ := by
    refine ⟨rfl, ?_⟩
    rw [CsrFile.setBits, CsrFile.force_regs_same]
    exact Agree.or_right (by decide)
  clear _ := by
    refine ⟨rfl, ?_⟩
    rw [CsrFile.clearBits, CsrFile.force_regs_same]
    exact Agree.and_not (by decide)
  flush _ := SameTimer.of_mip rfl rfl
  stop _ := SameTimer.of_mip rfl rfl
  read addr size := by
    apply Program.Moves.attempt
    apply Program.Keeps.zoom (Memory.read_noted addr size)
    exact fun _ _ _ => SameTimer.of_mip rfl rfl

theorem consoleGetchar_timer : consoleGetchar.Moves timerFrame :=
  consoleGetchar_moves timerFrame_respects fun _ _ => SameTimer.of_mip rfl rfl

theorem answerCall_same (hother : ¬ NamesTimer c)
    (hanswer : answerCall profile c = some (.ok (), c')) : SameTimer c c' := by
  have hwithin := answerCall_within timerFrame_respects profile c
    (fun hlegacy => absurd (Or.inl hlegacy) hother)
    (fun htime hfid => absurd (Or.inr ⟨htime, hfid⟩) hother)
    fun _ => consoleGetchar_timer
  exact hwithin.ok hanswer

/-- The next tick finds the timer armed and its deadline reached. -/
def Expires (c : Cpu) : Prop :=
  c.timerArmed = true ∧ c.mem.clint.mtimecmp ≤ c.mem.clint.mtime + 1

theorem scanDevices_timer (c : Cpu) : SameTimer c c.scanDevices := by
  refine ⟨rfl, ?_⟩
  have hmachine := reflect_regs_other
    (by decide : BitFields.Disjoint IntBit.STIP IntBit.MEIP) c.csrs
    ((c.mem.plic.setLevel Uart.UART_IRQ
      c.mem.uart.isInterrupting).isPending CONTEXT_MACHINE)
  exact Agree.trans (reflect_regs_other (by decide) _ _) hmachine

theorem ticked_clintTicked (c : Cpu) :
    SameTimer c.counted.tickClint c.ticked ∧
      c.ticked.mem.clint = c.counted.tickClint.mem.clint := by
  by_cases hscans : Scans c
  · rw [ticked_of_scans hscans]
    exact ⟨scanDevices_timer _, rfl⟩
  · rw [(ticked_of_not_scans hscans).1]
    exact ⟨SameTimer.refl _, rfl⟩

def clocked (c : Cpu) : Cpu :=
  { c with
    mem := { c.mem with
      clint := { c.mem.clint with mtime := c.mem.clint.mtime + 1 } }
    csrs := c.csrs.force Csr.TIME (c.mem.clint.mtime + 1) }

theorem clocked_timer (c : Cpu) : SameTimer c c.clocked :=
  .of_mip rfl (CsrFile.force_regs_other _ _ (by decide))

theorem reflect_software (c : Cpu) (condition : Bool) :
    SameTimer c { c with csrs := reflect c.csrs IntBit.MSIP condition } :=
  ⟨rfl, reflect_regs_other (by decide) _ _⟩

theorem tickClint_clint (c : Cpu) :
    c.tickClint.mem.clint =
      { c.mem.clint with mtime := c.mem.clint.mtime + 1 } := by
  unfold tickClint
  dsimp only
  split
  · split <;> rfl
  · rfl

def fired (c : Cpu) : Cpu :=
  { c with
    csrs := c.csrs.setBits Csr.MIP IntBit.STIP
    timerArmed := false }

theorem fired_pending (c : Cpu) : TimerPending c.fired := by
  rw [timerPending_iff, fired]
  dsimp only
  rw [CsrFile.setBits, CsrFile.force_regs_same, or_and_self]
  decide

theorem tickClint_expires (hsbi : c.sbi = true) (h : Expires c) :
    c.tickClint.timerArmed = false ∧ TimerPending c.tickClint := by
  have hexpired : (c.timerArmed &&
      decide (c.mem.clint.mtimecmp ≤ c.mem.clint.mtime + 1)) = true := by
    rw [h.1, decide_eq_true h.2]
    rfl
  have hsame := reflect_software c.clocked.fired (c.mem.clint.msip != 0)
  unfold tickClint
  dsimp only
  rw [if_pos hsbi, if_pos hexpired]
  exact ⟨hsame.armed, hsame.pending_iff.mpr c.clocked.fired_pending⟩

theorem tickClint_waits (hsbi : c.sbi = true) (h : ¬ Expires c) :
    SameTimer c c.tickClint := by
  have hexpired : ¬ (c.timerArmed &&
      (decide (c.mem.clint.mtimecmp ≤ c.mem.clint.mtime + 1))) = true := by
    simpa [Expires] using h
  unfold tickClint
  dsimp only
  rw [if_pos hsbi, if_neg hexpired]
  exact c.clocked_timer.trans (reflect_software c.clocked _)

theorem ticked_clint (c : Cpu) :
    c.ticked.mem.clint =
      { c.mem.clint with mtime := c.mem.clint.mtime + 1 } :=
  (ticked_clintTicked c).2.trans (tickClint_clint c.counted)

theorem counted_timer (c : Cpu) : SameTimer c c.counted :=
  .of_mip rfl (CsrFile.force_regs_other _ _ (by decide))

theorem ticked_expires (hsbi : c.sbi = true) (h : Expires c) :
    c.ticked.timerArmed = false ∧ TimerPending c.ticked := by
  have hsame := (ticked_clintTicked c).1
  have hfires := tickClint_expires (c := c.counted) hsbi h
  exact ⟨hsame.armed.trans hfires.1, hsame.pending_iff.mpr hfires.2⟩

theorem ticked_waits (hsbi : c.sbi = true) (h : ¬ Expires c) :
    SameTimer c c.ticked :=
  (c.counted_timer.trans (tickClint_waits (c := c.counted) hsbi h)).trans
    (ticked_clintTicked c).1

/-! ## Steps -/

/-- Below machine mode, a step that is not a call for the timer leaves it as
the tick left it. -/
theorem step_timer (hbelow : c.privMode ≠ .machine)
    (hquiet : ¬ SetsTimer profile c)
    (hstep : step profile c = some (outcome, c')) : SameTimer c.ticked c' := by
  cases step_course hstep with
  | interrupt _ htrap => exact takeTrap_timer htrap
  | @retired inst len c₁ c₂ _ hfetch hexecute =>
      obtain ⟨htouched, -, hexecuted⟩ := retired_executed hfetch hexecute
      have hmode : c₁.privMode ≠ .machine := by
        rw [(congrArg Cpu.privMode htouched.frame :)]
        exact (ticked_ticked c).privMode.symm ▸ hbelow
      have hplaced : SameTimer c₁ { c₁ with pc := c₁.pc + len } :=
        .of_mip rfl rfl
      have hretire : SameTimer c₂ c₂.retire := by
        rw [retire]
        split
        · exact SameTimer.refl _
        · exact .of_mip rfl (CsrFile.force_regs_other _ _ (by decide))
      exact htouched.reached.timer.trans
        (hplaced.trans ((hexecuted.timer hmode).trans hretire))
  | @answered e x _ hpending hfail hcalls hanswer =>
      have hreached := fetchExecute_reached hfail
      have hother : ¬ NamesTimer x := by
        rw [NamesTimer, hreached.regs]
        exact fun hnames => hquiet ⟨⟨hpending, e, x, hfail, hcalls⟩, hnames⟩
      exact hreached.timer.trans (answerCall_same hother hanswer)
  | exception _ hfail _ htrap =>
      exact (fetchExecute_reached hfail).timer.trans (takeTrap_timer htrap)

theorem step_calls (hcall : Calls profile c)
    (hstep : step profile c = some (outcome, c')) :
    ∃ x, Reached c x ∧ answerCall profile x = some (.ok (), c') := by
  obtain ⟨hpending, e, x, hfail, hcalls⟩ := hcall
  cases step_course hstep with
  | interrupt hinterrupt _ => cases hpending.symm.trans hinterrupt
  | retired _ hfetch hexecute =>
      have hretires := Retires.mk hpending hfetch hexecute
      cases (retiredInst_of_error hfail).symm.trans hretires.retiredInst
  | answered _ hfail' _ hanswer =>
      exact ⟨_, fetchExecute_reached hfail', hanswer⟩
  | exception _ hfail' hrefused _ =>
      cases hfail.symm.trans hfail'
      cases hcalls.symm.trans hrefused

theorem step_setsTimer (hcall : SetsTimer profile c)
    (hstep : step profile c = some (outcome, c')) :
    c'.timerArmed = true ∧ c'.mem.clint.mtimecmp = c.regs a0 ∧
      ¬ TimerPending c' := by
  obtain ⟨x, hreached, hanswer⟩ := step_calls hcall.1 hstep
  have hnames : NamesTimer x := by
    rw [NamesTimer, hreached.regs]
    exact hcall.2
  obtain ⟨regs, rfl⟩ := answerCall_timer hnames hanswer
  rw [hreached.regs]
  refine ⟨rfl, rfl, ?_⟩
  rw [timerPending_iff, not_not]
  change (x.csrs.clearBits Csr.MIP IntBit.STIP).regs Csr.MIP &&& IntBit.STIP = 0
  rw [CsrFile.clearBits, CsrFile.force_regs_same, BitVec.and_assoc,
    BitVec.and_comm (~~~IntBit.STIP), BitVec.and_not_self]
  exact BitVec.and_zero

/-! ## Runs -/

/-- The clock that the tick of the step from `c` shows. -/
def tickTime (c : Cpu) : BitVec 64 :=
  c.ticked.mem.clint.mtime

/-- How a timer set for `t` stands after the ticks of the steps in `past`. -/
inductive Scheduled (t : BitVec 64) (past : List Cpu) (c : Cpu) : Prop where
  | waiting : c.timerArmed = true → c.mem.clint.mtimecmp = t →
      ¬ TimerPending c → (∀ x ∈ past, x.tickTime < t) → Scheduled t past c
  | expired : c.timerArmed = false → c.mem.clint.mtimecmp = t →
      TimerPending c → t ≤ c.mem.clint.mtime → Scheduled t past c

variable {t : BitVec 64} {past : List Cpu}

theorem Scheduled.same (h : Scheduled t past c) (hsame : SameTimer c c')
    (hclint : c'.mem.clint = c.mem.clint) : Scheduled t past c' := by
  cases h with
  | waiting harmed hcompare hclear hbefore =>
      exact .waiting (hsame.armed.trans harmed) (hclint ▸ hcompare)
        (fun hpending => hclear (hsame.pending_iff.mp hpending)) hbefore
  | expired harmed hcompare hpending hreached =>
      exact .expired (hsame.armed.trans harmed) (hclint ▸ hcompare)
        (hsame.pending_iff.mpr hpending) (hclint ▸ hreached)

/-- The tick from `c` does not take the clock back below the deadline. -/
def KeepsTime (t : BitVec 64) (c : Cpu) : Prop :=
  t = 0 ∨ c.mem.clint.mtime + 1 ≠ 0

instance (t : BitVec 64) (c : Cpu) : Decidable (KeepsTime t c) :=
  inferInstanceAs (Decidable (_ ∨ _))

theorem KeepsTime.le (h : KeepsTime t c) (hle : t ≤ c.mem.clint.mtime) :
    t ≤ c.mem.clint.mtime + 1 := by
  rcases h with rfl | hwrap
  · exact BitVec.le_def.mpr (Nat.zero_le _)
  · bv_omega

/-- A tick keeps the schedule, and the clock it shows counts from now on. -/
theorem Scheduled.ticked (h : Scheduled t past c) (hsbi : c.sbi = true)
    (hkeeps : KeepsTime t c) : Scheduled t (c :: past) c.ticked := by
  have hclint := ticked_clint c
  cases h with
  | waiting harmed hcompare hclear hbefore =>
      by_cases hexpires : Expires c
      · obtain ⟨hfired, hpending⟩ := ticked_expires hsbi hexpires
        refine .expired hfired ?_ hpending ?_
        · rw [hclint]
          exact hcompare
        · rw [hclint]
          exact hcompare ▸ hexpires.2
      · have hsame := ticked_waits hsbi hexpires
        refine .waiting (hsame.armed.trans harmed) ?_
          (fun hpending => hclear (hsame.pending_iff.mp hpending)) ?_
        · rw [hclint]
          exact hcompare
        · rw [List.forall_mem_cons]
          refine ⟨?_, hbefore⟩
          rw [tickTime, hclint]
          exact BitVec.not_le.mp fun hreached =>
            hexpires ⟨harmed, hcompare.symm ▸ hreached⟩
  | expired harmed hcompare hpending hreached =>
      have hexpires : ¬ Expires c := fun hexpires => by
        cases harmed.symm.trans hexpires.1
      have hsame := ticked_waits hsbi hexpires
      refine .expired (hsame.armed.trans harmed) ?_
        (hsame.pending_iff.mpr hpending) ?_
      · rw [hclint]
        exact hcompare
      · rw [hclint]
        exact hkeeps.le hreached

/-- The step from `c` does not set the timer, and leaves the CLINT as the tick
left it. -/
structure Quiet (profile : Profile) (c : Cpu) : Prop where
  call : ¬ SetsTimer profile c
  clint : ∀ outcome c', step profile c = some (outcome, c') →
    c'.mem.clint = c.ticked.mem.clint

theorem History.scheduled {c₀ c₁ : Cpu} (hboot : Booted profile c₀)
    (hhosted : Hosted c₀ c₁) (hset : Scheduled t [] c₁)
    (hrun : History profile c₁ past c) (hquiet : ∀ x ∈ past, Quiet profile x)
    (hkeeps : ∀ x ∈ past, KeepsTime t x) :
    Hosted c₀ c ∧ Scheduled t past c := by
  induction hrun with
  | start => exact ⟨hhosted, hset⟩
  | @step past x c' outcome _ hstep ih =>
      rw [List.forall_mem_cons] at hquiet hkeeps
      obtain ⟨hbefore, hscheduled⟩ := ih hquiet.2 hkeeps.2
      have hticked := hscheduled.ticked hbefore.sbi hkeeps.1
      exact ⟨hbefore.stepped hboot (step_stepped hstep),
        hticked.same (step_timer hbefore.privMode hquiet.1.call hstep)
          (hquiet.1.clint outcome c' hstep)⟩
  | @input past x bytes _ ih =>
      obtain ⟨hbefore, hscheduled⟩ := ih hquiet hkeeps
      exact ⟨⟨hbefore.privMode, hbefore.sbi, hbefore.csrs, hbefore.mie⟩,
        hscheduled.same (.of_mip rfl rfl) rfl⟩

/-- What a tick of the step from `c` shows, of a timer set for `t` before the
steps in `past`: nothing is pending ahead of the deadline, and the interrupt
is from the first tick that has reached it. -/
structure OnTime (t : BitVec 64) (past : List Cpu) (c : Cpu) : Prop where
  early : c.tickTime < t → ¬ TimerPending c.ticked
  due : (∃ x ∈ c :: past, t ≤ x.tickTime) → TimerPending c.ticked

theorem Scheduled.onTime (h : Scheduled t (c :: past) c.ticked) :
    OnTime t past c := by
  cases h with
  | waiting _ _ hclear hbefore =>
      refine ⟨fun _ => hclear, ?_⟩
      intro ⟨x, hx, hreached⟩
      exact absurd (hbefore x hx) (BitVec.not_lt.mpr hreached)
  | expired _ _ hpending hreached =>
      exact ⟨fun hearly => absurd hearly (BitVec.not_lt.mpr hreached),
        fun _ => hpending⟩

/-- If the first argument register of a call for the timer holds the whole
deadline, and the clock does not wrap around, the supervisor timer interrupt
is pending from the first tick at the deadline, and not before. -/
theorem timer_onTime {c₀ c₁ : Cpu} (hboot : Booted profile c₀)
    (hrun : Run profile (fun _ => True) c₀ c)
    (hcall : SetsTimer profile c)
    (hstep : step profile c = some (outcome, c₁))
    (hpast : History profile c₁ past c')
    (hquiet : ∀ x ∈ past, Quiet profile x)
    (hwhole : c.regs a0 = c.deadline)
    (hkeeps : ∀ x ∈ c' :: past, KeepsTime c.deadline x) :
    OnTime c.deadline past c' := by
  rw [List.forall_mem_cons] at hkeeps
  have hhosted := (hrun.tail (.step hstep) trivial).hosted hboot
  obtain ⟨harmed, hcompare, hclear⟩ := step_setsTimer hcall hstep
  have hset : Scheduled c.deadline [] c₁ :=
    .waiting harmed (hcompare.trans hwhole) hclear (List.forall_mem_nil _)
  obtain ⟨hhosted', hscheduled⟩ :=
    hpast.scheduled hboot hhosted hset hquiet hkeeps.2
  exact (hscheduled.ticked hhosted'.sbi hkeeps.1).onTime

/-- A kernel that calls the firmware and then does nothing: with a7 at zero
the call sets the timer for what the boot has left in a1 and a0. -/
def timedHart (xlen : Xlen) (first second : BitVec 64) : Cpu :=
  (programmedHart xlen [0x00000073, 0x00000013]).bootSupervisor DRAM_BASE
    first second

theorem timedHart_booted (profile : Profile) (xlen : Xlen)
    (first second : BitVec 64) :
    Booted profile (timedHart xlen first second) :=
  .boot DRAM_BASE first second (programmedHart_loaded profile xlen (by decide))

/-- What decides whether a step calls the firmware, as a computation. -/
def callsFrom (profile : Profile) (c : Cpu) : Bool :=
  match c.ticked.pendingInterrupt,
      fetchExecute c.ticked.pc profile c.fetching with
  | none, some (.error e, x) => x.callsFirmware e
  | _, _ => false

theorem calls_iff : Calls profile c ↔ c.callsFrom profile = true := by
  unfold Calls callsFrom
  cases c.ticked.pendingInterrupt with
  | some cause => simp
  | none =>
      cases fetchExecute c.ticked.pc profile c.fetching with
      | none => simp
      | some result =>
          obtain ⟨_ | _, _⟩ := result <;> simp

instance (profile : Profile) (c : Cpu) : Decidable (SetsTimer profile c) :=
  decidable_of_iff (c.callsFrom profile = true ∧ NamesTimer c)
    (and_congr_left' calls_iff.symm)

/-- A wide kernel that sets the timer three ticks ahead. -/
theorem timer_onTime_wide :
    OnTime 3 [stepped .debug (timedHart .rv64 3 0)]
      ((stepped .debug)^[2] (timedHart .rv64 3 0)) := by
  have hset : step .debug (timedHart .rv64 3 0) =
      some (.ok (), stepped .debug (timedHart .rv64 3 0)) :=
    step_eq_stepped (by decide +kernel)
  have hnext : step .debug (stepped .debug (timedHart .rv64 3 0)) =
      some (.ok (), (stepped .debug)^[2] (timedHart .rv64 3 0)) :=
    step_eq_stepped (by decide +kernel)
  refine timer_onTime (timedHart_booted .debug .rv64 3 0) (.refl trivial)
    (by decide +kernel) hset (History.start.step hnext) ?_ rfl
    (by decide +kernel)
  rw [List.forall_mem_singleton]
  refine ⟨by decide +kernel, ?_⟩
  intro outcome c' hstep
  cases hnext.symm.trans hstep
  decide +kernel

/-- A narrow kernel sets the timer beyond the first 32 bits of the clock, and
the interrupt is pending at the next tick. -/
theorem not_timer_onTime :
    Booted .debug (timedHart .rv32 0 0x80000800) ∧
      SetsTimer .debug (timedHart .rv32 0 0x80000800) ∧
      ∃ c₁, step .debug (timedHart .rv32 0 0x80000800) = some (.ok (), c₁) ∧
        ¬ OnTime (timedHart .rv32 0 0x80000800).deadline [] c₁ := by
  refine ⟨timedHart_booted _ _ _ _, by decide +kernel, _,
    step_eq_stepped (by decide +kernel), fun honTime => ?_⟩
  have hearly : (stepped .debug (timedHart .rv32 0 0x80000800)).tickTime <
      (timedHart .rv32 0 0x80000800).deadline := by
    decide +kernel
  exact honTime.early hearly (by decide +kernel)

end Cpu

end Nanoemu
