import Nanoemu.CsrWrite
import Nanoemu.FreshHart
import Nanoemu.InstructionEffects
import Nanoemu.PreciseException

/-!
# The course of a step

The runs a step is made of: the fetch, the instruction, the firmware or the
trap.  Where the outcomes of a step say what has moved, its course says which
instruction moved it.
-/

namespace Nanoemu

open CheckedProgram

namespace Cpu

def fetching (c : Cpu) : Cpu :=
  { c.ticked with wroteInstret := false }

/-- The runs of a step from `c`, after the tick. -/
inductive Course (profile : Profile) (c : Cpu) :
    Except Exception Unit → Cpu → Prop where
  | interrupt {cause : ℕ} {c' : Cpu} :
      c.ticked.pendingInterrupt = some cause →
      takeTrap cause 0 c.ticked.pc true profile c.ticked =
        some (.ok (), c') →
      Course profile c (.ok ()) c'
  | retired {inst : BitVec 32} {len : BitVec 64} {c₁ c₂ : Cpu} :
      c.ticked.pendingInterrupt = none →
      fetch profile c.fetching = some (.ok (inst, len), c₁) →
      execute inst c.ticked.pc (c₁.pc + len) profile c₁ =
        some (.ok (), c₂) →
      Course profile c (.ok ()) c₂.retire
  | answered {e : Exception} {c₁ c' : Cpu} :
      c.ticked.pendingInterrupt = none →
      fetchExecute c.ticked.pc profile c.fetching = some (.error e, c₁) →
      c₁.callsFirmware e = true →
      answerCall profile c₁ = some (.ok (), c') →
      Course profile c (.ok ()) c'
  | exception {e : Exception} {c₁ c' : Cpu} :
      c.ticked.pendingInterrupt = none →
      fetchExecute c.ticked.pc profile c.fetching = some (.error e, c₁) →
      c₁.callsFirmware e = false →
      takeTrap (e.cause c₁.privMode) e.tval c.ticked.pc false profile c₁ =
        some (.ok (), c') →
      Course profile c (.error e) c'

variable {profile : Profile} {c c' : Cpu} {outcome : Except Exception Unit}

theorem takeTrap_ok {cause : ℕ} (hcause : cause < 64) {tval epc : BitVec 64}
    {isInterrupt : Bool}
    (htrap : takeTrap cause tval epc isInterrupt profile c =
      some (outcome, c')) : outcome = .ok () := by
  cases outcome with
  | ok value => rfl
  | error e =>
      exact ((takeTrap_ensures hcause tval epc isInterrupt profile c).error
        htrap).elim

theorem answerCall_ok
    (hanswer : answerCall profile c = some (outcome, c')) :
    outcome = .ok () := by
  cases outcome with
  | ok value => rfl
  | error e => exact ((answerCall_answers profile c).error hanswer).elim

theorem trapFail_run {e : Exception} {instPc : BitVec 64}
    (hrun : (do trap e instPc; Program.fail e : Hart Unit) profile c =
      some (outcome, c')) :
    takeTrap (e.cause c.privMode) e.tval instPc false profile c =
        some (.ok (), c') ∧
      outcome = .error e := by
  rcases Program.bind_cases hrun with
    ⟨e', htrap, -⟩ | ⟨_, c₁, htrap, hfail⟩
  · rw [trap, Program.bind_run_ok (Program.read_run _ _ _)] at htrap
    cases takeTrap_ok (exception_cause_lt e c.privMode) htrap
  · rw [trap, Program.bind_run_ok (Program.read_run _ _ _)] at htrap
    cases hfail
    exact ⟨htrap, rfl⟩

theorem runInstruction_course (hpending : c.ticked.pendingInterrupt = none)
    (hrun : runInstruction profile c.ticked = some (outcome, c')) :
    Course profile c outcome c' := by
  rw [runInstruction, Program.bind_run_ok (Program.read_run _ _ _),
    Program.bind_run_ok (Program.update_run _ _ _),
    show ({ c.ticked with wroteInstret := false } : Cpu) = c.fetching
      from rfl] at hrun
  rcases hfetch : fetchExecute c.ticked.pc profile c.fetching with
    _ | ⟨e | _, c₁⟩
  · rw [Program.bind_run_none (Program.attempt_run_none hfetch)] at hrun
    cases hrun
  · rw [Program.bind_run_ok (Program.attempt_run_some hfetch)] at hrun
    dsimp only at hrun
    rw [Program.bind_run_ok (Program.read_run _ _ _), id,
      Program.ite_run] at hrun
    split at hrun
    · next hcalls =>
        obtain rfl := answerCall_ok hrun
        exact .answered hpending hfetch hcalls hrun
    · next hcalls =>
        obtain ⟨htrap, rfl⟩ := trapFail_run hrun
        exact .exception hpending hfetch (Bool.eq_false_iff.mpr hcalls) htrap
  · rw [Program.bind_run_ok (Program.attempt_run_some hfetch)] at hrun
    cases hrun
    obtain ⟨fetched, c₂, hword, hexecute⟩ := Program.bind_ok hfetch
    exact .retired hpending hword hexecute

theorem step_course (hstep : step profile c = some (outcome, c')) :
    Course profile c outcome c' := by
  rcases Program.bind_cases hstep with ⟨e, hcount, -⟩ | ⟨_, c₁, hcount, hrun⟩
  · exact ((countCycle_ensures profile c).error hcount).elim
  obtain rfl := (countCycle_ensures profile c).ok hcount
  change c.ticked.afterTick profile c.ticked = some (outcome, c') at hrun
  cases hpending : c.ticked.pendingInterrupt with
  | some cause =>
      rw [afterTick_interrupt hpending] at hrun
      obtain rfl := takeTrap_ok (pendingInterrupt_lt hpending) hrun
      exact .interrupt hpending hrun
  | none =>
      rw [afterTick_instruction hpending] at hrun
      exact runInstruction_course hpending hrun

/-- How far past its address an instruction can leave the place. -/
def IsLength (len : BitVec 64) : Prop :=
  len = 0 ∨ len = 2 ∨ len = 4

/-- An instruction that fails leaves the hart as it started, up to the place
in the program and what memory accesses touch. -/
theorem fetchExecute_error {instPc : BitVec 64} {e : Exception} {c₁ : Cpu}
    (hfail : fetchExecute instPc profile c = some (.error e, c₁)) :
    Begun c c₁ ∧ Memory.Noted c.mem c₁.mem ∧
      ∃ len, IsLength len ∧ c₁.pc = c.pc + len := by
  rcases Program.bind_cases hfail with
    ⟨_, hfetch, -⟩ | ⟨fetched, c₂, hfetch, hexecute⟩
  · have htouched := ((fetch_ensures profile c).error hfetch).1
    have hstart : Begun c c := rfl
    refine ⟨hstart.touched htouched, htouched.noted, 0, Or.inl rfl, ?_⟩
    rw [(congrArg Cpu.pc htouched.frame :)]
    exact (BitVec.add_zero _).symm
  · obtain ⟨hfetched, hlen⟩ := (fetch_ensures profile c).ok hfetch
    have hrefused := ((execute_acts c₂ fetched.1 instPc _ profile).error
      hexecute).touched
    refine ⟨?_, hfetched.noted.trans hrefused.noted, fetched.2, Or.inr hlen, ?_⟩
    · rw [Begun, hrefused.frame, hfetched.frame]
    · rw [(congrArg Cpu.pc hrefused.frame :)]
      exact congrArg (· + fetched.2) (congrArg Cpu.pc hfetched.frame :)

theorem retired_executed {inst : BitVec 32} {len : BitVec 64} {c₁ c₂ : Cpu}
    (hfetch : fetch profile c.fetching = some (.ok (inst, len), c₁))
    (hexecute : execute inst c.ticked.pc (c₁.pc + len) profile c₁ =
      some (.ok (), c₂)) :
    Touched c.fetching c₁ ∧ (len = 2 ∨ len = 4) ∧
      Executed c₁ inst c.ticked.pc { c₁ with pc := c₁.pc + len } c₂ := by
  obtain ⟨htouched, hlen⟩ := (fetch_ensures profile c.fetching).ok hfetch
  exact ⟨htouched, hlen, (execute_acts c₁ inst _ _ profile).ok hexecute⟩

def trapTvec (mode : Priv) : BitVec 12 :=
  if mode = .supervisor then Csr.STVEC else Csr.MTVEC

/-- A handler starts at the base of the vector, or past it by four bytes for
each cause. -/
def IsHandler (tvec : BitVec 64) (cause : ℕ) (isInterrupt : Bool)
    (pc : BitVec 64) : Prop :=
  pc = tvec &&& ~~~0x3 ∨
    tvec &&& 0x3 = 1 ∧ isInterrupt = true ∧
      pc = (tvec &&& ~~~0x3) + 4 * BitVec.ofNat 64 cause

theorem trapVector_handler {which : BitVec 12} {cause : ℕ} {isInterrupt : Bool}
    {pc : BitVec 64}
    (hvector : c.trapVector which cause isInterrupt profile = some pc) :
    IsHandler (c.csrs.read which) cause isInterrupt pc := by
  rw [trapVector] at hvector
  split at hvector
  · next hvectored =>
      obtain ⟨offset, hoffset, hsum⟩ := Checked.bind_eq_some hvector
      rw [Checked.mul_eq_some hoffset] at hsum
      exact Or.inr ⟨hvectored.1, hvectored.2, Checked.add_eq_some hsum⟩
  · exact Or.inl (Option.some.inj hvector).symm

theorem trapCsrs_tvec (c : Cpu) (entered : Priv) (word tval epc : BitVec 64) :
    (c.trapCsrs entered word tval epc).read (trapTvec entered) =
      c.csrs.read (trapTvec entered) := by
  have hkept : CsrFile.source (trapTvec entered) ∉ writtenBy entered := by
    cases entered <;> decide
  exact CsrFile.read_congr rfl (trapCsrs_regs_other hkept word tval epc)

theorem delegates_mode {cause : ℕ} {isInterrupt : Bool}
    (hdelegates : c.delegates cause isInterrupt profile = some true) :
    c.privMode ≤ .supervisor := by
  obtain ⟨shifted, -, hpure⟩ := Checked.bind_eq_some hdelegates
  have hboth := Option.some.inj hpure
  rw [Bool.and_eq_true, decide_eq_true_iff] at hboth
  exact hboth.1

/-- A trap writes the registers of the mode it enters and goes to the handler
of that mode. -/
theorem takeTrap_enters (cause : ℕ) (tval epc : BitVec 64) (isInterrupt : Bool)
    (profile : Profile) (c : Cpu) :
    (takeTrap cause tval epc isInterrupt).Ensures profile c
      (fun _ c' => ∃ entered word pc,
        (entered = .machine ∨
          entered = .supervisor ∧ c.privMode ≤ .supervisor) ∧
        IsHandler (c.csrs.read (trapTvec entered)) cause isInterrupt pc ∧
        c' = { c with
          csrs := c.trapCsrs entered word tval epc
          privMode := entered
          pc := pc })
      (fun _ _ => False) := by
  apply (takeTrap_course cause tval epc isInterrupt profile c).mono
  · intro _ c' hcourse
    cases hcourse with
    | @supervisor word pc hdelegates _ hpc =>
        have hhandler := trapVector_handler hpc
        rw [show (c.enterSupervisor word tval epc).csrs.read Csr.STVEC =
          c.csrs.read Csr.STVEC from trapCsrs_tvec c .supervisor word tval epc]
          at hhandler
        exact ⟨.supervisor, word, pc, Or.inr ⟨rfl, delegates_mode hdelegates⟩,
          hhandler, rfl⟩
    | @machine word pc _ _ hpc =>
        have hhandler := trapVector_handler hpc
        rw [show (c.enterMachine word tval epc).csrs.read Csr.MTVEC =
          c.csrs.read Csr.MTVEC from trapCsrs_tvec c .machine word tval epc]
          at hhandler
        exact ⟨.machine, word, pc, Or.inl rfl, hhandler, rfl⟩
  · exact fun _ _ h => h

/-- The hart in the course of a step from `c`, before any result is written:
the tick has passed, and memory accesses have touched what they touch. -/
structure Reached (c x : Cpu) : Prop where
  frame : x = { c.ticked with
    pc := x.pc
    mem := x.mem
    tlb := x.tlb
    wroteInstret := x.wroteInstret }
  noted : Memory.Noted c.ticked.mem x.mem
  pc : ∃ len, IsLength len ∧ x.pc = c.ticked.pc + len

theorem Reached.csrs {x : Cpu} (h : Reached c x) : x.csrs = c.ticked.csrs :=
  (congrArg Cpu.csrs h.frame :)

theorem Reached.regs {x : Cpu} (h : Reached c x) : x.regs = c.regs := by
  rw [(congrArg Cpu.regs h.frame :)]
  exact (congrArg Cpu.regs (ticked_ticked c).frame :)

theorem Reached.reservation {x : Cpu} (h : Reached c x) :
    x.reservation = c.reservation := by
  rw [(congrArg Cpu.reservation h.frame :)]
  exact (congrArg Cpu.reservation (ticked_ticked c).frame :)

theorem Reached.rr {x : Cpu} (h : Reached c x) (r : Fin 32) :
    x.rr r = c.rr r := by
  rw [Cpu.rr, Cpu.rr, h.regs]

/-- What is left of a course when the runs of the fetch and the instruction
are replaced by what they do. -/
inductive Outline (profile : Profile) (c : Cpu) : Cpu → Prop where
  | trapped {x c' : Cpu} {cause : ℕ} {tval : BitVec 64} {isInterrupt : Bool} :
      Reached c x →
      takeTrap cause tval c.ticked.pc isInterrupt profile x =
        some (.ok (), c') →
      Outline profile c c'
  | retired {inst : BitVec 32} {len : BitVec 64} {c₁ c₂ : Cpu} :
      Reached c c₁ → c₁.pc = c.ticked.pc → c₁.wroteInstret = false →
      (len = 2 ∨ len = 4) →
      Executed c₁ inst c.ticked.pc { c₁ with pc := c₁.pc + len } c₂ →
      Outline profile c c₂.retire
  | answered {x c' : Cpu} :
      Reached c x → answerCall profile x = some (.ok (), c') →
      Outline profile c c'

theorem Reached.refl (c : Cpu) : Reached c c.ticked :=
  ⟨rfl, Memory.Noted.refl _, 0, Or.inl rfl, (BitVec.add_zero _).symm⟩

theorem Touched.reached {c₁ : Cpu} (h : Touched c.fetching c₁) :
    Reached c c₁ := by
  refine ⟨?_, h.noted, 0, Or.inl rfl, ?_⟩
  · rw [h.frame]
    rfl
  · rw [(congrArg Cpu.pc h.frame :)]
    exact (BitVec.add_zero _).symm

theorem fetchExecute_reached {instPc : BitVec 64} {e : Exception} {x : Cpu}
    (hfail : fetchExecute instPc profile c.fetching = some (.error e, x)) :
    Reached c x := by
  obtain ⟨hbegun, hnoted, hpc⟩ := fetchExecute_error hfail
  refine ⟨?_, hnoted, hpc⟩
  rw [hbegun]
  rfl

theorem Course.outline (h : Course profile c outcome c') :
    Outline profile c c' := by
  cases h with
  | interrupt _ htrap => exact .trapped (Reached.refl c) htrap
  | retired _ hfetch hexecute =>
      obtain ⟨htouched, hlen, hexecuted⟩ := retired_executed hfetch hexecute
      exact .retired htouched.reached (congrArg Cpu.pc htouched.frame :)
        (congrArg Cpu.wroteInstret htouched.frame :) hlen hexecuted
  | answered _ hfail _ hanswer =>
      exact .answered (fetchExecute_reached hfail) hanswer
  | exception _ hfail _ htrap =>
      exact .trapped (fetchExecute_reached hfail) htrap

theorem step_outline (hstep : step profile c = some (outcome, c')) :
    Outline profile c c' :=
  (step_course hstep).outline

/-! ## The width of the hart -/

/-- The hart and its CSRs have kept their widths. -/
structure SameWidth (c c' : Cpu) : Prop where
  xlen : c'.xlen = c.xlen
  csrs : c'.csrs.xlen = c.csrs.xlen

theorem SameWidth.refl (c : Cpu) : SameWidth c c :=
  ⟨rfl, rfl⟩

theorem SameWidth.trans {c'' : Cpu} (hfirst : SameWidth c c')
    (hsecond : SameWidth c' c'') : SameWidth c c'' :=
  ⟨hsecond.xlen.trans hfirst.xlen, hsecond.csrs.trans hfirst.csrs⟩

theorem Touched.sameWidth (h : Touched c c') : SameWidth c c' :=
  ⟨(congrArg Cpu.xlen h.frame :),
    (congrArg (fun c => c.csrs.xlen) h.frame :)⟩

theorem ticked_sameWidth (c : Cpu) : SameWidth c c.ticked :=
  ⟨(ticked_ticked c).xlenEq, (ticked_ticked c).xlen⟩

theorem writeCsr_sameWidth (c : Cpu) (addr : BitVec 12) (value : BitVec 64) :
    SameWidth c (c.writeCsr addr value) := by
  have hwrite := c.csrs.write_xlen addr (trunc value c.xbits)
  rw [writeCsr]
  dsimp only
  split <;> split <;> exact ⟨rfl, hwrite⟩

theorem Command.sameWidth {start : Cpu} {inst : BitVec 32}
    (h : Command start inst c c') : SameWidth c c' := by
  cases h with
  | none _ => exact SameWidth.refl c
  | csr value _ _ => exact writeCsr_sameWidth c _ value
  | sret _ _ => exact ⟨rfl, rfl⟩
  | mret _ _ => exact ⟨rfl, rfl⟩
  | fence _ _ => exact ⟨rfl, rfl⟩

theorem Effect.sameWidth {start : Cpu} {inst : BitVec 32} {instPc : BitVec 64}
    (h : Effect start inst instPc c c') : SameWidth c c' := by
  cases h with
  | register r v =>
      rw [setReg]
      split <;> exact ⟨rfl, rfl⟩
  | jump _ => exact ⟨rfl, rfl⟩
  | reserve _ => exact ⟨rfl, rfl⟩
  | release _ => exact ⟨rfl, rfl⟩
  | float r v _ => exact ⟨rfl, rfl⟩
  | flags raised _ =>
      rw [setFflags]
      split <;> exact ⟨rfl, rfl⟩

theorem Executed.sameWidth {start : Cpu} {inst : BitVec 32}
    {instPc : BitVec 64} (h : Executed start inst instPc c c') :
    SameWidth c c' := by
  exact h.induction Touched.sameWidth
    (fun hcommand hwidth => hwidth.trans hcommand.sameWidth)
    fun heffect hwidth => hwidth.trans heffect.sameWidth

theorem retire_sameWidth (c : Cpu) : SameWidth c c.retire := by
  rw [retire]
  split <;> exact ⟨rfl, rfl⟩

theorem takeTrap_sameWidth {cause : ℕ} {tval epc : BitVec 64}
    {isInterrupt : Bool}
    (htrap : takeTrap cause tval epc isInterrupt profile c =
      some (.ok (), c')) : SameWidth c c' := by
  obtain ⟨entered, word, pc, -, -, rfl⟩ :=
    (takeTrap_enters cause tval epc isInterrupt profile c).ok htrap
  exact ⟨rfl, rfl⟩

theorem Reached.sameWidth {x : Cpu} (h : Reached c x) : SameWidth c x :=
  (ticked_sameWidth c).trans
    ⟨(congrArg Cpu.xlen h.frame :), congrArg CsrFile.xlen h.csrs⟩

theorem Outline.sameWidth (h : Outline profile c c') : SameWidth c c' := by
  cases h with
  | trapped hreached htrap =>
      exact hreached.sameWidth.trans (takeTrap_sameWidth htrap)
  | @retired inst len c₁ c₂ hreached _ _ _ hexecuted =>
      have hplaced : SameWidth c₁ { c₁ with pc := c₁.pc + len } := ⟨rfl, rfl⟩
      exact ((hreached.sameWidth.trans hplaced).trans
        hexecuted.sameWidth).trans (retire_sameWidth c₂)
  | answered hreached hanswer =>
      have hanswered := (answerCall_answers profile _).ok hanswer
      exact hreached.sameWidth.trans
        ⟨(congrArg Cpu.xlen hanswered.frame :), hanswered.xlen⟩

theorem Next.sameWidth (h : Next profile c c') : SameWidth c c' := by
  cases h with
  | step hstep => exact (step_outline hstep).sameWidth
  | input bytes => exact ⟨rfl, rfl⟩

theorem Run.sameWidth {P : Cpu → Prop} (h : Run profile P c c') :
    SameWidth c c' := by
  induction h with
  | refl _ => exact SameWidth.refl c
  | tail _ hnext _ ih => exact ih.trans hnext.sameWidth

theorem Started.width (h : Started profile c) : c.csrs.xlen = c.xlen := by
  rcases h with hloaded | ⟨entry, hartid, dtb, hloaded⟩
  · exact hloaded.fresh.xlen
  · exact hloaded.fresh.xlen

theorem Reachable.width (h : Reachable profile (Started profile) c) :
    c.csrs.xlen = c.xlen := by
  obtain ⟨c₀, hstart, hrun⟩ := h
  rw [hrun.sameWidth.csrs, hrun.sameWidth.xlen]
  exact hstart.width

end Cpu

end Nanoemu
