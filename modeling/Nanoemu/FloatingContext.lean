import Nanoemu.FreshHart
import Nanoemu.StepCourse

/-!
# The floating-point context

A context switch saves the floating-point registers only when FS says they are
dirty, and keeps a process without them out when FS is zero.  Both rest on
every write of a floating-point register or flag marking FS dirty, and on
every instruction of the unit asking FS first.
-/

namespace Nanoemu

open CheckedProgram BitFields

namespace Cpu

def IsFloating (inst : BitVec 32) : Prop :=
  (opcode inst).toNat ∈ [0x07, 0x27, 0x43, 0x47, 0x4b, 0x4f, 0x53] ∨
    (opcode inst).toNat = 0x73 ∧ funct3 inst ≠ 0 ∧ isFpCsr (csr inst) = true

/-- FS says that the floating-point state differs from the saved one. -/
def FsDirty (f : CsrFile) : Prop :=
  f.regs Csr.MSTATUS &&& Mstatus.FS = Mstatus.FS

/-- The floating-point state is the one the instruction started with, or the
unit was on and it is marked dirty. -/
def Marked (start c : Cpu) : Prop :=
  c.fregs = start.fregs ∧
      c.csrs.regs Csr.FCSR = start.csrs.regs Csr.FCSR ∨
    start.fpEnabled = true ∧ FsDirty c.csrs

variable {profile : Profile} {start c c' : Cpu}
  {outcome : Except Exception Unit}

theorem dirtyFp_dirty (c : Cpu) : FsDirty c.dirtyFp.csrs := by
  rw [FsDirty, dirtyFp]
  dsimp only
  rw [CsrFile.force_regs_same]
  exact or_and_self _ _

theorem Marked.of_same (h : Marked start c) (hfregs : c'.fregs = c.fregs)
    (hcsrs : c'.csrs = c.csrs) : Marked start c' := by
  rw [Marked, hfregs, hcsrs]
  exact h

theorem setFflags_dirty (c : Cpu) (raised : ℕ) :
    FsDirty (c.setFflags raised).csrs :=
  dirtyFp_dirty _

theorem Effect.marked {inst : BitVec 32} {instPc : BitVec 64}
    (heffect : Effect start inst instPc c c') (h : Marked start c) :
    Marked start c' := by
  cases heffect with
  | register r v =>
      rw [setReg]
      split
      · exact h
      · exact h.of_same rfl rfl
  | jump _ => exact h.of_same rfl rfl
  | reserve _ => exact h.of_same rfl rfl
  | release _ => exact h.of_same rfl rfl
  | float r v hfp => exact Or.inr ⟨hfp, dirtyFp_dirty _⟩
  | flags raised hfp => exact Or.inr ⟨hfp, setFflags_dirty c raised⟩

theorem fpEnabled_of_permitted {addr : BitVec 12} {writes : Bool}
    (hpermitted : c.csrPermitted addr writes = true)
    (hfp : isFpCsr addr = true) : c.fpEnabled = true := by
  rw [csrPermitted, hfp] at hpermitted
  cases henabled : c.fpEnabled with
  | true => rfl
  | false => simp [henabled] at hpermitted

theorem write_fcsr (f : CsrFile) {addr : BitVec 12} (value : BitVec 64)
    (hfp : isFpCsr addr = false) :
    (f.write addr value).regs Csr.FCSR = f.regs Csr.FCSR := by
  apply f.write_regs_other
  intro htarget
  have hreaches := CsrFile.writeTarget_forall Csr.FCSR isFpCsr (by decide)
    htarget.symm
  rw [hfp] at hreaches
  cases hreaches

theorem writeCsr_dirty (c : Cpu) {addr : BitVec 12} (value : BitVec 64)
    (hfp : isFpCsr addr = true) : FsDirty (c.writeCsr addr value).csrs := by
  rw [writeCsr, hfp]
  exact dirtyFp_dirty _

theorem Command.marked {inst : BitVec 32}
    (hcommand : Command start inst c c') (hfregs : c.fregs = start.fregs)
    (hcsrs : c.csrs = start.csrs) : Marked start c' := by
  have hsame : Marked start c := Or.inl ⟨hfregs, by rw [hcsrs]⟩
  have hstatus : ∀ status, (c.csrs.force Csr.MSTATUS status).regs Csr.FCSR =
      start.csrs.regs Csr.FCSR := by
    intro status
    rw [CsrFile.force_regs_other _ _ (by decide), hcsrs]
  cases hcommand with
  | none _ => exact hsame
  | csr value _ hpermitted =>
      cases hfp : isFpCsr (Nanoemu.csr inst) with
      | true =>
          exact Or.inr ⟨fpEnabled_of_permitted hpermitted hfp,
            writeCsr_dirty c value hfp⟩
      | false =>
          refine Or.inl ⟨?_, ?_⟩
          · rw [writeCsr_frame]
            exact hfregs
          · rw [writeCsr_regs c _ value (by decide), write_fcsr _ _ hfp, hcsrs]
  | sret _ _ => exact Or.inl ⟨hfregs, hstatus _⟩
  | mret _ _ => exact Or.inl ⟨hfregs, hstatus _⟩
  | fence _ _ => exact hsame.of_same rfl rfl

theorem Executed.marked {inst : BitVec 32} {instPc : BitVec 64}
    (hexecuted : Executed start inst instPc c c')
    (hfregs : c.fregs = start.fregs) (hcsrs : c.csrs = start.csrs) :
    Marked start c' := by
  have htouch : ∀ {x : Cpu}, Touched c x →
      x.fregs = start.fregs ∧ x.csrs = start.csrs := by
    intro x htouched
    exact ⟨(congrArg Cpu.fregs htouched.frame).trans hfregs,
      (congrArg Cpu.csrs htouched.frame).trans hcsrs⟩
  exact hexecuted.induction htouch
    (fun hcommand hsame => hcommand.marked hsame.1 hsame.2) Effect.marked

theorem ticked_marked (c : Cpu) :
    c.ticked.fregs = c.fregs ∧
      c.ticked.csrs.regs Csr.FCSR = c.csrs.regs Csr.FCSR ∧
      c.ticked.csrs.read Csr.MSTATUS = c.csrs.read Csr.MSTATUS := by
  have hticked := ticked_ticked c
  exact ⟨(congrArg Cpu.fregs hticked.frame :), hticked.csrs _ (by decide),
    hticked.read (by decide)⟩

/-- A step keeps the floating-point state, or the unit was on before and the
state is marked dirty after. -/
theorem Outline.marked (houtline : Outline profile c c') : Marked c c' := by
  obtain ⟨hfregs, hfcsr, hstatus⟩ := ticked_marked c
  cases houtline with
  | @trapped x _ _ _ _ hx htrap =>
      obtain ⟨entered, word, pc, -, -, rfl⟩ :=
        (takeTrap_enters _ _ _ _ profile x).ok htrap
      refine Or.inl ⟨(congrArg Cpu.fregs hx.frame).trans hfregs, ?_⟩
      dsimp only
      rw [trapCsrs_regs_other (by cases entered <;> decide), hx.csrs, hfcsr]
  | @retired inst len c₁ c₂ hx _ _ _ hexecuted =>
      have hmarked := hexecuted.marked rfl rfl
      have hretire : Marked c₁ c₂.retire := by
        rw [retire]
        split
        · exact hmarked
        · rw [Marked, FsDirty]
          dsimp only
          rw [CsrFile.force_regs_other _ _ (by decide),
            CsrFile.force_regs_other _ _ (by decide)]
          exact hmarked
      have henabled : c₁.fpEnabled = c.fpEnabled := by
        rw [fpEnabled, fpEnabled, hx.csrs, hstatus]
      rcases hretire with ⟨hsame, hsame'⟩ | ⟨hfp, hdirty⟩
      · refine Or.inl ⟨hsame.trans ?_, hsame'.trans ?_⟩
        · exact (congrArg Cpu.fregs hx.frame).trans hfregs
        · rw [hx.csrs, hfcsr]
      · exact Or.inr ⟨henabled.symm.trans hfp, hdirty⟩
  | @answered x _ hx hanswer =>
      have hanswered := (answerCall_answers profile _).ok hanswer
      refine Or.inl ⟨?_, ?_⟩
      · rw [(congrArg Cpu.fregs hanswered.frame :)]
        exact (congrArg Cpu.fregs hx.frame).trans hfregs
      · rw [hanswered.csrs _ (by decide), hx.csrs, hfcsr]

/-! ## The gate -/

def Rejects (prog : Hart Unit) (inst : BitVec 32) (profile : Profile)
    (c : Cpu) : Prop :=
  prog profile c = some (.error (.illegalInstruction inst), c)

section Gate

variable {inst : BitVec 32}

theorem executeFpMem_gated (hoff : c.fpEnabled = false) :
    Rejects (executeFpMem inst) inst profile c := by
  rw [Rejects, executeFpMem, Program.bind_run_ok (Program.read_run _ _ _), id,
    hoff]
  rfl

theorem executeFma_gated (hoff : c.fpEnabled = false) :
    Rejects (executeFma inst) inst profile c := by
  rw [Rejects, executeFma, Program.bind_run_ok (Program.read_run _ _ _), id]
  rcases fpFmt (funct7 inst &&& 0x3).toNat with _ | fmt
  · rfl
  rcases c.rounding (funct3 inst) with _ | rm
  · rfl
  · dsimp only
    rw [hoff]
    rfl

theorem executeOpFp_gated (hoff : c.fpEnabled = false) :
    Rejects (executeOpFp inst) inst profile c := by
  rw [Rejects, executeOpFp, Program.bind_run_ok (Program.read_run _ _ _), id,
    hoff]
  rfl

theorem executeCsr_gated (hoff : c.fpEnabled = false)
    (hfp : isFpCsr (csr inst) = true) :
    Rejects (executeCsr inst) inst profile c := by
  have hrefused : ∀ writes, c.csrPermitted (csr inst) writes = false := by
    intro writes
    rw [csrPermitted, hfp, hoff]
    simp
  rw [Rejects, executeCsr, Program.bind_run_ok (Program.read_run _ _ _), id]
  dsimp only
  rw [hrefused]
  rfl

theorem execute_gated (hoff : c.fpEnabled = false) (hinst : IsFloating inst)
    (instPc nextPc : BitVec 64) :
    execute inst instPc nextPc profile c =
      some (.error (.illegalInstruction inst), { c with pc := nextPc }) := by
  have hoff' : ({ c with pc := nextPc } : Cpu).fpEnabled = false := hoff
  have hplace : setPc nextPc profile c = some (.ok (), { c with pc := nextPc }) :=
    rfl
  rw [execute, Program.bind_run_ok hplace]
  rcases hinst with hop | ⟨hop, hf3, hfp⟩
  · simp only [List.mem_cons, List.not_mem_nil, or_false] at hop
    rcases hop with hop | hop | hop | hop | hop | hop | hop <;> rw [hop]
    · exact executeFpMem_gated hoff'
    · exact executeFpMem_gated hoff'
    · exact executeFma_gated hoff'
    · exact executeFma_gated hoff'
    · exact executeFma_gated hoff'
    · exact executeFma_gated hoff'
    · exact executeOpFp_gated hoff'
  · rw [hop]
    change (if funct3 inst = 0 then executePriv inst else executeCsr inst)
      profile _ = _
    rw [if_neg hf3]
    exact executeCsr_gated hoff' hfp

end Gate

/-- What a step owes the floating-point context of a process. -/
structure ContextKept (profile : Profile) (c : Cpu)
    (outcome : Except Exception Unit) (c' : Cpu) : Prop where
  dirty : c'.fregs ≠ c.fregs ∨
      c'.csrs.read Csr.FCSR ≠ c.csrs.read Csr.FCSR →
    (c'.csrs.read Csr.MSTATUS &&& Mstatus.FS) >>> Mstatus.FS_SHIFT = 3
  kept : c.csrs.read Csr.MSTATUS &&& Mstatus.FS = 0 →
    c'.fregs = c.fregs ∧ c'.csrs.read Csr.FCSR = c.csrs.read Csr.FCSR
  refused : c.csrs.read Csr.MSTATUS &&& Mstatus.FS = 0 →
    c.ticked.pendingInterrupt = none →
    ∀ inst len x, fetch profile c.fetching = some (.ok (inst, len), x) →
      IsFloating inst → outcome = .error (.illegalInstruction inst)

theorem fetchExecute_of_fetch {instPc : BitVec 64} {inst : BitVec 32}
    {len : BitVec 64} {x : Cpu}
    (hfetch : fetch profile c = some (.ok (inst, len), x)) :
    fetchExecute instPc profile c =
      execute inst instPc (x.pc + len) profile x := by
  rw [fetchExecute, Program.bind_run_ok hfetch]
  exact Program.bind_run_ok (Program.read_run _ _ _)

theorem Course.gated (hcourse : Course profile c outcome c')
    (hoff : c.csrs.read Csr.MSTATUS &&& Mstatus.FS = 0)
    (hpending : c.ticked.pendingInterrupt = none) {inst : BitVec 32}
    {len : BitVec 64} {x : Cpu}
    (hfetch : fetch profile c.fetching = some (.ok (inst, len), x))
    (hinst : IsFloating inst) : outcome = .error (.illegalInstruction inst) := by
  have htouched := ((fetch_ensures profile c.fetching).ok hfetch).1
  have hx : x.fpEnabled = false := by
    rw [fpEnabled, htouched.reached.csrs, (ticked_marked c).2.2, hoff]
    rfl
  have hfail : fetchExecute c.ticked.pc profile c.fetching =
      some (.error (.illegalInstruction inst),
        { x with pc := x.pc + len }) := by
    rw [fetchExecute_of_fetch hfetch, execute_gated hx hinst]
  cases hcourse with
  | interrupt hpending' _ => cases hpending.symm.trans hpending'
  | retired _ hfetch' hexecute =>
      rw [hfetch] at hfetch'
      cases hfetch'
      rw [execute_gated hx hinst] at hexecute
      cases hexecute
  | answered _ hfail' hcalls _ =>
      rw [hfail] at hfail'
      cases hfail'
      exact nomatch (callsFirmware_eq_true hcalls).1
  | exception _ hfail' _ _ =>
      rw [hfail] at hfail'
      cases hfail'
      rfl

/-- Every step at either width keeps the floating-point context. -/
theorem step_context_kept (hstep : step profile c = some (outcome, c')) :
    ContextKept profile c outcome c' := by
  have hmarked := (step_outline hstep).marked
  have hwidth := (step_outline hstep).sameWidth
  have hfcsr : c'.csrs.regs Csr.FCSR = c.csrs.regs Csr.FCSR →
      c'.csrs.read Csr.FCSR = c.csrs.read Csr.FCSR := fun hsame =>
    CsrFile.read_congr hwidth.csrs hsame
  refine ⟨fun hmoved => ?_, fun hoff => ?_, fun hoff hpending => ?_⟩
  · rcases hmarked with ⟨hfregs, hsame⟩ | ⟨-, hdirty⟩
    · rcases hmoved with hmoved | hmoved
      · exact absurd hfregs hmoved
      · exact absurd (hfcsr hsame) hmoved
    · have hread : Agree Mstatus.FS (c'.csrs.read Csr.MSTATUS)
          (c'.csrs.regs Csr.MSTATUS) :=
        CsrFile.read_mstatus_agree (by decide) (by decide) c'.csrs
      rw [show c'.csrs.read Csr.MSTATUS &&& Mstatus.FS = Mstatus.FS from
        Eq.trans hread hdirty]
      decide
  · rcases hmarked with ⟨hfregs, hsame⟩ | ⟨hfp, -⟩
    · exact ⟨hfregs, hfcsr hsame⟩
    · rw [fpEnabled, hoff] at hfp
      cases hfp
  · exact fun inst len x hfetch hinst =>
      (step_course hstep).gated hoff hpending hfetch hinst

/-- A program that turns the unit on, in its initial state, and moves zero
into a register of it. -/
def movingHart : Cpu :=
  programmedHart .rv64
    [ -- lui t0, 2; csrrw x0, mstatus, t0; fmv.w.x f1, x0
      0x000022b7, 0x30029073, 0xF00000D3]

/-- The move changes a register, so the unit is dirty after it. -/
theorem step_context_kept_move :
    (((stepped .debug)^[3] movingHart).csrs.read Csr.MSTATUS &&&
      Mstatus.FS) >>> Mstatus.FS_SHIFT = 3 := by
  have hstep : step .debug ((stepped .debug)^[2] movingHart) =
      some (.ok (), stepped .debug ((stepped .debug)^[2] movingHart)) :=
    step_eq_stepped (by decide +kernel)
  refine (step_context_kept hstep).dirty (Or.inl fun hsame => ?_)
  exact absurd (congrFun hsame 1) (by decide +kernel)

end Cpu

end Nanoemu
