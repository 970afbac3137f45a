import Nanoemu.FreshHart
import Nanoemu.StepCourse

/-!
# Even addresses

The place in the program and the return addresses of both trap levels never
become odd: immediates of jumps and branches are even, JALR and the CSR writes
clear the low bit, a handler lies at a multiple of four, and a trap saves the
place it interrupts.  So no fetch is ever misaligned.
-/

namespace Nanoemu

open CheckedProgram BitFields

def IsEven (v : BitVec 64) : Prop :=
  v &&& 1 = 0

instance (v : BitVec 64) : Decidable (IsEven v) :=
  inferInstanceAs (Decidable (_ = _))

namespace IsEven

variable {a b : BitVec 64}

theorem iff_bit : IsEven a ↔ a.getLsbD 0 = false := by
  rw [IsEven, BitVec.ofNat_eq_ofNat,
    BitVec.and_one_eq_setWidth_ofBool_getLsbD]
  cases a.getLsbD 0 <;> decide

theorem add (ha : IsEven a) (hb : IsEven b) : IsEven (a + b) := by
  rw [iff_bit] at ha hb ⊢
  rw [BitVec.getLsbD_add (by decide), ha, hb]
  simp

theorem and_left (ha : IsEven a) (mask : BitVec 64) : IsEven (a &&& mask) := by
  rw [iff_bit] at ha ⊢
  rw [BitVec.getLsbD_and, ha, Bool.false_and]

theorem and_not {mask : BitVec 64} (hmask : mask.getLsbD 0 = true)
    (a : BitVec 64) : IsEven (a &&& ~~~mask) := by
  rw [iff_bit, BitVec.getLsbD_and, BitVec.getLsbD_not, hmask]
  simp

theorem trunc (ha : IsEven a) (width : ℕ) : IsEven (trunc a width) := by
  rw [Nanoemu.trunc]
  split
  · exact ha
  · exact ha.and_left _

theorem four_mul (a : BitVec 64) : IsEven (4 * a) := by
  apply BitVec.eq_of_toNat_eq
  rw [BitVec.toNat_and, BitVec.toNat_mul]
  change (4 * a.toNat % 2 ^ 64) &&& 1 = 0
  rw [Nat.and_one_is_mod]
  omega

end IsEven

theorem widen_even {imm : BitVec 32} (himm : imm.getLsbD 0 = false) :
    IsEven (widen imm) := by
  rw [IsEven.iff_bit, widen, BitVec.getLsbD_signExtend, himm]
  simp

theorem immJ_even (inst : BitVec 32) : IsEven (widen (immJ inst)) := by
  apply widen_even
  simp [immJ]

theorem immB_even (inst : BitVec 32) : IsEven (widen (immB inst)) := by
  apply widen_even
  simp [immB]

namespace Cpu

/-- The place in the program and the saved places are even. -/
structure Evens (c : Cpu) : Prop where
  pc : IsEven c.pc
  epc : ∀ mode, IsEven (c.csrs.regs (trapEpc mode))

variable {profile : Profile} {c c' : Cpu}

theorem Evens.of_csrs (h : Evens c) (hpc : IsEven c'.pc)
    (hcsrs : ∀ mode, c'.csrs.regs (trapEpc mode) =
      c.csrs.regs (trapEpc mode)) : Evens c' :=
  ⟨hpc, fun mode => by rw [hcsrs]; exact h.epc mode⟩

theorem read_epc_even {f : CsrFile} {mode : Priv}
    (h : IsEven (f.regs (trapEpc mode))) : IsEven (f.read (trapEpc mode)) := by
  have hview : f.view (trapEpc mode) = f.regs (trapEpc mode) := by
    cases mode <;> rfl
  rw [CsrFile.read, hview]
  split
  · exact h.and_left _
  · exact h

theorem trapCsrs_epc_even {entered : Priv} {word tval epc : BitVec 64}
    (hepc : IsEven epc) (h : ∀ mode, IsEven (c.csrs.regs (trapEpc mode)))
    (mode : Priv) :
    IsEven ((c.trapCsrs entered word tval epc).regs (trapEpc mode)) := by
  by_cases hsame : trapEpc mode = trapEpc entered
  · rw [hsame, (trapCsrs_regs c entered word tval epc).1]
    exact hepc
  · have hother : trapEpc mode ∉ writtenBy entered := by
      revert hsame
      cases mode <;> cases entered <;> decide
    rw [trapCsrs_regs_other hother]
    exact h mode

theorem IsHandler.even {tvec pc : BitVec 64} {cause : ℕ} {isInterrupt : Bool}
    (h : IsHandler tvec cause isInterrupt pc) : IsEven pc := by
  have hbase : IsEven (tvec &&& ~~~0x3) := IsEven.and_not (by decide) tvec
  rcases h with rfl | ⟨-, -, rfl⟩
  · exact hbase
  · exact hbase.add (IsEven.four_mul _)

theorem takeTrap_evens {cause : ℕ} {tval epc : BitVec 64} {isInterrupt : Bool}
    (h : ∀ mode, IsEven (c.csrs.regs (trapEpc mode))) (hepc : IsEven epc)
    (htrap : takeTrap cause tval epc isInterrupt profile c =
      some (.ok (), c')) : Evens c' := by
  obtain ⟨entered, word, pc, -, hhandler, rfl⟩ :=
    (takeTrap_enters cause tval epc isInterrupt profile c).ok htrap
  exact ⟨hhandler.even, trapCsrs_epc_even hepc h⟩

theorem write_epc_even (f : CsrFile) (addr : BitVec 12) (value : BitVec 64)
    (mode : Priv) (h : IsEven (f.regs (trapEpc mode))) :
    IsEven ((f.write addr value).regs (trapEpc mode)) := by
  by_cases htarget : CsrFile.writeTarget addr = trapEpc mode
  · have haddr : addr = trapEpc mode := by
      refine beq_iff_eq.mp (CsrFile.writeTarget_forall _
        (fun addr => addr == trapEpc mode) ?_ htarget)
      cases mode <;> decide
    have hwrite : f.write (trapEpc mode) value =
        f.force (trapEpc mode) (value &&& ~~~1) := by
      cases mode <;> rfl
    rw [haddr, hwrite, CsrFile.force_regs_same]
    exact IsEven.and_not (by decide) value
  · rw [f.write_regs_other value (Ne.symm htarget)]
    exact h

theorem Command.evens {start : Cpu} {inst : BitVec 32}
    (hcommand : Command start inst c c') (h : Evens c) : Evens c' := by
  have hreturn : ∀ (mode : Priv) (status : BitVec 64),
      IsEven ((c.csrs.force Csr.MSTATUS status).read (trapEpc mode)) := by
    intro mode status
    apply read_epc_even
    rw [CsrFile.force_regs_other _ _ (by cases mode <;> decide)]
    exact h.epc mode
  cases hcommand with
  | none _ => exact h
  | csr value _ _ =>
      refine ⟨?_, fun mode => ?_⟩
      · rw [writeCsr_frame]
        exact h.pc
      · rw [writeCsr_regs c _ value (by cases mode <;> decide)]
        exact write_epc_even _ _ _ mode (h.epc mode)
  | sret _ _ =>
      exact h.of_csrs (hreturn .supervisor _) fun mode =>
        CsrFile.force_regs_other _ _ (by cases mode <;> decide)
  | mret _ _ =>
      exact h.of_csrs (hreturn .machine _) fun mode =>
        CsrFile.force_regs_other _ _ (by cases mode <;> decide)
  | fence _ _ => exact ⟨h.pc, h.epc⟩

theorem JumpTarget.even {start : Cpu} {inst : BitVec 32}
    {instPc target : BitVec 64} (hinstPc : IsEven instPc)
    (h : JumpTarget start inst instPc target) : IsEven target := by
  cases h with
  | jal _ => exact hinstPc.add (immJ_even inst)
  | jalr => exact (IsEven.and_not (by decide) _).trunc _
  | branch => exact (hinstPc.add (immB_even inst)).trunc _

theorem Effect.evens {start : Cpu} {inst : BitVec 32} {instPc : BitVec 64}
    (hinstPc : IsEven instPc) (heffect : Effect start inst instPc c c')
    (h : Evens c) : Evens c' := by
  cases heffect with
  | register r v =>
      rw [setReg]
      split
      · exact h
      · exact ⟨h.pc, h.epc⟩
  | jump htarget => exact ⟨htarget.even hinstPc, h.epc⟩
  | reserve _ => exact ⟨h.pc, h.epc⟩
  | release _ => exact ⟨h.pc, h.epc⟩
  | float r v _ =>
      exact h.of_csrs h.pc fun mode =>
        (dirtyFp_touched _).others _ (by cases mode <;> decide)
          (by cases mode <;> decide)
  | flags raised _ =>
      refine h.of_csrs ?_ fun mode =>
        (setFflags_touched c raised).others _ (by cases mode <;> decide)
          (by cases mode <;> decide)
      rw [setFflags]
      split <;> exact h.pc

theorem Executed.evens {start : Cpu} {inst : BitVec 32} {instPc : BitVec 64}
    (hinstPc : IsEven instPc) (hexecuted : Executed start inst instPc c c')
    (h : Evens c) : Evens c' := by
  refine hexecuted.induction ?_ Command.evens (Effect.evens hinstPc)
  intro x htouched
  rw [htouched.frame]
  exact ⟨h.pc, h.epc⟩

/-! ## Steps and runs -/

theorem Evens.ticked (h : Evens c) : Evens c.ticked := by
  have hticked := ticked_ticked c
  refine h.of_csrs ?_ fun mode => hticked.csrs _ (by cases mode <;> decide)
  rw [hticked.frame]
  exact h.pc

theorem Outline.evens (houtline : Outline profile c c') (h : Evens c) :
    Evens c' := by
  have hticked := h.ticked
  have hreached : ∀ {x : Cpu}, Reached c x → Evens x := by
    intro x hreached
    refine ⟨?_, fun mode => by rw [hreached.csrs]; exact hticked.epc mode⟩
    obtain ⟨len, hlen, hpc⟩ := hreached.pc
    rw [hpc]
    apply hticked.pc.add
    rcases hlen with rfl | rfl | rfl <;> decide
  cases houtline with
  | trapped hx htrap =>
      exact takeTrap_evens (hreached hx).epc hticked.pc htrap
  | @retired inst len c₁ c₂ hx _ _ hlen hexecuted =>
      have hlenEven : IsEven len := by
        rcases hlen with rfl | rfl <;> decide
      have hstart : Evens { c₁ with pc := c₁.pc + len } :=
        ⟨(hreached hx).pc.add hlenEven, (hreached hx).epc⟩
      have hafter := hexecuted.evens hticked.pc hstart
      rw [retire]
      split
      · exact hafter
      · exact hafter.of_csrs hafter.pc fun mode =>
          CsrFile.force_regs_other _ _ (by cases mode <;> decide)
  | @answered x _ hx hanswer =>
      have hanswered := (answerCall_answers profile _).ok hanswer
      refine (hreached hx).of_csrs ?_ fun mode =>
        hanswered.csrs _ (by cases mode <;> decide)
      rw [hanswered.frame]
      exact (hreached hx).pc

theorem Next.evens (hnext : Next profile c c') (h : Evens c) : Evens c' := by
  cases hnext with
  | step hstep => exact (step_outline hstep).evens h
  | input bytes => exact ⟨h.pc, h.epc⟩

theorem Run.evens {P : Cpu → Prop} (hrun : Run profile P c c') (h : Evens c) :
    Evens c' := by
  induction hrun with
  | refl _ => exact h
  | tail _ hnext _ ih => exact hnext.evens ih

theorem Started.evens (hstart : Started profile c) {pc : BitVec 64}
    (hpc : IsEven pc) : Evens { c with pc := pc } := by
  refine ⟨hpc, fun mode => ?_⟩
  dsimp only
  have hzero : IsEven (0 : BitVec 64) := by decide
  rcases hstart with hloaded | ⟨entry, hartid, dtb, hloaded⟩
  · rw [hloaded.fresh.csrs _ (by cases mode <;> decide)
      (by cases mode <;> decide)]
    exact hzero
  · rw [bootSupervisor_regs_other _ _ _ _ (by cases mode <;> decide)
      (by cases mode <;> decide) (by cases mode <;> decide)
      (by cases mode <;> decide), hloaded.fresh.csrs _
      (by cases mode <;> decide) (by cases mode <;> decide)]
    exact hzero

theorem Evens.fetch_aligned (h : Evens c) (addr : BitVec 64) (x : Cpu) :
    fetch profile c.fetching ≠
      some (.error (.instructionAddressMisaligned addr), x) := by
  intro hfetch
  rcases ((fetch_ensures profile c.fetching).error hfetch).2 with
    hfault | ⟨inst, hillegal⟩ | ⟨hodd, -⟩
  · exact hfault
  · cases hillegal
  · exact hodd h.ticked.pc

/-- From an even start, the place in the program and the saved places are even
in every state of every run, and no fetch is misaligned. -/
theorem addresses_even {c₀ : Cpu} (hstart : Started profile c₀)
    {pc : BitVec 64} (hpc : pc &&& 1 = 0)
    (hrun : Run profile (fun _ => True) { c₀ with pc := pc } c) :
    c.pc &&& 1 = 0 ∧ c.csrs.read Csr.MEPC &&& 1 = 0 ∧
      c.csrs.read Csr.SEPC &&& 1 = 0 ∧
      ∀ addr x, fetch profile c.fetching ≠
        some (.error (.instructionAddressMisaligned addr), x) := by
  have hevens : Evens c := hrun.evens (hstart.evens hpc)
  have hmepc := read_epc_even (hevens.epc .machine)
  have hsepc := read_epc_even (hevens.epc .supervisor)
  exact ⟨hevens.pc, hmepc, hsepc, hevens.fetch_aligned⟩

/-- The first trap of the smallest kernel leaves an even address in `sepc`. -/
theorem addresses_even_first_trap :
    (stepped .debug bootedHart).csrs.read Csr.SEPC &&& 1 = 0 := by
  have hstep : step .debug bootedHart =
      some (.error (.illegalInstruction 0), stepped .debug bootedHart) :=
    step_eq_stepped (by decide +kernel)
  exact (addresses_even (Or.inr (bootedHart_booted .debug))
    (by decide : DRAM_BASE &&& 1 = 0)
    ((Run.refl trivial).tail (.step hstep) trivial)).2.2.1

end Cpu

end Nanoemu
