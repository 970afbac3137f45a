import Nanoemu.PrivilegeIsolation

/-!
# Running a kernel without machine-mode firmware

After `bootSupervisor` the emulator stands in for the firmware: every cause a
kernel can raise is delegated to it, and its calls are answered here.
-/

namespace Nanoemu

open CheckedProgram BitFields

namespace Cpu

theorem Booted.medeleg {profile : Profile} {c : Cpu} (h : Booted profile c) :
    c.csrs.regs Csr.MEDELEG = 0xb1ff := by
  obtain ⟨entry, hartid, dtb, -⟩ := h
  rw [bootSupervisor]
  dsimp only
  rw [CsrFile.force_regs_other _ _ (by decide),
    CsrFile.force_regs_other _ _ (by decide),
    CsrFile.force_regs_other _ _ (by decide), CsrFile.force_regs_same]

theorem Booted.mideleg {profile : Profile} {c : Cpu} (h : Booted profile c) :
    c.csrs.regs Csr.MIDELEG = IntBit.S_VISIBLE := by
  obtain ⟨entry, hartid, dtb, -⟩ := h
  rw [bootSupervisor]
  dsimp only
  rw [CsrFile.force_regs_other _ _ (by decide),
    CsrFile.force_regs_other _ _ (by decide), CsrFile.force_regs_same]
  rfl

theorem Booted.mie {profile : Profile} {c : Cpu} (h : Booted profile c) :
    c.csrs.regs Csr.MIE = 0 := by
  obtain ⟨entry, hartid, dtb, hloaded⟩ := h
  rw [bootSupervisor_regs_other _ _ _ _ (by decide) (by decide) (by decide)
    (by decide)]
  exact hloaded.fresh.csrs _ (by decide) (by decide)

/-- The registers that decide where a trap goes. -/
def bootCsrs : List (BitVec 12) :=
  [Csr.MEDELEG, Csr.MIDELEG, Csr.MTVEC, Csr.MEPC, Csr.MCAUSE]

theorem bootCsrs_level {addr : BitVec 12} (haddr : addr ∈ bootCsrs) :
    CsrFile.MachineLevel addr ∧ addr ∉ CsrFile.sharedCsrs := by
  have hall : bootCsrs.all machineCsrs.contains = true := by decide
  exact machineCsrs_level
    (List.contains_iff_mem.mp (List.all_eq_true.mp hall addr haddr))

/-- A hart whose firmware is the emulator, as it was booted at `c₀`. -/
structure Hosted (c₀ c : Cpu) : Prop where
  privMode : c.privMode ≠ .machine
  sbi : c.sbi = true
  csrs : ∀ addr ∈ bootCsrs, c.csrs.regs addr = c₀.csrs.regs addr
  mie : Agree (~~~IntBit.S_VISIBLE) (c.csrs.regs Csr.MIE)
    (c₀.csrs.regs Csr.MIE)

theorem Booted.hosted {profile : Profile} {c : Cpu} (h : Booted profile c) :
    Hosted c c := by
  refine ⟨?_, ?_, fun _ _ => rfl, Agree.refl _ _⟩
  · obtain ⟨_, _, _, _⟩ := h
    exact fun h => nomatch h
  · obtain ⟨_, _, _, _⟩ := h
    rfl

section Delegation

variable {profile : Profile} {c₀ c : Cpu}

theorem read_of_low {f : CsrFile} {addr : BitVec 12} {value : BitVec 64}
    (hview : f.view addr = value) (hlow : Within value 0xffffffff) :
    f.read addr = value := by
  rw [CsrFile.read, hview]
  split
  · exact hlow
  · rfl

theorem Hosted.medeleg (h : Hosted c₀ c) (hboot : Booted profile c₀) :
    c.csrs.read Csr.MEDELEG = 0xb1ff :=
  read_of_low ((h.csrs _ (by decide)).trans hboot.medeleg) (by decide)

theorem Hosted.mideleg (h : Hosted c₀ c) (hboot : Booted profile c₀) :
    c.csrs.read Csr.MIDELEG = IntBit.S_VISIBLE :=
  read_of_low ((h.csrs _ (by decide)).trans hboot.mideleg) (by decide)

theorem Hosted.exception_delegated (h : Hosted c₀ c)
    (hboot : Booted profile c₀) {e : Exception}
    (hcalls : c.callsFirmware e = false) :
    c.causeDelegated (e.cause c.privMode) false = true := by
  rw [causeDelegated, if_neg Bool.false_ne_true, h.medeleg hboot]
  have hbits : ∀ cause ∈ [0, 1, 2, 3, 4, 5, 6, 7, 8, 12, 13, 15],
      (((0xb1ff : BitVec 64) >>> cause) &&& 1 == 1) = true := by decide
  apply hbits
  have hmode := h.privMode
  rw [callsFirmware, h.sbi, Bool.and_true] at hcalls
  cases hpriv : c.privMode with
  | machine => exact absurd hpriv hmode
  | user => cases e <;> simp [Exception.cause]
  | supervisor =>
      rw [hpriv] at hcalls
      cases e <;> simp [Exception.cause] at hcalls ⊢

theorem Hosted.mie_within (h : Hosted c₀ c) (hboot : Booted profile c₀) :
    BitFields.Disjoint (c.csrs.read Csr.MIE) (~~~IntBit.S_VISIBLE) := by
  have hregs : BitFields.Disjoint (c.csrs.regs Csr.MIE)
      (~~~IntBit.S_VISIBLE) := by
    refine Eq.trans h.mie ?_
    rw [hboot.mie]
    rfl
  change (if c.csrs.xlen = .rv32 then c.csrs.regs Csr.MIE &&& 0xffffffff
    else c.csrs.regs Csr.MIE) &&& ~~~IntBit.S_VISIBLE = 0
  split
  · rw [BitVec.and_assoc, BitVec.and_comm 0xffffffff, ← BitVec.and_assoc,
      hregs]
    rfl
  · exact hregs

theorem Hosted.interrupt_delegated (h : Hosted c₀ c)
    (hboot : Booted profile c₀) {cause : ℕ}
    (hpending : c.pendingInterrupt = some cause) :
    c.causeDelegated cause true = true := by
  rw [causeDelegated, if_pos rfl, h.mideleg hboot]
  rw [pendingInterrupt] at hpending
  split at hpending
  · cases hpending
  · rw [Option.map_eq_some_iff] at hpending
    obtain ⟨⟨bit, cause⟩, hfound, rfl⟩ := hpending
    have hbit : (c.csrs.read Csr.MIE &&& c.csrs.read Csr.MIP) &&& bit ≠ 0 := by
      have hfires := List.find?_some hfound
      simp only [Bool.and_eq_true, bne_iff_ne] at hfires
      exact hfires.1
    have hnone : ∀ machine, Within machine (~~~IntBit.S_VISIBLE) →
        bit ≠ machine := by
      rintro machine hmachine rfl
      apply hbit
      have hoff := (h.mie_within hboot).mono hmachine
      rw [BitVec.and_assoc, BitVec.and_comm (c.csrs.read Csr.MIP),
        ← BitVec.and_assoc, hoff]
      exact BitVec.zero_and
    have hbits : ∀ cause ∈ [Interrupt.SUPERVISOR_EXTERNAL,
        Interrupt.SUPERVISOR_SOFTWARE, Interrupt.SUPERVISOR_TIMER],
        ((IntBit.S_VISIBLE >>> cause) &&& 1 == 1) = true := by decide
    have hmember := List.mem_of_find?_eq_some hfound
    simp only [interruptOrder, List.mem_cons, List.not_mem_nil, or_false,
      Prod.mk.injEq] at hmember
    apply hbits
    change cause ∈ _
    rcases hmember with ⟨hmeip, -⟩ | ⟨hmsip, -⟩ | ⟨hmtip, -⟩ | ⟨-, rfl⟩ |
      ⟨-, rfl⟩ | ⟨-, rfl⟩
    · exact absurd hmeip (hnone _ (by decide))
    · exact absurd hmsip (hnone _ (by decide))
    · exact absurd hmtip (hnone _ (by decide))
    · decide
    · decide
    · decide

end Delegation

theorem Control.sbi {c c' : Cpu} (h : Control c c') : c'.sbi = c.sbi := by
  cases h with
  | keep => rfl
  | csr addr value _ =>
      rw [writeCsr]
      dsimp only
      split <;> split <;> rfl
  | sret _ => rfl
  | mret _ => rfl
  | fence _ => rfl

theorem Accessed.sbi {c c₁ : Cpu} (h : Accessed c c₁) : c₁.sbi = c.sbi := by
  obtain ⟨c₂, mem, hwalked, -, rfl⟩ := h
  exact (congrArg Cpu.sbi hwalked.frame :)

theorem Stepped.sbi {c c' : Cpu} {outcome : Except Exception Unit}
    (h : Stepped c outcome c') : c'.sbi = c.sbi := by
  have hticked : c.ticked.sbi = c.sbi :=
    (congrArg Cpu.sbi (ticked_ticked c).frame :)
  cases h with
  | interrupt _ htrap =>
      obtain ⟨entered, pc, -, rfl⟩ := htrap.spec
      exact hticked
  | @retired c₁ c₂ _ haccessed hcommitted =>
      obtain ⟨c₃, hcontrol, hfloats⟩ := hcommitted
      have hretire : c₂.retire.sbi = c₂.sbi := by
        rw [retire]
        split <;> rfl
      rw [hretire, (congrArg Cpu.sbi hfloats.frame :), hcontrol.sbi,
        haccessed.sbi, hticked]
  | answered _ haccessed _ _ hanswered =>
      rw [(congrArg Cpu.sbi hanswered.frame :), haccessed.sbi, hticked]
  | exception _ haccessed _ htrap =>
      obtain ⟨entered, pc, -, rfl⟩ := htrap.spec
      exact haccessed.sbi.trans hticked

theorem Hosted.ticked {c₀ c : Cpu} (h : Hosted c₀ c) : Hosted c₀ c.ticked := by
  have hticked := ticked_ticked c
  refine ⟨hticked.privMode ▸ h.privMode, ?_, fun addr haddr => ?_, ?_⟩
  · exact (congrArg Cpu.sbi hticked.frame).trans h.sbi
  · have hlevel := bootCsrs_level haddr
    exact (hticked.guarded.regs addr hlevel.1 hlevel.2).trans
      (h.csrs addr haddr)
  · rw [hticked.csrs _ (by decide)]
    exact h.mie

theorem Hosted.trap_supervisor {profile : Profile} {c₀ c c' : Cpu}
    {outcome : Except Exception Unit} (h : Hosted c₀ c)
    (hboot : Booted profile c₀) (hstepped : Stepped c outcome c')
    {cause : ℕ} {isInterrupt : Bool}
    (htrap : c.trapOf outcome = some (cause, isInterrupt)) :
    c'.privMode = .supervisor := by
  have hraises := hstepped.privilege.2 cause isInterrupt htrap
  refine hraises.supervisor.mpr ⟨?_, h.privMode⟩
  have hdelegated : ∀ {cause isInterrupt},
      c.ticked.causeDelegated cause isInterrupt = true →
      c.causeDelegated cause isInterrupt = true := by
    intro cause isInterrupt hdelegated
    have hticked := ticked_ticked c
    rw [causeDelegated, hticked.read (by decide),
      hticked.read (by decide)] at hdelegated
    exact hdelegated
  cases hstepped with
  | interrupt hpending _ =>
      rw [trapOf_interrupt hpending] at htrap
      cases htrap
      exact hdelegated (h.ticked.interrupt_delegated hboot hpending)
  | retired hpending _ _ =>
      rw [trapOf_ok hpending] at htrap
      cases htrap
  | answered hpending _ _ _ _ =>
      rw [trapOf_ok hpending] at htrap
      cases htrap
  | @exception e c₁ _ hpending haccessed hcalls _ =>
      rw [trapOf_error hpending] at htrap
      cases htrap
      apply h.exception_delegated hboot
      rw [callsFirmware, haccessed.sbi, haccessed.registers.2.2.2.1] at hcalls
      rw [callsFirmware, ← (congrArg Cpu.sbi (ticked_ticked c).frame :)]
      exact hcalls

theorem Hosted.stepped {profile : Profile} {c₀ c c' : Cpu}
    {outcome : Except Exception Unit} (h : Hosted c₀ c)
    (hboot : Booted profile c₀) (hstepped : Stepped c outcome c') :
    Hosted c₀ c' := by
  have hbelow' : c'.privMode ≠ .machine := by
    cases htrap : c.trapOf outcome with
    | some trap =>
        rw [h.trap_supervisor hboot hstepped htrap]
        exact fun h => nomatch h
    | none =>
        have hle := hstepped.privilege.1 htrap
        have hbelow := h.privMode
        revert hle hbelow
        cases c.privMode <;> cases c'.privMode <;> decide
  have hguarded := hstepped.guarded h.privMode hbelow'
  exact
    { privMode := hbelow'
      sbi := hstepped.sbi.trans h.sbi
      csrs := fun addr haddr =>
        (hguarded.regs addr (bootCsrs_level haddr).1
          (bootCsrs_level haddr).2).trans (h.csrs addr haddr)
      mie := hguarded.mie.trans h.mie }

theorem Run.hosted {profile : Profile} {c₀ c : Cpu}
    (hboot : Booted profile c₀)
    (hrun : Run profile (fun _ => True) c₀ c) : Hosted c₀ c := by
  induction hrun with
  | refl => exact hboot.hosted
  | tail _ hnext _ ih =>
      cases hnext with
      | step hstep => exact ih.stepped hboot (step_stepped hstep)
      | input bytes => exact ⟨ih.privMode, ih.sbi, ih.csrs, ih.mie⟩

/-! ## Calls into the firmware -/

theorem step_runInstruction {profile : Profile} {c : Cpu}
    {result : Except Exception Unit × Cpu}
    (hstep : step profile c = some result)
    (hpending : c.ticked.pendingInterrupt = none) :
    runInstruction profile c.ticked = some result := by
  rcases hcount : countCycle profile c with _ | ⟨e | _, c₁⟩
  · rw [step, Program.bind_run_none hcount] at hstep
    cases hstep
  · exact ((countCycle_ensures profile c).error hcount).elim
  · have hcounted : c₁ = c.counted :=
      (countCycle_ensures profile c).ok hcount
    rw [hcounted] at hcount
    rw [step, Program.bind_run_ok hcount] at hstep
    change c.ticked.afterTick profile c.ticked = some result at hstep
    rw [afterTick_instruction hpending] at hstep
    exact hstep

theorem runInstruction_call {profile : Profile} {c c₁ : Cpu}
    (hcall : fetchExecute c.pc profile { c with wroteInstret := false } =
      some (.error .environmentCall, c₁))
    (hsbi : c₁.sbi = true) (hmode : c₁.privMode = .supervisor) :
    runInstruction profile c = answerCall profile c₁ := by
  have hattempt : (Program.attempt (fetchExecute c.pc) :
      Hart (Except Exception Unit)) profile { c with wroteInstret := false } =
      some (.ok (.error .environmentCall), c₁) := by
    rw [Program.attempt, hcall]
  have hcalls : c₁.callsFirmware .environmentCall = true := by
    rw [callsFirmware, hsbi, hmode]
    rfl
  rw [runInstruction, Program.bind_run_ok (Program.read_run _ _ _),
    Program.bind_run_ok (Program.update_run _ _ _),
    Program.bind_run_ok hattempt]
  dsimp only
  rw [Program.bind_run_ok (Program.read_run _ _ _), Program.ite_run]
  exact if_pos hcalls

/-- What a kernel can rely on in a state of a run from `c₀`. -/
structure Served (profile : Profile) (c₀ c : Cpu) : Prop where
  hosted : Hosted c₀ c
  traps : ∀ outcome c', step profile c = some (outcome, c') →
    ∀ trap, c.trapOf outcome = some trap → c'.privMode = .supervisor
  calls : ∀ result c₁, step profile c = some result →
    c.privMode = .supervisor → c.ticked.pendingInterrupt = none →
    fetchExecute c.pc profile { c.ticked with wroteInstret := false } =
      some (.error .environmentCall, c₁) →
    answerCall profile c₁ = some result

/-- A booted kernel never meets the missing firmware. -/
theorem boot_served {profile : Profile} {c₀ c : Cpu}
    (hboot : Booted profile c₀)
    (hrun : Run profile (fun _ => True) c₀ c) : Served profile c₀ c := by
  have hhosted := hrun.hosted hboot
  refine ⟨hhosted, ?_, ?_⟩
  · intro outcome c' hstep trap htrap
    exact hhosted.trap_supervisor hboot (step_stepped hstep) htrap
  · intro result c₁ hstep hmode hpending hcall
    have hticked := ticked_ticked c
    have hpc : c.ticked.pc = c.pc := (congrArg Cpu.pc hticked.frame :)
    rw [← hpc] at hcall
    have haccessed := (fetchExecute_phased c.ticked.pc profile _).error hcall
    have hsbi : c₁.sbi = true :=
      haccessed.sbi.trans ((congrArg Cpu.sbi hticked.frame).trans hhosted.sbi)
    have hmode₁ : c₁.privMode = .supervisor := by
      obtain ⟨c₂, mem, hwalked, -, rfl⟩ := haccessed
      exact hwalked.privMode.trans (hticked.privMode.trans hmode)
    rw [← runInstruction_call hcall hsbi hmode₁]
    exact step_runInstruction hstep hpending

/-- The smallest kernel takes its first trap itself. -/
theorem boot_served_first_trap :
    ∃ c', step .debug bootedHart =
        some (.error (.illegalInstruction 0), c') ∧
      Served .debug bootedHart c' := by
  have hfails : (step .debug bootedHart).map Prod.fst =
      some (.error (.illegalInstruction 0)) := by
    decide +kernel
  obtain ⟨⟨_, c'⟩, hstep, rfl⟩ := Option.map_eq_some_iff.mp hfails
  exact ⟨c', hstep, boot_served (bootedHart_booted .debug)
    ((Run.refl trivial).tail (.step hstep) trivial)⟩

end Cpu

end Nanoemu
