import Nanoemu.InterruptPriority
import Nanoemu.SupervisorCalls
import Nanoemu.UserIsolation

/-!
# Preemption

A kernel that sets the timer before it enters user mode gets the hart back.
Whatever the user's program does, it makes no step past the deadline.
-/

namespace Nanoemu

open CheckedProgram BitFields Mmu

def Memory.clintFrame : Frame Memory where
  rel mem mem' := mem'.clint = mem.clint
  refl _ := rfl
  trans hfirst hsecond := Eq.trans hsecond hfirst

namespace Cpu

variable {profile : Profile} {b c c' : Cpu} {outcome : Except Exception Unit}

/-- No page that the user may store to has the registers of the timer. -/
def Fenced (b : Cpu) : Prop :=
  ∀ va pa, b.StoresTo va pa → ¬ Clint.InWindow pa

theorem Fenced.sheltered (h : Fenced b) : Sheltered b Memory.clintFrame where
  read addr size := by
    apply Program.Keeps.intro
    intro profile mem outcome mem' hrun
    cases Memory.read_course hrun <;> rfl
  stored mem addr size value := by
    change (mem.stored addr size value).clint = mem.clint
    unfold Memory.stored Memory.noteTohost
    split <;> rfl
  write va pa hto size value := by
    apply Program.Keeps.intro
    intro profile mem outcome mem' hrun
    cases Memory.write_course hrun with
    | dram =>
        change (mem.stored pa size value).clint = mem.clint
        unfold Memory.stored Memory.noteTohost
        split <;> rfl
    | clint _ hwindow _ => exact absurd hwindow (h va pa hto)
    | outside | plic | uart | unmapped => rfl

/-- The interrupt of the timer: machine mode has it, but where there is a
firmware the kernel does. -/
def timerBit (c : Cpu) : BitVec 64 :=
  if c.sbi then IntBit.STIP else IntBit.MTIP

/-- The next tick reaches the deadline. -/
def Due (c : Cpu) : Prop :=
  c.mem.clint.mtimecmp ≤ c.mem.clint.mtime + 1

/-- The timer is set, and its interrupt is enabled. -/
structure Preemptive (c : Cpu) : Prop where
  enabled : c.csrs.read Csr.MIE &&& c.timerBit ≠ 0
  armed : c.sbi = true → c.timerArmed = true

theorem scanDevices_mip {bit : BitVec 64}
    (hmachine : BitFields.Disjoint bit IntBit.MEIP)
    (hsupervisor : BitFields.Disjoint bit IntBit.SEIP) (c : Cpu) :
    Agree bit (c.scanDevices.csrs.regs Csr.MIP) (c.csrs.regs Csr.MIP) := by
  have hscanned := reflect_regs_other hmachine c.csrs
    ((c.mem.plic.setLevel Uart.UART_IRQ
      c.mem.uart.isInterrupting).isPending CONTEXT_MACHINE)
  exact Agree.trans (reflect_regs_other hsupervisor _ _) hscanned

theorem ticked_mip {bit : BitVec 64}
    (hmachine : BitFields.Disjoint bit IntBit.MEIP)
    (hsupervisor : BitFields.Disjoint bit IntBit.SEIP) (c : Cpu) :
    Agree bit (c.ticked.csrs.regs Csr.MIP)
      (c.counted.tickClint.csrs.regs Csr.MIP) := by
  by_cases hscans : Scans c
  · rw [ticked_of_scans hscans]
    exact scanDevices_mip hmachine hsupervisor _
  · rw [(ticked_of_not_scans hscans).1]
    exact Agree.refl _ _

/-- Without a firmware the pending bit follows the deadline. -/
theorem tickClint_machine (hsbi : c.sbi = false) (hdue : Due c) :
    c.tickClint.csrs.regs Csr.MIP &&& IntBit.MTIP = IntBit.MTIP := by
  have hexpired :
      decide (c.mem.clint.mtimecmp ≤ c.mem.clint.mtime + 1) = true :=
    decide_eq_true hdue
  have hraised := reflect_regs c.clocked.csrs IntBit.MTIP true
  have hkept := reflect_regs_other
    (by decide : BitFields.Disjoint IntBit.MTIP IntBit.MSIP)
    (reflect c.clocked.csrs IntBit.MTIP true) (c.mem.clint.msip != 0)
  unfold tickClint
  dsimp only
  rw [hsbi, hexpired]
  exact Eq.trans hkept hraised

theorem ticked_due (hset : Preemptive c) (hdue : Due c) :
    c.ticked.csrs.read Csr.MIP &&& c.timerBit ≠ 0 := by
  unfold timerBit
  cases hsbi : c.sbi with
  | true =>
      have hexpires : Expires c := ⟨hset.armed hsbi, hdue⟩
      exact (ticked_expires hsbi hexpires).2
  | false =>
      have hagree := ticked_mip (by decide :
        BitFields.Disjoint IntBit.MTIP IntBit.MEIP) (by decide) c
      have hpending := tickClint_machine (c := c.counted) hsbi hdue
      simp only [Bool.false_eq_true, if_false]
      rw [read_mip_and _ (by decide), hagree, hpending]
      decide

/-- In user mode the timer interrupts as soon as it is due. -/
theorem Preemptive.interrupts (hset : Preemptive c) (huser : c.privMode = .user)
    (hdue : Due c) : c.ticked.pendingInterrupt.isSome = true := by
  have hticked := ticked_ticked c
  have hmie : c.ticked.csrs.read Csr.MIE = c.csrs.read Csr.MIE :=
    hticked.read (by decide)
  have hmip := ticked_due hset hdue
  have hentry : ∃ k, c.timerBit = 1#64 <<< k ∧
      (c.timerBit, k) ∈ priorityOrder := by
    unfold timerBit
    split
    · exact ⟨5, by decide⟩
    · exact ⟨7, by decide⟩
  obtain ⟨k, hbit, hmem⟩ := hentry
  rw [pendingInterrupt_isSome]
  refine ⟨_, hmem, ?_, Or.inl ?_⟩
  · rw [hmie]
    exact and_and_bit hbit hset.enabled hmip
  · rw [hticked.privMode, huser]
    rcases c.ticked.destination_cases c.timerBit with h | h <;> rw [h] <;>
      decide

theorem Preemptive.taken (hset : Preemptive c) (huser : c.privMode = .user)
    (hdue : Due c) (hstep : step profile c = some (outcome, c')) :
    ∃ cause, TrapTaken c.ticked cause 0 c.ticked.pc true c' := by
  have hpending := hset.interrupts huser hdue
  cases step_stepped hstep with
  | interrupt _ htrap => exact ⟨_, htrap⟩
  | retired hnone _ _ | answered hnone _ _ _ _ | exception hnone _ _ _ =>
      rw [hnone] at hpending
      cases hpending

/-- User mode after some steps, none of which has found the timer due. -/
structure Timed (b : Cpu) (elapsed : ℕ) (c : Cpu) : Prop where
  inside : Inside b c
  preemptive : Preemptive c
  deadline : c.mem.clint.mtimecmp = b.mem.clint.mtimecmp
  clock : c.mem.clint.mtime.toNat = b.mem.clint.mtime.toNat + elapsed
  early : elapsed = 0 ∨
    b.mem.clint.mtime.toNat + elapsed < b.mem.clint.mtimecmp.toNat

theorem Timed.clock_next {elapsed : ℕ} (h : Timed b elapsed c)
    (hroom : b.mem.clint.mtime.toNat + 1 < 2 ^ 64) :
    (c.mem.clint.mtime + 1).toNat =
      b.mem.clint.mtime.toNat + (elapsed + 1) := by
  have hclock := h.clock
  have hlt := b.mem.clint.mtimecmp.isLt
  have hone : (1 : BitVec 64).toNat = 1 := rfl
  rw [BitVec.toNat_add, hclock, hone]
  rcases h.early with rfl | hearly
  · exact Nat.mod_eq_of_lt hroom
  · exact Nat.mod_eq_of_lt (by omega)

theorem Timed.due_iff {elapsed : ℕ} (h : Timed b elapsed c)
    (hroom : b.mem.clint.mtime.toNat + 1 < 2 ^ 64) :
    Due c ↔ b.mem.clint.mtimecmp.toNat ≤
      b.mem.clint.mtime.toNat + (elapsed + 1) := by
  unfold Due
  rw [BitVec.le_def, h.clock_next hroom, h.deadline]

/-- User mode makes no call. -/
theorem not_setsTimer (huser : c.privMode = .user) :
    ¬ SetsTimer profile c := by
  rintro ⟨hcalls, -⟩
  obtain ⟨-, -, hsupervisor, -⟩ := calls_iff_ecall.mp hcalls
  cases huser.symm.trans hsupervisor

theorem mie_aboveUser : AboveUser Csr.MIE := by
  constructor <;> decide

/-- A step that stays in user mode leaves the timer set. -/
theorem Preemptive.step (hset : Preemptive c) (huser : c.privMode = .user)
    (huser' : c'.privMode = .user) (hwaits : ¬ Due c)
    (hstep : Cpu.step profile c = some (outcome, c')) : Preemptive c' := by
  have hstepped := step_stepped hstep
  have hsbi : c'.sbi = c.sbi := hstepped.sbi
  have hmie : c'.csrs.read Csr.MIE = c.csrs.read Csr.MIE :=
    CsrFile.read_congr (Next.step hstep).sameWidth.csrs
      (hstepped.aboveUser huser huser' mie_aboveUser)
  constructor
  · unfold timerBit
    rw [hsbi, hmie]
    exact hset.enabled
  · intro hfirmware
    rw [hsbi] at hfirmware
    have hbelow : c.privMode ≠ .machine := by
      rw [huser]
      decide
    have hticked := ticked_waits hfirmware fun hexpires => hwaits hexpires.2
    have hkept := step_timer hbelow (not_setsTimer huser) hstep
    exact (hticked.trans hkept).armed.trans (hset.armed hfirmware)

theorem Timed.step {elapsed : ℕ} (h : Timed b elapsed c) (hguard : Guarded b)
    (hfenced : Fenced b) (hroom : b.mem.clint.mtime.toNat + 1 < 2 ^ 64)
    (hreach : Reachable profile (Started profile) c)
    (hstep : Cpu.step profile c = some (outcome, c'))
    (huser : c'.privMode = .user) : Timed b (elapsed + 1) c' := by
  have hwaits : ¬ Due c := by
    intro hdue
    obtain ⟨cause, htrap⟩ := h.preemptive.taken h.inside.user hdue hstep
    exact htrap.leaves_user huser
  have hclint : c'.mem.clint =
      { c.mem.clint with mtime := c.mem.clint.mtime + 1 } :=
    (h.inside.step hguard hfenced.sheltered hstep).2.trans (ticked_clint c)
  refine ⟨h.inside.trans_next hguard hreach (.step hstep) huser,
    h.preemptive.step h.inside.user huser hwaits hstep, ?_, ?_, Or.inr ?_⟩
  · rw [hclint]
    exact h.deadline
  · rw [hclint]
    exact h.clock_next hroom
  · rw [h.due_iff hroom] at hwaits
    exact Nat.not_le.mp hwaits

theorem Timed.input {elapsed : ℕ} (h : Timed b elapsed c)
    (bytes : List (BitVec 8)) : Timed b elapsed (c.pushInput bytes) where
  inside := h.inside.of_spared (h.inside.spared.of_dram rfl)
  preemptive := ⟨h.preemptive.enabled, h.preemptive.armed⟩
  deadline := h.deadline
  clock := h.clock
  early := h.early

/-! ## Runs -/

/-- However long the program of a user runs, and whatever is typed meanwhile,
it makes fewer steps than there are ticks to the deadline, and the step that
comes to it is an interrupt. -/
theorem user_preempted {f : Cpu} {past : List Cpu}
    (hreach : Reachable profile (Started profile) f) (hempty : EmptyTlb f)
    (hkernel : Run profile (TablesKept b) f b) (hguard : Guarded b)
    (hfenced : Fenced b) (hset : Preemptive b)
    (hroom : b.mem.clint.mtime.toNat + 1 < 2 ^ 64)
    (hrun : History profile b past c)
    (huser : ∀ x ∈ c :: past, x.privMode = .user) :
    past.length ≤
        b.mem.clint.mtimecmp.toNat - b.mem.clint.mtime.toNat - 1 ∧
      (b.mem.clint.mtimecmp.toNat ≤
          b.mem.clint.mtime.toNat + past.length + 1 →
        ∀ outcome c', Cpu.step profile c = some (outcome, c') →
          ∃ cause, TrapTaken c.ticked cause 0 c.pc true c') := by
  have htimed : Timed b past.length c := by
    induction hrun with
    | start =>
        have hentered := huser b List.mem_cons_self
        exact ⟨hkernel.inside hreach hempty hentered, hset, rfl, rfl,
          Or.inl rfl⟩
    | @step past c c' outcome hpast hstep ih =>
        rw [List.forall_mem_cons] at huser
        have hreached : Reachable profile (Started profile) c :=
          hpast.run.reachable (hkernel.reachable hreach)
        exact (ih huser.2).step hguard hfenced hroom hreached hstep huser.1
    | @input past c bytes _ ih =>
        rw [List.forall_mem_cons] at huser
        exact (ih (List.forall_mem_cons.mpr huser)).input bytes
  constructor
  · have hearly := htimed.early
    omega
  · intro hdeadline outcome c' hstep
    have hdue : Due c := (htimed.due_iff hroom).mpr hdeadline
    obtain ⟨cause, htrap⟩ :=
      htimed.preemptive.taken htimed.inside.user hdue hstep
    rw [(congrArg Cpu.pc (ticked_ticked c).frame :)] at htrap
    exact ⟨cause, htrap⟩

/-- An entry that lets no user write where the timer is. -/
def apartFromTimer (pte : BitVec 64) : Bool :=
  pte &&& W == 0 || pte &&& U == 0 ||
    decide ((ppn .sv32 pte).toNat * 4096 + 0x400000 ≤ 0x2000000) ||
    decide (0x200c000 ≤ (ppn .sv32 pte).toNat * 4096)

theorem OnePage.fenced (h : OnePage b)
    (hentries : ∀ i < 1024,
      apartFromTimer (b.mem.dram.loadLe (4 * i) 4) = true) : Fenced b := by
  rintro va pa ⟨reached, hleaf, rfl⟩ ⟨hlow, hhigh⟩
  obtain ⟨i, hi, pte, hentry, hwrite, huser, htarget⟩ := h.target hleaf
  have hapart := hentries i hi
  simp only [hentry, apartFromTimer, hwrite, huser, Bool.or_eq_true,
    beq_iff_eq, decide_eq_true_eq, false_or] at hapart
  have hbase : CLINT_BASE.toNat = 0x2000000 := rfl
  have hend : CLINT_END.toNat = 0x200c000 := rfl
  rw [h.scheme, BitVec.le_def] at hlow
  rw [h.scheme, BitVec.lt_def] at hhigh
  omega

/-- Machine-mode code that sets the timer's deadline to the twelfth tick,
enables the timer, turns paging on and enters user mode. -/
def timingHart : Cpu :=
  pagedHart
    ([ -- lui t0, 0x2004; addi t1, x0, 12; sw t1, 0(t0)
      0x020042b7, 0x00c00313, 0x0062a023,
      -- lui t0, 0x4000; csrrw x0, mepc, t0
      0x040002b7, 0x34129073,
      -- addi t1, x0, 0x80; csrrw x0, mie, t1
      0x08000313, 0x30431073,
      -- csrrw x0, satp, sp; mret
      0x18011073, 0x30200073,
      0, 0, 0, 0, 0, 0, 0,
      -- the entry of the user's page
      0x201000df].flatMap wordBytes)
    -- jal x0, 0
    (wordBytes 0x0000006f)

/-- The hart as it enters user mode, after nine ticks. -/
def timedUser : Cpu :=
  (stepped .debug)^[9] timingHart

theorem timingHart_started : Started .debug timingHart :=
  pagedHart_started (by decide +kernel) (by decide +kernel)

theorem timingHart_dram {k : ℕ} (hk : k ≤ 9) :
    ((stepped .debug)^[k] timingHart).mem.dram = timingHart.mem.dram := by
  interval_cases k <;> rfl

theorem timedUser_dram : timedUser.mem.dram = timingHart.mem.dram := by
  unfold timedUser
  exact timingHart_dram le_rfl

theorem timedUser_entry {i : ℕ} (hi : i < 1024) :
    endsAbove (timedUser.mem.dram.loadLe (4 * i) 4) = true ∧
      apartFromTimer (timedUser.mem.dram.loadLe (4 * i) 4) = true := by
  rw [timedUser_dram]
  rcases Nat.lt_or_ge i 17 with hlow | hhigh
  · revert i
    decide +kernel
  · rw [timingHart, pagedHart_blank (n := 17) (by decide) hhigh hi]
    exact ⟨rfl, rfl⟩

theorem timedUser_onePage : OnePage timedUser :=
  ⟨by decide +kernel, by decide +kernel, by decide +kernel,
    fun _ hi => (timedUser_entry hi).1⟩

theorem timedUser_entered :
    Run .debug (TablesKept timedUser) timingHart timedUser := by
  apply Run.iterate
  · decide +kernel
  · intro k hk va addr _
    rw [timedUser_dram, timingHart_dram hk]
    exact Agree.refl _ _

/-- The user's loop makes the two steps that are left before the deadline, and
its third is the interrupt. -/
theorem user_preempted_timed :
    2 ≤ timedUser.mem.clint.mtimecmp.toNat -
        timedUser.mem.clint.mtime.toNat - 1 ∧
      ∃ cause, TrapTaken ((stepped .debug)^[2] timedUser).ticked cause 0
        0x4000000 true ((stepped .debug)^[3] timedUser) := by
  have hreach : Reachable .debug (Started .debug) timingHart :=
    ⟨timingHart, timingHart_started, .refl trivial⟩
  have hset : Preemptive timedUser := ⟨by decide +kernel, by decide +kernel⟩
  have hsteps : ∀ k < 3,
      Cpu.step .debug ((stepped .debug)^[k] timedUser) =
        some (.ok (), (stepped .debug)^[k + 1] timedUser) := by
    intro k hk
    rw [Function.iterate_succ_apply']
    apply step_eq_stepped
    revert k
    decide +kernel
  have huser : ∀ x ∈ [(stepped .debug)^[2] timedUser,
      (stepped .debug)^[1] timedUser, timedUser], x.privMode = .user := by
    simp only [List.forall_mem_cons, List.not_mem_nil, false_imp_iff,
      implies_true, and_true]
    decide +kernel
  have hfirst : Cpu.step .debug timedUser =
      some (.ok (), (stepped .debug)^[1] timedUser) := by
    simpa only [Function.iterate_zero_apply] using hsteps 0 (by decide)
  have hrun : History .debug timedUser
      [(stepped .debug)^[1] timedUser, timedUser]
      ((stepped .debug)^[2] timedUser) :=
    .step (.step .start hfirst) (hsteps 1 (by decide))
  have hpc : ((stepped .debug)^[2] timedUser).pc = 0x4000000 := by
    decide +kernel
  have hpreempted := user_preempted hreach timingHart_started.emptyTlb
    timedUser_entered timedUser_onePage.guarded
    (timedUser_onePage.fenced fun _ hi => (timedUser_entry hi).2) hset
    (by decide +kernel) hrun huser
  rw [hpc] at hpreempted
  exact ⟨hpreempted.1,
    hpreempted.2 (by decide +kernel) _ _ (hsteps 2 (by decide))⟩

end Cpu

end Nanoemu
