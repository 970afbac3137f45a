import Nanoemu.CycleCounter
import Nanoemu.DirectAccess
import Nanoemu.FlatInstructions
import Nanoemu.ForwardSimulation
import Nanoemu.InterruptPriority
import Nanoemu.RegisterWidth
import Nanoemu.TohostReports

/-!
# Runs of the flat machine on the hart

A hart that has a view of the memory and takes no interrupt simulates the flat
machine: whatever program the memory holds, compressed or not, every step of
the flat machine is one step of the hart.
-/

namespace Nanoemu

open CheckedProgram FieldWords

namespace Cpu

open Flat

/-- No interrupt is taken, whatever becomes pending. -/
def Undisturbed (c : Cpu) : Prop :=
  c.csrs.read Csr.MIE = 0 ∨
    c.privMode = .machine ∧ c.csrs.read Csr.MSTATUS &&& Mstatus.MIE = 0

theorem Undisturbed.pending {c : Cpu} (h : Undisturbed c) :
    c.pendingInterrupt = none := by
  have hnone : ∀ bit, ¬ c.Deliverable bit := by
    intro bit hdeliverable
    obtain ⟨hpending, henabled⟩ := hdeliverable
    rcases h with hmie | ⟨hmode, hstatus⟩
    · rw [hmie] at hpending
      exact hpending (by rw [BitVec.ofNat_eq_ofNat, BitVec.zero_and,
        BitVec.zero_and])
    · rw [hmode] at henabled
      rcases henabled with hlower | ⟨hdest, henable⟩
      · rcases c.destination_cases bit with hto | hto <;> rw [hto] at hlower <;>
          exact absurd hlower (by decide)
      · rw [← hdest, globalEnable, hstatus] at henable
        exact Bool.false_ne_true henable
  rw [pendingInterrupt_eq, List.find?_eq_none.mpr]
  · rfl
  · exact fun entry _ hdeliverable =>
      hnone entry.1 (of_decide_eq_true hdeliverable)

/-- The registers that a step of the flat machine depends on have kept their
values. -/
structure Settled (c x : Cpu) : Prop where
  satp : x.csrs.read Csr.SATP = c.csrs.read Csr.SATP
  status : x.csrs.read Csr.MSTATUS = c.csrs.read Csr.MSTATUS
  enable : x.csrs.read Csr.MIE = c.csrs.read Csr.MIE
  privMode : x.privMode = c.privMode

section Settled

variable {c x y : Cpu}

theorem Settled.trans (hfirst : Settled c x) (hsecond : Settled x y) :
    Settled c y :=
  ⟨hsecond.satp.trans hfirst.satp, hsecond.status.trans hfirst.status,
    hsecond.enable.trans hfirst.enable,
    hsecond.privMode.trans hfirst.privMode⟩

theorem Still.settled (h : Still c x) : Settled c x := by
  refine ⟨?_, ?_, ?_, h.privMode⟩ <;> rw [h.csrs]

theorem settled_of_csrs {written : List (BitVec 12)}
    (hapart : Csr.SATP ∉ written ∧ Csr.MSTATUS ∉ written ∧ Csr.MIE ∉ written)
    (hxlen : x.csrs.xlen = c.csrs.xlen)
    (hcsrs : ∀ addr ∉ written, x.csrs.regs addr = c.csrs.regs addr)
    (hmode : x.privMode = c.privMode) : Settled c x :=
  ⟨CsrFile.read_congr hxlen (hcsrs _ hapart.1),
    CsrFile.read_congr hxlen (hcsrs _ hapart.2.1),
    CsrFile.read_congr hxlen (hcsrs _ hapart.2.2), hmode⟩

theorem fetching_settled (c : Cpu) : Settled c c.fetching :=
  settled_of_csrs (by decide) (ticked_ticked c).xlen (ticked_ticked c).csrs
    (ticked_ticked c).privMode

theorem retire_settled (c : Cpu) : Settled c c.retire := by
  unfold retire
  split
  · exact ⟨rfl, rfl, rfl, rfl⟩
  · have hapart : Csr.SATP ∉ [Csr.MINSTRET] ∧ Csr.MSTATUS ∉ [Csr.MINSTRET] ∧
        Csr.MIE ∉ [Csr.MINSTRET] := by decide
    refine settled_of_csrs hapart rfl (fun addr haddr => ?_) rfl
    exact CsrFile.force_regs_other _ _ fun hsame =>
      haddr (hsame ▸ List.mem_singleton_self _)

theorem Settled.undisturbed (h : Settled c x) (hc : Undisturbed c) :
    Undisturbed x := by
  unfold Undisturbed
  rw [h.enable, h.privMode, h.status]
  exact hc

variable {w : ℕ} {V : View} {s : State w}

theorem Hosts.settled (hhosts : Hosts V c s) (h : Settled c x)
    (hframe : x = { c with
      csrs := x.csrs
      cycle := x.cycle
      mem := x.mem
      timerArmed := x.timerArmed
      wroteInstret := x.wroteInstret })
    (hdram : x.mem.dram = c.mem.dram) : Hosts V x s := by
  have hxlen : x.xlen = c.xlen := (congrArg Cpu.xlen hframe :)
  have hpc : x.pc = c.pc := (congrArg Cpu.pc hframe :)
  have hrr : ∀ r, x.rr r = c.rr r := fun r =>
    (congrArg (fun c => c.rr r) hframe :)
  refine ⟨hxlen ▸ hhosts.width, fun r => (hrr r.toFin).trans (hhosts.regs r),
    ?_, ?_, ?_, hhosts.layout, ?_⟩
  · rw [hpc, hhosts.pc]
  · rw [hpc]
    exact hhosts.near
  · rw [← hhosts.reserved]
    exact (congrArg Cpu.reservation hframe :)
  · exact V.congr hhosts.shows ⟨(congrArg Cpu.tlb hframe :), hxlen, h.privMode,
      h.satp, h.status, hdram⟩

theorem Hosts.fetching (h : Hosts V c s) : Hosts V c.fetching s := by
  have hticked := ticked_ticked c
  refine h.settled (fetching_settled c) ?_ hticked.dram
  unfold Cpu.fetching
  rw [hticked.frame]

theorem Hosts.retire (h : Hosts V c s) : Hosts V c.retire s := by
  refine h.settled (retire_settled c) ?_ ?_
  · unfold Cpu.retire
    split <;> rfl
  · unfold Cpu.retire
    split <;> rfl

end Settled

section Fetch

variable {w : ℕ} {V : View} {c : Cpu} {s : State w} {i : Instr}
  {next : BitVec w}

theorem holds_spans {access : Access} {addr : BitVec w} {size : ℕ}
    (hsize : 0 < size) (h : s.Holds access addr size) : s.Spans addr := by
  obtain ⟨hbase, hend, -⟩ := h
  exact ⟨hbase, by omega⟩

/-- Where the flat machine has an instruction, the pc has not left the address
space. -/
theorem Hosts.pc_exact (h : Hosts V c s) (hholds : s.Holds .fetch s.pc 4) :
    c.pc = s.pc.setWidth 64 := by
  apply BitVec.eq_of_toNat_eq
  have hlt := h.near.inside (holds_spans (by decide) hholds)
  rw [BitVec.toNat_setWidth_of_le h.le, ← h.pc, BitVec.toNat_setWidth,
    Nat.mod_eq_of_lt hlt]

theorem encode_low (i : Instr) : i.encode &&& 0x3 = 0x3 := by
  have hop : i.encode &&& 0x7f = i.base.opcode.setWidth 32 :=
    Rvc.Base.opcode_encode _
  have hmask : i.encode &&& 0x3 = (i.encode &&& 0x7f) &&& 0x3 := by
    rw [BitVec.and_assoc]
    rfl
  have hlow : ∀ op ∈ [0x37#7, 0x17, 0x6f, 0x67, 0x63, 0x03, 0x23, 0x13, 0x33,
      0x1b, 0x3b, 0x2f, 0x0f], op.setWidth 32 &&& 0x3#32 = 0x3 := by decide
  rw [hmask, hop]
  apply hlow
  cases i <;> simp [Instr.base, Rvc.Base.opcode]

theorem meaning_compressed {xlen : Xlen} {h : BitVec 16} {b : Rvc.Base}
    (hmeaning : Rvc.meaning xlen h = .plain b) : Rvc.op h ≠ 3 := by
  intro hop
  unfold Rvc.meaning at hmeaning
  rw [hop] at hmeaning
  cases hmeaning

theorem xlen_eq_of_bits {xlen xlen' : Xlen} (h : xlen.bits = xlen'.bits) :
    xlen = xlen' := by
  cases xlen <;> cases xlen' <;> first | rfl | cases h

theorem meaning_expands {xlen : Xlen} {h : BitVec 16} {b : Rvc.Base}
    (hmeaning : Rvc.meaning xlen h = .plain b) :
    decompress (h.setWidth 32) xlen = some b.encode := by
  have hkept : ¬ Rvc.DroppedHint h := by
    intro hdropped
    obtain ⟨b', hhint⟩ := dropped_hint xlen hdropped
    rw [hmeaning] at hhint
    cases hhint
  rw [Rvc.decompress_eq, if_neg hkept, hmeaning]
  rfl

/-- The hart fetches what the flat machine finds at the pc. -/
theorem Hosts.fetch (h : Hosts V c s) (hruns : s.Runs i next)
    (profile : Profile) :
    ∃ x len, Cpu.fetch profile c = some (.ok (i.encode, len), x) ∧
      Beside c x ∧ V.Shows x s.ram ∧ (c.pc + len).setWidth w = next ∧
      (len = 2 ∨ len = 4) := by
  obtain ⟨haligned, hholds, hfetches, -⟩ := hruns
  have hpc := h.pc_exact hholds
  have hnat : c.pc.toNat = s.pc.toNat := by
    rw [hpc, BitVec.toNat_setWidth_of_le h.le]
  have heven : c.pc &&& 1 = 0 := by
    apply BitVec.eq_of_toNat_eq
    rw [BitVec.toNat_and, hnat]
    exact (Nat.and_one_is_mod _).trans haligned
  have hgo : Hosts V c (s.goto s.pc) := h
  have hcovers : Covers V.layout s.ram .fetch c.pc 4 := hpc ▸ hgo.covers hholds
  have hindex : c.pc.toNat - V.layout.base = s.index s.pc := by
    rw [hpc, h.index]
  have hload : ∀ size, s.ram.loadLe (c.pc.toNat - V.layout.base) size =
      s.load s.pc size := by
    intro size
    rw [hindex]
    rfl
  have hnext : ∀ len : BitVec 64, (c.pc + len).setWidth w =
      s.pc + len.setWidth w := by
    intro len
    rw [BitVec.setWidth_add _ _ h.le, h.pc]
  cases hfetches with
  | word hword =>
      obtain ⟨x, hfetch, hx, hshows⟩ := V.fetchWord profile h.shows heven
        hcovers ((hload 4).trans hword) (encode_low i)
      refine ⟨x, 4, hfetch, hx, hshows, ?_, Or.inr rfl⟩
      rw [hnext]
      exact congrArg (s.pc + ·) (BitVec.setWidth_ofNat_of_le h.le 4)
  | @half xlen half hxlen hhalf hmeaning =>
      obtain ⟨x, hfetch, hx, hshows⟩ := V.fetchHalf profile h.shows heven
        hcovers ((hload 2).trans hhalf) (meaning_compressed hmeaning)
      have hsame : x.xlen = xlen := by
        rw [show x.xlen = c.xlen from (congrArg Cpu.xlen hx.frame :)]
        exact xlen_eq_of_bits (h.width.trans hxlen.symm)
      unfold expanded at hfetch
      rw [hsame, meaning_expands hmeaning] at hfetch
      refine ⟨x, 2, hfetch, hx, hshows, ?_, Or.inl rfl⟩
      rw [hnext]
      exact congrArg (s.pc + ·) (BitVec.setWidth_ofNat_of_le h.le 2)

end Fetch

/-! ## Steps and runs -/

/-- The hart is in the state of the flat machine and can count on for a number
of steps. -/
structure Simulating {w : ℕ} (V : View) (n : ℕ) (c : Cpu) (s : State w) :
    Prop where
  hosts : Hosts V c s
  clear : s.Clear
  undisturbed : Undisturbed c
  room : c.cycle.toNat + n < 2 ^ 64

def StepsTo (profile : Profile) (c c' : Cpu) : Prop :=
  step profile c = some (.ok (), c')

section Runs

variable {w : ℕ} {V : View} {c : Cpu} {s s' : State w} {profile : Profile}
  {n : ℕ}

theorem Simulating.takes (h : Simulating V (n + 1) c s) :
    TakesInstruction profile c := by
  refine ⟨?_, ?_⟩
  · have hroom := h.room
    have hadd : Checked.add c.cycle 1 = pure (c.cycle + 1) :=
      Checked.add_eq_pure (show c.cycle.toNat + 1 < 2 ^ 64 by omega)
    unfold countCycle
    rw [Program.bind_run_ok (Program.read_run _ _ _), id, hadd,
      Program.check_pure, pure_bind]
    rfl
  · exact ((fetching_settled c).undisturbed h.undisturbed).pending

theorem fetching_unreported (h : Unreported c) : Unreported c.fetching := by
  obtain ⟨hrunning, hnone, hvalue⟩ := h
  have hkept := ticked_noStore c
  have hshutdown : c.ticked.shutdown = c.shutdown :=
    (congrArg Cpu.shutdown (ticked_ticked c).frame :)
  exact ⟨hshutdown.trans hrunning, hkept.tohost.trans hnone,
    hkept.value.trans hvalue⟩

theorem retire_unreported (h : Unreported c) : Unreported c.retire := by
  unfold retire
  split <;> exact h

/-- The instruction that follows one at the end of a narrow address space is
at its start, where there is then no memory. -/
theorem next_near (hw : w = 32 ∨ w = 64) (hclear : s.Clear)
    (hholds : s.Holds .fetch s.pc 4) {pc len : BitVec 64}
    (hpc : pc.toNat = s.pc.toNat) (hlen : len = 2 ∨ len = 4) :
    Near (s.goto ((pc + len).setWidth w)) (pc + len) := by
  obtain ⟨hbase, hend, hfits, -⟩ := hholds
  have hsum := BitVec.toNat_add pc len
  have hshort : len.toNat ≤ 4 := by rcases hlen with rfl | rfl <;> decide
  rcases hw with rfl | rfl
  · have hroom := hclear rfl
    refine ⟨Or.inl (by omega), ?_⟩
    rintro ⟨hfrom, hto⟩
    change s.layout.base ≤ ((pc + len).setWidth 32).toNat at hfrom
    rw [BitVec.toNat_setWidth] at hfrom
    omega
  · exact .of_lt (BitVec.isLt _)

theorem fetching_cycle (c : Cpu) : c.fetching.cycle = c.cycle + 1 :=
  (ticked_count c).1

/-- A step of the flat machine is a step of the hart. -/
theorem Simulating.step (h : Simulating V (n + 1) c s) (hstep : State.Step s s')
    (profile : Profile) :
    ∃ c', StepsTo profile c c' ∧ Simulating V n c' s' ∧
      (Unreported c → Unreported c') := by
  obtain ⟨i, next, hruns, hexec⟩ := hstep
  obtain ⟨x, len, hfetch, hx, hshows, hnext, hlen⟩ :=
    h.hosts.fetching.fetch hruns profile
  have hpc : c.fetching.pc = c.pc := fetching_pc c
  have hplace := h.hosts.pc_exact hruns.holds
  have hnat : c.pc.toNat = s.pc.toNat := by
    rw [hplace, BitVec.toNat_setWidth_of_le h.hosts.le]
  rw [hpc] at hnext
  have hnear := next_near h.hosts.widths h.clear hruns.holds hnat hlen
  rw [hnext] at hnear
  obtain ⟨y, hexecute, hy, hstill⟩ := execute_runsTo profile
    (hx.hosts h.hosts.fetching hshows) hplace h.clear hruns.holds hnext hnear
    hruns.legal hexec
  have hkept : x.pc = c.fetching.pc := (congrArg Cpu.pc hx.frame :)
  have hclear : s'.Clear := by
    obtain ⟨hlayout, hlen⟩ := State.exec_extent hexec
    unfold State.Clear
    rw [hlayout, hlen]
    exact h.clear
  have hrun := hx.still.trans hstill
  have hsettled := (fetching_settled c).trans
    (hrun.settled.trans (retire_settled y))
  refine ⟨y.retire, ?_,
    ⟨hy.retire, hclear, hsettled.undisturbed h.undisturbed, ?_⟩,
    fun hquiet => retire_unreported (hrun.unreported
      (fetching_unreported hquiet))⟩
  · unfold StepsTo
    rw [step_decoded h.takes hfetch (hkept.trans hpc)]
    unfold runDecoded
    rw [Program.bind_run_ok (Program.attempt_run_some hexecute)]
    rfl
  · have hretire : y.retire.cycle = y.cycle := by
      unfold Cpu.retire
      split <;> rfl
    have hroom := h.room
    have hadd : (c.cycle + 1).toNat = c.cycle.toNat + 1 :=
      BitVec.toNat_add_of_lt (show c.cycle.toNat + 1 < 2 ^ 64 by omega)
    rw [hretire, hrun.cycle, fetching_cycle, hadd]
    omega

theorem flat_simulates (w : ℕ) (V : View) (profile : Profile) :
    ForwardSimulation.Simulates (@Simulating w V) (StepsTo profile)
      State.Step := by
  intro n c s s' h hstep
  obtain ⟨c', hsteps, hlast, -⟩ := h.step hstep profile
  exact ⟨c', hsteps, hlast⟩

/-- From a hart in its state, every run of the flat machine is a run of the
hart, step by step. -/
theorem runs_flat (h : Simulating V n c s)
    (hrun : ForwardSimulation.Steps State.Step n s s') :
    ∃ c', ForwardSimulation.Steps (StepsTo profile) n c c' ∧ Hosts V c' s' := by
  obtain ⟨c', hsteps, hlast⟩ :=
    ForwardSimulation.Simulates.run (flat_simulates w V profile) (m := 0)
      ((Nat.zero_add n).symm ▸ h) hrun
  exact ⟨c', hsteps, hlast.hosts⟩

end Runs

/-! ## Loaded programs -/

/-- The flat machine with the registers and the memory of a hart. -/
def flat (c : Cpu) : State c.xlen.bits where
  layout := directView.layout
  pc := c.pc.setWidth c.xlen.bits
  regs r := (c.regs r.toFin).setWidth c.xlen.bits
  ram := c.mem.dram
  reserved := c.reservation.map (BitVec.setWidth c.xlen.bits)

section Loaded

variable {c : Cpu} {profile : Profile} {n : ℕ}

theorem Fresh.status_clear (h : Fresh c) {field : BitVec 64}
    (hsummary : BitFields.Disjoint field Mstatus.SD)
    (hlow : BitFields.Within field 0xffffffff)
    (hwidths : BitFields.Disjoint (Mstatus.UXL ||| Mstatus.SXL) field) :
    c.csrs.read Csr.MSTATUS &&& field = 0 :=
  Eq.trans (CsrFile.read_mstatus_agree hsummary hlow c.csrs)
    (h.status_disjoint hwidths)

theorem flat_clear (c : Cpu) : c.flat.Clear := fun _ =>
  Or.inl (by decide : 2 ^ 20 ≤ DRAM_BASE.toNat)

theorem Fresh.direct (h : Fresh c) : Direct c := by
  refine ⟨fun access => Or.inr ?_, fun va access hhit => ?_⟩
  · have hmprv : c.csrs.read Csr.MSTATUS &&& Mstatus.MPRV = 0 :=
      h.status_clear (by decide) (by decide) (by decide)
    unfold Mmu.effectivePriv
    rw [if_neg fun hredirects => hredirects.2 hmprv, h.privMode]
  · have hvalid := (tlbHit_eq_true hhit).1
    rw [h.tlb] at hvalid
    exact absurd hvalid Bool.false_ne_true

theorem Fresh.undisturbed (h : Fresh c) : Undisturbed c :=
  Or.inr ⟨h.privMode, h.status_clear (by decide) (by decide) (by decide)⟩

/-- What the hart holds are words of its width. -/
structure Canonical (c : Cpu) : Prop where
  regs : ∀ r, (c.regs r).toNat < 2 ^ c.xlen.bits
  pc : c.pc.toNat < 2 ^ c.xlen.bits
  reserved : ∀ addr, c.reservation = some addr → addr.toNat < 2 ^ c.xlen.bits

theorem setWidth_back {w : ℕ} {v : BitVec 64} (hv : v.toNat < 2 ^ w) :
    (v.setWidth w).setWidth 64 = v := by
  apply BitVec.eq_of_toNat_eq
  have hlt := v.isLt
  rw [BitVec.toNat_setWidth, BitVec.toNat_setWidth, Nat.mod_eq_of_lt hv,
    Nat.mod_eq_of_lt hlt]

/-- The flat machine with the registers of a hart and a memory of its own. -/
def held (c : Cpu) (layout : Layout) (ram : Dram) : State c.xlen.bits :=
  { c.flat with
    layout := layout
    ram := ram }

theorem Canonical.hosts (h : Canonical c) {V : View} {ram : Dram}
    (hshows : V.Shows c ram) : Hosts V c (c.held V.layout ram) := by
  refine ⟨rfl, fun r => ?_, rfl, ?_, ?_, rfl, hshows⟩
  · have hiff : r.toFin = 0 ↔ r = 0 :=
      ⟨fun hzero => BitVec.eq_of_toFin_eq hzero, fun hzero => hzero ▸ rfl⟩
    unfold Cpu.rr State.reg
    by_cases hzero : r = 0
    · rw [if_pos (hiff.mpr hzero), if_pos hzero]
      simp
    · rw [if_neg fun hfin => hzero (hiff.mp hfin), if_neg hzero]
      exact (setWidth_back (h.regs r.toFin)).symm
  · exact .of_lt h.pc
  · have hkept := h.reserved
    unfold held flat
    cases hreserved : c.reservation with
    | none => rfl
    | some addr =>
        exact congrArg some (setWidth_back (hkept addr hreserved)).symm

theorem Direct.hosts_flat (h : c.Direct) (hcanonical : Canonical c) :
    Hosts directView c c.flat := by
  have hshows : directView.Shows c c.mem.dram := ⟨rfl, h⟩
  exact hcanonical.hosts hshows

theorem Fresh.canonical (h : Fresh c)
    (hmem : c.xlen = .rv32 → DRAM_BASE.toNat + c.mem.dram.len < 2 ^ 32)
    (hpc : c.pc.toNat < 2 ^ c.xlen.bits) : Canonical c := by
  refine ⟨fun r => ?_, hpc, fun addr hreserved => ?_⟩
  · cases hxlen : c.xlen with
    | rv32 => exact (h.regs r).trans_lt (hmem hxlen)
    | rv64 => exact (c.regs r).isLt
  · rw [h.reservation] at hreserved
    cases hreserved

theorem Fresh.simulating (h : Fresh c)
    (hmem : c.xlen = .rv32 → DRAM_BASE.toNat + c.mem.dram.len < 2 ^ 32)
    (hpc : c.pc.toNat < 2 ^ c.xlen.bits) (hn : n < 2 ^ 64) :
    Simulating directView n c c.flat := by
  refine ⟨h.direct.hosts_flat (h.canonical hmem hpc), flat_clear c,
    h.undisturbed, ?_⟩
  rw [h.cycle]
  exact (Nat.zero_add n).symm ▸ hn

/-- A program in a machine at reset runs as the flat machine runs it, as long
as the flat machine does, whatever built the emulator. -/
theorem loaded_runs_flat (hloaded : Loaded profile c)
    (hmem : c.xlen = .rv32 → DRAM_BASE.toNat + c.mem.dram.len < 2 ^ 32)
    (hpc : c.pc.toNat < 2 ^ c.xlen.bits) (hn : n < 2 ^ 64)
    {s' : State c.xlen.bits}
    (hrun : ForwardSimulation.Steps State.Step n c.flat s') :
    ∃ c', ForwardSimulation.Steps (StepsTo profile) n c c' ∧
      Hosts directView c' s' :=
  runs_flat (hloaded.fresh.simulating hmem hpc hn) hrun

end Loaded

section Loop

variable {c : Cpu} {profile : Profile} {n : ℕ}

/-- A turn of the loop that goes on. -/
def TurnsTo (profile : Profile) (c c' : Cpu) : Prop :=
  turn profile c = some (.ok none, c')

theorem StepsTo.turns {c' : Cpu} (hstep : StepsTo profile c c')
    (hquiet : Unreported c') : TurnsTo profile c c' := by
  obtain ⟨hrunning, -, hvalue⟩ := hquiet
  have hgoes : ¬ c'.shutdown = true := by
    rw [hrunning]
    exact Bool.false_ne_true
  unfold TurnsTo turn
  rw [Program.bind_run_ok (Program.attempt_run_some hstep),
    Program.bind_run_ok (Program.read_run _ _ _), id, if_neg hgoes, hvalue]
  rfl

theorem run_of_turns {c' : Cpu}
    (hturns : ForwardSimulation.Steps (TurnsTo profile) n c c') :
    run n profile c = some (.ok .stepLimit, c') := by
  induction hturns with
  | refl c => rfl
  | head hturn _ ih =>
      rw [run, Program.bind_run_ok hturn]
      exact ih

/-- As `Simulating`, and the loop has nothing to end with. -/
structure Looping {w : ℕ} (V : View) (n : ℕ) (c : Cpu) (s : State w) :
    Prop where
  simulating : Simulating V n c s
  unreported : Unreported c

theorem turns_simulate (w : ℕ) (V : View) (profile : Profile) :
    ForwardSimulation.Simulates (@Looping w V) (TurnsTo profile)
      State.Step := by
  intro n c s s' h hstep
  obtain ⟨c', hsteps, hlast, hquiet⟩ := h.simulating.step hstep profile
  have hnext := hquiet h.unreported
  exact ⟨c', hsteps.turns hnext, hlast, hnext⟩

def runningFrame : Frame Cpu where
  rel c c' := c'.shutdown = c.shutdown
  refl _ := rfl
  trans hfirst hsecond := hsecond.trans hfirst

theorem placeFrame_running {c' : Cpu} (h : placeFrame.rel c c') :
    c'.shutdown = c.shutdown := by
  obtain ⟨mem, -, rfl⟩ := h
  rfl

theorem loadElf_running (elf : Elf) : (loadElf elf).Keeps runningFrame := by
  apply Program.Keeps.bind (Program.Keeps.update fun _ => rfl)
  intro _
  apply Program.Keeps.bind
  · exact fun profile c => (loadSegments_places elf.segments profile c).mono
      (fun _ _ => placeFrame_running) fun _ _ => placeFrame_running
  · exact fun _ => Program.Keeps.update fun _ => rfl

theorem Loaded.running (h : Loaded profile c) : c.shutdown = false := by
  induction h with
  | new hnew =>
      rw [Cpu.new] at hnew
      split at hnew
      · cases hnew
      · cases hnew
        rfl
  | load _ hload ih =>
      exact (placeFrame_running ((onMemory_places
        (Memory.load_keeps_size _)).of_run hload)).trans ih
  | loadAt _ hload ih =>
      exact (placeFrame_running ((onMemory_places
        (Memory.loadAt_keeps_size _ _)).of_run hload)).trans ih
  | loadElf _ hload ih => exact ((loadElf_running _).of_run hload).trans ih

/-- A payload that cannot report runs for its whole budget, to where the flat
machine gets in as many steps. -/
theorem run_loaded_flat (hloaded : Loaded profile c)
    (hmem : c.xlen = .rv32 → DRAM_BASE.toNat + c.mem.dram.len < 2 ^ 32)
    (hpc : c.pc.toNat < 2 ^ c.xlen.bits) (hn : n < 2 ^ 64)
    (htohost : c.mem.tohost = none) {s' : State c.xlen.bits}
    (hrun : ForwardSimulation.Steps State.Step n c.flat s') :
    ∃ c', run n profile c = some (.ok .stepLimit, c') ∧
      Hosts directView c' s' := by
  have hstart : Looping directView (0 + n) c c.flat := by
    have hready : Started profile c := Or.inl hloaded
    exact ⟨hloaded.fresh.simulating hmem hpc ((Nat.zero_add n).symm ▸ hn),
      hloaded.running, htohost, hready.ready.silent⟩
  obtain ⟨c', hturns, hlast⟩ :=
    ForwardSimulation.Simulates.run (turns_simulate _ directView profile)
      hstart hrun
  exact ⟨c', run_of_turns hturns, hlast.simulating.hosts⟩

end Loop

/-- Adds five to x1 and jumps back, in a word and in a halfword. -/
def addingHart : Cpu :=
  programmedHart .rv64 [0x00508093, 0x0000bff5]

/-- The flat machine in front of the jump, and behind it. -/
def addedState : State addingHart.xlen.bits :=
  addingHart.flat.result 1 5 0x80000004

def loopedState : State addingHart.xlen.bits :=
  addedState.result 0 0x80000006 0x80000000

theorem addingHart_adds : State.Step addingHart.flat addedState :=
  ⟨.opImm .add 1 1 5, 0x80000004,
    ⟨by decide, by decide, .word (by decide), by decide, by decide⟩, rfl⟩

theorem addingHart_jumps : State.Step addedState loopedState :=
  have heven : (-4 : BitVec 21).getLsbD 0 = false := by decide
  ⟨.jal 0 (-4), 0x80000006,
    ⟨by decide, by decide, @State.Fetches.half _ _ _ .rv64 0xbff5 rfl
      (by decide) (by decide), heven⟩, rfl⟩

theorem loaded_runs_flat_adding :
    ∃ c', ForwardSimulation.Steps (StepsTo .debug) 2 addingHart c' ∧
      Hosts directView c' loopedState :=
  loaded_runs_flat (programmedHart_loaded .debug .rv64 (by decide))
    (fun h => by cases h) (by decide) (by decide)
    (.head addingHart_adds (.single addingHart_jumps))

theorem run_loaded_flat_adding :
    ∃ c', run 2 .debug addingHart = some (.ok .stepLimit, c') ∧
      Hosts directView c' loopedState :=
  run_loaded_flat (programmedHart_loaded .debug .rv64 (by decide))
    (fun h => by cases h) (by decide) (by decide) rfl
    (.head addingHart_adds (.single addingHart_jumps))

end Cpu

end Nanoemu
