import Nanoemu.AddressSpace
import Nanoemu.TohostReports

/-!
# What user mode leaves alone

Every access of user mode goes through the tables, and so it stays in the
address space they name: from the entry into user mode to the step that leaves
it, bytes that the user may not write are as they were.
-/

namespace Nanoemu

open CheckedProgram BitFields Mmu

namespace Cpu

abbrev KeepsInside {α : Type} (b : Cpu) (inner : Frame Memory)
    (prog : Hart α) : Prop :=
  prog.Keeps (insideFrame b inner)

section Accesses

variable {b : Cpu} {inner : Frame Memory} (hguard : Guarded b)
  (hinner : Sheltered b inner)

include hinner

theorem physRead_inside (fault : Exception) (pa : BitVec 64) (size : ℕ) :
    KeepsInside b inner (physRead fault pa size) := by
  have hread := (Memory.read_noStore pa size).and (hinner.read pa size)
  apply Program.Keeps.zoom (Program.Keeps.mapError hread)
  intro y mem hkept h
  exact ⟨h.of_spared (h.spared.of_dram hkept.1.dram), hkept.2⟩

include hguard

theorem translate_inside (va : BitVec 64) (access : Access) :
    KeepsInside b inner (translate va access) := by
  apply Program.Keeps.intro
  intro profile y outcome y' hrun h
  have htranslated := h.translated hguard hinner va access profile
  cases outcome with
  | ok pa => exact (htranslated.ok hrun).1
  | error e => exact htranslated.error hrun

theorem readMem_inside (va : BitVec 64) (size : ℕ) :
    KeepsInside b inner (readMem va size) :=
  (readMem_raises
    (fun addr => (translate_inside hguard hinner addr .load).raises)
    (fun pa size => (physRead_inside hinner _ pa size).raises) size).keeps

theorem fetch_inside : KeepsInside b inner fetch :=
  fetch_frame (fun va => translate_inside hguard hinner va .fetch)
    (physRead_inside hinner)

theorem translateBytes_inside (va : BitVec 64) (remaining k : ℕ) :
    KeepsInside b inner (translateBytes va remaining k) :=
  (translateBytes_raises (fun addr =>
    (translate_inside hguard hinner addr .store).raises) remaining k).keeps

/-- What follows the translation of a store may rely on its address. -/
theorem translateStore_inside {α : Type} {va : BitVec 64}
    {next : BitVec 64 → Hart α}
    (hnext : ∀ pa, b.StoresTo va pa → KeepsInside b inner (next pa)) :
    KeepsInside b inner (translate va .store >>= next) := by
  apply Program.Keeps.intro
  intro profile y outcome y' hrun h
  have htranslated := h.translated hguard hinner va .store profile
  rcases Program.bind_cases hrun with
    ⟨e, htranslate, -⟩ | ⟨pa, y₁, htranslate, hrest⟩
  · exact htranslated.error htranslate
  · obtain ⟨⟨hinside, hkept⟩, hto⟩ := htranslated.ok htranslate
    obtain ⟨hinside', hkept'⟩ := (hnext pa (hto rfl)).of_run hrest hinside
    exact ⟨hinside', inner.trans hkept hkept'⟩

theorem physWrite_inside {va pa : BitVec 64} (hto : b.StoresTo va pa)
    {size : ℕ} (hsize : Memory.validSize size = true)
    (hfits : va.toNat % 4096 + size ≤ 4096) (fault : Exception)
    (value : BitVec 64) :
    KeepsInside b inner (physWrite fault pa size value) := by
  apply Program.Keeps.intro
  intro profile y outcome y' hrun h
  have hwritten :=
    h.physWritten hguard hinner hto hsize hfits fault value profile
  cases outcome with
  | ok _ => exact hwritten.ok hrun
  | error e => exact hwritten.error hrun

theorem writeBytes_inside (va value : BitVec 64) (remaining k : ℕ) :
    KeepsInside b inner (writeBytes va value remaining k) := by
  induction remaining generalizing k with
  | zero => exact Program.Keeps.pure _
  | succ remaining ih =>
      apply Program.Keeps.bind (Program.Keeps.check _)
      intro addr
      apply translateStore_inside hguard hinner
      intro pa hto
      apply Program.Keeps.bind (Program.Keeps.check _)
      intro shift
      apply Program.Keeps.bind (Program.Keeps.check _)
      intro byte
      have hfits : addr.toNat % 4096 + 1 ≤ 4096 := Nat.mod_lt _ (by decide)
      exact Program.Keeps.bind
        (physWrite_inside hguard hinner hto rfl hfits _ byte)
        fun _ => ih (k + 1)

theorem writeMem_inside (va value : BitVec 64) {size : ℕ}
    (hsize : Memory.validSize size = true) :
    KeepsInside b inner (writeMem va size value) := by
  have hpage : va.toNat % 4096 + size ≤ 4096 → KeepsInside b inner (do
      let pa ← translate va .store
      physWrite (.storeAccessFault va) pa size value) := fun hfits =>
    translateStore_inside hguard hinner fun pa hto =>
      physWrite_inside hguard hinner hto hsize hfits _ value
  have hbytes : KeepsInside b inner (do
      translateBytes va size 0
      writeBytes va value size 0) :=
    Program.Keeps.bind (translateBytes_inside hguard hinner va size 0)
      fun _ => writeBytes_inside hguard hinner va value size 0
  intro profile y
  apply Program.Ensures.bind
  apply Program.Ensures.check
  intro fits hfits
  rw [fitsPage_eq (Memory.size_le_of_valid hsize)] at hfits
  cases hfits
  apply Program.Ensures.ite
  · exact fun hfits => hpage (of_decide_eq_true hfits) profile y
  · exact fun _ => hbytes profile y

end Accesses

section Instructions

variable {b y : Cpu} {inner : Frame Memory} {inst : BitVec 32}

theorem Inside.floats (h : Inside b y) {y' : Cpu} (hfloats : Floats y y') :
    Inside b y' := by
  have hframe := hfloats.frame
  have htouched := hfloats.csrs
  apply h.congr (congrArg Cpu.privMode hframe :) ?_ ?_
    (congrArg Cpu.xlen hframe :) (congrArg (fun c => c.mem.dram) hframe :)
    (congrArg Cpu.tlb hframe :)
  · have hread : ∀ f : CsrFile, Agree Mstatus.MPRV (f.read Csr.MSTATUS)
        (f.regs Csr.MSTATUS) :=
      CsrFile.read_mstatus_agree (by decide) (by decide)
    exact ((hread _).trans (htouched.status.mono (by decide))).trans
      (hread _).symm
  · exact CsrFile.read_congr htouched.xlen
      (htouched.others _ (by decide) (by decide))

theorem Settles.inside {α : Type} {prog : Hart α} (h : Settles prog) :
    KeepsInside b inner prog := by
  intro profile y
  apply (h profile y).mono
  · intro _ y' hfloats hinside
    have hmem : y'.mem = y.mem := (congrArg Cpu.mem hfloats.frame :)
    refine ⟨hinside.floats hfloats, ?_⟩
    rw [hmem]
    exact inner.refl y.mem
  · exact fun _ _ hfalse => hfalse.elim

variable (hguard : Guarded b) (hinner : Sheltered b inner)

include hguard hinner

theorem executeLoad_inside : KeepsInside b inner (executeLoad inst) := by
  apply Program.Keeps.bind (Program.Keeps.read _)
  intro c
  dsimp only
  cases loadForm (funct3 inst) c.xlen with
  | none => exact Program.Keeps.fail _
  | some form =>
      apply Program.Keeps.bind (readMem_inside hguard hinner _ form.1)
      intro v
      exact Program.Keeps.bind (Program.Keeps.check _)
        fun v => (wr_settles _ v).inside

theorem executeStore_inside : KeepsInside b inner (executeStore inst) := by
  apply Program.Keeps.bind (Program.Keeps.read _)
  intro c
  dsimp only
  cases hsize : storeSize (funct3 inst) c.xlen with
  | none => exact Program.Keeps.fail _
  | some size => exact writeMem_inside hguard hinner _ _ (storeSize_valid hsize)

theorem executeFpMem_inside : KeepsInside b inner (executeFpMem inst) := by
  have hload : ∀ addr size (form : BitVec 64 → BitVec 64),
      KeepsInside b inner (do
        let v ← readMem addr size
        fw (rd inst) (form v)) := fun addr size form =>
    Program.Keeps.bind (readMem_inside hguard hinner addr size)
      fun v => (fw_settles _ _).inside
  apply Program.Keeps.bind (Program.Keeps.read _)
  intro c
  apply Program.Keeps.ite (Program.Keeps.fail _)
  apply Program.Keeps.ite
  · exact Program.Keeps.ite (writeMem_inside hguard hinner _ _ rfl)
      (hload _ 4 box32)
  apply Program.Keeps.ite
  · exact Program.Keeps.ite (writeMem_inside hguard hinner _ _ rfl)
      (hload _ 8 id)
  · exact Program.Keeps.fail _

theorem executeLr_inside (addr : BitVec 64) (width : ℕ) :
    KeepsInside b inner (executeLr inst addr width) := by
  apply Program.Keeps.ite (Program.Keeps.fail _)
  apply Program.Keeps.bind (readMem_inside hguard hinner addr _)
  intro v
  apply Program.Keeps.bind (Program.Keeps.check _)
  intro v
  exact Program.Keeps.bind (setReservation_settles _).inside
    fun _ => (wr_settles _ v).inside

theorem executeSc_inside (addr : BitVec 64) {width : ℕ}
    (hwidth : Memory.validSize (width / 8) = true) :
    KeepsInside b inner (executeSc inst addr width) := by
  have hfinish : ∀ v, KeepsInside b inner (do
      setReservation none
      wr (rd inst) v) := fun v =>
    Program.Keeps.bind (setReservation_settles _).inside
      fun _ => (wr_settles _ v).inside
  apply Program.Keeps.bind (Program.Keeps.read _)
  intro c
  apply Program.Keeps.ite
  · exact Program.Keeps.bind (writeMem_inside hguard hinner addr _ hwidth)
      fun _ => hfinish _
  · exact hfinish _

theorem executeRmw_inside (addr : BitVec 64) {width : ℕ}
    (hwidth : Memory.validSize (width / 8) = true) :
    KeepsInside b inner (executeRmw inst addr width) := by
  apply Program.Keeps.bind (readMem_inside hguard hinner addr _)
  intro old
  apply Program.Keeps.bind (Program.Keeps.check _)
  intro a
  apply Program.Keeps.bind (Program.Keeps.read _)
  intro c
  apply Program.Keeps.bind (Program.Keeps.check _)
  intro new
  cases new with
  | none => exact Program.Keeps.fail _
  | some new =>
      exact Program.Keeps.bind (writeMem_inside hguard hinner addr new hwidth)
        fun _ => (wr_settles _ a).inside

theorem executeAmo_inside : KeepsInside b inner (executeAmo inst) := by
  apply Program.Keeps.bind (Program.Keeps.read _)
  intro c
  cases hwidth : amoWidth (funct3 inst) c.xlen with
  | none => exact Program.Keeps.fail _
  | some width =>
      have hvalid := amoWidth_valid hwidth
      apply Program.Keeps.ite (Program.Keeps.fail _)
      apply Program.Keeps.ite (executeLr_inside hguard hinner _ width)
      exact Program.Keeps.ite (executeSc_inside hguard hinner _ hvalid)
        (executeRmw_inside hguard hinner _ hvalid)

theorem execute_inside (haccess : IsAccess inst) (instPc nextPc : BitVec 64) :
    KeepsInside b inner (execute inst instPc nextPc) := by
  apply Program.Keeps.bind (setPc_settles nextPc).inside
  intro _
  unfold IsAccess at haccess
  simp only [List.mem_cons, List.not_mem_nil, or_false] at haccess
  rcases haccess with hop | hop | hop | hop | hop <;> rw [hop]
  · exact executeLoad_inside hguard hinner
  · exact executeFpMem_inside hguard hinner
  · exact executeStore_inside hguard hinner
  · exact executeFpMem_inside hguard hinner
  · exact executeAmo_inside hguard hinner

/-- Whatever the instruction, memory is spared. -/
theorem Inside.executed (h : Inside b y) {profile : Profile}
    {instPc nextPc : BitVec 64} {outcome : Except Exception Unit} {y' : Cpu}
    (hrun : execute inst instPc nextPc profile y = some (outcome, y')) :
    Spared b y'.mem ∧ inner.rel y.mem y'.mem := by
  by_cases haccess : IsAccess inst
  · obtain ⟨hinside, hkept⟩ :=
      (execute_inside hguard hinner haccess instPc nextPc).of_run hrun h
    exact ⟨hinside.spared, hkept⟩
  · have hmem : y'.mem = y.mem :=
      (execute_spares haccess instPc nextPc).of_run hrun
    rw [hmem]
    exact ⟨h.spared, inner.refl y.mem⟩

end Instructions

section Steps

variable {profile : Profile} {b c c' : Cpu}

theorem Inside.fetching (h : Inside b c) : Inside b c.fetching := by
  have hticked := ticked_ticked c
  have hstatus : c.ticked.csrs.read Csr.MSTATUS = c.csrs.read Csr.MSTATUS :=
    hticked.read (by decide)
  exact h.congr hticked.privMode (congrArg (· &&& Mstatus.MPRV) hstatus)
    (hticked.read (by decide)) hticked.xlenEq hticked.dram
    hticked.tlb

section Memory

variable (hguard : Guarded b) {inner : Frame Memory}
  (hinner : Sheltered b inner) {outcome : Except Exception Unit}

include hguard hinner

theorem Inside.fetchExecuted (h : Inside b c) {instPc : BitVec 64}
    (hrun : fetchExecute instPc profile c = some (outcome, c')) :
    Spared b c'.mem ∧ inner.rel c.mem c'.mem := by
  rcases Program.bind_cases hrun with
    ⟨e, hfetch, -⟩ | ⟨fetched, c₁, hfetch, hexecute⟩
  · obtain ⟨hinside, hkept⟩ := (fetch_inside hguard hinner).of_run hfetch h
    exact ⟨hinside.spared, hkept⟩
  · obtain ⟨hinside, hkept⟩ := (fetch_inside hguard hinner).of_run hfetch h
    obtain ⟨hspared, hkept'⟩ := hinside.executed hguard hinner hexecute
    exact ⟨hspared, inner.trans hkept hkept'⟩

/-- A step from user mode spares memory, even where it traps. -/
theorem Inside.step (h : Inside b c)
    (hstep : Cpu.step profile c = some (outcome, c')) :
    Spared b c'.mem ∧ inner.rel c.ticked.mem c'.mem := by
  have hstart := h.fetching
  cases step_course hstep with
  | interrupt _ htrap =>
      rw [takeTrap_mem htrap]
      exact ⟨hstart.spared, inner.refl _⟩
  | @retired inst len c₁ c₂ _ hfetch hexecute =>
      obtain ⟨hinside, hkept⟩ :=
        (fetch_inside hguard hinner).of_run hfetch hstart
      obtain ⟨hspared, hkept'⟩ := hinside.executed hguard hinner hexecute
      rw [retire_mem]
      exact ⟨hspared, inner.trans hkept hkept'⟩
  | @answered e c₁ _ _ hfail hcalls _ =>
      have hreached : c₁.privMode = c.ticked.privMode :=
        (congrArg Cpu.privMode (fetchExecute_reached hfail).frame :)
      have huser : c.ticked.privMode = .user := hstart.user
      have hsupervisor := (callsFirmware_eq_true hcalls).2.2
      cases (hreached.trans huser).symm.trans hsupervisor
  | exception _ hfail _ htrap =>
      obtain ⟨hspared, hkept⟩ := hstart.fetchExecuted hguard hinner hfail
      rw [takeTrap_mem htrap]
      exact ⟨hspared, hkept⟩

end Memory

/-- A register above the level of user mode that the hart does not keep its
own account in. -/
def AboveUser (addr : BitVec 12) : Prop :=
  (addr >>> 8) &&& 0x3 ≠ 0 ∧
    addr ∉ tickedCsrs ++ [Csr.MINSTRET, Csr.MSTATUS, Csr.FCSR]

variable {addr : BitVec 12}

theorem level_cases (addr : BitVec 12) :
    (addr >>> 8) &&& 0x3 = 0 ∨ (addr >>> 8) &&& 0x3 = 1 ∨
      (addr >>> 8) &&& 0x3 = 2 ∨ (addr >>> 8) &&& 0x3 = 3 := by
  have hlow : ((addr >>> 8) &&& 0x3).toNat = (addr >>> 8).toNat % 4 :=
    Nat.and_two_pow_sub_one_eq_mod (addr >>> 8).toNat 2
  have hlt := Nat.mod_lt (addr >>> 8).toNat (show 0 < 4 by decide)
  rw [← hlow] at hlt
  set level := (addr >>> 8) &&& 0x3
  have hcases : level.toNat = 0 ∨ level.toNat = 1 ∨ level.toNat = 2 ∨
      level.toNat = 3 := by omega
  exact hcases.imp BitVec.eq_of_toNat_eq (Or.imp BitVec.eq_of_toNat_eq
    (Or.imp BitVec.eq_of_toNat_eq BitVec.eq_of_toNat_eq))

theorem level_of_accessible {written : BitVec 12}
    (h : CsrFile.accessible written .user true = true) :
    (written >>> 8) &&& 0x3 = 0 := by
  rcases level_cases written with hlevel | hlevel | hlevel | hlevel
  · exact hlevel
  all_goals
    unfold CsrFile.accessible at h
    rw [hlevel] at h
    cases h

/-- What user mode may write is in user mode's registers. -/
theorem AboveUser.ne_target (haddr : AboveUser addr) {written : BitVec 12}
    (h : CsrFile.accessible written .user true = true) :
    addr ≠ CsrFile.writeTarget written := by
  intro htarget
  by_cases hmasked : written ∈ CsrFile.masked
  · have hall : CsrFile.masked.all (fun word =>
        !CsrFile.accessible word .user true ||
          CsrFile.writeTarget word == Csr.FCSR) = true := by decide
    have hone := List.all_eq_true.mp hall written hmasked
    rw [h, Bool.not_true, Bool.false_or, beq_iff_eq, ← htarget] at hone
    apply haddr.2
    rw [hone]
    decide
  · rw [CsrFile.writeTarget_of_not_masked hmasked] at htarget
    exact haddr.1 (htarget ▸ level_of_accessible h)

theorem AboveUser.ne (haddr : AboveUser addr) {other : BitVec 12}
    (hother : other ∈ tickedCsrs ++ [Csr.MINSTRET, Csr.MSTATUS, Csr.FCSR]) :
    addr ≠ other := by
  rintro rfl
  exact haddr.2 hother

theorem Control.aboveUser (h : Control c c') (huser : c.privMode = .user)
    (haddr : AboveUser addr) : c'.csrs.regs addr = c.csrs.regs addr := by
  cases h with
  | keep => rfl
  | csr written value hpermitted =>
      have haccessible := accessible_of_csrPermitted hpermitted
      rw [huser] at haccessible
      rw [writeCsr_regs c written value (haddr.ne (by decide))]
      exact c.csrs.write_regs_other _ (haddr.ne_target haccessible)
  | sret hgate =>
      rw [supervisorTraps, huser] at hgate
      cases hgate
  | mret hmachine => cases huser.symm.trans hmachine
  | fence _ => rfl

theorem retire_aboveUser (c : Cpu) (haddr : AboveUser addr) :
    c.retire.csrs.regs addr = c.csrs.regs addr := by
  unfold retire
  split
  · rfl
  · exact CsrFile.force_regs_other _ _ (haddr.ne (by decide))

theorem TrapTaken.leaves_user {c₁ : Cpu} {cause : ℕ} {tval epc : BitVec 64}
    {isInterrupt : Bool} (h : TrapTaken c₁ cause tval epc isInterrupt c') :
    c'.privMode ≠ .user := by
  obtain ⟨entered, pc, ⟨rfl, -⟩ | ⟨rfl, -⟩, rfl⟩ := h.spec
  · exact fun h => nomatch h
  · exact fun h => nomatch h

/-- As long as the hart is in user mode, the registers above it stay. -/
theorem Stepped.aboveUser {outcome : Except Exception Unit}
    (h : Stepped c outcome c') (huser : c.privMode = .user)
    (huser' : c'.privMode = .user) (haddr : AboveUser addr) :
    c'.csrs.regs addr = c.csrs.regs addr := by
  have hticked : c.ticked.csrs.regs addr = c.csrs.regs addr :=
    (ticked_ticked c).csrs addr fun hmem =>
      haddr.2 (List.mem_append_left _ hmem)
  cases h with
  | interrupt _ htrap => exact absurd huser' htrap.leaves_user
  | @retired c₁ c₂ _ haccessed hcommitted =>
      obtain ⟨-, -, -, hmode, hcsrs⟩ := haccessed.registers
      obtain ⟨c₃, hcontrol, hfloats⟩ := hcommitted
      have hkept := hfloats.csrs.others addr (haddr.ne (by decide))
        (haddr.ne (by decide))
      rw [retire_aboveUser _ haddr, hkept,
        hcontrol.aboveUser (hmode.trans huser) haddr, hcsrs, hticked]
  | answered _ haccessed _ hsupervisor _ =>
      rw [haccessed.registers.2.2.2.1, huser] at hsupervisor
      cases hsupervisor
  | exception _ _ _ htrap => exact absurd huser' htrap.leaves_user

theorem Next.aboveUser (h : Next profile c c') (huser : c.privMode = .user)
    (huser' : c'.privMode = .user) (haddr : AboveUser addr) :
    c'.csrs.regs addr = c.csrs.regs addr := by
  cases h with
  | step hstep => exact (step_stepped hstep).aboveUser huser huser' haddr
  | input bytes => rfl

theorem satp_aboveUser : AboveUser Csr.SATP := by
  constructor <;> decide

/-! ## Runs in user mode -/

theorem Inside.next (h : Inside b c) (hguard : Guarded b)
    (hnext : Next profile c c') : Spared b c'.mem := by
  cases hnext with
  | step hstep => exact (h.step hguard (sheltered_all b) hstep).1
  | input bytes => exact h.spared.of_dram rfl

theorem Inside.trans_next (h : Inside b c) (hguard : Guarded b)
    (hreach : Reachable profile (Started profile) c)
    (hnext : Next profile c c') (huser : c'.privMode = .user) :
    Inside b c' := by
  have hcached := hnext.cached
  have hbelow : c'.privMode ≠ .machine := by
    rw [huser]
    decide
  have hmprv : c'.csrs.read Csr.MSTATUS &&& Mstatus.MPRV = 0 :=
    CsrFile.mprv_clear (CsrFile.read_mstatus_agree (by decide) (by decide) _)
      ((hreach.next hnext).confined hbelow)
  have hsatp : c'.csrs.read Csr.SATP = c.csrs.read Csr.SATP :=
    CsrFile.read_congr hnext.sameWidth.csrs
      (hnext.aboveUser h.user huser satp_aboveUser)
  refine ⟨huser, hmprv, hsatp.trans h.satp, hcached.xlen.trans h.xlen,
    h.next hguard hnext, ?_⟩
  intro slot way hvalid
  rcases hcached.entries slot way hvalid with hold | hfilled
  · rw [hold] at hvalid ⊢
    exact h.traced slot way hvalid
  · exact ⟨c, h.shares, hfilled⟩

end Steps

/-! ## Isolation -/

/-- All along the run the tables hold what they hold in `b`. -/
abbrev TablesKept (b x : Cpu) : Prop :=
  ∀ va, Kept b va x

/-- The entry into user mode, from a kernel that had set up the tables before
anything was cached. -/
theorem Run.inside {profile : Profile} {f b : Cpu}
    (hkernel : Run profile (TablesKept b) f b)
    (hreach : Reachable profile (Started profile) f) (hempty : EmptyTlb f)
    (huser : b.privMode = .user) : Inside b b := by
  have hmprv : b.csrs.read Csr.MSTATUS &&& Mstatus.MPRV = 0 := by
    apply CsrFile.mprv_clear
      (CsrFile.read_mstatus_agree (by decide) (by decide) _)
    apply (hkernel.reachable hreach).confined
    rw [huser]
    decide
  refine ⟨huser, hmprv, rfl, rfl, Spared.refl b, ?_⟩
  intro slot way hvalid
  obtain ⟨x, hx, hxlen, hlen, hfilled⟩ :=
    hkernel.filled hempty slot way hvalid
  exact ⟨x, ⟨hxlen, hlen, hx⟩, hfilled⟩

/-- A user leaves all memory alone but what the tables let it write. -/
theorem user_spares_memory {profile : Profile} {f b s s' : Cpu}
    (hreach : Reachable profile (Started profile) f) (hempty : EmptyTlb f)
    (hkernel : Run profile (TablesKept b) f b) (hguard : Guarded b)
    (huser : Run profile (fun x => x.privMode = .user) b s)
    (hnext : Next profile s s') :
    Spared b s'.mem ∧
      ∀ addr, AboveUser addr → s.csrs.regs addr = b.csrs.regs addr := by
  have hentered : Reachable profile (Started profile) b :=
    hkernel.reachable hreach
  have hinside : Reachable profile (Started profile) s ∧ Inside b s ∧
      ∀ addr, AboveUser addr → s.csrs.regs addr = b.csrs.regs addr := by
    clear hnext
    induction huser with
    | refl huser =>
        exact ⟨hentered, hkernel.inside hreach hempty huser, fun _ _ => rfl⟩
    | tail _ hnext huser ih =>
        obtain ⟨hreached, hinside, hregs⟩ := ih
        refine ⟨hreached.next hnext,
          hinside.trans_next hguard hreached hnext huser,
          fun addr haddr => ?_⟩
        exact (hnext.aboveUser hinside.user huser haddr).trans
          (hregs addr haddr)
  exact ⟨hinside.2.1.next hguard hnext, hinside.2.2⟩

/-- An entry that is no pointer, and that lets no user write below the user's
page. -/
def endsAbove (pte : BitVec 64) : Bool :=
  !(valid pte && isPointer pte) &&
    (pte &&& W == 0 || pte &&& U == 0 ||
      decide ((ppn .sv32 pte).toNat * 4096 + 0x400000 ≤ 0x80000000) ||
      decide (0x80400000 ≤ (ppn .sv32 pte).toNat * 4096))

/-- The tables are the page of the root table, and end before the user's page
begins. -/
structure OnePage (b : Cpu) : Prop where
  scheme : b.scheme = .sv32
  root : rootTable .sv32 (b.csrs.read Csr.SATP) = 0x80000000
  len : b.mem.dram.len = 0x480000
  entries : ∀ i < 1024, endsAbove (b.mem.dram.loadLe (4 * i) 4) = true

theorem onePage_entryAddr (va : BitVec 64) :
    ∃ i < 1024, (entryAddr .sv32 va 0x80000000 1).toNat =
      0x80000000 + 4 * i := by
  have hindex : ((va >>> 22) &&& 0x3ff).toNat < 1024 := by
    rw [BitVec.toNat_and]
    exact lt_of_le_of_lt Nat.and_le_right (by decide)
  refine ⟨((va >>> 22) &&& 0x3ff).toNat, hindex, ?_⟩
  change (0x80000000#64 + ((va >>> 22) &&& 0x3ff) * 4#64).toNat = _
  rw [BitVec.toNat_add, BitVec.toNat_mul, BitVec.toNat_ofNat,
    BitVec.toNat_ofNat]
  omega

theorem onePage_entryAt (va : BitVec 64) :
    ∃ i < 1024, ∀ dram, entryAt .sv32 dram
      (entryAddr .sv32 va 0x80000000 1) = dram.loadLe (4 * i) 4 := by
  obtain ⟨i, hi, haddr⟩ := onePage_entryAddr va
  have hoffset : Memory.offset (entryAddr .sv32 va 0x80000000 1) = 4 * i := by
    unfold Memory.offset
    rw [haddr]
    exact Nat.add_sub_cancel_left _ _
  refine ⟨i, hi, fun dram => ?_⟩
  rw [entryAt, hoffset]
  rfl

section OnePage

variable {b : Cpu} (h : OnePage b)

include h

/-- The entry that the walk of `va` starts with, and ends with. -/
theorem OnePage.entry (va : BitVec 64) :
    endsAbove (entryAt .sv32 b.mem.dram
      (entryAddr .sv32 va 0x80000000 1)) = true := by
  obtain ⟨i, hi, hword⟩ := onePage_entryAt va
  rw [hword]
  exact h.entries i hi

theorem OnePage.words (va : BitVec 64) :
    b.tableWords va = [entryAddr .sv32 va 0x80000000 1] := by
  have hentry := h.entry va
  unfold endsAbove at hentry
  rw [Bool.and_eq_true, Bool.not_eq_true'] at hentry
  unfold Cpu.tableWords translationReads
  rw [h.scheme, h.root, if_neg (by simp)]
  change entriesRead .sv32 _ va 2 _ = _
  rw [entriesRead, hentry.1]
  rfl

/-- Where the user may store to, by an entry of the page. -/
theorem OnePage.target {va : BitVec 64} {reached : Leaf}
    (hleaf : b.StoreLeaf va reached) :
    ∃ i < 1024, ∃ pte, b.mem.dram.loadLe (4 * i) 4 = pte ∧
      pte &&& W ≠ 0 ∧ pte &&& U ≠ 0 ∧
      (reached.target .sv32 va).toNat =
        (ppn .sv32 pte).toNat * 4096 + va.toNat % 0x400000 := by
  have hreaches := hleaf.reaches
  have hlevel := hleaf.reaches.level_lt
  obtain ⟨hwrite, huser, -⟩ := hleaf.grants
  rw [h.scheme] at hreaches hlevel
  rw [h.root] at hreaches
  have hentry := h.entry va
  obtain ⟨i, hi, hword⟩ := onePage_entryAt va
  rw [hword] at hentry
  cases hreaches with
  | leaf hvalid hplain =>
      have htarget := Leaf.target_toNat va hlevel
      rw [hword] at hwrite huser
      refine ⟨i, hi, _, rfl, (and_bit_ne_zero _ 2).mpr hwrite,
        (and_bit_ne_zero _ 4).mpr huser, ?_⟩
      rw [← hword]
      exact htarget
  | pointer hvalid hpointer _ =>
      unfold endsAbove at hentry
      rw [hword] at hvalid hpointer
      rw [(valid_iff _).mpr hvalid, (isPointer_iff _).mpr hpointer] at hentry
      cases hentry

theorem OnePage.writable {j : ℕ} (hwritable : b.UserWritable j) :
    0x400000 ≤ j := by
  obtain ⟨va, reached, hleaf, hbase, rfl⟩ := hwritable
  obtain ⟨i, hi, pte, hentry, hwrite, huser, htarget⟩ := h.target hleaf
  have hends := h.entries i hi
  simp only [hentry, endsAbove, hwrite, huser, Bool.and_eq_true,
    Bool.or_eq_true, beq_iff_eq, decide_eq_true_eq, false_or] at hends
  have hdram : DRAM_BASE.toNat = 0x80000000 := rfl
  rw [h.scheme, BitVec.le_def] at hbase
  rw [h.scheme]
  unfold Memory.offset
  omega

theorem OnePage.tableByte {j : ℕ} (hword : b.TableByte j) : j < 0x400000 := by
  obtain ⟨va, addr, haddr, -, hhigh⟩ := hword
  obtain ⟨i, hi, hnat⟩ := onePage_entryAddr va
  rw [h.words, List.mem_singleton] at haddr
  subst haddr
  have hbase : DRAM_BASE.toNat = 0x80000000 := rfl
  have hsize : b.scheme.pteSize = 4 := by
    rw [h.scheme]
    rfl
  unfold Memory.offset at hhigh
  rw [hnat, hsize] at hhigh
  omega

theorem OnePage.guarded : Guarded b := by
  refine ⟨by rw [h.scheme]; decide, fun va addr haddr => ?_, ?_⟩
  · obtain ⟨i, hi, hnat⟩ := onePage_entryAddr va
    rw [h.words, List.mem_singleton] at haddr
    subst haddr
    have hlen := h.len
    have hbase : DRAM_BASE.toNat = 0x80000000 := rfl
    rw [h.scheme]
    unfold Memory.InDram
    rw [BitVec.le_def, hnat, hlen, hbase]
    change 0x80000000 ≤ _ ∧ _ + 4 ≤ _ ∧ _ + 4 < _
    omega
  · intro j hword hwritable
    have hlow := h.writable hwritable
    have hhigh := h.tableByte hword
    omega

end OnePage

/-- A machine that starts with machine-mode code, which is the root table as
well, and with the user's page. -/
def pagedHart (kernel user : List (BitVec 8)) : Cpu :=
  (((Cpu.new 0x480000 .rv32).get rfl).placed 0 kernel).placed 0x400000 user

section PagedHart

variable {kernel user : List (BitVec 8)}

theorem pagedHart_started (hkernel : kernel.length ≤ 0x480000)
    (huser : user.length ≤ 0x80000) :
    Started .debug (pagedHart kernel user) := by
  have hnew : Loaded .debug ((Cpu.new 0x480000 .rv32).get rfl) :=
    .new (Option.some_get (rfl : (Cpu.new 0x480000 .rv32).isSome)).symm
  have hindex : ∀ (mem : Memory) addr (data : List (BitVec 8)),
      mem.dram.len = 0x480000 → DRAM_BASE ≤ addr →
      Memory.offset addr + data.length ≤ 0x480000 →
      mem.index addr data.length = some (Memory.offset addr) := by
    intro mem addr data hlen hbase hfits
    unfold Memory.offset at hfits
    exact Memory.index_of_inDram ⟨hbase, hlen ▸ hfits, by omega⟩
  left
  apply (hnew.placed DRAM_BASE _).placed 0x80400000
  · exact hindex _ _ _ rfl (by decide) (Nat.add_le_of_le_sub' (by decide) huser)
  · have hoffset : Memory.offset DRAM_BASE = 0 := rfl
    rw [← Nat.zero_add kernel.length, ← hoffset] at hkernel
    exact hindex _ _ _ rfl (BitVec.le_refl _) hkernel

theorem pagedHart_blank {n i : ℕ} (hkernel : kernel.length ≤ 4 * n)
    (hlow : n ≤ i) (hhigh : i < 1024) :
    (pagedHart kernel user).mem.dram.loadLe (4 * i) 4 = 0 := by
  have hbyte : ∀ j, 4 * n ≤ j → j < 0x400000 →
      (pagedHart kernel user).mem.dram.byte j = 0 := by
    intro j hlow hhigh
    unfold pagedHart placed Dram.copyFrom
    dsimp only
    rw [if_neg (Nat.not_le.mpr hhigh), if_pos (Nat.zero_le j),
      List.getElem?_eq_none (by omega)]
    rfl
  have hsame : (pagedHart kernel user).mem.dram.loadLe (4 * i) 4 =
      ({ len := 0, byte := fun _ => 0 } : Dram).loadLe (4 * i) 4 :=
    Dram.loadLe_congr fun j _ _ => hbyte j (by omega) (by omega)
  rw [hsame]
  simp [Dram.loadLe]

end PagedHart

/-- Machine-mode code that turns paging on and enters user mode, with the root
table in its own page.  The user has the page that follows. -/
def isolatingHart : Cpu :=
  pagedHart
    ([ -- csrrw x0, satp, sp
      0x18011073,
      -- lui t0, 0x2000; csrrw x0, mepc, t0; mret
      0x020002b7, 0x34129073, 0x30200073,
      0, 0, 0, 0,
      -- the entry of the user's page
      0x201000df].flatMap wordBytes)
    -- sw t0, 8(t0)
    (wordBytes 0x0052a423)

/-- The hart as it enters user mode. -/
def isolatedUser : Cpu :=
  (stepped .debug)^[4] isolatingHart

theorem isolatingHart_started : Started .debug isolatingHart :=
  pagedHart_started (by decide +kernel) (by decide +kernel)

/-- Up to user mode nothing is stored. -/
theorem isolatingHart_dram {k : ℕ} (hk : k ≤ 4) :
    ((stepped .debug)^[k] isolatingHart).mem.dram =
      isolatingHart.mem.dram := by
  match k, hk with
  | 0, _ => rfl
  | 1, _ => rfl
  | 2, _ => rfl
  | 3, _ => rfl
  | 4, _ => rfl

theorem isolatingHart_root {i : ℕ} (hi : i < 1024) :
    endsAbove (isolatingHart.mem.dram.loadLe (4 * i) 4) = true := by
  rcases Nat.lt_or_ge i 9 with hlow | hhigh
  · revert i
    decide +kernel
  · rw [isolatingHart, pagedHart_blank (n := 9) (by decide) hhigh hi]
    rfl

theorem isolatedUser_onePage : OnePage isolatedUser := by
  refine ⟨by decide +kernel, by decide +kernel, by decide +kernel, ?_⟩
  intro i hi
  rw [show isolatedUser.mem.dram = isolatingHart.mem.dram from
    isolatingHart_dram le_rfl]
  exact isolatingHart_root hi

theorem isolatedUser_entered :
    Run .debug (TablesKept isolatedUser) isolatingHart isolatedUser := by
  apply Run.iterate
  · decide +kernel
  · intro k hk va addr _
    rw [show isolatedUser.mem.dram = isolatingHart.mem.dram from
      isolatingHart_dram le_rfl, isolatingHart_dram hk]
    exact Agree.refl _ _

/-- The user stores a word on its page, and spares the rest. -/
theorem user_spares_memory_storing :
    ∃ s', Next .debug isolatedUser s' ∧
      s'.mem.dram.loadLe 0x400008 4 = 0x2000000 ∧
      Spared isolatedUser s'.mem := by
  have hreach : Reachable .debug (Started .debug) isolatingHart :=
    ⟨isolatingHart, isolatingHart_started, .refl trivial⟩
  have hstep : (step .debug isolatedUser).isSome = true := by decide +kernel
  obtain ⟨⟨outcome, s'⟩, hstep⟩ := Option.isSome_iff_exists.mp hstep
  have hnext : Next .debug isolatedUser s' := .step hstep
  refine ⟨s', hnext, ?_, ?_⟩
  · have hword : ((step .debug isolatedUser).map fun result =>
        result.2.mem.dram.loadLe 0x400008 4) = some 0x2000000 := by
      decide +kernel
    rw [hstep] at hword
    exact Option.some.inj hword
  · exact (user_spares_memory hreach isolatingHart_started.emptyTlb
      isolatedUser_entered isolatedUser_onePage.guarded
      (.refl (by decide +kernel)) hnext).1

end Cpu

end Nanoemu
