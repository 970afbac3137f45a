import Nanoemu.MemoryPath
import Nanoemu.Privileged

/-!
# The two phases of an instruction

An instruction first decodes, checks its gates and accesses memory, and only
then commits: it writes registers, flags, a CSR or the privilege.  Everything
that can fail lies in the first phase.
-/

namespace Nanoemu

open CheckedProgram BitFields

namespace CsrFile

theorem view_mstatus (f : CsrFile) : f.view Csr.MSTATUS = f.status := rfl

theorem status_agree {field : BitVec 64} (hfield : Disjoint field Mstatus.SD)
    (f : CsrFile) : Agree field f.status (f.regs Csr.MSTATUS) := by
  rw [status]
  split
  · exact Agree.or_right hfield
  · exact Agree.and_not hfield

theorem read_mstatus_agree {field : BitVec 64}
    (hfield : Disjoint field Mstatus.SD) (hlow : Within field 0xffffffff)
    (f : CsrFile) : Agree field (f.read Csr.MSTATUS) (f.regs Csr.MSTATUS) := by
  rw [read, view_mstatus]
  split
  · exact (Agree.and_mask hlow).trans (status_agree hfield f)
  · exact status_agree hfield f

@[simp] theorem force_xlen (f : CsrFile) (addr : BitVec 12)
    (value : BitVec 64) : (f.force addr value).xlen = f.xlen := rfl

@[simp] theorem force_regs_same (f : CsrFile) (addr : BitVec 12)
    (value : BitVec 64) : (f.force addr value).regs addr = value := by
  simp [force]

theorem force_regs_other (f : CsrFile) {addr other : BitVec 12}
    (value : BitVec 64) (hother : other ≠ addr) :
    (f.force addr value).regs other = f.regs other := by
  simp [force, hother]

/-- The bits of `mstatus` that floating-point instructions leave alone. -/
def notFs : BitVec 64 := 0xffffffff &&& ~~~Mstatus.FS

/-- Only FS and `fcsr` have moved, and what reading `mstatus` fills in. -/
structure FpTouched (f f' : CsrFile) : Prop where
  xlen : f'.xlen = f.xlen
  others : ∀ addr, addr ≠ Csr.MSTATUS → addr ≠ Csr.FCSR →
    f'.regs addr = f.regs addr
  status : Agree notFs (f'.regs Csr.MSTATUS) (f.regs Csr.MSTATUS)

theorem FpTouched.refl (f : CsrFile) : FpTouched f f :=
  ⟨rfl, fun _ _ _ => rfl, Agree.refl _ _⟩

theorem FpTouched.trans {f f' f'' : CsrFile} (hfirst : FpTouched f f')
    (hsecond : FpTouched f' f'') : FpTouched f f'' :=
  ⟨hsecond.xlen.trans hfirst.xlen,
    fun addr hstatus hfcsr => (hsecond.others addr hstatus hfcsr).trans
      (hfirst.others addr hstatus hfcsr),
    hsecond.status.trans hfirst.status⟩

end CsrFile

namespace Cpu

theorem dirtyFp_touched (c : Cpu) :
    CsrFile.FpTouched c.csrs c.dirtyFp.csrs := by
  refine ⟨rfl, fun addr hstatus _ => ?_, ?_⟩
  · exact CsrFile.force_regs_other _ _ hstatus
  · rw [dirtyFp]
    dsimp only
    rw [CsrFile.force_regs_same]
    exact (Agree.or_right (by decide)).trans
      ((Agree.and_not (by decide)).trans
        (CsrFile.read_mstatus_agree (by decide) (by decide) c.csrs))

theorem setFflags_touched (c : Cpu) (flags : ℕ) :
    CsrFile.FpTouched c.csrs (c.setFflags flags).csrs := by
  rw [setFflags]
  refine CsrFile.FpTouched.trans ?_ (dirtyFp_touched _)
  split
  · refine ⟨rfl, fun addr _ hfcsr => ?_, ?_⟩
    · exact CsrFile.force_regs_other _ _ hfcsr
    · dsimp only
      rw [CsrFile.force_regs_other _ _ (by decide)]
      exact Agree.refl _ _
  · exact CsrFile.FpTouched.refl _

/-- Registers, floating-point registers, the place in the program and the
reservation have moved, and the floating-point part of the CSRs. -/
structure Floats (c c' : Cpu) : Prop where
  frame : c' = { c with
    regs := c'.regs
    fregs := c'.fregs
    pc := c'.pc
    csrs := c'.csrs
    reservation := c'.reservation
    wroteInstret := c'.wroteInstret }
  csrs : CsrFile.FpTouched c.csrs c'.csrs

theorem Floats.refl (c : Cpu) : Floats c c :=
  ⟨rfl, CsrFile.FpTouched.refl _⟩

theorem Floats.trans {c c' c'' : Cpu} (hfirst : Floats c c')
    (hsecond : Floats c' c'') : Floats c c'' := by
  refine ⟨?_, hfirst.csrs.trans hsecond.csrs⟩
  rw [hsecond.frame, hfirst.frame]

/-- The part of a commit that reaches the CSRs, the privilege or the cache. -/
inductive Control (c : Cpu) : Cpu → Prop where
  | keep : Control c c
  | csr (addr : BitVec 12) (value : BitVec 64) :
      c.csrPermitted addr true = true → Control c (c.writeCsr addr value)
  | sret : c.supervisorTraps Mstatus.TSR = false →
      Control c (c.trapReturn false)
  | mret : c.privMode = .machine → Control c (c.trapReturn true)
  | fence : c.supervisorTraps Mstatus.TVM = false → Control c c.flushTlb

def Committed (c c' : Cpu) : Prop :=
  ∃ c₁, Control c c₁ ∧ Floats c₁ c'

theorem Floats.committed {c c' : Cpu} (h : Floats c c') : Committed c c' :=
  ⟨c, .keep, h⟩

def floatFrame : Frame Cpu where
  rel := Floats
  refl := Floats.refl
  trans := Floats.trans

abbrev Settles {α : Type} (prog : Hart α) : Prop :=
  prog.Moves floatFrame

theorem wr_settles (r : Fin 32) (v : BitVec 64) : Settles (wr r v) := by
  apply Program.Moves.update
  intro c
  rw [setReg]
  split
  · exact Floats.refl c
  · exact ⟨rfl, CsrFile.FpTouched.refl _⟩

theorem setPc_settles (pc : BitVec 64) : Settles (setPc pc) :=
  Program.Moves.update fun _ => ⟨rfl, CsrFile.FpTouched.refl _⟩

theorem setReservation_settles (reservation : Option (BitVec 64)) :
    Settles (setReservation reservation) :=
  Program.Moves.update fun _ => ⟨rfl, CsrFile.FpTouched.refl _⟩

theorem fw_settles (r : Fin 32) (v : BitVec 64) : Settles (fw r v) :=
  Program.Moves.update fun c =>
    ⟨rfl, dirtyFp_touched { c with fregs := Function.update c.fregs r v }⟩

theorem accrue_settles (flags : ℕ) : Settles (accrue flags) := by
  apply Program.Moves.update
  intro c
  refine ⟨?_, setFflags_touched c flags⟩
  rw [setFflags]
  split <;> rfl

theorem writeFreg_settles (fmt : Fpu.Fmt) (r : Fin 32) (v : ℕ) :
    Settles (writeFreg fmt r v) :=
  fw_settles r _

theorem writeFp_settles (fmt : Fpu.Fmt) (r : Fin 32) (result : ℕ × ℕ) :
    Settles (writeFp fmt r result) :=
  (writeFreg_settles fmt r result.1).bind fun _ => accrue_settles result.2

/-- Leaves memory alone: it commits, or it fails with nothing changed. -/
def Commits (prog : Hart Unit) : Prop :=
  ∀ profile c, prog.Ensures profile c (fun _ c' => Committed c c')
    (fun _ c' => c' = c)

section Commits

variable {α : Type} {prog : Hart Unit}

theorem Settles.commits (hprog : Settles prog) : Commits prog := by
  intro profile c
  apply (hprog profile c).mono
  · exact fun _ _ hfloats => hfloats.committed
  · exact fun _ _ h => h.elim

theorem Commits.pure : Commits (Pure.pure () : Hart Unit) :=
  Settles.commits (Program.Moves.pure ())

theorem Commits.fail (e : Exception) : Commits (Program.fail e) :=
  fun _ _ => Program.Ensures.fail rfl

theorem Commits.illegal (inst : BitVec 32) :
    Commits (Cpu.illegal inst : Hart Unit) :=
  Commits.fail _

theorem Commits.read {project : Cpu → α} {next : α → Hart Unit}
    (hnext : ∀ value, Commits (next value)) :
    Commits (Program.read project >>= next) :=
  fun profile c => Program.Ensures.bind
    (Program.Ensures.read (hnext _ profile c))

theorem Commits.check {value : Checked α} {next : α → Hart Unit}
    (hnext : ∀ value, Commits (next value)) :
    Commits (Program.check value >>= next) :=
  fun profile c => Program.Ensures.bind
    (Program.Ensures.check fun result _ => hnext result profile c)

theorem Commits.ite {condition : Prop} [Decidable condition]
    {yes no : Hart Unit} (hyes : Commits yes) (hno : Commits no) :
    Commits (if condition then yes else no) := by
  split
  · exact hyes
  · exact hno

theorem Commits.wr (r : Fin 32) (v : BitVec 64) : Commits (Cpu.wr r v) :=
  (wr_settles r v).commits

end Commits

/-- Accesses, then commits; a failure happens before any commit. -/
def Phased (prog : Hart Unit) : Prop :=
  ∀ profile c, prog.Ensures profile c
    (fun _ c' => ∃ c₁, Accessed c c₁ ∧ Committed c₁ c')
    (fun _ c' => Accessed c c')

section Phased

variable {α : Type} {prog : Hart Unit}

theorem Commits.phased (hprog : Commits prog) : Phased prog := by
  intro profile c
  apply (hprog profile c).mono
  · exact fun _ _ h => ⟨c, (Walked.refl c).accessed, h⟩
  · rintro _ _ rfl
    exact (Walked.refl _).accessed

theorem Settles.phased (hprog : Settles prog) : Phased prog :=
  hprog.commits.phased

theorem Phased.fail (e : Exception) : Phased (Program.fail e) :=
  (Commits.fail e).phased

theorem Phased.illegal (inst : BitVec 32) :
    Phased (Cpu.illegal inst : Hart Unit) :=
  Phased.fail _

theorem Phased.bind {first : Hart α} {next : α → Hart Unit}
    (hfirst : first.Keeps walkFrame) (hnext : ∀ value, Phased (next value)) :
    Phased (first >>= next) := by
  intro profile c
  apply Program.Ensures.bind
  apply (hfirst profile c).mono
  · intro value c₁ hwalked
    apply (hnext value profile c₁).mono
    · rintro _ c' ⟨c₂, haccessed, hcommitted⟩
      exact ⟨c₂, Walked.then_accessed hwalked haccessed, hcommitted⟩
    · exact fun _ _ haccessed => Walked.then_accessed hwalked haccessed
  · exact fun _ _ hwalked => Walked.accessed hwalked

theorem Phased.read {project : Cpu → α} {next : α → Hart Unit}
    (hnext : ∀ value, Phased (next value)) :
    Phased (Program.read project >>= next) :=
  Phased.bind (Program.Keeps.read project) hnext

theorem Phased.check {value : Checked α} {next : α → Hart Unit}
    (hnext : ∀ value, Phased (next value)) :
    Phased (Program.check value >>= next) :=
  Phased.bind (Program.Keeps.check value) hnext

theorem Phased.ite {condition : Prop} [Decidable condition]
    {yes no : Hart Unit} (hyes : Phased yes) (hno : Phased no) :
    Phased (if condition then yes else no) := by
  split
  · exact hyes
  · exact hno

theorem Phased.store {va value : BitVec 64} {size : ℕ}
    (hsize : Memory.validSize size = true) {next : Unit → Hart Unit}
    (hnext : Settles (next ())) : Phased (writeMem va size value >>= next) := by
  intro profile c
  apply Program.Ensures.bind
  apply (writeMem_ensures va hsize value profile c).mono
  · intro _ c₁ haccessed
    apply (hnext profile c₁).mono
    · exact fun _ c' hfloats => ⟨c₁, haccessed, hfloats.committed⟩
    · exact fun _ _ h => h.elim
  · exact fun _ _ haccessed => haccessed

theorem Phased.writeMem {va value : BitVec 64} {size : ℕ}
    (hsize : Memory.validSize size = true) :
    Phased (Cpu.writeMem va size value) := by
  intro profile c
  apply (writeMem_ensures va hsize value profile c).mono
  · exact fun _ c' haccessed =>
      ⟨c', haccessed, (Floats.refl c').committed⟩
  · exact fun _ _ haccessed => haccessed

theorem Phased.wr (r : Fin 32) (v : BitVec 64) : Phased (Cpu.wr r v) :=
  (wr_settles r v).phased

end Phased

theorem writeUnit_commits (inst : BitVec 32) (v : Option (BitVec 64)) :
    Commits (writeUnit inst v) := by
  cases v with
  | none => exact Commits.illegal inst
  | some v => exact Commits.wr _ v

theorem executeOpImm_commits (inst : BitVec 32) :
    Commits (executeOpImm inst) := by
  apply Commits.read
  intro c
  apply Commits.ite (Commits.illegal inst)
  apply Commits.ite (Commits.illegal inst)
  exact Commits.check fun v => writeUnit_commits inst v

theorem executeOp_commits (inst : BitVec 32) : Commits (executeOp inst) := by
  apply Commits.read
  intro c
  apply Commits.ite (Commits.illegal inst)
  exact Commits.check fun v => writeUnit_commits inst v

theorem executeJal_commits (inst : BitVec 32) (instPc nextPc : BitVec 64) :
    Commits (executeJal inst instPc nextPc) :=
  Settles.commits ((wr_settles _ _).bind fun _ => setPc_settles _)

theorem executeJalr_commits (inst : BitVec 32) (nextPc : BitVec 64) :
    Commits (executeJalr inst nextPc) := by
  apply Commits.read
  intro c
  exact Settles.commits ((wr_settles _ _).bind fun _ => setPc_settles _)

theorem executeBranch_commits (inst : BitVec 32) (instPc : BitVec 64) :
    Commits (executeBranch inst instPc) := by
  apply Commits.read
  intro c
  apply Commits.check
  intro sa
  apply Commits.check
  intro sb
  cases branchTaken (funct3 inst) (c.rr (rs1 inst)) (c.rr (rs2 inst)) sa sb with
  | none => exact Commits.illegal inst
  | some taken => exact Commits.ite (setPc_settles _).commits Commits.pure

theorem executeLoad_phased (inst : BitVec 32) : Phased (executeLoad inst) := by
  apply Phased.read
  intro c
  dsimp only
  cases loadForm (funct3 inst) c.xlen with
  | none => exact Phased.illegal inst
  | some form =>
      apply Phased.bind (readMem_keeps _ form.1)
      intro v
      exact Phased.check fun v => Phased.wr _ v

theorem loadForm_valid {f3 : BitVec 32} {xlen : Xlen} {form : ℕ × ℕ}
    (hform : loadForm f3 xlen = some form) :
    Memory.validSize form.1 = true ∧ 0 < form.2 := by
  rw [loadForm] at hform
  split at hform
  · cases hform
    decide
  · cases hform
    decide
  · cases hform
    decide
  · split at hform
    · cases hform
      decide
    · cases hform
  · cases hform
    decide
  · cases hform
    decide
  · split at hform
    · cases hform
      decide
    · cases hform
  · cases hform

theorem storeSize_valid {f3 : BitVec 32} {xlen : Xlen} {size : ℕ}
    (hsize : storeSize f3 xlen = some size) :
    Memory.validSize size = true := by
  rw [storeSize] at hsize
  split at hsize
  · cases hsize; rfl
  · cases hsize; rfl
  · cases hsize; rfl
  · split at hsize
    · cases hsize; rfl
    · cases hsize
  · cases hsize

theorem executeStore_phased (inst : BitVec 32) :
    Phased (executeStore inst) := by
  apply Phased.read
  intro c
  dsimp only
  cases hsize : storeSize (funct3 inst) c.xlen with
  | none => exact Phased.illegal inst
  | some size => exact Phased.writeMem (storeSize_valid hsize)

theorem amoWidth_valid {f3 : BitVec 32} {xlen : Xlen} {width : ℕ}
    (hwidth : amoWidth f3 xlen = some width) :
    Memory.validSize (width / 8) = true := by
  rw [amoWidth] at hwidth
  split at hwidth
  · cases hwidth; rfl
  · split at hwidth
    · cases hwidth; rfl
    · cases hwidth
  · cases hwidth

theorem executeLr_phased (inst : BitVec 32) (addr : BitVec 64) (width : ℕ) :
    Phased (executeLr inst addr width) := by
  apply Phased.ite (Phased.illegal inst)
  apply Phased.bind (readMem_keeps addr (width / 8))
  intro v
  apply Phased.check
  intro v
  exact Settles.phased ((setReservation_settles _).bind fun _ => wr_settles _ _)

theorem executeSc_phased (inst : BitVec 32) (addr : BitVec 64) {width : ℕ}
    (hwidth : Memory.validSize (width / 8) = true) :
    Phased (executeSc inst addr width) := by
  apply Phased.read
  intro c
  have hcommit : ∀ v, Settles (do setReservation none; wr (rd inst) v) :=
    fun v => (setReservation_settles none).bind fun _ => wr_settles _ v
  apply Phased.ite
  · exact Phased.store hwidth (hcommit _)
  · exact (hcommit _).phased

theorem executeRmw_phased (inst : BitVec 32) (addr : BitVec 64) {width : ℕ}
    (hwidth : Memory.validSize (width / 8) = true) :
    Phased (executeRmw inst addr width) := by
  apply Phased.bind (readMem_keeps addr (width / 8))
  intro old
  apply Phased.check
  intro a
  apply Phased.read
  intro c
  apply Phased.check
  intro new
  cases new with
  | none => exact Phased.illegal inst
  | some new => exact Phased.store hwidth (wr_settles _ _)

theorem executeAmo_phased (inst : BitVec 32) : Phased (executeAmo inst) := by
  apply Phased.read
  intro c
  cases hwidth : amoWidth (funct3 inst) c.xlen with
  | none => exact Phased.illegal inst
  | some width =>
      have hvalid := amoWidth_valid hwidth
      apply Phased.ite (Phased.fail _)
      apply Phased.ite (executeLr_phased inst _ width)
      exact Phased.ite (executeSc_phased inst _ hvalid)
        (executeRmw_phased inst _ hvalid)

theorem executeFpMem_phased (inst : BitVec 32) :
    Phased (executeFpMem inst) := by
  apply Phased.read
  intro c
  apply Phased.ite (Phased.illegal inst)
  apply Phased.ite
  · apply Phased.ite (Phased.writeMem rfl)
    exact Phased.bind (readMem_keeps _ 4) fun v => (fw_settles _ _).phased
  apply Phased.ite
  · apply Phased.ite (Phased.writeMem rfl)
    exact Phased.bind (readMem_keeps _ 8) fun v => (fw_settles _ _).phased
  · exact Phased.illegal inst

theorem executeFma_commits (inst : BitVec 32) : Commits (executeFma inst) := by
  apply Commits.read
  intro c
  rcases fpFmt (funct7 inst &&& 0x3).toNat with _ | fmt
  · exact Commits.illegal inst
  rcases c.rounding (funct3 inst) with _ | rm
  · exact Commits.illegal inst
  · apply Commits.ite
    · exact Commits.check fun result => (writeFp_settles _ _ result).commits
    · exact Commits.illegal inst

theorem executeFmvX_commits (inst : BitVec 32) (fmt : Fpu.Fmt) :
    Commits (executeFmvX inst fmt) := by
  apply Commits.read
  intro c
  apply Commits.ite (Commits.illegal inst)
  apply Commits.ite (Commits.check fun v => Commits.wr _ v)
  apply Commits.ite (Commits.wr _ _)
  exact Commits.ite (Commits.check fun v => Commits.wr _ _) (Commits.illegal inst)

theorem executeFmvF_commits (inst : BitVec 32) (fmt : Fpu.Fmt) :
    Commits (executeFmvF inst fmt) := by
  apply Commits.read
  intro c
  apply Commits.ite (Commits.illegal inst)
  apply Commits.ite (fw_settles _ _).commits
  exact Commits.ite (fw_settles _ _).commits (Commits.illegal inst)

theorem arithmetic_commits (fmt : Fpu.Fmt) (r : Fin 32)
    (result : Checked (ℕ × ℕ)) :
    Commits (do
      let result ← Program.check result
      writeFp fmt r result) :=
  Commits.check fun result => (writeFp_settles fmt r result).commits

theorem executeFpOp_commits (inst : BitVec 32) (fmt : Fpu.Fmt)
    (rm : Option Fpu.Rm) : Commits (executeFpOp inst fmt rm) := by
  apply Commits.read
  intro c
  dsimp only
  split
  · exact arithmetic_commits fmt _ _
  · exact arithmetic_commits fmt _ _
  · exact arithmetic_commits fmt _ _
  · exact arithmetic_commits fmt _ _
  · exact Commits.ite (Commits.illegal inst) (arithmetic_commits fmt _ _)
  · cases fpSign (funct3 inst) fmt (c.freg fmt (rs1 inst))
      (c.freg fmt (rs2 inst)) with
    | none => exact Commits.illegal inst
    | some sign => exact (writeFreg_settles fmt _ _).commits
  · exact Commits.ite (Commits.illegal inst) (arithmetic_commits fmt _ _)
  · cases fpFmt (rs2 inst).val with
    | none => exact Commits.illegal inst
    | some source =>
        exact Commits.ite (Commits.illegal inst) (arithmetic_commits fmt _ _)
  · cases fpCompare (funct3 inst) fmt (c.freg fmt (rs1 inst))
      (c.freg fmt (rs2 inst)) with
    | none => exact Commits.illegal inst
    | some comparison =>
        exact Commits.check fun result =>
          Settles.commits ((wr_settles _ _).bind fun _ => accrue_settles result.2)
  · cases fcvtForm (rs2 inst) c.xlen with
    | none => exact Commits.illegal inst
    | some form =>
        apply Commits.check
        intro result
        exact Commits.check fun v =>
          Settles.commits ((wr_settles _ _).bind fun _ => accrue_settles result.2)
  · cases fcvtForm (rs2 inst) c.xlen with
    | none => exact Commits.illegal inst
    | some form => exact Commits.check fun _ => arithmetic_commits fmt _ _
  · exact executeFmvX_commits inst fmt
  · exact executeFmvF_commits inst fmt
  · exact Commits.illegal inst

theorem executeOpFp_commits (inst : BitVec 32) : Commits (executeOpFp inst) := by
  apply Commits.read
  intro c
  apply Commits.ite (Commits.illegal inst)
  cases fpFmt (funct7 inst &&& 0x3).toNat with
  | none => exact Commits.illegal inst
  | some fmt => exact executeFpOp_commits inst fmt _

/-! ## SYSTEM -/

theorem control_commits {change : Cpu → Cpu} {c : Cpu} {profile : Profile}
    (hcontrol : Control c (change c)) :
    (Program.update change : Hart Unit).Ensures profile c
      (fun _ c' => Committed c c') (fun _ c' => c' = c) :=
  Program.Ensures.update ⟨_, hcontrol, Floats.refl _⟩

theorem executePriv_commits (inst : BitVec 32) : Commits (executePriv inst) := by
  intro profile c
  apply Program.Ensures.bind
  apply Program.Ensures.read
  apply Program.Ensures.ite
  · exact fun _ => Commits.fail _ profile c
  intro _
  apply Program.Ensures.ite
  · exact fun _ => Commits.fail _ profile c
  intro _
  apply Program.Ensures.ite
  · intro _
    apply Program.Ensures.ite
    · exact fun _ => Commits.illegal inst profile c
    · exact fun hgate => control_commits (.sret (by simpa using hgate))
  intro _
  apply Program.Ensures.ite
  · intro _
    apply Program.Ensures.ite
    · exact fun _ => Commits.illegal inst profile c
    · intro hgate
      apply control_commits
      apply Control.mret
      change ¬ c.privMode < Priv.machine at hgate
      revert hgate
      cases c.privMode <;> decide
  intro _
  apply Program.Ensures.ite
  · intro _
    apply Program.Ensures.ite
    · exact fun _ => Commits.illegal inst profile c
    · exact fun _ => Commits.pure profile c
  intro _
  apply Program.Ensures.ite
  · intro _
    apply Program.Ensures.ite
    · exact fun _ => Commits.illegal inst profile c
    · exact fun hgate => control_commits (.fence (by simpa using hgate))
  · exact fun _ => Commits.illegal inst profile c

theorem executeCsr_commits (inst : BitVec 32) : Commits (executeCsr inst) := by
  intro profile c
  apply Program.Ensures.bind
  apply Program.Ensures.read
  apply Program.Ensures.ite
  · exact fun _ => Commits.illegal inst profile c
  intro hpermitted
  dsimp only [id] at hpermitted ⊢
  split
  · exact Commits.illegal inst profile c
  · next value _ =>
      apply Program.Ensures.ite
      · intro hwrites
        rw [hwrites] at hpermitted
        apply Program.Ensures.bind
        apply Program.Ensures.update
        apply ((wr_settles _ _) profile _).mono
        · exact fun _ c' hfloats =>
            ⟨_, .csr _ value (by simpa using hpermitted), hfloats⟩
        · exact fun _ _ h => h.elim
      · exact fun _ => Commits.wr _ _ profile c

/-! ## Every instruction -/

theorem setPc_keeps (pc : BitVec 64) : (setPc pc).Keeps walkFrame :=
  Program.Keeps.update fun _ =>
    ⟨rfl, Mmu.SameTables.refl _ _, fun _ _ _ => Or.inl rfl⟩

def IsAccess (inst : BitVec 32) : Prop :=
  (opcode inst).toNat ∈ [0x03, 0x07, 0x23, 0x27, 0x2f]

theorem IsAccess.of_opcode {inst : BitVec 32} {op : ℕ}
    (hop : (opcode inst).toNat = op)
    (hmem : op ∈ [0x03, 0x07, 0x23, 0x27, 0x2f]) : IsAccess inst := by
  rwa [IsAccess, hop]

/-- The other instructions move on in the program, and commit. -/
theorem execute_commits {inst : BitVec 32} (hother : ¬ IsAccess inst)
    (instPc nextPc : BitVec 64) (profile : Profile) (c : Cpu) :
    (execute inst instPc nextPc).Ensures profile c
      (fun _ c' => Committed { c with pc := nextPc } c')
      (fun _ c' => c' = { c with pc := nextPc }) := by
  apply Program.Ensures.bind
  apply Program.Ensures.update
  have hcommits : ∀ {body : Hart Unit}, Commits body →
      body.Ensures profile { c with pc := nextPc }
        (fun _ c' => Committed { c with pc := nextPc } c')
        (fun _ c' => c' = { c with pc := nextPc }) :=
    fun hbody => hbody profile _
  split
  · exact hcommits (Commits.wr _ _)
  · exact hcommits (Commits.wr _ _)
  · exact hcommits (executeJal_commits inst instPc nextPc)
  · exact hcommits
      (Commits.ite (executeJalr_commits inst nextPc) (Commits.illegal inst))
  · exact hcommits (executeBranch_commits inst instPc)
  · next hop => exact absurd (.of_opcode hop (by decide)) hother
  · next hop => exact absurd (.of_opcode hop (by decide)) hother
  · exact hcommits (executeOpImm_commits inst)
  · exact hcommits (executeOpImm_commits inst)
  · exact hcommits (executeOp_commits inst)
  · exact hcommits (executeOp_commits inst)
  · next hop => exact absurd (.of_opcode hop (by decide)) hother
  · next hop => exact absurd (.of_opcode hop (by decide)) hother
  · next hop => exact absurd (.of_opcode hop (by decide)) hother
  · exact hcommits (executeFma_commits inst)
  · exact hcommits (executeFma_commits inst)
  · exact hcommits (executeFma_commits inst)
  · exact hcommits (executeFma_commits inst)
  · exact hcommits (executeOpFp_commits inst)
  · exact hcommits Commits.pure
  · exact hcommits
      (Commits.ite (executePriv_commits inst) (executeCsr_commits inst))
  · exact hcommits (Commits.illegal inst)

/-- Every instruction accesses first and commits afterwards. -/
theorem execute_phased (inst : BitVec 32) (instPc nextPc : BitVec 64) :
    Phased (execute inst instPc nextPc) := by
  by_cases haccess : IsAccess inst
  · apply Phased.bind (setPc_keeps nextPc)
    intro _
    simp only [IsAccess, List.mem_cons, List.not_mem_nil, or_false] at haccess
    rcases haccess with hop | hop | hop | hop | hop
    · rw [hop]
      exact executeLoad_phased inst
    · rw [hop]
      exact executeFpMem_phased inst
    · rw [hop]
      exact executeStore_phased inst
    · rw [hop]
      exact executeFpMem_phased inst
    · rw [hop]
      exact executeAmo_phased inst
  · intro profile c
    have hplaced : Accessed c { c with pc := nextPc } :=
      Walked.accessed
        ⟨rfl, Mmu.SameTables.refl _ _, fun _ _ _ => Or.inl rfl⟩
    apply (execute_commits haccess instPc nextPc profile c).mono
    · exact fun _ _ hcommitted => ⟨_, hplaced, hcommitted⟩
    · rintro _ _ rfl
      exact hplaced

end Cpu

end Nanoemu
