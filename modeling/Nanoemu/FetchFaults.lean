import Nanoemu.InstructionEffects

/-!
# Faults of the fetch

The address of an instruction is translated and read by the fetch.  What an
instruction raises once it is executed is never one of the fetch's faults.  An
access raises the faults of its own kind, and an instruction those of its
accesses, or the word it is executed from.
-/

namespace Nanoemu

open CheckedProgram

/-- Not raised for the address of an instruction. -/
def Exception.SparesFetch : Exception → Prop
  | instructionAddressMisaligned _ | instructionAccessFault _
  | instructionPageFault _ => False
  | _ => True

/-- Raised by executing an instruction: the fault of an access, or the word of
the instruction as it is executed. -/
inductive Exception.RaisedBy (inst : BitVec 32) : Exception → Prop where
  | illegal : RaisedBy inst (.illegalInstruction inst)
  | breakpoint : RaisedBy inst .breakpoint
  | call : RaisedBy inst .environmentCall
  | misaligned (addr : BitVec 64) : RaisedBy inst (.storeAddressMisaligned addr)
  | loadAccess (addr : BitVec 64) : RaisedBy inst (.loadAccessFault addr)
  | storeAccess (addr : BitVec 64) : RaisedBy inst (.storeAccessFault addr)
  | loadPage (addr : BitVec 64) : RaisedBy inst (.loadPageFault addr)
  | storePage (addr : BitVec 64) : RaisedBy inst (.storePageFault addr)

theorem Exception.RaisedBy.sparesFetch {inst : BitVec 32} {e : Exception}
    (h : e.RaisedBy inst) : e.SparesFetch := by
  cases h <;> trivial

theorem Exception.RaisedBy.word {inst word : BitVec 32}
    (h : (Exception.illegalInstruction word).RaisedBy inst) : word = inst := by
  cases h
  rfl

/-- What any instruction may raise: its own word and the faults of its
accesses. -/
structure Exception.AllowsFaults (inst : BitVec 32)
    (kind : Exception → Prop) : Prop where
  illegal : kind (.illegalInstruction inst)
  misaligned : ∀ addr, kind (.storeAddressMisaligned addr)
  loadAccess : ∀ addr, kind (.loadAccessFault addr)
  storeAccess : ∀ addr, kind (.storeAccessFault addr)
  loadPage : ∀ addr, kind (.loadPageFault addr)
  storePage : ∀ addr, kind (.storePageFault addr)

theorem Exception.raisedBy_allows (inst : BitVec 32) :
    AllowsFaults inst (Exception.RaisedBy inst) :=
  ⟨.illegal, .misaligned, .loadAccess, .storeAccess, .loadPage, .storePage⟩

def anyFrame (σ : Type) : Frame σ where
  rel _ _ := True
  refl _ := trivial
  trans _ _ := trivial

abbrev RaisesBy {σ α : Type} (inst : BitVec 32)
    (prog : Program σ Exception α) : Prop :=
  prog.Raises (anyFrame σ) (Exception.RaisedBy inst)

theorem keeps_any {σ ε α : Type} (prog : Program σ ε α) :
    prog.Keeps (anyFrame σ) := by
  intro profile state outcome state' _
  cases outcome <;> trivial

theorem raises_update {σ : Type} {kind : Exception → Prop} (change : σ → σ) :
    (Program.update change : Program σ Exception Unit).Raises (anyFrame σ)
      kind :=
  Program.Raises.update fun _ => trivial

theorem anyFrame_respects : Memory.Respects (anyFrame Memory) :=
  ⟨fun _ _ => keeps_any _, fun _ _ _ => keeps_any _⟩

namespace Cpu

theorem anyFrame_carries : Carries (anyFrame Memory) (anyFrame Cpu) :=
  ⟨anyFrame_respects, fun _ _ _ => trivial, fun _ _ _ _ => trivial⟩

/-- Memory stays within the frame, and the rest is free. -/
def memFrame (inner : Frame Memory) : Frame Cpu where
  rel c c' := inner.rel c.mem c'.mem
  refl c := inner.refl c.mem
  trans := inner.trans

section Memory

variable {inner : Frame Memory}

theorem memFrame_carries (hinner : Memory.Respects inner) :
    Carries inner (memFrame inner) :=
  ⟨hinner, fun _ _ h => h, fun _ _ _ _ => inner.refl _⟩

theorem update_raises {kind : Exception → Prop} {change : Cpu → Cpu}
    (hchange : ∀ c, (change c).mem = c.mem) :
    (Program.update change : Hart Unit).Raises (memFrame inner) kind := by
  apply Program.Raises.update
  intro c
  change inner.rel c.mem (change c).mem
  rw [hchange]
  exact inner.refl _

theorem setReg_mem (c : Cpu) (r : Fin 32) (v : BitVec 64) :
    (c.setReg r v).mem = c.mem := by
  unfold setReg
  split <;> rfl

theorem setFflags_mem (c : Cpu) (flags : ℕ) :
    (c.setFflags flags).mem = c.mem := by
  unfold setFflags
  split <;> rfl

theorem writeCsr_mem (c : Cpu) (addr : BitVec 12) (value : BitVec 64) :
    (c.writeCsr addr value).mem = c.mem := by
  unfold writeCsr
  split_ifs <;> rfl

end Memory

/-! ## Instructions -/

section Instructions

/-- Moves memory within the frame, and raises the exceptions of the
instruction. -/
abbrev RaisesIn {α : Type} (inner : Frame Memory) (inst : BitVec 32)
    (prog : Hart α) : Prop :=
  prog.Raises (memFrame inner) (Exception.RaisedBy inst)

/-- Moves memory within the frame, and raises exceptions of a kind. -/
abbrev RaisesAs {α : Type} (inner : Frame Memory) (kind : Exception → Prop)
    (prog : Hart α) : Prop :=
  prog.Raises (memFrame inner) kind

/-- What loads and stores move and raise. -/
structure AccessesRaise (inner : Frame Memory) (kind : Exception → Prop) :
    Prop where
  load : ∀ va size, RaisesAs inner kind (readMem va size)
  store : ∀ va size value, RaisesAs inner kind (writeMem va size value)

variable {inner : Frame Memory} {kind : Exception → Prop} {inst : BitVec 32}
  (haccess : AccessesRaise inner kind) (hkind : Exception.AllowsFaults inst kind)

include hkind in
theorem illegal_raises {α : Type} :
    RaisesAs inner kind (illegal inst : Hart α) :=
  Program.Raises.fail hkind.illegal

include hkind in
theorem accesses_raise (hinner : Memory.Respects inner) :
    AccessesRaise inner kind :=
  ⟨fun va => (memFrame_carries hinner).readMem hkind.loadPage
    (hkind.loadAccess va),
    fun va => (memFrame_carries hinner).writeMem hkind.storePage
      (hkind.storeAccess va)⟩

theorem wr_raises (r : Fin 32) (v : BitVec 64) : RaisesAs inner kind (wr r v) :=
  update_raises fun c => setReg_mem c r v

theorem fw_raises (r : Fin 32) (v : BitVec 64) : RaisesAs inner kind (fw r v) :=
  update_raises fun _ => rfl

theorem setPc_raises (pc : BitVec 64) : RaisesAs inner kind (setPc pc) :=
  update_raises fun _ => rfl

include hkind in
theorem writeUnit_raises (v : Option (BitVec 64)) :
    RaisesAs inner kind (writeUnit inst v) := by
  cases v with
  | none => exact illegal_raises hkind
  | some v => exact wr_raises _ v

include hkind in
theorem executeOpImm_raises :
    RaisesAs inner kind (executeOpImm inst) := by
  apply Program.Raises.bind (Program.Raises.read _)
  intro c
  apply Program.Raises.ite (illegal_raises hkind)
  apply Program.Raises.ite (illegal_raises hkind)
  exact Program.Raises.bind (Program.Raises.check _) fun v =>
    writeUnit_raises hkind v

include hkind in
theorem executeOp_raises : RaisesAs inner kind (executeOp inst) := by
  apply Program.Raises.bind (Program.Raises.read _)
  intro c
  apply Program.Raises.ite (illegal_raises hkind)
  exact Program.Raises.bind (Program.Raises.check _) fun v =>
    writeUnit_raises hkind v

theorem executeJalr_raises (nextPc : BitVec 64) :
    RaisesAs inner kind (executeJalr inst nextPc) := by
  apply Program.Raises.bind (Program.Raises.read _)
  intro c
  exact Program.Raises.bind (wr_raises _ _) fun _ => setPc_raises _

include hkind in
theorem executeBranch_raises (instPc : BitVec 64) :
    RaisesAs inner kind (executeBranch inst instPc) := by
  apply Program.Raises.bind (Program.Raises.read _)
  intro c
  apply Program.Raises.bind (Program.Raises.check _)
  intro sa
  apply Program.Raises.bind (Program.Raises.check _)
  intro sb
  cases branchTaken (funct3 inst) (c.rr (rs1 inst)) (c.rr (rs2 inst)) sa sb with
  | none => exact illegal_raises hkind
  | some taken =>
      exact Program.Raises.ite (setPc_raises _) (Program.Raises.pure _)

include haccess hkind in
theorem executeLoad_raises : RaisesAs inner kind (executeLoad inst) := by
  apply Program.Raises.bind (Program.Raises.read _)
  intro c
  dsimp only
  cases loadForm (funct3 inst) c.xlen with
  | none => exact illegal_raises hkind
  | some form =>
      apply Program.Raises.bind (haccess.load _ form.1)
      intro v
      exact Program.Raises.bind (Program.Raises.check _) fun v =>
        wr_raises _ v

include haccess hkind in
theorem executeStore_raises :
    RaisesAs inner kind (executeStore inst) := by
  apply Program.Raises.bind (Program.Raises.read _)
  intro c
  dsimp only
  cases storeSize (funct3 inst) c.xlen with
  | none => exact illegal_raises hkind
  | some size => exact haccess.store _ size _

include haccess hkind in
theorem executeFpMem_raises :
    RaisesAs inner kind (executeFpMem inst) := by
  have hload : ∀ addr size (form : BitVec 64 → BitVec 64),
      RaisesAs inner kind (do
        let v ← readMem addr size
        fw (rd inst) (form v)) := fun addr size form =>
    Program.Raises.bind (haccess.load addr size)
      fun v => fw_raises _ _
  apply Program.Raises.bind (Program.Raises.read _)
  intro c
  apply Program.Raises.ite (illegal_raises hkind)
  apply Program.Raises.ite
  · exact Program.Raises.ite (haccess.store _ 4 _) (hload _ 4 box32)
  apply Program.Raises.ite
  · exact Program.Raises.ite (haccess.store _ 8 _) (hload _ 8 id)
  · exact illegal_raises hkind

include haccess hkind in
theorem executeLr_raises (addr : BitVec 64) (width : ℕ) :
    RaisesAs inner kind (executeLr inst addr width) := by
  apply Program.Raises.ite (illegal_raises hkind)
  apply Program.Raises.bind (haccess.load addr _)
  intro v
  apply Program.Raises.bind (Program.Raises.check _)
  intro v
  exact Program.Raises.bind (update_raises fun _ => rfl)
    fun _ => wr_raises _ v

include haccess in
theorem executeSc_raises (addr : BitVec 64) (width : ℕ) :
    RaisesAs inner kind (executeSc inst addr width) := by
  have hfinish : ∀ v, RaisesAs inner kind (do
      setReservation none
      wr (rd inst) v) := fun v =>
    Program.Raises.bind (update_raises fun _ => rfl) fun _ => wr_raises _ v
  apply Program.Raises.bind (Program.Raises.read _)
  intro c
  apply Program.Raises.ite
  · exact Program.Raises.bind (haccess.store addr _ _)
      fun _ => hfinish _
  · exact hfinish _

include haccess hkind in
theorem executeRmw_raises (addr : BitVec 64) (width : ℕ) :
    RaisesAs inner kind (executeRmw inst addr width) := by
  apply Program.Raises.bind (haccess.load addr _)
  intro old
  apply Program.Raises.bind (Program.Raises.check _)
  intro a
  apply Program.Raises.bind (Program.Raises.read _)
  intro c
  apply Program.Raises.bind (Program.Raises.check _)
  intro new
  cases new with
  | none => exact illegal_raises hkind
  | some new =>
      exact Program.Raises.bind (haccess.store addr _ new) fun _ =>
        wr_raises _ a

include haccess hkind in
theorem executeAmo_raises : RaisesAs inner kind (executeAmo inst) := by
  apply Program.Raises.bind (Program.Raises.read _)
  intro c
  cases amoWidth (funct3 inst) c.xlen with
  | none => exact illegal_raises hkind
  | some width =>
      apply Program.Raises.ite (Program.Raises.fail (hkind.misaligned _))
      apply Program.Raises.ite (executeLr_raises haccess hkind _ width)
      exact Program.Raises.ite (executeSc_raises haccess _ width)
        (executeRmw_raises haccess hkind _ width)

theorem writeFp_raises (fmt : Fpu.Fmt) (r : Fin 32)
    (result : Checked (ℕ × ℕ)) : RaisesAs inner kind (do
      let result ← Program.check result
      writeFp fmt r result) := by
  apply Program.Raises.bind (Program.Raises.check _)
  intro result
  exact Program.Raises.bind (fw_raises _ _) fun _ =>
    update_raises fun c => setFflags_mem c _

include hkind in
theorem executeFma_raises : RaisesAs inner kind (executeFma inst) := by
  apply Program.Raises.bind (Program.Raises.read _)
  intro c
  rcases fpFmt (funct7 inst &&& 0x3).toNat with _ | fmt
  · exact illegal_raises hkind
  rcases c.rounding (funct3 inst) with _ | rm
  · exact illegal_raises hkind
  exact Program.Raises.ite (writeFp_raises fmt _ _) (illegal_raises hkind)

include hkind in
theorem executeFmvX_raises (fmt : Fpu.Fmt) :
    RaisesAs inner kind (executeFmvX inst fmt) := by
  apply Program.Raises.bind (Program.Raises.read _)
  intro c
  apply Program.Raises.ite (illegal_raises hkind)
  apply Program.Raises.ite
  · exact Program.Raises.bind (Program.Raises.check _) fun v =>
      wr_raises _ v
  apply Program.Raises.ite (wr_raises _ _)
  apply Program.Raises.ite
  · exact Program.Raises.bind (Program.Raises.check _) fun v =>
      wr_raises _ _
  · exact illegal_raises hkind

include hkind in
theorem executeFmvF_raises (fmt : Fpu.Fmt) :
    RaisesAs inner kind (executeFmvF inst fmt) := by
  apply Program.Raises.bind (Program.Raises.read _)
  intro c
  apply Program.Raises.ite (illegal_raises hkind)
  apply Program.Raises.ite (fw_raises _ _)
  exact Program.Raises.ite (fw_raises _ _) (illegal_raises hkind)

include hkind in
theorem executeFpOp_raises (fmt : Fpu.Fmt)
    (rm : Option Fpu.Rm) : RaisesAs inner kind (executeFpOp inst fmt rm) := by
  apply Program.Raises.bind (Program.Raises.read _)
  intro c
  dsimp only
  split
  · exact writeFp_raises fmt _ _
  · exact writeFp_raises fmt _ _
  · exact writeFp_raises fmt _ _
  · exact writeFp_raises fmt _ _
  · exact Program.Raises.ite (illegal_raises hkind)
      (writeFp_raises fmt _ _)
  · cases fpSign (funct3 inst) fmt (c.freg fmt (rs1 inst))
      (c.freg fmt (rs2 inst)) with
    | none => exact illegal_raises hkind
    | some sign => exact fw_raises _ _
  · exact Program.Raises.ite (illegal_raises hkind)
      (writeFp_raises fmt _ _)
  · cases fpFmt (rs2 inst).val with
    | none => exact illegal_raises hkind
    | some source =>
        exact Program.Raises.ite (illegal_raises hkind)
          (writeFp_raises fmt _ _)
  · cases fpCompare (funct3 inst) fmt (c.freg fmt (rs1 inst))
      (c.freg fmt (rs2 inst)) with
    | none => exact illegal_raises hkind
    | some comparison =>
        apply Program.Raises.bind (Program.Raises.check _)
        intro result
        exact Program.Raises.bind (wr_raises _ _) fun _ =>
          update_raises fun c => setFflags_mem c _
  · cases fcvtForm (rs2 inst) c.xlen with
    | none => exact illegal_raises hkind
    | some form =>
        apply Program.Raises.bind (Program.Raises.check _)
        intro result
        apply Program.Raises.bind (Program.Raises.check _)
        intro v
        exact Program.Raises.bind (wr_raises _ v) fun _ =>
          update_raises fun c => setFflags_mem c _
  · cases fcvtForm (rs2 inst) c.xlen with
    | none => exact illegal_raises hkind
    | some form =>
        exact Program.Raises.bind (Program.Raises.check _) fun _ =>
          writeFp_raises fmt _ _
  · exact executeFmvX_raises hkind fmt
  · exact executeFmvF_raises hkind fmt
  · exact illegal_raises hkind

include hkind in
theorem executeOpFp_raises : RaisesAs inner kind (executeOpFp inst) := by
  apply Program.Raises.bind (Program.Raises.read _)
  intro c
  apply Program.Raises.ite (illegal_raises hkind)
  cases fpFmt (funct7 inst &&& 0x3).toNat with
  | none => exact illegal_raises hkind
  | some fmt => exact executeFpOp_raises hkind fmt _

theorem executePriv_raises : RaisesIn inner inst (executePriv inst) := by
  have hillegal : RaisesIn inner inst (illegal inst : Hart Unit) :=
    illegal_raises (Exception.raisedBy_allows inst)
  apply Program.Raises.bind (Program.Raises.read _)
  intro c
  apply Program.Raises.ite (Program.Raises.fail .call)
  apply Program.Raises.ite (Program.Raises.fail .breakpoint)
  apply Program.Raises.ite
  · exact Program.Raises.ite hillegal (update_raises fun _ => rfl)
  apply Program.Raises.ite
  · exact Program.Raises.ite hillegal (update_raises fun _ => rfl)
  apply Program.Raises.ite
  · exact Program.Raises.ite hillegal (Program.Raises.pure _)
  apply Program.Raises.ite
  · exact Program.Raises.ite hillegal (update_raises fun _ => rfl)
  · exact hillegal

include hkind in
theorem executeCsr_raises : RaisesAs inner kind (executeCsr inst) := by
  apply Program.Raises.bind (Program.Raises.read _)
  intro c
  apply Program.Raises.ite (illegal_raises hkind)
  dsimp only
  split
  · exact illegal_raises hkind
  · apply Program.Raises.ite
    · exact Program.Raises.bind
        (update_raises fun c => writeCsr_mem c _ _) fun _ => wr_raises _ _
    · exact wr_raises _ _

include hkind in
theorem execute_kinds (haccess : IsAccess inst → AccessesRaise inner kind)
    (instPc nextPc : BitVec 64)
    (hpriv : (opcode inst).toNat = 0x73 → funct3 inst = 0 →
      RaisesAs inner kind (executePriv inst)) :
    RaisesAs inner kind (execute inst instPc nextPc) := by
  apply Program.Raises.bind (setPc_raises nextPc)
  intro _
  have hreach : ∀ {op : ℕ}, (opcode inst).toNat = op →
      op ∈ [0x03, 0x07, 0x23, 0x27, 0x2f] → AccessesRaise inner kind :=
    fun hop hmem => haccess (by rwa [IsAccess, hop])
  split
  · exact wr_raises _ _
  · exact wr_raises _ _
  · exact Program.Raises.bind (wr_raises _ _) fun _ => setPc_raises _
  · exact Program.Raises.ite (executeJalr_raises _) (illegal_raises hkind)
  · exact executeBranch_raises hkind instPc
  · next hop => exact executeLoad_raises (hreach hop (by decide)) hkind
  · next hop => exact executeStore_raises (hreach hop (by decide)) hkind
  · exact executeOpImm_raises hkind
  · exact executeOpImm_raises hkind
  · exact executeOp_raises hkind
  · exact executeOp_raises hkind
  · next hop => exact executeAmo_raises (hreach hop (by decide)) hkind
  · next hop => exact executeFpMem_raises (hreach hop (by decide)) hkind
  · next hop => exact executeFpMem_raises (hreach hop (by decide)) hkind
  · exact executeFma_raises hkind
  · exact executeFma_raises hkind
  · exact executeFma_raises hkind
  · exact executeFma_raises hkind
  · exact executeOpFp_raises hkind
  · exact Program.Raises.pure _
  · next hop =>
      by_cases hf3 : funct3 inst = 0
      · rw [if_pos hf3]
        exact hpriv hop hf3
      · rw [if_neg hf3]
        exact executeCsr_raises hkind
  · exact illegal_raises hkind

/-- An instruction keeps what reads and writes of memory keep, and raises its
own exceptions. -/
theorem execute_within (hinner : Memory.Respects inner) (inst : BitVec 32)
    (instPc nextPc : BitVec 64) :
    RaisesIn inner inst (execute inst instPc nextPc) := by
  have hallows := Exception.raisedBy_allows inst
  exact execute_kinds hallows (fun _ => accesses_raise hallows hinner) instPc
    nextPc fun _ _ => executePriv_raises

/-- An instruction that is executed raises no fault of the fetch, and where it
is rejected it names the word that was executed. -/
theorem execute_raises (inst : BitVec 32) (instPc nextPc : BitVec 64) :
    RaisesBy inst (execute inst instPc nextPc) :=
  execute_within anyFrame_respects inst instPc nextPc

end Instructions

end Cpu

end Nanoemu
