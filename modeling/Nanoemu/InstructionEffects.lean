import Nanoemu.MemoryTouch

/-!
# The effects of an instruction

A finer account than the two phases: memory and the translation cache are
touched first, then at most one command reaches the CSRs or the privilege, and
then the results are written, one effect at a time.  An instruction that is
rejected as illegal is rejected before all of it, with one exception.
-/

namespace Nanoemu

open CheckedProgram

namespace Cpu

/-- The CSR access writes: CSRRW, or a set or clear whose operand field is not
zero. -/
def WritesCsr (inst : BitVec 32) : Prop :=
  (opcode inst).toNat = 0x73 ∧ funct3 inst ≠ 0 ∧
    (funct3 inst &&& 0x3 == 0x1 || rs1 inst != 0) = true

def IsAtomic (op : BitVec 32) (inst : BitVec 32) : Prop :=
  (opcode inst).toNat = 0x2f ∧ funct7 inst >>> 2 = op

def IsReservedAtomic (inst : BitVec 32) : Prop :=
  (opcode inst).toNat = 0x2f ∧
    (funct7 inst >>> 2).toNat ∉
      [0x02, 0x03, 0x00, 0x01, 0x04, 0x08, 0x0c, 0x10, 0x14, 0x18, 0x1c]

/-- What reaches the CSRs, the privilege or the cache, by the instruction; the
gates are those of the state the instruction started in. -/
inductive Command (start : Cpu) (inst : BitVec 32) (c : Cpu) : Cpu → Prop where
  | none : ¬ WritesCsr inst → Command start inst c c
  | csr (value : BitVec 64) : WritesCsr inst →
      start.csrPermitted (csr inst) true = true →
      Command start inst c (c.writeCsr (csr inst) value)
  | sret : ¬ WritesCsr inst → start.supervisorTraps Mstatus.TSR = false →
      Command start inst c (c.trapReturn false)
  | mret : ¬ WritesCsr inst → start.privMode = .machine →
      Command start inst c (c.trapReturn true)
  | fence : ¬ WritesCsr inst → start.supervisorTraps Mstatus.TVM = false →
      Command start inst c c.flushTlb

/-- Where an instruction may jump. -/
inductive JumpTarget (start : Cpu) (inst : BitVec 32) (instPc : BitVec 64) :
    BitVec 64 → Prop where
  | jal : (opcode inst).toNat = 0x6f →
      JumpTarget start inst instPc (instPc + widen (immJ inst))
  | jalr :
      JumpTarget start inst instPc
        (trunc ((start.rr (rs1 inst) + widen (immI inst)) &&& ~~~1)
          start.xbits)
  | branch :
      JumpTarget start inst instPc
        (trunc (instPc + widen (immB inst)) start.xbits)

/-- One write of a result. -/
inductive Effect (start : Cpu) (inst : BitVec 32) (instPc : BitVec 64) :
    Cpu → Cpu → Prop where
  | register {c : Cpu} (r : Fin 32) (v : BitVec 64) :
      Effect start inst instPc c (c.setReg r v)
  | jump {c : Cpu} {target : BitVec 64} :
      JumpTarget start inst instPc target →
      Effect start inst instPc c { c with pc := target }
  | reserve {c : Cpu} : IsAtomic 0x02 inst →
      Effect start inst instPc c
        { c with reservation := some (start.rr (rs1 inst)) }
  | release {c : Cpu} : IsAtomic 0x03 inst →
      Effect start inst instPc c { c with reservation := none }
  | float {c : Cpu} (r : Fin 32) (v : BitVec 64) : start.fpEnabled = true →
      Effect start inst instPc c (c.setFreg r v)
  | flags {c : Cpu} (raised : ℕ) : start.fpEnabled = true →
      Effect start inst instPc c (c.setFflags raised)

/-- An instruction that retires touches memory, commands, and writes its
results. -/
def Executed (start : Cpu) (inst : BitVec 32) (instPc : BitVec 64)
    (c c' : Cpu) : Prop :=
  ∃ c₁ c₂, Touched c c₁ ∧ Command start inst c₁ c₂ ∧
    Relation.ReflTransGen (Effect start inst instPc) c₂ c'

/-- What every touch gives, the command turns into what every effect keeps. -/
theorem Executed.induction {start c c' : Cpu} {inst : BitVec 32}
    {instPc : BitVec 64} {before motive : Cpu → Prop}
    (h : Executed start inst instPc c c')
    (htouch : ∀ {x : Cpu}, Touched c x → before x)
    (hcommand : ∀ {x y : Cpu}, Command start inst x y → before x → motive y)
    (heffect : ∀ {x y : Cpu}, Effect start inst instPc x y → motive x →
      motive y) : motive c' := by
  obtain ⟨c₁, c₂, htouched, hcommanded, heffects⟩ := h
  have hafter : motive c₂ := hcommand hcommanded (htouch htouched)
  clear hcommanded
  induction heffects with
  | refl => exact hafter
  | tail _ hnext ih => exact heffect hnext ih

/-- An instruction that does not retire touches memory at most, and not even
that if it is illegal, unless it is an atomic of a reserved operation. -/
structure Refused (inst : BitVec 32) (c : Cpu) (e : Exception) (c' : Cpu) :
    Prop where
  touched : Touched c c'
  early : ∀ word, e = .illegalInstruction word →
    c' = c ∨ IsReservedAtomic inst

/-- The state an instruction started in, up to the place in the program and
what memory accesses touch. -/
def Begun (start c : Cpu) : Prop :=
  c = { start with pc := c.pc, mem := c.mem, tlb := c.tlb }

theorem Begun.touched {start c c' : Cpu} (h : Begun start c)
    (htouched : Touched c c') : Begun start c' := by
  rw [Begun, htouched.frame, h]

def effectFrame (start : Cpu) (inst : BitVec 32) (instPc : BitVec 64) :
    Frame Cpu where
  rel := Relation.ReflTransGen (Effect start inst instPc)
  refl _ := .refl
  trans := Relation.ReflTransGen.trans

/-- Never fails, and writes results. -/
abbrev Writes (start : Cpu) (inst : BitVec 32) (instPc : BitVec 64)
    {α : Type} (prog : Hart α) : Prop :=
  prog.Moves (effectFrame start inst instPc)

/-- Rejects its instruction first, or else runs it. -/
def Acts (start : Cpu) (inst : BitVec 32) (instPc : BitVec 64)
    (prog : Hart Unit) : Prop :=
  ∀ profile c, Begun start c → prog.Ensures profile c
    (fun _ c' => Executed start inst instPc c c')
    (fun e c' => Refused inst c e c')

def Ends (start : Cpu) (inst : BitVec 32) (instPc : BitVec 64)
    (prog : Hart Unit) : Prop :=
  ∀ profile c, Begun start c → prog.Ensures profile c
    (fun _ c' => Executed start inst instPc c c')
    (fun e c' => Touched c c' ∧
      ∀ word, e = .illegalInstruction word → IsReservedAtomic inst)

section Parts

variable {start : Cpu} {inst : BitVec 32} {instPc : BitVec 64} {α : Type}
  {prog : Hart Unit}

theorem Ends.acts (hprog : Ends start inst instPc prog) :
    Acts start inst instPc prog := by
  intro profile c hbegun
  exact (hprog profile c hbegun).mono (fun _ _ h => h)
    fun _ _ h => ⟨h.1, fun word hword => Or.inr (h.2 word hword)⟩

theorem Writes.ends (hprog : Writes start inst instPc prog)
    (hplain : ¬ WritesCsr inst) : Ends start inst instPc prog := by
  intro profile c _
  apply (hprog profile c).mono
  · exact fun _ c' heffects =>
      ⟨c, c, Touched.refl c, .none hplain, heffects⟩
  · exact fun _ _ h => h.elim

theorem Writes.acts (hprog : Writes start inst instPc prog)
    (hplain : ¬ WritesCsr inst) : Acts start inst instPc prog :=
  (hprog.ends hplain).acts

theorem Ends.touch {first : Hart α} {next : α → Hart Unit}
    (hfirst : Touches first)
    (hnext : ∀ value, Ends start inst instPc (next value)) :
    Ends start inst instPc (first >>= next) := by
  intro profile c hbegun
  apply Program.Ensures.bind
  apply (hfirst profile c).mono
  · intro value c₁ htouched
    apply (hnext value profile c₁ (hbegun.touched htouched)).mono
    · rintro _ c' ⟨c₂, c₃, htouched', hcommand, heffects⟩
      exact ⟨c₂, c₃, Touched.trans htouched htouched', hcommand, heffects⟩
    · exact fun _ _ h => ⟨Touched.trans htouched h.1, h.2⟩
  · rintro e c' ⟨htouched, hfault⟩
    refine ⟨htouched, ?_⟩
    rintro word rfl
    exact hfault.elim

theorem Ends.check {value : Checked α} {next : α → Hart Unit}
    (hnext : ∀ value, Ends start inst instPc (next value)) :
    Ends start inst instPc (Program.check value >>= next) :=
  Ends.touch (Program.Raises.check value) hnext

theorem Ends.read {next : Cpu → Hart Unit}
    (hnext : ∀ c, Begun start c → Ends start inst instPc (next c)) :
    Ends start inst instPc (Program.read id >>= next) := by
  intro profile c hbegun
  apply Program.Ensures.bind
  exact Program.Ensures.read (hnext c hbegun profile c hbegun)

theorem Acts.read {next : Cpu → Hart Unit}
    (hnext : ∀ c, Begun start c → Acts start inst instPc (next c)) :
    Acts start inst instPc (Program.read id >>= next) := by
  intro profile c hbegun
  apply Program.Ensures.bind
  exact Program.Ensures.read (hnext c hbegun profile c hbegun)

theorem Acts.check {value : Checked α} {next : α → Hart Unit}
    (hnext : ∀ value, Acts start inst instPc (next value)) :
    Acts start inst instPc (Program.check value >>= next) := by
  intro profile c hbegun
  apply Program.Ensures.bind
  exact Program.Ensures.check fun result _ => hnext result profile c hbegun

theorem Acts.illegal (word : BitVec 32) :
    Acts start inst instPc (Cpu.illegal word) :=
  fun _ c _ => Program.Ensures.fail ⟨Touched.refl c, fun _ _ => Or.inl rfl⟩

theorem Acts.fail (e : Exception) :
    Acts start inst instPc (Program.fail e) :=
  fun _ c _ => Program.Ensures.fail ⟨Touched.refl c, fun _ _ => Or.inl rfl⟩

theorem Acts.ite {condition : Prop} [Decidable condition]
    {yes no : Hart Unit} (hyes : condition → Acts start inst instPc yes)
    (hno : ¬ condition → Acts start inst instPc no) :
    Acts start inst instPc (if condition then yes else no) := by
  split
  · next h => exact hyes h
  · next h => exact hno h

theorem wr_writes (r : Fin 32) (v : BitVec 64) :
    Writes start inst instPc (wr r v) :=
  Program.Moves.update fun _ => .single (.register r v)

theorem jump_writes {target : BitVec 64}
    (htarget : JumpTarget start inst instPc target) :
    Writes start inst instPc (setPc target) :=
  Program.Moves.update fun _ => .single (.jump htarget)

theorem fw_writes (hfp : start.fpEnabled = true) (r : Fin 32)
    (v : BitVec 64) : Writes start inst instPc (fw r v) :=
  Program.Moves.update fun _ => .single (.float r v hfp)

theorem accrue_writes (hfp : start.fpEnabled = true) (raised : ℕ) :
    Writes start inst instPc (accrue raised) :=
  Program.Moves.update fun _ => .single (.flags raised hfp)

theorem writeFreg_writes (hfp : start.fpEnabled = true) (fmt : Fpu.Fmt)
    (r : Fin 32) (v : ℕ) : Writes start inst instPc (writeFreg fmt r v) :=
  fw_writes hfp r _

theorem writeFp_writes (hfp : start.fpEnabled = true) (fmt : Fpu.Fmt)
    (r : Fin 32) (result : ℕ × ℕ) :
    Writes start inst instPc (writeFp fmt r result) :=
  (writeFreg_writes hfp fmt r result.1).bind fun _ =>
    accrue_writes hfp result.2

theorem writeUnit_acts (hplain : ¬ WritesCsr inst) (v : Option (BitVec 64)) :
    Acts start inst instPc (writeUnit inst v) := by
  cases v with
  | none => exact Acts.illegal inst
  | some v => exact (wr_writes _ v).acts hplain

theorem executeOpImm_acts (hplain : ¬ WritesCsr inst) :
    Acts start inst instPc (executeOpImm inst) := by
  apply Acts.read
  intro c _
  apply Acts.ite fun _ => Acts.illegal inst
  intro _
  apply Acts.ite fun _ => Acts.illegal inst
  intro _
  exact Acts.check fun v => writeUnit_acts hplain v

theorem executeOp_acts (hplain : ¬ WritesCsr inst) :
    Acts start inst instPc (executeOp inst) := by
  apply Acts.read
  intro c _
  apply Acts.ite fun _ => Acts.illegal inst
  intro _
  exact Acts.check fun v => writeUnit_acts hplain v

theorem executeJal_acts (hop : (opcode inst).toNat = 0x6f)
    (hplain : ¬ WritesCsr inst) (nextPc : BitVec 64) :
    Acts start inst instPc (executeJal inst instPc nextPc) :=
  Writes.acts ((wr_writes _ _).bind fun _ => jump_writes (.jal hop)) hplain

theorem executeJalr_acts (hplain : ¬ WritesCsr inst) (nextPc : BitVec 64) :
    Acts start inst instPc (executeJalr inst nextPc) := by
  apply Acts.read
  intro c hbegun
  have htarget : JumpTarget start inst instPc
      (trunc ((c.rr (rs1 inst) + widen (immI inst)) &&& ~~~1) c.xbits) := by
    rw [hbegun]
    exact .jalr
  exact Writes.acts ((wr_writes _ _).bind fun _ => jump_writes htarget) hplain

theorem executeBranch_acts (hplain : ¬ WritesCsr inst) :
    Acts start inst instPc (executeBranch inst instPc) := by
  apply Acts.read
  intro c hbegun
  have htarget : JumpTarget start inst instPc
      (trunc (instPc + widen (immB inst)) c.xbits) := by
    rw [hbegun]
    exact .branch
  apply Acts.check
  intro sa
  apply Acts.check
  intro sb
  cases branchTaken (funct3 inst) (c.rr (rs1 inst)) (c.rr (rs2 inst)) sa sb with
  | none => exact Acts.illegal inst
  | some taken =>
      apply Acts.ite
      · exact fun _ => (jump_writes htarget).acts hplain
      · exact fun _ => Writes.acts (Program.Moves.pure ()) hplain

theorem executeLoad_acts (hplain : ¬ WritesCsr inst) :
    Acts start inst instPc (executeLoad inst) := by
  apply Acts.read
  intro c _
  dsimp only
  cases loadForm (funct3 inst) c.xlen with
  | none => exact Acts.illegal inst
  | some form =>
      apply Ends.acts
      apply Ends.touch (readMem_touches _ form.1)
      intro v
      exact Ends.check fun v => (wr_writes _ v).ends hplain

theorem writeMem_ends (hplain : ¬ WritesCsr inst) (va : BitVec 64) (size : ℕ)
    (value : BitVec 64) : Ends start inst instPc (writeMem va size value) := by
  have hends : Ends start inst instPc (writeMem va size value >>= pure) :=
    Ends.touch (writeMem_touches va size value) fun _ =>
      Writes.ends (Program.Moves.pure ()) hplain
  rwa [bind_pure] at hends

theorem executeStore_acts (hplain : ¬ WritesCsr inst) :
    Acts start inst instPc (executeStore inst) := by
  apply Acts.read
  intro c _
  dsimp only
  cases storeSize (funct3 inst) c.xlen with
  | none => exact Acts.illegal inst
  | some size => exact (writeMem_ends hplain _ size _).acts

theorem executeLr_acts (hop : IsAtomic 0x02 inst) (hplain : ¬ WritesCsr inst)
    (width : ℕ) :
    Acts start inst instPc (executeLr inst (start.rr (rs1 inst)) width) := by
  apply Acts.ite fun _ => Acts.illegal inst
  intro _
  apply Ends.acts
  apply Ends.touch (readMem_touches _ (width / 8))
  intro v
  apply Ends.check
  intro v
  refine Writes.ends ?_ hplain
  exact Program.Moves.bind (Program.Moves.update fun _ => .single (.reserve hop))
    fun _ => wr_writes _ v

theorem executeSc_acts (hop : IsAtomic 0x03 inst) (hplain : ¬ WritesCsr inst)
    (addr : BitVec 64) (width : ℕ) :
    Acts start inst instPc (executeSc inst addr width) := by
  apply Acts.read
  intro c _
  have hfinish : ∀ v, Ends start inst instPc
      (do setReservation none; wr (rd inst) v) := by
    intro v
    refine Writes.ends ?_ hplain
    exact Program.Moves.bind
      (Program.Moves.update fun _ => .single (.release hop))
      fun _ => wr_writes _ v
  apply Acts.ite
  · exact fun _ => (Ends.touch (writeMem_touches addr _ _) fun _ =>
      hfinish _).acts
  · exact fun _ => (hfinish _).acts

theorem isReservedAtomic_of_none (hop : (opcode inst).toNat = 0x2f)
    (hlr : funct7 inst >>> 2 ≠ 0x02) (hsc : funct7 inst >>> 2 ≠ 0x03)
    {a b : BitVec 64} {width : ℕ} {profile : Profile}
    (hnone : amoOp (funct7 inst >>> 2) a b width profile = some none) :
    IsReservedAtomic inst := by
  refine ⟨hop, ?_⟩
  obtain ⟨sb, -, hpure⟩ := Checked.bind_eq_some hnone
  have hresult := Option.some.inj hpure
  split at hresult
  all_goals cases hresult
  next h0 h1 h4 h8 hc h10 h14 h18 h1c =>
    have hlr' : (funct7 inst >>> 2).toNat ≠ 0x02 := fun h =>
      hlr (BitVec.eq_of_toNat_eq h)
    have hsc' : (funct7 inst >>> 2).toNat ≠ 0x03 := fun h =>
      hsc (BitVec.eq_of_toNat_eq h)
    simp only [List.mem_cons, List.not_mem_nil, or_false, not_or]
    exact ⟨hlr', hsc', h0, h1, h4, h8, hc, h10, h14, h18, h1c⟩

theorem executeRmw_acts (hop : (opcode inst).toNat = 0x2f)
    (hlr : funct7 inst >>> 2 ≠ 0x02) (hsc : funct7 inst >>> 2 ≠ 0x03)
    (hplain : ¬ WritesCsr inst) (addr : BitVec 64) (width : ℕ) :
    Acts start inst instPc (executeRmw inst addr width) := by
  apply Ends.acts
  apply Ends.touch (readMem_touches addr (width / 8))
  intro old
  apply Ends.check
  intro a
  apply Ends.read
  intro c _ profile c₁ hbegun
  apply Program.Ensures.bind
  apply Program.Ensures.check
  intro new hnew
  cases new with
  | none =>
      exact Program.Ensures.fail ⟨Touched.refl c₁, fun _ _ =>
        isReservedAtomic_of_none hop hlr hsc hnew⟩
  | some new =>
      exact Ends.touch (writeMem_touches addr _ new)
        (fun _ => (wr_writes _ a).ends hplain) profile c₁ hbegun

theorem executeAmo_acts (hop : (opcode inst).toNat = 0x2f)
    (hplain : ¬ WritesCsr inst) :
    Acts start inst instPc (executeAmo inst) := by
  apply Acts.read
  intro c hbegun
  cases amoWidth (funct3 inst) c.xlen with
  | none => exact Acts.illegal inst
  | some width =>
      have haddr : c.rr (rs1 inst) = start.rr (rs1 inst) := by
        rw [hbegun]
        rfl
      apply Acts.ite fun _ => Acts.fail _
      intro _
      apply Acts.ite
      · intro hlr
        rw [haddr]
        exact executeLr_acts ⟨hop, hlr⟩ hplain width
      intro hlr
      apply Acts.ite
      · exact fun hsc => executeSc_acts ⟨hop, hsc⟩ hplain _ width
      · exact fun hsc => executeRmw_acts hop hlr hsc hplain _ width

theorem fpEnabled_begun {c : Cpu} (h : Begun start c) :
    c.fpEnabled = start.fpEnabled := by
  rw [h]
  rfl

theorem executeFpMem_acts (hplain : ¬ WritesCsr inst) :
    Acts start inst instPc (executeFpMem inst) := by
  apply Acts.read
  intro c hbegun
  apply Acts.ite fun _ => Acts.illegal inst
  intro hgate
  have hfp : start.fpEnabled = true := by
    rw [← fpEnabled_begun hbegun]
    simpa using hgate
  have hload : ∀ addr size (form : BitVec 64 → BitVec 64),
      Acts start inst instPc (do
        let v ← readMem addr size
        fw (rd inst) (form v)) := fun addr size form =>
    (Ends.touch (readMem_touches addr size) fun _ =>
      (fw_writes hfp _ _).ends hplain).acts
  apply Acts.ite
  · intro _
    apply Acts.ite
    · exact fun _ => (writeMem_ends hplain _ 4 _).acts
    · exact fun _ => hload _ 4 box32
  intro _
  apply Acts.ite
  · intro _
    apply Acts.ite
    · exact fun _ => (writeMem_ends hplain _ 8 _).acts
    · exact fun _ => hload _ 8 id
  · exact fun _ => Acts.illegal inst

theorem arithmetic_acts (hfp : start.fpEnabled = true)
    (hplain : ¬ WritesCsr inst) (fmt : Fpu.Fmt) (r : Fin 32)
    (result : Checked (ℕ × ℕ)) :
    Acts start inst instPc (do
      let result ← Program.check result
      writeFp fmt r result) :=
  Acts.check fun result => (writeFp_writes hfp fmt r result).acts hplain

theorem executeFma_acts (hplain : ¬ WritesCsr inst) :
    Acts start inst instPc (executeFma inst) := by
  apply Acts.read
  intro c hbegun
  rcases fpFmt (funct7 inst &&& 0x3).toNat with _ | fmt
  · exact Acts.illegal inst
  rcases c.rounding (funct3 inst) with _ | rm
  · exact Acts.illegal inst
  apply Acts.ite
  · intro hgate
    exact arithmetic_acts ((fpEnabled_begun hbegun).symm.trans hgate) hplain
      fmt _ _
  · exact fun _ => Acts.illegal inst

theorem executeFmvX_acts (hplain : ¬ WritesCsr inst) (fmt : Fpu.Fmt) :
    Acts start inst instPc (executeFmvX inst fmt) := by
  apply Acts.read
  intro c _
  apply Acts.ite fun _ => Acts.illegal inst
  intro _
  apply Acts.ite
  · exact fun _ => Acts.check fun v => (wr_writes _ v).acts hplain
  intro _
  apply Acts.ite fun _ => (wr_writes _ _).acts hplain
  intro _
  apply Acts.ite
  · exact fun _ => Acts.check fun v => (wr_writes _ _).acts hplain
  · exact fun _ => Acts.illegal inst

theorem executeFmvF_acts (hfp : start.fpEnabled = true)
    (hplain : ¬ WritesCsr inst) (fmt : Fpu.Fmt) :
    Acts start inst instPc (executeFmvF inst fmt) := by
  apply Acts.read
  intro c _
  apply Acts.ite fun _ => Acts.illegal inst
  intro _
  apply Acts.ite fun _ => (fw_writes hfp _ _).acts hplain
  intro _
  apply Acts.ite fun _ => (fw_writes hfp _ _).acts hplain
  exact fun _ => Acts.illegal inst

theorem executeFpOp_acts (hfp : start.fpEnabled = true)
    (hplain : ¬ WritesCsr inst) (fmt : Fpu.Fmt) (rm : Option Fpu.Rm) :
    Acts start inst instPc (executeFpOp inst fmt rm) := by
  apply Acts.read
  intro c _
  dsimp only
  split
  · exact arithmetic_acts hfp hplain fmt _ _
  · exact arithmetic_acts hfp hplain fmt _ _
  · exact arithmetic_acts hfp hplain fmt _ _
  · exact arithmetic_acts hfp hplain fmt _ _
  · exact Acts.ite (fun _ => Acts.illegal inst)
      fun _ => arithmetic_acts hfp hplain fmt _ _
  · cases fpSign (funct3 inst) fmt (c.freg fmt (rs1 inst))
      (c.freg fmt (rs2 inst)) with
    | none => exact Acts.illegal inst
    | some sign => exact (writeFreg_writes hfp fmt _ _).acts hplain
  · exact Acts.ite (fun _ => Acts.illegal inst)
      fun _ => arithmetic_acts hfp hplain fmt _ _
  · cases fpFmt (rs2 inst).val with
    | none => exact Acts.illegal inst
    | some source =>
        exact Acts.ite (fun _ => Acts.illegal inst)
          fun _ => arithmetic_acts hfp hplain fmt _ _
  · cases fpCompare (funct3 inst) fmt (c.freg fmt (rs1 inst))
      (c.freg fmt (rs2 inst)) with
    | none => exact Acts.illegal inst
    | some comparison =>
        exact Acts.check fun result => Writes.acts
          ((wr_writes _ _).bind fun _ => accrue_writes hfp result.2) hplain
  · cases fcvtForm (rs2 inst) c.xlen with
    | none => exact Acts.illegal inst
    | some form =>
        apply Acts.check
        intro result
        exact Acts.check fun v => Writes.acts
          ((wr_writes _ _).bind fun _ => accrue_writes hfp result.2) hplain
  · cases fcvtForm (rs2 inst) c.xlen with
    | none => exact Acts.illegal inst
    | some form => exact Acts.check fun _ => arithmetic_acts hfp hplain fmt _ _
  · exact executeFmvX_acts hplain fmt
  · exact executeFmvF_acts hfp hplain fmt
  · exact Acts.illegal inst

theorem executeOpFp_acts (hplain : ¬ WritesCsr inst) :
    Acts start inst instPc (executeOpFp inst) := by
  apply Acts.read
  intro c hbegun
  apply Acts.ite fun _ => Acts.illegal inst
  intro hgate
  have hfp : start.fpEnabled = true := by
    rw [← fpEnabled_begun hbegun]
    simpa using hgate
  cases fpFmt (funct7 inst &&& 0x3).toNat with
  | none => exact Acts.illegal inst
  | some fmt => exact executeFpOp_acts hfp hplain fmt _

theorem command_acts {change : Cpu → Cpu} {c : Cpu} {profile : Profile}
    (hcommand : Command start inst c (change c)) :
    (Program.update change : Hart Unit).Ensures profile c
      (fun _ c' => Executed start inst instPc c c')
      (fun e c' => Refused inst c e c') :=
  Program.Ensures.update ⟨c, change c, Touched.refl c, hcommand, .refl⟩

theorem supervisorTraps_begun {c : Cpu} (h : Begun start c)
    (bit : BitVec 64) : c.supervisorTraps bit = start.supervisorTraps bit := by
  rw [h]
  rfl

theorem executePriv_acts (hplain : ¬ WritesCsr inst) :
    Acts start inst instPc (executePriv inst) := by
  apply Acts.read
  intro c hbegun
  apply Acts.ite fun _ => Acts.fail _
  intro _
  apply Acts.ite fun _ => Acts.fail _
  intro _
  apply Acts.ite
  · intro _
    apply Acts.ite fun _ => Acts.illegal inst
    intro hgate profile c₁ _
    rw [supervisorTraps_begun hbegun] at hgate
    exact command_acts (.sret hplain (by simpa using hgate))
  intro _
  apply Acts.ite
  · intro _
    apply Acts.ite fun _ => Acts.illegal inst
    intro hgate profile c₁ _
    have hmode : start.privMode = .machine := by
      have hsame : c.privMode = start.privMode := by
        rw [hbegun]
      change ¬ c.privMode < Priv.machine at hgate
      rw [hsame] at hgate
      revert hgate
      cases start.privMode <;> decide
    exact command_acts (.mret hplain hmode)
  intro _
  apply Acts.ite
  · intro _
    apply Acts.ite fun _ => Acts.illegal inst
    exact fun _ => Writes.acts (Program.Moves.pure ()) hplain
  intro _
  apply Acts.ite
  · intro _
    apply Acts.ite fun _ => Acts.illegal inst
    intro hgate profile c₁ _
    rw [supervisorTraps_begun hbegun] at hgate
    exact command_acts (.fence hplain (by simpa using hgate))
  · exact fun _ => Acts.illegal inst

theorem csrPermitted_begun {c : Cpu} (h : Begun start c) (addr : BitVec 12)
    (writes : Bool) :
    c.csrPermitted addr writes = start.csrPermitted addr writes := by
  rw [h]
  rfl

theorem executeCsr_acts (hop : (opcode inst).toNat = 0x73)
    (hf3 : funct3 inst ≠ 0) : Acts start inst instPc (executeCsr inst) := by
  apply Acts.read
  intro c hbegun
  apply Acts.ite fun _ => Acts.illegal inst
  intro hpermitted
  rw [csrPermitted_begun hbegun] at hpermitted
  dsimp only
  split
  · exact Acts.illegal inst
  · next value _ =>
      apply Acts.ite
      · intro hwrites profile c₁ _
        rw [hwrites] at hpermitted
        apply Program.Ensures.bind
        apply Program.Ensures.update
        apply ((wr_writes _ _) profile _).mono
        · intro _ c' heffects
          exact ⟨c₁, _, Touched.refl c₁,
            .csr value ⟨hop, hf3, hwrites⟩ (by simpa using hpermitted),
            heffects⟩
        · exact fun _ _ h => h.elim
      · intro hreads
        exact (wr_writes _ _).acts fun h => hreads h.2.2

end Parts

/-! ## Every instruction -/

/-- From the state with the place already advanced, an instruction is refused
or it is executed. -/
theorem execute_acts (start : Cpu) (inst : BitVec 32)
    (instPc nextPc : BitVec 64) (profile : Profile) :
    (execute inst instPc nextPc).Ensures profile start
      (fun _ c' => Executed start inst instPc { start with pc := nextPc } c')
      (fun e c' => Refused inst { start with pc := nextPc } e c') := by
  apply Program.Ensures.bind
  apply Program.Ensures.update
  have hbegun : Begun start { start with pc := nextPc } := rfl
  have hplain : (opcode inst).toNat ≠ 0x73 → ¬ WritesCsr inst :=
    fun hop hwrites => hop hwrites.1
  suffices hacts : Acts start inst instPc _ from hacts profile _ hbegun
  split
  · next hop => exact (wr_writes _ _).acts (hplain (by rw [hop]; decide))
  · next hop => exact (wr_writes _ _).acts (hplain (by rw [hop]; decide))
  · next hop => exact executeJal_acts hop (hplain (by rw [hop]; decide)) nextPc
  · next hop =>
      exact Acts.ite
        (fun _ => executeJalr_acts (hplain (by rw [hop]; decide)) nextPc)
        fun _ => Acts.illegal inst
  · next hop => exact executeBranch_acts (hplain (by rw [hop]; decide))
  · next hop => exact executeLoad_acts (hplain (by rw [hop]; decide))
  · next hop => exact executeStore_acts (hplain (by rw [hop]; decide))
  · next hop => exact executeOpImm_acts (hplain (by rw [hop]; decide))
  · next hop => exact executeOpImm_acts (hplain (by rw [hop]; decide))
  · next hop => exact executeOp_acts (hplain (by rw [hop]; decide))
  · next hop => exact executeOp_acts (hplain (by rw [hop]; decide))
  · next hop => exact executeAmo_acts hop (hplain (by rw [hop]; decide))
  · next hop => exact executeFpMem_acts (hplain (by rw [hop]; decide))
  · next hop => exact executeFpMem_acts (hplain (by rw [hop]; decide))
  · next hop => exact executeFma_acts (hplain (by rw [hop]; decide))
  · next hop => exact executeFma_acts (hplain (by rw [hop]; decide))
  · next hop => exact executeFma_acts (hplain (by rw [hop]; decide))
  · next hop => exact executeFma_acts (hplain (by rw [hop]; decide))
  · next hop => exact executeOpFp_acts (hplain (by rw [hop]; decide))
  · next hop =>
      exact Writes.acts (Program.Moves.pure ()) (hplain (by rw [hop]; decide))
  · next hop =>
      exact Acts.ite
        (fun hf3 => executePriv_acts fun hwrites => hwrites.2.1 hf3)
        fun hf3 => executeCsr_acts hop hf3
  · exact Acts.illegal inst

/-! ## Runs of an atomic instruction -/

section Atomics

variable {profile : Profile} {c c' : Cpu} {outcome : Except Exception Unit}

theorem execute_atomic {op inst : BitVec 32} (hop : IsAtomic op inst)
    (instPc nextPc : BitVec 64) :
    execute inst instPc nextPc profile c =
      executeAmo inst profile { c with pc := nextPc } := by
  have hplace : setPc nextPc profile c =
      some (.ok (), { c with pc := nextPc }) := rfl
  rw [execute, Program.bind_run_ok hplace, hop.1]
  rfl

/-- The operation of an atomic instruction that is legal and aligned. -/
def atomicOperation (inst : BitVec 32) (addr : BitVec 64) (width : ℕ) :
    Hart Unit :=
  if funct7 inst >>> 2 = 0x02 then executeLr inst addr width
  else if funct7 inst >>> 2 = 0x03 then executeSc inst addr width
  else executeRmw inst addr width

theorem executeAmo_cases {inst : BitVec 32}
    (hrun : executeAmo inst profile c = some (outcome, c')) :
    (c' = c ∧ ∃ e, outcome = .error e) ∨
      ∃ width, amoWidth (funct3 inst) c.xlen = some width ∧
        (c.rr (rs1 inst)).toNat % (width / 8) = 0 ∧
        atomicOperation inst (c.rr (rs1 inst)) width profile c =
          some (outcome, c') := by
  rw [executeAmo, Program.bind_run_ok (Program.read_run _ _ _), id] at hrun
  cases hwidth : amoWidth (funct3 inst) c.xlen with
  | none =>
      rw [hwidth] at hrun
      cases hrun
      exact Or.inl ⟨rfl, _, rfl⟩
  | some width =>
      rw [hwidth] at hrun
      change (if (c.rr (rs1 inst)).toNat % (width / 8) ≠ 0 then
          Program.fail (.storeAddressMisaligned (c.rr (rs1 inst)))
        else atomicOperation inst (c.rr (rs1 inst)) width) profile c = _ at hrun
      rw [Program.ite_run] at hrun
      split at hrun
      · cases hrun
        exact Or.inl ⟨rfl, _, rfl⟩
      · next haligned =>
          exact Or.inr ⟨width, rfl, not_not.mp haligned, hrun⟩

theorem executeAmo_run {inst : BitVec 32} {width : ℕ}
    (hwidth : amoWidth (funct3 inst) c.xlen = some width)
    (haligned : (c.rr (rs1 inst)).toNat % (width / 8) = 0) :
    executeAmo inst profile c =
      atomicOperation inst (c.rr (rs1 inst)) width profile c := by
  rw [executeAmo, Program.bind_run_ok (Program.read_run _ _ _), id, hwidth]
  change (if (c.rr (rs1 inst)).toNat % (width / 8) ≠ 0 then
      Program.fail (.storeAddressMisaligned (c.rr (rs1 inst)))
    else atomicOperation inst (c.rr (rs1 inst)) width) profile c = _
  rw [if_neg (not_not.mpr haligned)]

theorem amoWidth_cases {f3 : BitVec 32} {xlen : Xlen} {width : ℕ}
    (h : amoWidth f3 xlen = some width) : width = 32 ∨ width = 64 := by
  rw [amoWidth] at h
  split at h
  · exact Or.inl (Option.some.inj h).symm
  · split at h
    · exact Or.inr (Option.some.inj h).symm
    · cases h
  · cases h

theorem fitsPage_aligned {va : BitVec 64} {width : ℕ}
    (hwidth : width = 32 ∨ width = 64)
    (haligned : va.toNat % (width / 8) = 0) (profile : Profile) :
    fitsPage va (width / 8) profile = some true := by
  have hoffset : (va &&& 0xfff).toNat = va.toNat % 4096 := by
    rw [BitVec.toNat_and]
    exact Nat.and_two_pow_sub_one_eq_mod va.toNat 12
  have hsize : (BitVec.ofNat 64 (width / 8)).toNat = width / 8 := by
    rcases hwidth with rfl | rfl <;> rfl
  have hsum : (va &&& 0xfff).toNat + (BitVec.ofNat 64 (width / 8)).toNat ≤
      4096 := by
    rw [hoffset, hsize]
    rcases hwidth with rfl | rfl <;> omega
  have hlast : Checked.add (va &&& 0xfff) (BitVec.ofNat 64 (width / 8)) =
      pure ((va &&& 0xfff) + BitVec.ofNat 64 (width / 8)) :=
    Checked.add_eq_pure (lt_of_le_of_lt hsum (by decide))
  rw [fitsPage, hlast]
  change some (decide (_ ≤ _)) = some true
  rw [Option.some_inj, decide_eq_true_iff, BitVec.le_def, BitVec.toNat_add]
  exact (Nat.mod_le _ _).trans hsum

end Atomics

end Cpu

end Nanoemu
