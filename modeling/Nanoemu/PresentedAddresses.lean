import Nanoemu.InstructionPhases
import Nanoemu.PageOffset
import Nanoemu.TrapReturn

/-!
# The addresses a step presents to translation

Here are the programs of a step once more, over the translation that they
call.  With the hart's own translation they are the step itself.  With one that
panics at a single address they say whether the step presents that address: it
does if it no longer gets where it got.
-/

namespace Nanoemu

open CheckedProgram

namespace Cpu

abbrev Translation : Type :=
  BitVec 64 → Access → Hart (BitVec 64)

section Through

variable (tr : Translation)

def readBytesThrough (va : BitVec 64) :
    (remaining k : ℕ) → (v : BitVec 64) → Hart (BitVec 64)
  | 0, _, v => pure v
  | remaining + 1, k, v => do
      let addr ← Program.check (Checked.add va (BitVec.ofNat 64 k))
      let pa ← tr addr .load
      let b ← physRead (.loadAccessFault va) pa 1
      let shift ← Program.check (Checked.umul 64 8 k)
      let piece ← Program.check (Checked.shl b shift)
      readBytesThrough va remaining (k + 1) (v ||| piece)

def readMemThrough (va : BitVec 64) (size : ℕ) : Hart (BitVec 64) := do
  if ← Program.check (fitsPage va size) then do
    let pa ← tr va .load
    physRead (.loadAccessFault va) pa size
  else readBytesThrough tr va size 0 0

def translateBytesThrough (va : BitVec 64) : (remaining k : ℕ) → Hart Unit
  | 0, _ => pure ()
  | remaining + 1, k => do
      let addr ← Program.check (Checked.add va (BitVec.ofNat 64 k))
      let _ ← tr addr .store
      translateBytesThrough va remaining (k + 1)

def writeBytesThrough (va value : BitVec 64) : (remaining k : ℕ) → Hart Unit
  | 0, _ => pure ()
  | remaining + 1, k => do
      let addr ← Program.check (Checked.add va (BitVec.ofNat 64 k))
      let pa ← tr addr .store
      let shift ← Program.check (Checked.umul 64 8 k)
      let byte ← Program.check (Checked.shr value shift)
      physWrite (.storeAccessFault va) pa 1 byte
      writeBytesThrough va value remaining (k + 1)

def writeMemThrough (va : BitVec 64) (size : ℕ) (value : BitVec 64) :
    Hart Unit := do
  if ← Program.check (fitsPage va size) then do
    let pa ← tr va .store
    physWrite (.storeAccessFault va) pa size value
  else do
    translateBytesThrough tr va size 0
    writeBytesThrough tr va value size 0

def fetchHalfThrough (va : BitVec 64) : Hart (BitVec 64) := do
  let pa ← tr va .fetch
  physRead (.instructionAccessFault va) pa 2

def fetchThrough : Hart (BitVec 32 × BitVec 64) := do
  let pc ← Program.read Cpu.pc
  if pc &&& 0x1 ≠ 0 then Program.fail (.instructionAddressMisaligned pc)
  else if pc &&& 0xfff ≤ 0xffc then do
    let pa ← tr pc .fetch
    let word ← physRead (.instructionAccessFault pc) pa 4
    let word : BitVec 32 := word.setWidth 32
    if word &&& 0x3 ≠ 0x3 then expand (word &&& 0xffff) else pure (word, 4)
  else do
    let lo ← fetchHalfThrough tr pc
    let lo : BitVec 32 := lo.setWidth 32
    if lo &&& 0x3 ≠ 0x3 then expand lo
    else do
      let next ← Program.check (Checked.add pc 2)
      let hi ← fetchHalfThrough tr next
      let hi : BitVec 32 := hi.setWidth 32
      pure ((hi <<< 16) ||| lo, 4)

def executeLoadThrough (inst : BitVec 32) : Hart Unit := do
  let c ← Program.read id
  let addr := trunc (c.rr (rs1 inst) + widen (immI inst)) c.xbits
  match loadForm (funct3 inst) c.xlen with
  | none => illegal inst
  | some (size, width) => do
      let v ← readMemThrough tr addr size
      let v ← Program.check (sext v width)
      wr (rd inst) v

def executeStoreThrough (inst : BitVec 32) : Hart Unit := do
  let c ← Program.read id
  let addr := trunc (c.rr (rs1 inst) + widen (immS inst)) c.xbits
  match storeSize (funct3 inst) c.xlen with
  | none => illegal inst
  | some size => writeMemThrough tr addr size (c.rr (rs2 inst))

def executeLrThrough (inst : BitVec 32) (addr : BitVec 64) (width : ℕ) :
    Hart Unit := do
  if rs2 inst ≠ 0 then illegal inst
  else do
    let v ← readMemThrough tr addr (width / 8)
    let v ← Program.check (sext v width)
    setReservation (some addr)
    wr (rd inst) v

def executeScThrough (inst : BitVec 32) (addr : BitVec 64) (width : ℕ) :
    Hart Unit := do
  let c ← Program.read id
  let ok := c.reservation == some addr
  if ok then writeMemThrough tr addr (width / 8) (c.rr (rs2 inst)) else pure ()
  setReservation none
  wr (rd inst) (boolWord !ok)

def executeRmwThrough (inst : BitVec 32) (addr : BitVec 64) (width : ℕ) :
    Hart Unit := do
  let old ← readMemThrough tr addr (width / 8)
  let a ← Program.check (sext old width)
  let c ← Program.read id
  let new ← Program.check
    (amoOp (funct7 inst >>> 2) a (c.rr (rs2 inst)) width)
  match new with
  | none => illegal inst
  | some new => do
      writeMemThrough tr addr (width / 8) new
      wr (rd inst) a

def executeAmoThrough (inst : BitVec 32) : Hart Unit := do
  let c ← Program.read id
  match amoWidth (funct3 inst) c.xlen with
  | none => illegal inst
  | some width =>
      let addr := c.rr (rs1 inst)
      if addr.toNat % (width / 8) ≠ 0 then
        Program.fail (.storeAddressMisaligned addr)
      else if funct7 inst >>> 2 = 0x02 then executeLrThrough tr inst addr width
      else if funct7 inst >>> 2 = 0x03 then executeScThrough tr inst addr width
      else executeRmwThrough tr inst addr width

def executeFpMemThrough (inst : BitVec 32) : Hart Unit := do
  let c ← Program.read id
  let store := opcode inst = 0x27
  let offset := if store then immS inst else immI inst
  let addr := trunc (c.rr (rs1 inst) + widen offset) c.xbits
  if !c.fpEnabled then illegal inst
  else if funct3 inst = 0x2 then
    if store then writeMemThrough tr addr 4 (c.fregs (rs2 inst))
    else do
      let v ← readMemThrough tr addr 4
      fw (rd inst) (box32 v)
  else if funct3 inst = 0x3 then
    if store then writeMemThrough tr addr 8 (c.fregs (rs2 inst))
    else do
      let v ← readMemThrough tr addr 8
      fw (rd inst) v
  else illegal inst

/-- The other opcodes do not reach memory. -/
def executeThrough (inst : BitVec 32) (instPc nextPc : BitVec 64) :
    Hart Unit :=
  match (opcode inst).toNat with
  | 0x03 => do
      setPc nextPc
      executeLoadThrough tr inst
  | 0x23 => do
      setPc nextPc
      executeStoreThrough tr inst
  | 0x2f => do
      setPc nextPc
      executeAmoThrough tr inst
  | 0x07 | 0x27 => do
      setPc nextPc
      executeFpMemThrough tr inst
  | _ => execute inst instPc nextPc

def fetchExecuteThrough (instPc : BitVec 64) : Hart Unit := do
  let (inst, len) ← fetchThrough tr
  let pc ← Program.read Cpu.pc
  executeThrough tr inst instPc (pc + len)

def runInstructionThrough : Hart Unit := do
  let instPc ← Program.read Cpu.pc
  Program.update fun c => { c with wroteInstret := false }
  let result : Except Exception Unit ←
    Program.attempt (fetchExecuteThrough tr instPc)
  match result with
  | .ok () => Program.update retire
  | .error e => do
      let c ← Program.read id
      if c.callsFirmware e then answerCall
      else do
        trap e instPc
        Program.fail e

def stepThrough : Hart Unit := do
  countCycle
  Program.update tickTimer
  let c ← Program.read id
  match c.pendingInterrupt with
  | some cause => takeTrap cause 0 c.pc true
  | none => runInstructionThrough tr

end Through

/-! ## Translations that stop short -/

section Approximation

variable {tr : Translation}
  (htr : ∀ va access, (tr va access).Approximates (translate va access))

include htr

theorem readBytesThrough_approximates (va : BitVec 64) (remaining k : ℕ)
    (v : BitVec 64) : (readBytesThrough tr va remaining k v).Approximates
      (readBytes va remaining k v) := by
  induction remaining generalizing k v with
  | zero => exact Program.Approximates.refl _
  | succ remaining ih =>
      apply Program.Approximates.bind (Program.Approximates.refl _)
      intro addr
      apply Program.Approximates.bind (htr addr .load)
      intro pa
      apply Program.Approximates.bind (Program.Approximates.refl _)
      intro b
      apply Program.Approximates.bind (Program.Approximates.refl _)
      intro shift
      exact Program.Approximates.bind (Program.Approximates.refl _)
        fun piece => ih (k + 1) _

theorem readMemThrough_approximates (va : BitVec 64) (size : ℕ) :
    (readMemThrough tr va size).Approximates (readMem va size) := by
  apply Program.Approximates.bind (Program.Approximates.refl _)
  intro fits
  apply Program.Approximates.ite
  · exact Program.Approximates.bind (htr va .load)
      fun _ => Program.Approximates.refl _
  · exact readBytesThrough_approximates htr va size 0 0

theorem translateBytesThrough_approximates (va : BitVec 64)
    (remaining k : ℕ) : (translateBytesThrough tr va remaining k).Approximates
      (translateBytes va remaining k) := by
  induction remaining generalizing k with
  | zero => exact Program.Approximates.refl _
  | succ remaining ih =>
      apply Program.Approximates.bind (Program.Approximates.refl _)
      intro addr
      exact Program.Approximates.bind (htr addr .store) fun _ => ih (k + 1)

theorem writeBytesThrough_approximates (va value : BitVec 64)
    (remaining k : ℕ) :
    (writeBytesThrough tr va value remaining k).Approximates
      (writeBytes va value remaining k) := by
  induction remaining generalizing k with
  | zero => exact Program.Approximates.refl _
  | succ remaining ih =>
      apply Program.Approximates.bind (Program.Approximates.refl _)
      intro addr
      apply Program.Approximates.bind (htr addr .store)
      intro pa
      apply Program.Approximates.bind (Program.Approximates.refl _)
      intro shift
      apply Program.Approximates.bind (Program.Approximates.refl _)
      intro byte
      exact Program.Approximates.bind (Program.Approximates.refl _)
        fun _ => ih (k + 1)

theorem writeMemThrough_approximates (va : BitVec 64) (size : ℕ)
    (value : BitVec 64) :
    (writeMemThrough tr va size value).Approximates
      (writeMem va size value) := by
  apply Program.Approximates.bind (Program.Approximates.refl _)
  intro fits
  apply Program.Approximates.ite
  · exact Program.Approximates.bind (htr va .store)
      fun _ => Program.Approximates.refl _
  · exact Program.Approximates.bind
      (translateBytesThrough_approximates htr va size 0)
      fun _ => writeBytesThrough_approximates htr va value size 0

theorem fetchHalfThrough_approximates (va : BitVec 64) :
    (fetchHalfThrough tr va).Approximates (fetchHalf va) :=
  Program.Approximates.bind (htr va .fetch)
    fun _ => Program.Approximates.refl _

theorem fetchThrough_approximates :
    (fetchThrough tr).Approximates fetch := by
  apply Program.Approximates.bind (Program.Approximates.refl _)
  intro pc
  apply Program.Approximates.ite (Program.Approximates.refl _)
  apply Program.Approximates.ite
  · exact Program.Approximates.bind (htr pc .fetch)
      fun _ => Program.Approximates.refl _
  · apply Program.Approximates.bind (fetchHalfThrough_approximates htr pc)
    intro lo
    apply Program.Approximates.ite (Program.Approximates.refl _)
    apply Program.Approximates.bind (Program.Approximates.refl _)
    intro next
    exact Program.Approximates.bind (fetchHalfThrough_approximates htr next)
      fun hi => Program.Approximates.refl _

variable (inst : BitVec 32)

theorem executeLoadThrough_approximates :
    (executeLoadThrough tr inst).Approximates (executeLoad inst) := by
  apply Program.Approximates.bind (Program.Approximates.refl _)
  intro c
  dsimp only
  cases loadForm (funct3 inst) c.xlen with
  | none => exact Program.Approximates.refl _
  | some form =>
      exact Program.Approximates.bind
        (readMemThrough_approximates htr _ form.1)
        fun v => Program.Approximates.refl _

theorem executeStoreThrough_approximates :
    (executeStoreThrough tr inst).Approximates (executeStore inst) := by
  apply Program.Approximates.bind (Program.Approximates.refl _)
  intro c
  dsimp only
  cases storeSize (funct3 inst) c.xlen with
  | none => exact Program.Approximates.refl _
  | some size => exact writeMemThrough_approximates htr _ size _

theorem executeLrThrough_approximates (addr : BitVec 64) (width : ℕ) :
    (executeLrThrough tr inst addr width).Approximates
      (executeLr inst addr width) := by
  apply Program.Approximates.ite (Program.Approximates.refl _)
  exact Program.Approximates.bind (readMemThrough_approximates htr addr _)
    fun v => Program.Approximates.refl _

theorem executeScThrough_approximates (addr : BitVec 64) (width : ℕ) :
    (executeScThrough tr inst addr width).Approximates
      (executeSc inst addr width) := by
  apply Program.Approximates.bind (Program.Approximates.refl _)
  intro c
  apply Program.Approximates.ite
  · exact Program.Approximates.bind
      (writeMemThrough_approximates htr addr _ _)
      fun _ => Program.Approximates.refl _
  · exact Program.Approximates.refl _

theorem executeRmwThrough_approximates (addr : BitVec 64) (width : ℕ) :
    (executeRmwThrough tr inst addr width).Approximates
      (executeRmw inst addr width) := by
  apply Program.Approximates.bind (readMemThrough_approximates htr addr _)
  intro old
  apply Program.Approximates.bind (Program.Approximates.refl _)
  intro a
  apply Program.Approximates.bind (Program.Approximates.refl _)
  intro c
  apply Program.Approximates.bind (Program.Approximates.refl _)
  intro new
  cases new with
  | none => exact Program.Approximates.refl _
  | some new =>
      exact Program.Approximates.bind
        (writeMemThrough_approximates htr addr _ new)
        fun _ => Program.Approximates.refl _

theorem executeAmoThrough_approximates :
    (executeAmoThrough tr inst).Approximates (executeAmo inst) := by
  apply Program.Approximates.bind (Program.Approximates.refl _)
  intro c
  cases amoWidth (funct3 inst) c.xlen with
  | none => exact Program.Approximates.refl _
  | some width =>
      apply Program.Approximates.ite (Program.Approximates.refl _)
      apply Program.Approximates.ite
        (executeLrThrough_approximates htr inst _ width)
      exact Program.Approximates.ite
        (executeScThrough_approximates htr inst _ width)
        (executeRmwThrough_approximates htr inst _ width)

theorem executeFpMemThrough_approximates :
    (executeFpMemThrough tr inst).Approximates (executeFpMem inst) := by
  have haccess : ∀ (store : Prop) [Decidable store] (addr v : BitVec 64)
      (size : ℕ) (rest : BitVec 64 → Hart Unit),
      (if store then writeMemThrough tr addr size v
        else readMemThrough tr addr size >>= rest).Approximates
      (if store then writeMem addr size v else readMem addr size >>= rest) :=
    fun _ _ addr v size rest => Program.Approximates.ite
      (writeMemThrough_approximates htr addr size v)
      (Program.Approximates.bind (readMemThrough_approximates htr addr size)
        fun v => Program.Approximates.refl _)
  apply Program.Approximates.bind (Program.Approximates.refl _)
  intro c
  apply Program.Approximates.ite (Program.Approximates.refl _)
  apply Program.Approximates.ite (haccess _ _ _ 4 _)
  exact Program.Approximates.ite (haccess _ _ _ 8 _)
    (Program.Approximates.refl _)

theorem executeThrough_approximates (instPc nextPc : BitVec 64) :
    (executeThrough tr inst instPc nextPc).Approximates
      (execute inst instPc nextPc) := by
  have hplaced : ∀ {body body' : Hart Unit}, body.Approximates body' →
      (setPc nextPc >>= fun _ => body).Approximates
        (setPc nextPc >>= fun _ => body') := fun hbody =>
    Program.Approximates.bind (Program.Approximates.refl _) fun _ => hbody
  fun_cases executeThrough tr inst instPc nextPc
  · next hop =>
      rw [execute, hop]
      exact hplaced (executeLoadThrough_approximates htr inst)
  · next hop =>
      rw [execute, hop]
      exact hplaced (executeStoreThrough_approximates htr inst)
  · next hop =>
      rw [execute, hop]
      exact hplaced (executeAmoThrough_approximates htr inst)
  · next hop =>
      rw [execute, hop]
      exact hplaced (executeFpMemThrough_approximates htr inst)
  · next hop =>
      rw [execute, hop]
      exact hplaced (executeFpMemThrough_approximates htr inst)
  · exact Program.Approximates.refl _

theorem fetchExecuteThrough_approximates (instPc : BitVec 64) :
    (fetchExecuteThrough tr instPc).Approximates (fetchExecute instPc) := by
  apply Program.Approximates.bind (fetchThrough_approximates htr)
  rintro ⟨inst, len⟩
  exact Program.Approximates.bind (Program.Approximates.refl _)
    fun pc => executeThrough_approximates htr inst instPc _

end Approximation

/-- A step gets somewhere only where its fetch and its instruction do. -/
theorem fetchExecuteThrough_of_step {tr : Translation} {profile : Profile}
    {c : Cpu} (hpending : c.ticked.pendingInterrupt = none)
    (hgets : stepThrough tr profile c ≠ none) :
    ∃ outcome x, fetchExecuteThrough tr c.ticked.pc profile c.fetching =
      some (outcome, x) := by
  rcases hfetch : fetchExecuteThrough tr c.ticked.pc profile c.fetching with
    _ | ⟨outcome, x⟩
  · exfalso
    apply hgets
    rcases hcount : countCycle profile c with _ | ⟨e | _, c₁⟩
    · exact Program.bind_run_none hcount
    · exact ((countCycle_ensures profile c).error hcount).elim
    obtain rfl := (countCycle_ensures profile c).ok hcount
    rw [stepThrough, Program.bind_run_ok hcount,
      Program.bind_run_ok (Program.update_run _ _ _),
      Program.bind_run_ok (Program.read_run _ _ _), id,
      show c.counted.tickTimer = c.ticked from rfl, hpending]
    dsimp only
    rw [runInstructionThrough, Program.bind_run_ok (Program.read_run _ _ _),
      Program.bind_run_ok (Program.update_run _ _ _),
      show ({ c.ticked with wroteInstret := false } : Cpu) = c.fetching
        from rfl]
    exact Program.bind_run_none (Program.attempt_run_none hfetch)
  · exact ⟨outcome, x, rfl⟩

/-! ## Presented and named addresses -/

/-- The hart's translation, cut off at one address. -/
def cutAt (va : BitVec 64) : Translation := fun presented access =>
  if presented = va then Program.check Checked.panic
  else translate presented access

/-- The step from `c` presents `va` to translation: cut off there, it does not
get where it got. -/
def Presents (profile : Profile) (c : Cpu) (va : BitVec 64) : Prop :=
  stepThrough (cutAt va) profile c ≠ step profile c

/-- The addresses an access presents: the first, or every byte's if the access
crosses a page. -/
def accessAddresses (va : BitVec 64) (size : ℕ) : List (BitVec 64) :=
  if (va &&& 0xfff).toNat + size ≤ 0x1000 then [va]
  else (List.range size).map fun k => va + BitVec.ofNat 64 k

/-- An atomic instruction gets as far as its access: it is aligned, a load is
well formed and a conditional store has its reservation. -/
def AtomicAccess (c : Cpu) (inst : BitVec 32) (width : ℕ) : Prop :=
  (c.rr (rs1 inst)).toNat % (width / 8) = 0 ∧
    (funct7 inst >>> 2 = 0x02 → rs2 inst = 0) ∧
    (funct7 inst >>> 2 = 0x03 → c.reservation = some (c.rr (rs1 inst)))

instance (c : Cpu) (inst : BitVec 32) (width : ℕ) :
    Decidable (AtomicAccess c inst width) :=
  inferInstanceAs (Decidable (_ ∧ _))

def floatSize (c : Cpu) (inst : BitVec 32) : Option ℕ :=
  if !c.fpEnabled then none
  else if funct3 inst = 0x2 then some 4
  else if funct3 inst = 0x3 then some 8
  else none

/-- The access to memory an instruction makes, if it makes one. -/
def dataAccess (c : Cpu) (inst : BitVec 32) : Option (BitVec 64 × ℕ) :=
  let loaded := trunc (c.rr (rs1 inst) + widen (immI inst)) c.xbits
  let stored := trunc (c.rr (rs1 inst) + widen (immS inst)) c.xbits
  match (opcode inst).toNat with
  | 0x03 => (loadForm (funct3 inst) c.xlen).map fun form => (loaded, form.1)
  | 0x23 => (storeSize (funct3 inst) c.xlen).map fun size => (stored, size)
  | 0x07 => (c.floatSize inst).map fun size => (loaded, size)
  | 0x27 => (c.floatSize inst).map fun size => (stored, size)
  | 0x2f =>
      (amoWidth (funct3 inst) c.xlen).bind fun width =>
        if AtomicAccess c inst width then some (c.rr (rs1 inst), width / 8)
        else none
  | _ => none

/-- The step from `c` takes no interrupt and fetches an instruction. -/
structure Fetched (profile : Profile) (c : Cpu) (inst : BitVec 32)
    (len : BitVec 64) (c₁ : Cpu) : Prop where
  pending : c.ticked.pendingInterrupt = none
  word : fetch profile c.fetching = some (.ok (inst, len), c₁)

/-- The second halfword of an instruction is fetched on its own: the first is
the last of its page and begins an instruction of four bytes. -/
structure FetchesSecond (profile : Profile) (c : Cpu) : Prop where
  pending : c.ticked.pendingInterrupt = none
  even : c.pc &&& 1 = 0
  last : ¬ c.pc &&& 0xfff ≤ 0xffc
  first : ∃ lo c₁, fetchHalf c.pc profile c.fetching = some (.ok lo, c₁) ∧
    lo.setWidth 32 &&& 0x3 = (0x3 : BitVec 32)

/-- The addresses that the fetch and the access of the step from `c` name. -/
inductive Names (profile : Profile) (c : Cpu) : BitVec 64 → Prop where
  | first : c.ticked.pendingInterrupt = none → c.pc &&& 1 = 0 →
      Names profile c c.pc
  | second : FetchesSecond profile c → Names profile c (c.pc + 2)
  | data {inst : BitVec 32} {len start va : BitVec 64} {c₁ : Cpu} {size : ℕ} :
      Fetched profile c inst len c₁ →
      c₁.dataAccess inst = some (start, size) →
      va ∈ accessAddresses start size → Names profile c va

/-! ## Nothing else is presented -/

section Agreement

variable {tr : Translation} {va : BitVec 64}

/-- Only the sum itself is ever handed on. -/
theorem add_bind_congr {α : Type} {a b : BitVec 64}
    {next next' : BitVec 64 → Hart α} (hsame : next (a + b) = next' (a + b)) :
    (Program.check (Checked.add a b) >>= next) =
      (Program.check (Checked.add a b) >>= next') := by
  funext profile c
  apply Program.bind_congr
  intro sum middle hsum
  obtain ⟨_, hvalue, hok, -⟩ := Program.check_cases hsum
  cases hok
  rw [Checked.add_eq_some hvalue, hsame]

theorem readBytesThrough_eq : ∀ (remaining k : ℕ) (v : BitVec 64),
    (∀ j, k ≤ j → j < k + remaining →
      tr (va + BitVec.ofNat 64 j) = translate (va + BitVec.ofNat 64 j)) →
    readBytesThrough tr va remaining k v = readBytes va remaining k v := by
  intro remaining
  induction remaining with
  | zero => exact fun _ _ _ => rfl
  | succ remaining ih =>
      intro k v hsame
      have hrest := fun v => ih (k + 1) v fun j hle hlt =>
        hsame j (by omega) (by omega)
      have hfirst := hsame k le_rfl (by omega)
      rw [readBytesThrough, readBytes]
      apply add_bind_congr
      simp only [hrest, hfirst]

theorem translateBytesThrough_eq : ∀ (remaining k : ℕ),
    (∀ j, k ≤ j → j < k + remaining →
      tr (va + BitVec.ofNat 64 j) = translate (va + BitVec.ofNat 64 j)) →
    translateBytesThrough tr va remaining k = translateBytes va remaining k := by
  intro remaining
  induction remaining with
  | zero => exact fun _ _ => rfl
  | succ remaining ih =>
      intro k hsame
      have hrest := ih (k + 1) fun j hle hlt => hsame j (by omega) (by omega)
      have hfirst := hsame k le_rfl (by omega)
      rw [translateBytesThrough, translateBytes]
      apply add_bind_congr
      simp only [hrest, hfirst]

theorem writeBytesThrough_eq {value : BitVec 64} : ∀ (remaining k : ℕ),
    (∀ j, k ≤ j → j < k + remaining →
      tr (va + BitVec.ofNat 64 j) = translate (va + BitVec.ofNat 64 j)) →
    writeBytesThrough tr va value remaining k =
      writeBytes va value remaining k := by
  intro remaining
  induction remaining with
  | zero => exact fun _ _ => rfl
  | succ remaining ih =>
      intro k hsame
      have hrest := ih (k + 1) fun j hle hlt => hsame j (by omega) (by omega)
      have hfirst := hsame k le_rfl (by omega)
      rw [writeBytesThrough, writeBytes]
      apply add_bind_congr
      simp only [hrest, hfirst]

/-- The translation is the hart's own at every address the access presents. -/
def Agrees (tr : Translation) (va : BitVec 64) (size : ℕ) : Prop :=
  ∀ a ∈ accessAddresses va size, tr a = translate a

theorem Agrees.within {size : ℕ} (hagrees : Agrees tr va size)
    (hfits : va.toNat % 4096 + size ≤ 4096) : tr va = translate va := by
  apply hagrees
  rw [accessAddresses, Mmu.offset_toNat, if_pos hfits]
  exact List.mem_singleton_self va

theorem Agrees.bytes {size : ℕ} (hagrees : Agrees tr va size)
    (hcrosses : ¬ va.toNat % 4096 + size ≤ 4096) (j : ℕ) (hj : j < size) :
    tr (va + BitVec.ofNat 64 j) = translate (va + BitVec.ofNat 64 j) := by
  apply hagrees
  rw [accessAddresses, Mmu.offset_toNat, if_neg hcrosses]
  exact List.mem_map_of_mem (List.mem_range.mpr hj)

theorem readMemThrough_eq {size : ℕ} (hsize : size ≤ 8)
    (hagrees : Agrees tr va size) :
    readMemThrough tr va size = readMem va size := by
  rw [readMemThrough, readMem, fitsPage_eq hsize, Program.check_pure, pure_bind,
    pure_bind]
  by_cases hfits : va.toNat % 4096 + size ≤ 4096
  · rw [decide_eq_true hfits, if_pos rfl, if_pos rfl, hagrees.within hfits]
  · rw [decide_eq_false hfits, if_neg Bool.false_ne_true,
      if_neg Bool.false_ne_true, readBytesThrough_eq size 0 0 fun j _ hj =>
      hagrees.bytes hfits j ((Nat.zero_add size).subst hj)]

theorem writeMemThrough_eq {size : ℕ} (hsize : size ≤ 8)
    (hagrees : Agrees tr va size) (value : BitVec 64) :
    writeMemThrough tr va size value = writeMem va size value := by
  rw [writeMemThrough, writeMem, fitsPage_eq hsize, Program.check_pure,
    pure_bind, pure_bind]
  by_cases hfits : va.toNat % 4096 + size ≤ 4096
  · rw [decide_eq_true hfits, if_pos rfl, if_pos rfl, hagrees.within hfits]
  · have hbytes : ∀ j, 0 ≤ j → j < 0 + size →
        tr (va + BitVec.ofNat 64 j) = translate (va + BitVec.ofNat 64 j) :=
      fun j _ hj => hagrees.bytes hfits j ((Nat.zero_add size).subst hj)
    rw [decide_eq_false hfits, if_neg Bool.false_ne_true,
      if_neg Bool.false_ne_true, translateBytesThrough_eq size 0 hbytes,
      writeBytesThrough_eq size 0 hbytes]

variable {profile : Profile} {c : Cpu} {inst : BitVec 32}

theorem executeLoadThrough_eq
    (hagrees : ∀ form, loadForm (funct3 inst) c.xlen = some form →
      Agrees tr (trunc (c.rr (rs1 inst) + widen (immI inst)) c.xbits) form.1) :
    executeLoadThrough tr inst profile c = executeLoad inst profile c := by
  rw [executeLoadThrough, executeLoad,
    Program.bind_run_ok (Program.read_run _ _ _),
    Program.bind_run_ok (Program.read_run _ _ _), id]
  cases hform : loadForm (funct3 inst) c.xlen with
  | none => rfl
  | some form =>
      dsimp only
      rw [readMemThrough_eq
        (Memory.size_le_of_valid (loadForm_valid hform).1) (hagrees form hform)]

theorem executeStoreThrough_eq
    (hagrees : ∀ size, storeSize (funct3 inst) c.xlen = some size →
      Agrees tr (trunc (c.rr (rs1 inst) + widen (immS inst)) c.xbits) size) :
    executeStoreThrough tr inst profile c = executeStore inst profile c := by
  rw [executeStoreThrough, executeStore,
    Program.bind_run_ok (Program.read_run _ _ _),
    Program.bind_run_ok (Program.read_run _ _ _), id]
  cases hsize : storeSize (funct3 inst) c.xlen with
  | none => rfl
  | some size =>
      dsimp only
      rw [writeMemThrough_eq (Memory.size_le_of_valid (storeSize_valid hsize))
        (hagrees size hsize)]

theorem executeLrThrough_eq {addr : BitVec 64} {width : ℕ}
    (hsize : width / 8 ≤ 8)
    (hagrees : rs2 inst = 0 → Agrees tr addr (width / 8)) :
    executeLrThrough tr inst addr width = executeLr inst addr width := by
  rw [executeLrThrough, executeLr]
  by_cases hrs2 : rs2 inst = 0
  · rw [readMemThrough_eq hsize (hagrees hrs2)]
  · rw [if_pos hrs2, if_pos hrs2]

theorem executeScThrough_eq {addr : BitVec 64} {width : ℕ}
    (hsize : width / 8 ≤ 8)
    (hagrees : c.reservation = some addr → Agrees tr addr (width / 8)) :
    executeScThrough tr inst addr width profile c =
      executeSc inst addr width profile c := by
  rw [executeScThrough, executeSc,
    Program.bind_run_ok (Program.read_run _ _ _),
    Program.bind_run_ok (Program.read_run _ _ _), id]
  by_cases hreserved : c.reservation = some addr
  · rw [writeMemThrough_eq hsize (hagrees hreserved)]
  · have hfails : (c.reservation == some addr) = false :=
      beq_eq_false_iff_ne.mpr hreserved
    simp only [hfails, Bool.false_eq_true, if_false]

theorem executeRmwThrough_eq {addr : BitVec 64} {width : ℕ}
    (hsize : width / 8 ≤ 8) (hagrees : Agrees tr addr (width / 8)) :
    executeRmwThrough tr inst addr width = executeRmw inst addr width := by
  have hwrite : writeMemThrough tr addr (width / 8) =
      writeMem addr (width / 8) := funext (writeMemThrough_eq hsize hagrees)
  rw [executeRmwThrough, readMemThrough_eq hsize hagrees, hwrite]
  rfl

theorem executeAmoThrough_eq
    (hagrees : ∀ width, amoWidth (funct3 inst) c.xlen = some width →
      AtomicAccess c inst width → Agrees tr (c.rr (rs1 inst)) (width / 8)) :
    executeAmoThrough tr inst profile c = executeAmo inst profile c := by
  rw [executeAmoThrough, executeAmo,
    Program.bind_run_ok (Program.read_run _ _ _),
    Program.bind_run_ok (Program.read_run _ _ _), id]
  cases hwidth : amoWidth (funct3 inst) c.xlen with
  | none => rfl
  | some width =>
      have hsize : width / 8 ≤ 8 := by
        rcases amoWidth_cases hwidth with rfl | rfl <;> decide
      dsimp only
      by_cases haligned : (c.rr (rs1 inst)).toNat % (width / 8) = 0
      · rw [if_neg (not_not.mpr haligned), if_neg (not_not.mpr haligned)]
        by_cases hlr : funct7 inst >>> 2 = 0x02
        · rw [if_pos hlr, if_pos hlr, executeLrThrough_eq hsize]
          intro hrs2
          refine hagrees width hwidth ⟨haligned, fun _ => hrs2, fun hsc => ?_⟩
          exact absurd (hlr.symm.trans hsc) (by decide)
        · rw [if_neg hlr, if_neg hlr]
          by_cases hsc : funct7 inst >>> 2 = 0x03
          · rw [if_pos hsc, if_pos hsc, executeScThrough_eq hsize]
            exact fun hreserved => hagrees width hwidth
              ⟨haligned, fun h => absurd h hlr, fun _ => hreserved⟩
          · rw [if_neg hsc, if_neg hsc, executeRmwThrough_eq hsize]
            exact hagrees width hwidth
              ⟨haligned, fun h => absurd h hlr, fun h => absurd h hsc⟩
      · rw [if_pos haligned, if_pos haligned]

theorem executeFpMemThrough_eq
    (hagrees : ∀ size, c.floatSize inst = some size →
      Agrees tr (trunc (c.rr (rs1 inst) +
        widen (if opcode inst = 0x27 then immS inst else immI inst)) c.xbits)
        size) :
    executeFpMemThrough tr inst profile c = executeFpMem inst profile c := by
  rw [executeFpMemThrough, executeFpMem,
    Program.bind_run_ok (Program.read_run _ _ _),
    Program.bind_run_ok (Program.read_run _ _ _), id]
  by_cases henabled : c.fpEnabled = true
  · by_cases hsingle : funct3 inst = 0x2
    · have hsize : c.floatSize inst = some 4 := by
        rw [floatSize, henabled, if_neg (by decide), if_pos hsingle]
      simp only [readMemThrough_eq (by decide) (hagrees 4 hsize),
        writeMemThrough_eq (by decide) (hagrees 4 hsize), if_pos hsingle]
    · by_cases hdouble : funct3 inst = 0x3
      · have hsize : c.floatSize inst = some 8 := by
          rw [floatSize, henabled, if_neg (by decide), if_neg hsingle,
            if_pos hdouble]
        simp only [readMemThrough_eq (by decide) (hagrees 8 hsize),
          writeMemThrough_eq (by decide) (hagrees 8 hsize), if_neg hsingle]
      · simp only [if_neg hsingle, if_neg hdouble]
  · have hdisabled : c.fpEnabled = false := Bool.eq_false_iff.mpr henabled
    simp only [hdisabled, Bool.not_false, if_true]

theorem executeThrough_eq {instPc nextPc : BitVec 64}
    (hagrees : ∀ start size, c.dataAccess inst = some (start, size) →
      Agrees tr start size) :
    executeThrough tr inst instPc nextPc profile c =
      execute inst instPc nextPc profile c := by
  have hplace : setPc nextPc profile c =
      some (.ok (), { c with pc := nextPc }) := rfl
  fun_cases executeThrough tr inst instPc nextPc
  · next hop =>
      rw [dataAccess, hop] at hagrees
      rw [execute, hop, Program.bind_run_ok hplace, Program.bind_run_ok hplace]
      refine executeLoadThrough_eq fun form hform => hagrees _ _ ?_
      exact congrArg (Option.map _) hform
  · next hop =>
      rw [dataAccess, hop] at hagrees
      rw [execute, hop, Program.bind_run_ok hplace, Program.bind_run_ok hplace]
      refine executeStoreThrough_eq fun size hsize => hagrees _ _ ?_
      exact congrArg (Option.map _) hsize
  · next hop =>
      rw [dataAccess, hop] at hagrees
      rw [execute, hop, Program.bind_run_ok hplace, Program.bind_run_ok hplace]
      refine executeAmoThrough_eq fun width hwidth hatomic => hagrees _ _ ?_
      exact (congrArg (Option.bind · _) hwidth).trans (if_pos hatomic)
  · next hop =>
      rw [dataAccess, hop] at hagrees
      rw [execute, hop, Program.bind_run_ok hplace, Program.bind_run_ok hplace]
      have hload : opcode inst ≠ 0x27 := fun h => by
        rw [h] at hop
        cases hop
      refine executeFpMemThrough_eq fun size hsize => ?_
      rw [if_neg hload]
      exact hagrees _ _ (congrArg (Option.map _) hsize)
  · next hop =>
      rw [dataAccess, hop] at hagrees
      rw [execute, hop, Program.bind_run_ok hplace, Program.bind_run_ok hplace]
      have hstore : opcode inst = 0x27 := BitVec.eq_of_toNat_eq hop
      refine executeFpMemThrough_eq fun size hsize => ?_
      rw [if_pos hstore]
      exact hagrees _ _ (congrArg (Option.map _) hsize)
  · rfl

theorem fetchHalfThrough_eq (hsame : tr va = translate va) :
    fetchHalfThrough tr va = fetchHalf va := by
  rw [fetchHalfThrough, fetchHalf, hsame]

/-- The second halfword is fetched on its own only if the first, the last of
its page, says so. -/
theorem fetchThrough_eq
    (hfirst : c.pc &&& 1 = 0 → tr c.pc = translate c.pc)
    (hsecond : c.pc &&& 1 = 0 → ¬ c.pc &&& 0xfff ≤ 0xffc →
      (∃ lo c₁, fetchHalf c.pc profile c = some (.ok lo, c₁) ∧
        lo.setWidth 32 &&& 0x3 = (0x3 : BitVec 32)) →
      tr (c.pc + 2) = translate (c.pc + 2)) :
    fetchThrough tr profile c = fetch profile c := by
  rw [fetchThrough, fetch, Program.bind_run_ok (Program.read_run _ _ _),
    Program.bind_run_ok (Program.read_run _ _ _)]
  by_cases hodd : c.pc &&& 0x1 ≠ 0
  · rw [if_pos hodd, if_pos hodd]
  have heven : c.pc &&& 1 = 0 := not_not.mp hodd
  rw [if_neg hodd, if_neg hodd, hfirst heven,
    fetchHalfThrough_eq (hfirst heven)]
  by_cases hpage : c.pc &&& 0xfff ≤ 0xffc
  · rw [if_pos hpage, if_pos hpage]
  rw [if_neg hpage, if_neg hpage]
  apply Program.bind_congr
  intro lo c₁ hlo
  dsimp only
  by_cases hshort : lo.setWidth 32 &&& 0x3 ≠ (0x3 : BitVec 32)
  · rw [if_pos hshort, if_pos hshort]
  rw [if_neg hshort, if_neg hshort]
  have hnext := hsecond heven hpage ⟨lo, c₁, hlo, not_not.mp hshort⟩
  apply congrFun (congrFun (add_bind_congr ?_) profile) c₁
  rw [fetchHalfThrough_eq hnext]

theorem fetchExecuteThrough_eq (hpending : c.ticked.pendingInterrupt = none)
    (hsame : ∀ va, Names profile c va → tr va = translate va)
    (instPc : BitVec 64) :
    fetchExecuteThrough tr instPc profile c.fetching =
      fetchExecute instPc profile c.fetching := by
  have hpc : c.fetching.pc = c.pc := ticked_pc c
  have hfetch : fetchThrough tr profile c.fetching =
      fetch profile c.fetching := by
    apply fetchThrough_eq
    · rw [hpc]
      exact fun heven => hsame c.pc (.first hpending heven)
    · rw [hpc]
      exact fun heven hlast hlo =>
        hsame (c.pc + 2) (.second ⟨hpending, heven, hlast, hlo⟩)
  rw [fetchExecuteThrough, fetchExecute, Program.bind_run, hfetch,
    Program.bind_run]
  cases hword : fetch profile c.fetching with
  | none => rfl
  | some fetched =>
      obtain ⟨e | ⟨inst, len⟩, c₁⟩ := fetched
      · rfl
      · dsimp only
        rw [Program.bind_run_ok (Program.read_run _ _ _),
          Program.bind_run_ok (Program.read_run _ _ _)]
        exact executeThrough_eq fun start size haccess a ha =>
          hsame a (.data ⟨hpending, hword⟩ haccess ha)

theorem runInstructionThrough_eq (hpending : c.ticked.pendingInterrupt = none)
    (hsame : ∀ va, Names profile c va → tr va = translate va) :
    runInstructionThrough tr profile c.ticked =
      runInstruction profile c.ticked := by
  have hbody : Program.attempt (fetchExecuteThrough tr c.ticked.pc) profile
      c.fetching = (Program.attempt (fetchExecute c.ticked.pc) : Hart _) profile
      c.fetching := by
    rw [Program.attempt, Program.attempt, fetchExecuteThrough_eq hpending hsame]
  rw [runInstructionThrough, runInstruction,
    Program.bind_run_ok (Program.read_run _ _ _),
    Program.bind_run_ok (Program.read_run _ _ _),
    Program.bind_run_ok (Program.update_run _ _ _),
    Program.bind_run_ok (Program.update_run _ _ _),
    show ({ c.ticked with wroteInstret := false } : Cpu) = c.fetching from rfl,
    Program.bind_run, hbody]
  rfl

/-- The step depends on the translation at the addresses it names only. -/
theorem stepThrough_eq
    (hsame : ∀ va, Names profile c va → tr va = translate va) :
    stepThrough tr profile c = step profile c := by
  rw [stepThrough, step, Program.bind_run, Program.bind_run]
  cases hcount : countCycle profile c with
  | none => rfl
  | some counted =>
      obtain ⟨e | _, c₁⟩ := counted
      · rfl
      · obtain rfl := (countCycle_ensures profile c).ok hcount
        dsimp only
        rw [Program.bind_run_ok (Program.update_run _ _ _),
          Program.bind_run_ok (Program.update_run _ _ _),
          Program.bind_run_ok (Program.read_run _ _ _),
          Program.bind_run_ok (Program.read_run _ _ _), id,
          show c.counted.tickTimer = c.ticked from rfl]
        cases hpending : c.ticked.pendingInterrupt with
        | some cause => rfl
        | none => exact runInstructionThrough_eq hpending hsame

end Agreement

theorem stepThrough_translate : stepThrough translate = step := by
  funext profile c
  exact stepThrough_eq fun _ _ => rfl

/-- A step presents no other address than those it names. -/
theorem Presents.names {profile : Profile} {c : Cpu} {va : BitVec 64}
    (h : Presents profile c va) : Names profile c va := by
  by_contra hnamed
  refine h (stepThrough_eq fun a ha => ?_)
  funext access
  exact if_neg fun heq : a = va => hnamed (heq ▸ ha)

end Cpu

end Nanoemu
