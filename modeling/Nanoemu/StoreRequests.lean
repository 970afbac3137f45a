import Nanoemu.FetchFaults
import Nanoemu.TohostWrites

/-!
# The store of an instruction

The stores, the floating-point stores, SC and the read-modify-writes each make
one store, which is fixed once the operands are there.  As far as memory goes,
an instruction makes its store, or only loads and walks.
-/

namespace Nanoemu

open CheckedProgram Mmu

namespace Cpu

/-! ## Stores that are asked for -/

/-- A store, and the hart that sets out to make it. -/
structure StoreRequest where
  hart : Cpu
  va : BitVec 64
  size : ℕ
  value : BitVec 64

/-- The store of a read-modify-write, once the old word is loaded. -/
def rmwRequest (profile : Profile) (inst : BitVec 32) (addr : BitVec 64)
    (width : ℕ) (c : Cpu) : Option StoreRequest :=
  match readMem addr (width / 8) profile c with
  | some (.ok old, y) =>
      match (sext old width >>= fun a =>
          amoOp (funct7 inst >>> 2) a (y.rr (rs2 inst)) width) profile with
      | some (some new) => some ⟨y, addr, width / 8, new⟩
      | _ => none
  | _ => none

/-- The store of an atomic instruction: LR makes none, and SC makes one where
the reservation holds. -/
def atomicRequest (profile : Profile) (inst : BitVec 32) (c : Cpu) :
    Option StoreRequest :=
  match amoWidth (funct3 inst) c.xlen with
  | none => none
  | some width =>
      let addr := c.rr (rs1 inst)
      if addr.toNat % (width / 8) ≠ 0 then none
      else if funct7 inst >>> 2 = 0x02 then none
      else if funct7 inst >>> 2 = 0x03 then
        if c.reservation == some addr then
          some ⟨c, addr, width / 8, c.rr (rs2 inst)⟩
        else none
      else rmwRequest profile inst addr width c

def storeAddr (inst : BitVec 32) (c : Cpu) : BitVec 64 :=
  trunc (c.rr (rs1 inst) + widen (immS inst)) c.xbits

/-- The store that an instruction makes, if it makes one. -/
def storeRequest (profile : Profile) (inst : BitVec 32) (c : Cpu) :
    Option StoreRequest :=
  match (opcode inst).toNat with
  | 0x23 => (storeSize (funct3 inst) c.xlen).map fun size =>
      ⟨c, c.storeAddr inst, size, c.rr (rs2 inst)⟩
  | 0x27 =>
      if !c.fpEnabled then none
      else if funct3 inst = 0x2 then
        some ⟨c, c.storeAddr inst, 4, c.fregs (rs2 inst)⟩
      else if funct3 inst = 0x3 then
        some ⟨c, c.storeAddr inst, 8, c.fregs (rs2 inst)⟩
      else none
  | 0x2f => atomicRequest profile inst c
  | _ => none

/-- What an instruction does to the memory of `x`: it walks and loads, or it
makes its store too. -/
inductive MemoryCourse (profile : Profile) (inst : BitVec 32) (x : Cpu) :
    Except Exception Unit → Memory → Prop where
  | loaded {outcome : Except Exception Unit} {y : Cpu} :
      storeRequest profile inst x = none → walkingFrame.rel x y →
      MemoryCourse profile inst x outcome y.mem
  | stored {s : StoreRequest} {outcome result : Except Exception Unit}
      {y : Cpu} :
      storeRequest profile inst x = some s → walkingFrame.rel x s.hart →
      writeMem s.va s.size s.value profile s.hart = some (result, y) →
      (outcome = .ok () → result = .ok ()) →
      MemoryCourse profile inst x outcome y.mem

/-- Every outcome is that of such a course. -/
abbrev Courses (profile : Profile) (inst : BitVec 32) (x : Cpu)
    (prog : Hart Unit) (c : Cpu) : Prop :=
  prog.Ensures profile c
    (fun _ c' => MemoryCourse profile inst x (.ok ()) c'.mem)
    (fun e c' => MemoryCourse profile inst x (.error e) c'.mem)

def sameFrame : Frame Memory where
  rel mem mem' := mem' = mem
  refl _ := rfl
  trans hfirst hsecond := hsecond.trans hfirst

/-- Leaves memory alone. -/
abbrev SparesMemory {α : Type} (prog : Hart α) : Prop :=
  prog.Keeps (memFrame sameFrame)

theorem wr_spares (r : Fin 32) (v : BitVec 64) : SparesMemory (wr r v) :=
  Program.Keeps.update fun c => setReg_mem c r v

theorem fw_spares (r : Fin 32) (v : BitVec 64) : SparesMemory (fw r v) :=
  Program.Keeps.update fun _ => rfl

section Courses

variable {profile : Profile} {inst : BitVec 32} {x : Cpu}

theorem readMem_courses {va : BitVec 64} {size : ℕ} {rest : BitVec 64 → Hart Unit}
    (hnone : storeRequest profile inst x = none)
    (hrest : ∀ v, SparesMemory (rest v)) :
    Courses profile inst x (readMem va size >>= rest) x := by
  apply Program.Ensures.bind
  have hread := readMem_walking va size profile x
  apply hread.mono
  · intro v y hy
    apply (hrest v profile y).mono
    · intro _ c' hmem
      rw [show c'.mem = y.mem from hmem]
      exact .loaded hnone hy
    · intro _ c' hmem
      rw [show c'.mem = y.mem from hmem]
      exact .loaded hnone hy
  · exact fun _ _ hy => .loaded hnone hy

theorem writeMem_courses {y : Cpu} {va value : BitVec 64} {size : ℕ}
    {rest : Unit → Hart Unit}
    (hsome : storeRequest profile inst x = some ⟨y, va, size, value⟩)
    (hwalked : walkingFrame.rel x y)
    (hrest : ∀ u, SparesMemory (rest u)) :
    Courses profile inst x (writeMem va size value >>= rest) y := by
  intro outcome c' hrun
  rcases Program.bind_cases hrun with ⟨e, hwrite, rfl⟩ | ⟨_, y, hwrite, hafter⟩
  · exact .stored hsome hwalked hwrite fun h => absurd h (by simp)
  · have hmem : c'.mem = y.mem := (hrest ()).of_run hafter
    cases outcome with
    | ok result =>
        change MemoryCourse profile inst x (.ok ()) c'.mem
        rw [hmem]
        exact .stored hsome hwalked hwrite fun _ => rfl
    | error e =>
        change MemoryCourse profile inst x (.error e) c'.mem
        rw [hmem]
        exact .stored hsome hwalked hwrite fun _ => rfl

theorem writeMem_courses_last {y : Cpu} {va value : BitVec 64} {size : ℕ}
    (hsome : storeRequest profile inst x = some ⟨y, va, size, value⟩)
    (hwalked : walkingFrame.rel x y) :
    Courses profile inst x (writeMem va size value) y := by
  rw [← bind_pure (writeMem va size value)]
  exact writeMem_courses hsome hwalked fun u => Program.Keeps.pure u

theorem illegal_courses (hnone : storeRequest profile inst x = none)
    {c : Cpu} (hwalked : walkingFrame.rel x c) :
    Courses profile inst x (illegal inst) c :=
  Program.Ensures.fail (.loaded hnone hwalked)

theorem executeLoad_courses (hnone : storeRequest profile inst x = none) :
    Courses profile inst x (executeLoad inst) x := by
  apply Program.Ensures.bind
  apply Program.Ensures.read
  dsimp only [id]
  cases loadForm (funct3 inst) x.xlen with
  | none => exact illegal_courses hnone (walkingFrame.refl x)
  | some form =>
      apply readMem_courses hnone
      intro v
      exact Program.Keeps.bind (Program.Keeps.check _)
        fun v => wr_spares _ v

theorem executeStore_courses (hop : (opcode inst).toNat = 0x23) :
    Courses profile inst x (executeStore inst) x := by
  apply Program.Ensures.bind
  apply Program.Ensures.read
  dsimp only [id]
  cases hsize : storeSize (funct3 inst) x.xlen with
  | none =>
      have hnone : storeRequest profile inst x = none := by
        simp [storeRequest, hop, hsize]
      exact illegal_courses hnone (walkingFrame.refl x)
  | some size =>
      have hsome : storeRequest profile inst x =
          some ⟨x, x.storeAddr inst, size, x.rr (rs2 inst)⟩ := by
        simp [storeRequest, hop, hsize]
      exact writeMem_courses_last hsome (walkingFrame.refl x)

theorem executeFpMem_courses (hop : (opcode inst).toNat = 0x07 ∨
    (opcode inst).toNat = 0x27) :
    Courses profile inst x (executeFpMem inst) x := by
  apply Program.Ensures.bind
  apply Program.Ensures.read
  dsimp only [id]
  rcases hop with hload | hstore
  · have hnone : storeRequest profile inst x = none := by
      simp [storeRequest, hload]
    have hother : opcode inst ≠ 0x27 := by
      intro h
      rw [h] at hload
      cases hload
    simp only [hother, if_false]
    apply Program.Ensures.ite
    · exact fun _ => illegal_courses hnone (walkingFrame.refl x)
    intro _
    apply Program.Ensures.ite
    · exact fun _ => readMem_courses hnone fun v => fw_spares _ _
    intro _
    apply Program.Ensures.ite
    · exact fun _ => readMem_courses hnone fun v => fw_spares _ _
    · exact fun _ => illegal_courses hnone (walkingFrame.refl x)
  · have hsame : opcode inst = 0x27 := BitVec.eq_of_toNat_eq hstore
    simp only [hsame, if_true]
    apply Program.Ensures.ite
    · intro hoff
      have hnone : storeRequest profile inst x = none := by
        simp [storeRequest, hstore, Bool.not_eq_true' _ ▸ hoff]
      exact illegal_courses hnone (walkingFrame.refl x)
    intro hon
    apply Program.Ensures.ite
    · intro hword
      have hsome : storeRequest profile inst x =
          some ⟨x, x.storeAddr inst, 4, x.fregs (rs2 inst)⟩ := by
        simp only [storeRequest, hstore, if_neg hon, if_pos hword]
      exact writeMem_courses_last hsome (walkingFrame.refl x)
    intro hword
    apply Program.Ensures.ite
    · intro hdouble
      have hsome : storeRequest profile inst x =
          some ⟨x, x.storeAddr inst, 8, x.fregs (rs2 inst)⟩ := by
        simp only [storeRequest, hstore, if_neg hon, if_neg hword,
          if_pos hdouble]
      exact writeMem_courses_last hsome (walkingFrame.refl x)
    · intro hdouble
      have hnone : storeRequest profile inst x = none := by
        simp only [storeRequest, hstore, if_neg hon, if_neg hword,
          if_neg hdouble]
      exact illegal_courses hnone (walkingFrame.refl x)

/-- An atomic instruction that is legal and aligned. -/
structure AtomicAt (inst : BitVec 32) (x : Cpu) (width : ℕ) : Prop where
  atomic : (opcode inst).toNat = 0x2f
  legal : amoWidth (funct3 inst) x.xlen = some width
  aligned : (x.rr (rs1 inst)).toNat % (width / 8) = 0

theorem AtomicAt.request {width : ℕ} (h : AtomicAt inst x width)
    (profile : Profile) :
    storeRequest profile inst x =
      if funct7 inst >>> 2 = 0x02 then none
      else if funct7 inst >>> 2 = 0x03 then
        if x.reservation == some (x.rr (rs1 inst)) then
          some ⟨x, x.rr (rs1 inst), width / 8, x.rr (rs2 inst)⟩
        else none
      else rmwRequest profile inst (x.rr (rs1 inst)) width x := by
  simp only [storeRequest, h.atomic, atomicRequest, h.legal, h.aligned, ne_eq,
    not_true_eq_false, if_false]

theorem executeLr_courses (hnone : storeRequest profile inst x = none)
    (addr : BitVec 64) (width : ℕ) :
    Courses profile inst x (executeLr inst addr width) x := by
  apply Program.Ensures.ite
  · exact fun _ => illegal_courses hnone (walkingFrame.refl x)
  · intro _
    apply readMem_courses hnone
    intro v
    apply Program.Keeps.bind (Program.Keeps.check _)
    intro v
    apply Program.Keeps.bind (Program.Keeps.update fun _ => rfl)
    exact fun _ => wr_spares _ v

theorem executeSc_courses {addr : BitVec 64} {width : ℕ}
    (hrequest : storeRequest profile inst x =
      if x.reservation == some addr then
        some ⟨x, addr, width / 8, x.rr (rs2 inst)⟩
      else none) :
    Courses profile inst x (executeSc inst addr width) x := by
  have hfinish : ∀ v, SparesMemory (do
      setReservation none
      wr (rd inst) v : Hart Unit) := fun v =>
    Program.Keeps.bind (Program.Keeps.update fun _ => rfl)
      fun _ => wr_spares _ v
  apply Program.Ensures.bind
  apply Program.Ensures.read
  dsimp only [id]
  apply Program.Ensures.ite
  · intro hheld
    rw [if_pos hheld] at hrequest
    exact writeMem_courses hrequest (walkingFrame.refl x) fun _ => hfinish _
  · intro hlost
    rw [if_neg hlost] at hrequest
    have hsame : ∀ {outcome : Except Exception Unit} {c' : Cpu}, c'.mem = x.mem →
        MemoryCourse profile inst x outcome c'.mem := by
      intro outcome c' hmem
      rw [hmem]
      exact .loaded hrequest (walkingFrame.refl x)
    apply (hfinish _ profile x).mono
    · exact fun _ _ hmem => hsame hmem
    · exact fun _ _ hmem => hsame hmem

/-- The request of a read-modify-write follows its own first steps. -/
theorem executeRmw_courses {addr : BitVec 64} {width : ℕ}
    (hrequest : storeRequest profile inst x =
      rmwRequest profile inst addr width x) :
    Courses profile inst x (executeRmw inst addr width) x := by
  apply Program.Ensures.bind
  intro outcome y hread
  have hwalked : walkingFrame.rel x y :=
    (readMem_walking addr (width / 8)).of_run hread
  unfold rmwRequest at hrequest
  simp only [hread] at hrequest
  cases outcome with
  | error e => exact .loaded hrequest hwalked
  | ok old =>
      apply Program.Ensures.bind
      apply Program.Ensures.check
      intro a ha
      apply Program.Ensures.bind
      apply Program.Ensures.read
      apply Program.Ensures.bind
      apply Program.Ensures.check
      intro new hnew
      simp only [Checked.bind_of_some ha, id] at hrequest hnew
      cases new with
      | none =>
          simp only [hnew] at hrequest
          exact illegal_courses hrequest hwalked
      | some new =>
          simp only [hnew] at hrequest
          exact writeMem_courses hrequest hwalked fun _ => wr_spares _ a

theorem executeAmo_courses (hop : (opcode inst).toNat = 0x2f) :
    Courses profile inst x (executeAmo inst) x := by
  apply Program.Ensures.bind
  apply Program.Ensures.read
  dsimp only [id]
  cases hwidth : amoWidth (funct3 inst) x.xlen with
  | none =>
      have hnone : storeRequest profile inst x = none := by
        simp [storeRequest, hop, atomicRequest, hwidth]
      exact illegal_courses hnone (walkingFrame.refl x)
  | some width =>
      apply Program.Ensures.ite
      · intro hodd
        have hnone : storeRequest profile inst x = none := by
          simp [storeRequest, hop, atomicRequest, hwidth, hodd]
        exact Program.Ensures.fail (.loaded hnone (walkingFrame.refl x))
      intro haligned
      have hrequest := AtomicAt.request
        ⟨hop, hwidth, not_not.mp haligned⟩ profile
      apply Program.Ensures.ite
      · intro hlr
        rw [if_pos hlr] at hrequest
        exact executeLr_courses hrequest _ width
      intro hlr
      rw [if_neg hlr] at hrequest
      apply Program.Ensures.ite
      · intro hsc
        rw [if_pos hsc] at hrequest
        exact executeSc_courses hrequest
      · intro hsc
        rw [if_neg hsc] at hrequest
        exact executeRmw_courses hrequest

theorem execute_spares (hother : ¬ IsAccess inst) (instPc nextPc : BitVec 64) :
    SparesMemory (execute inst instPc nextPc) := by
  have hallows : Exception.AllowsFaults inst fun _ => True := by
    constructor <;> simp
  have hpriv : RaisesIn sameFrame inst (executePriv inst) := executePriv_raises
  exact (execute_kinds hallows (fun haccess => absurd haccess hother) instPc
    nextPc fun _ _ => hpriv.keeps.raises).keeps

theorem storeRequest_other (hother : ¬ IsAccess inst) :
    storeRequest profile inst x = none := by
  unfold IsAccess at hother
  unfold storeRequest
  split
  · next hop => simp [hop] at hother
  · next hop => simp [hop] at hother
  · next hop => simp [hop] at hother
  · rfl

/-- As far as memory goes, an instruction makes its store, or it only loads
and walks. -/
theorem execute_course {instPc nextPc : BitVec 64} {c c' : Cpu}
    {outcome : Except Exception Unit}
    (hrun : execute inst instPc nextPc profile c = some (outcome, c')) :
    MemoryCourse profile inst { c with pc := nextPc } outcome c'.mem := by
  have hplace : setPc nextPc profile c =
      some (.ok (), { c with pc := nextPc }) := rfl
  by_cases haccess : IsAccess inst
  · have hcourse : ∀ prog : Hart Unit,
        execute inst instPc nextPc profile c =
          prog profile { c with pc := nextPc } →
        Courses profile inst { c with pc := nextPc } prog
          { c with pc := nextPc } →
        MemoryCourse profile inst { c with pc := nextPc } outcome c'.mem := by
      intro prog hsame hcourses
      rw [hsame] at hrun
      cases outcome with
      | ok result => exact hcourses.ok hrun
      | error e => exact hcourses.error hrun
    unfold IsAccess at haccess
    simp only [List.mem_cons, List.not_mem_nil, or_false] at haccess
    rcases haccess with hop | hop | hop | hop | hop
    · apply hcourse (executeLoad inst)
      · rw [execute, Program.bind_run_ok hplace, hop]
        rfl
      · exact executeLoad_courses (by simp [storeRequest, hop])
    · apply hcourse (executeFpMem inst)
      · rw [execute, Program.bind_run_ok hplace, hop]
        rfl
      · exact executeFpMem_courses (Or.inl hop)
    · apply hcourse (executeStore inst)
      · rw [execute, Program.bind_run_ok hplace, hop]
        rfl
      · exact executeStore_courses hop
    · apply hcourse (executeFpMem inst)
      · rw [execute, Program.bind_run_ok hplace, hop]
        rfl
      · exact executeFpMem_courses (Or.inr hop)
    · apply hcourse (executeAmo inst)
      · rw [execute, Program.bind_run_ok hplace, hop]
        rfl
      · exact executeAmo_courses hop
  · have hmem : c'.mem = c.mem :=
      (execute_spares haccess instPc nextPc).of_run hrun
    rw [hmem]
    exact @MemoryCourse.loaded profile inst _ outcome { c with pc := nextPc }
      (storeRequest_other haccess) (walkingFrame.refl _)

end Courses

end Cpu

end Nanoemu
