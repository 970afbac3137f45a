import Nanoemu.StepHistory
import Nanoemu.StoreAtomicity

/-!
# Reservations and what licensed them

The reservation of a hart is explained by its history: it was made by an LR,
and nothing that makes or drops a reservation has retired since.
-/

namespace Nanoemu

open CheckedProgram

namespace Cpu

/-- The step from `c` retires an instruction of the A extension with the given
operation. -/
def RetiresAtomic (profile : Profile) (op : BitVec 32) (c : Cpu) : Prop :=
  ∃ inst, c.retiredInst profile = some inst ∧ IsAtomic op inst

/-- The latest LR or SC of a history is an LR to `addr`, and `earlier` is the
history before it. -/
def Licensed (profile : Profile) (past : List Cpu) (addr : BitVec 64)
    (earlier : List Cpu) : Prop :=
  ∃ later lr inst, past = later ++ lr :: earlier ∧
    lr.retiredInst profile = some inst ∧ IsAtomic 0x02 inst ∧
    lr.rr (rs1 inst) = addr ∧
    ∀ c ∈ later, ¬ RetiresAtomic profile 0x02 c ∧ ¬ RetiresAtomic profile 0x03 c

section Licences

variable {profile : Profile} {past earlier : List Cpu} {addr : BitVec 64}
  {c : Cpu}

theorem Licensed.keep (h : Licensed profile past addr earlier)
    (hload : ¬ RetiresAtomic profile 0x02 c)
    (hstore : ¬ RetiresAtomic profile 0x03 c) :
    Licensed profile (c :: past) addr earlier := by
  obtain ⟨later, lr, inst, rfl, hretired, hop, haddr, hlater⟩ := h
  refine ⟨c :: later, lr, inst, rfl, hretired, hop, haddr, ?_⟩
  intro x hx
  rcases List.mem_cons.mp hx with rfl | hx
  · exact ⟨hload, hstore⟩
  · exact hlater x hx

/-- Every SC of the history retired before the LR that is the licence. -/
theorem Licensed.store_earlier (h : Licensed profile past addr earlier)
    {front before : List Cpu} (hsplit : past = front ++ c :: before)
    (hstore : RetiresAtomic profile 0x03 c) :
    before.length < earlier.length := by
  obtain ⟨later, lr, inst, hpast, hretired, hop, -, hlater⟩ := h
  rw [hpast] at hsplit
  rcases List.append_eq_append_iff.mp hsplit with
    ⟨middle, -, htail⟩ | ⟨middle, hfront, htail⟩
  · cases middle with
    | nil =>
        -- The LR itself is no SC.
        obtain ⟨rfl, -⟩ := List.cons.inj htail
        obtain ⟨inst', hretired', hop'⟩ := hstore
        obtain rfl := Option.some.inj (hretired.symm.trans hretired')
        have hboth := hop.2.symm.trans hop'.2
        exact absurd hboth (by decide)
    | cons x middle =>
        have htail : earlier = middle ++ c :: before := (List.cons.inj htail).2
        rw [htail, List.length_append, List.length_cons]
        omega
  · cases middle with
    | nil =>
        obtain ⟨rfl, -⟩ := List.cons.inj htail
        obtain ⟨inst', hretired', hop'⟩ := hstore
        obtain rfl := Option.some.inj (hretired.symm.trans hretired')
        have hboth := hop.2.symm.trans hop'.2
        exact absurd hboth (by decide)
    | cons x middle =>
        obtain ⟨rfl, -⟩ := List.cons.inj htail
        exact absurd hstore (hlater c (by rw [hfront]; simp)).2

theorem Licensed.length_lt (h : Licensed profile past addr earlier) :
    earlier.length < past.length := by
  obtain ⟨later, lr, inst, rfl, -⟩ := h
  rw [List.length_append, List.length_cons]
  omega

end Licences

variable {profile : Profile} {c c' : Cpu} {outcome : Except Exception Unit}

theorem Effect.reservation {start : Cpu} {inst : BitVec 32}
    {instPc : BitVec 64} (h : Effect start inst instPc c c')
    (hload : ¬ IsAtomic 0x02 inst) (hstore : ¬ IsAtomic 0x03 inst) :
    c'.reservation = c.reservation := by
  cases h with
  | register r v =>
      rw [setReg]
      split <;> rfl
  | jump _ => rfl
  | reserve hop => exact absurd hop hload
  | release hop => exact absurd hop hstore
  | float r v _ => rfl
  | flags raised _ =>
      rw [setFflags]
      split <;> rfl

theorem Command.reservation {start : Cpu} {inst : BitVec 32}
    (h : Command start inst c c') : c'.reservation = c.reservation := by
  cases h with
  | none _ => rfl
  | csr value _ _ => rw [writeCsr_frame]
  | sret _ _ => rfl
  | mret _ _ => rfl
  | fence _ _ => rfl

theorem Executed.reservation {start : Cpu} {inst : BitVec 32}
    {instPc : BitVec 64} (h : Executed start inst instPc c c')
    (hload : ¬ IsAtomic 0x02 inst) (hstore : ¬ IsAtomic 0x03 inst) :
    c'.reservation = c.reservation := by
  have htouch : ∀ {x : Cpu}, Touched c x → x.reservation = c.reservation :=
    fun htouched => (congrArg Cpu.reservation htouched.frame :)
  exact h.induction htouch
    (fun hcommand hsame => hcommand.reservation.trans hsame)
    fun heffect hsame => (heffect.reservation hload hstore).trans hsame

theorem retire_reservation (c : Cpu) : c.retire.reservation = c.reservation := by
  rw [retire]
  split <;> rfl

theorem idle_reservation (hstep : step profile c = some (outcome, c'))
    (hnone : c.retiredInst profile = none) :
    c'.reservation = c.reservation := by
  rcases step_idle hstep hnone with
    ⟨x, cause, tval, isInterrupt, hx, htrap⟩ | ⟨x, hx, hanswer⟩
  · obtain ⟨entered, word, pc, -, -, rfl⟩ :=
      (takeTrap_enters cause tval _ isInterrupt profile x).ok htrap
    exact hx.reservation
  · have hanswered := (answerCall_answers profile x).ok hanswer
    rw [(congrArg Cpu.reservation hanswered.frame :)]
    exact hx.reservation

theorem setReg_reservation (c : Cpu) (r : Fin 32) (v : BitVec 64) :
    (c.setReg r v).reservation = c.reservation := by
  rw [setReg]
  split <;> rfl

theorem execute_lr {inst : BitVec 32} (hop : IsAtomic 0x02 inst)
    {instPc nextPc : BitVec 64}
    (hrun : execute inst instPc nextPc profile c = some (.ok (), c')) :
    c'.reservation = some (c.rr (rs1 inst)) := by
  rw [execute_atomic hop] at hrun
  rcases executeAmo_cases hrun with ⟨-, e, herror⟩ | ⟨width, -, -, hrun⟩
  · cases herror
  rw [atomicOperation, if_pos hop.2, executeLr, Program.ite_run] at hrun
  split at hrun
  · cases hrun
  obtain ⟨v, c₁, -, hrest⟩ := Program.bind_ok hrun
  obtain ⟨v', c₂, -, hrest⟩ := Program.bind_ok hrest
  obtain ⟨_, c₃, hreserve, hwrite⟩ := Program.bind_ok hrest
  cases hreserve
  cases hwrite
  exact setReg_reservation _ _ _

def scProgram (inst : BitVec 32) (addr value : BitVec 64) (width : ℕ)
    (ok : Bool) : Hart Unit := do
  if ok then writeMem addr (width / 8) value else pure ()
  setReservation none
  wr (rd inst) (boolWord !ok)

theorem atomicOperation_sc {inst : BitVec 32} (hop : IsAtomic 0x03 inst)
    (addr : BitVec 64) (width : ℕ) :
    atomicOperation inst addr width profile c =
      scProgram inst addr (c.rr (rs2 inst)) width
        (c.reservation == some addr) profile c := by
  have hlr : funct7 inst >>> 2 ≠ 0x02 := by
    rw [hop.2]
    decide
  rw [atomicOperation, if_neg hlr, if_pos hop.2]
  rfl

/-- The store of an SC, and the state it leaves when it returns zero. -/
def Stores (profile : Profile) (inst : BitVec 32) (c c' : Cpu) : Prop :=
  ∃ width x, amoWidth (funct3 inst) c.xlen = some width ∧
    writeMem (c.rr (rs1 inst)) (width / 8) (c.rr (rs2 inst)) profile c =
      some (.ok (), x) ∧
    c' = ({ x with reservation := none } : Cpu).setReg (rd inst) 0

/-- The state an SC leaves when it returns one. -/
def Declines (inst : BitVec 32) (c c' : Cpu) : Prop :=
  c' = ({ c with reservation := none } : Cpu).setReg (rd inst) 1

/-- An SC that retires stores and returns zero if its address is reserved, and
returns one and does nothing else if it is not. -/
theorem execute_sc {inst : BitVec 32} (hop : IsAtomic 0x03 inst)
    {instPc nextPc : BitVec 64}
    (hrun : execute inst instPc nextPc profile c = some (.ok (), c')) :
    c.reservation = some (c.rr (rs1 inst)) ∧
        Stores profile inst { c with pc := nextPc } c' ∨
      c.reservation ≠ some (c.rr (rs1 inst)) ∧
        Declines inst { c with pc := nextPc } c' := by
  rw [execute_atomic hop] at hrun
  rcases executeAmo_cases hrun with ⟨-, e, herror⟩ | ⟨width, hwidth, -, hrun⟩
  · cases herror
  rw [atomicOperation_sc hop] at hrun
  change scProgram inst (c.rr (rs1 inst)) (c.rr (rs2 inst)) width
    (c.reservation == some (c.rr (rs1 inst))) profile _ = _ at hrun
  by_cases hreserved : c.reservation = some (c.rr (rs1 inst))
  · left
    rw [beq_iff_eq.mpr hreserved, scProgram, if_pos rfl] at hrun
    obtain ⟨_, x, hstore, hrest⟩ := Program.bind_ok hrun
    cases hrest
    exact ⟨hreserved, width, x, hwidth, hstore, rfl⟩
  · right
    rw [beq_eq_false_iff_ne.mpr hreserved, scProgram,
      if_neg Bool.false_ne_true] at hrun
    cases hrun
    exact ⟨hreserved, rfl⟩

theorem writeMem_fits_error {va value : BitVec 64} {size : ℕ}
    (hsize : Memory.validSize size = true)
    (hfits : fitsPage va size profile = some true) {e : Exception}
    (hrun : writeMem va size value profile c = some (.error e, c')) :
    ∃ result x, translate va .store profile c = some (result, x) ∧
      SameMemory x c' := by
  rcases writeMem_error hsize hrun with htranslate | ⟨c₁, c₂, hstops, hsame⟩
  · rw [translateStore, Program.bind_run_ok (Program.check_run_some hfits c),
      if_pos rfl] at htranslate
    rcases Program.bind_cases htranslate with
      ⟨_, hfail, -⟩ | ⟨_, _, _, hpure⟩
    · exact ⟨_, _, hfail, rfl, Memory.SameDevices.refl _⟩
    · cases hpure
  · cases hstops with
    | whole _ htranslate _ => exact ⟨_, _, htranslate, hsame⟩
    | byte hcrosses _ _ _ _ => cases hfits.symm.trans hcrosses

theorem execute_sc_error {inst : BitVec 32} (hop : IsAtomic 0x03 inst)
    {instPc nextPc : BitVec 64} {e : Exception}
    (hrun : execute inst instPc nextPc profile c = some (.error e, c')) :
    c' = { c with pc := nextPc } ∨
      ∃ result x, translate (c.rr (rs1 inst)) .store profile
          { c with pc := nextPc } = some (result, x) ∧ SameMemory x c' := by
  rw [execute_atomic hop] at hrun
  rcases executeAmo_cases hrun with ⟨rfl, -⟩ | ⟨width, hwidth, haligned, hrun⟩
  · exact Or.inl rfl
  rw [atomicOperation_sc hop, scProgram] at hrun
  right
  have hcases := amoWidth_cases hwidth
  have hsize : Memory.validSize (width / 8) = true := by
    rcases hcases with rfl | rfl <;> decide
  rw [Program.ite_run] at hrun
  split at hrun
  · rcases Program.bind_cases hrun with
      ⟨_, hstore, -⟩ | ⟨_, x, -, hrest⟩
    · exact writeMem_fits_error hsize
        (fitsPage_aligned hcases haligned profile) hstore
    · cases hrest
  · cases hrun

/-! ## The history of a reservation -/

theorem step_reservation (hstep : step profile c = some (outcome, c'))
    (hload : ¬ RetiresAtomic profile 0x02 c)
    (hstore : ¬ RetiresAtomic profile 0x03 c) :
    c'.reservation = c.reservation := by
  cases hretired : c.retiredInst profile with
  | none => exact idle_reservation hstep hretired
  | some inst =>
      obtain ⟨len, c₁, c₂, hretires, rfl⟩ := step_retires hstep hretired
      obtain ⟨htouched, -, hexecuted⟩ :=
        retired_executed hretires.fetched hretires.executed
      rw [retire_reservation, hexecuted.reservation
        (fun hop => hload ⟨inst, hretired, hop⟩)
        (fun hop => hstore ⟨inst, hretired, hop⟩)]
      exact htouched.reached.reservation

theorem Retires.reached {inst : BitVec 32} {len : BitVec 64} {c₁ c₂ : Cpu}
    (h : Retires profile c inst len c₁ c₂) : Reached c c₁ :=
  ((fetch_ensures profile c.fetching).ok h.fetched).1.reached

theorem History.licensed {c₀ : Cpu} {past : List Cpu}
    (hnone : c₀.reservation = none) (hrun : History profile c₀ past c)
    {addr : BitVec 64} (haddr : c.reservation = some addr) :
    ∃ earlier, Licensed profile past addr earlier := by
  induction hrun with
  | start => cases hnone.symm.trans haddr
  | @step past x c' outcome _ hstep ih =>
      by_cases hload : RetiresAtomic profile 0x02 x
      · obtain ⟨inst, hretired, hop⟩ := hload
        obtain ⟨len, c₁, c₂, hretires, rfl⟩ := step_retires hstep hretired
        have hreserved := execute_lr hop hretires.executed
        rw [← retire_reservation, hretires.reached.rr] at hreserved
        have hsame := Option.some.inj (hreserved.symm.trans haddr)
        exact ⟨past, [], x, inst, rfl, hretired, hop, hsame, by simp⟩
      by_cases hstore : RetiresAtomic profile 0x03 x
      · obtain ⟨inst, hretired, hop⟩ := hstore
        obtain ⟨len, c₁, c₂, hretires, rfl⟩ := step_retires hstep hretired
        have hreleased : c₂.retire.reservation = none := by
          rw [retire_reservation]
          rcases execute_sc hop hretires.executed with
            ⟨-, _, _, -, -, rfl⟩ | ⟨-, rfl⟩ <;> exact setReg_reservation _ _ _
        cases hreleased.symm.trans haddr
      · rw [step_reservation hstep hload hstore] at haddr
        obtain ⟨earlier, hlicensed⟩ := ih haddr
        exact ⟨earlier, hlicensed.keep hload hstore⟩
  | input bytes _ ih => exact ih haddr

/-- No SC of the history was licensed by the LR that `earlier` comes before. -/
def Unspent (profile : Profile) (past earlier : List Cpu) : Prop :=
  ∀ front x before, past = front ++ x :: before →
    RetiresAtomic profile 0x03 x → ∀ addr earlier',
      Licensed profile before addr earlier' → earlier'.length < earlier.length

/-- What an SC makes of a history: it returns zero, has made its store and
spends the licence of an LR; or it returns one and leaves memory unchanged; or
it raises an exception, having translated its address at most. -/
inductive ScResult (profile : Profile) (past : List Cpu) (inst : BitVec 32)
    (c : Cpu) : Except Exception Unit → Cpu → Prop where
  | zero {earlier : List Cpu} {c' : Cpu} :
      Licensed profile past (c.rr (rs1 inst)) earlier →
      Unspent profile past earlier → Stores profile inst c c' →
      ScResult profile past inst c (.ok ()) c'
  | one {c' : Cpu} : Declines inst c c' → c'.mem = c.mem →
      ScResult profile past inst c (.ok ()) c'
  | rejected {e : Exception} : ScResult profile past inst c (.error e) c
  | translated {e : Exception} {result : Except Exception (BitVec 64)}
      {x c' : Cpu} :
      translate (c.rr (rs1 inst)) .store profile c = some (result, x) →
      SameMemory x c' → ScResult profile past inst c (.error e) c'

/-- In every run, every SC gives one of the results above. -/
theorem conditional_store {c₀ : Cpu} (hstart : Started profile c₀)
    {past : List Cpu} (hrun : History profile c₀ past c) {inst : BitVec 32}
    {len : BitVec 64} {c₁ : Cpu} (hop : IsAtomic 0x03 inst)
    (hfetch : fetch profile c.fetching = some (.ok (inst, len), c₁))
    (hexecute : execute inst c.ticked.pc (c₁.pc + len) profile c₁ =
      some (outcome, c')) :
    ScResult profile past inst { c₁ with pc := c₁.pc + len } outcome c' := by
  cases outcome with
  | error e =>
      rcases execute_sc_error hop hexecute with
        rfl | ⟨result, x, htranslate, hsame⟩
      · exact .rejected
      · exact .translated htranslate hsame
  | ok value =>
      rcases execute_sc hop hexecute with
        ⟨hreserved, hstores⟩ | ⟨-, hdeclines⟩
      · have hreached : Reached c c₁ :=
          ((fetch_ensures profile c.fetching).ok hfetch).1.reached
        have hnone : c₀.reservation = none := by
          rcases hstart with hloaded | ⟨entry, hartid, dtb, hloaded⟩
          · exact hloaded.fresh.reservation
          · exact hloaded.fresh.reservation
        rw [hreached.reservation] at hreserved
        obtain ⟨earlier, hlicensed⟩ := hrun.licensed hnone hreserved
        refine .zero hlicensed ?_ hstores
        intro front x before hsplit hstore addr earlier' hlicensed'
        exact hlicensed'.length_lt.trans
          (hlicensed.store_earlier hsplit hstore)
      · refine .one hdeclines ?_
        rw [hdeclines, setReg]
        split <;> rfl

/-- A program that reserves its own first word and stores it back:
`auipc x5, 0`, `lr.w x6, (x5)`, `sc.w x7, x6, (x5)`. -/
def reservingHart : Cpu :=
  programmedHart .rv64 [0x00000297, 0x1002a32f, 0x1862a3af]

theorem conditional_store_after_load :
    ∃ len c₁ c₂, Retires .debug (stepped .debug (stepped .debug reservingHart))
        0x1862a3af len c₁ c₂ ∧
      ScResult .debug [stepped .debug reservingHart, reservingHart] 0x1862a3af
        { c₁ with pc := c₁.pc + len } (.ok ()) c₂ := by
  have hstart : Started .debug reservingHart :=
    Or.inl (programmedHart_loaded .debug .rv64 (by decide))
  have hfirst : step .debug reservingHart =
      some (.ok (), stepped .debug reservingHart) :=
    step_eq_stepped (by decide +kernel)
  have hsecond : step .debug (stepped .debug reservingHart) =
      some (.ok (), stepped .debug (stepped .debug reservingHart)) :=
    step_eq_stepped (by decide +kernel)
  have hthird : step .debug (stepped .debug (stepped .debug reservingHart)) =
      some (.ok (),
        stepped .debug (stepped .debug (stepped .debug reservingHart))) :=
    step_eq_stepped (by decide +kernel)
  obtain ⟨len, c₁, c₂, hretires, -⟩ := step_retires hthird
    (by decide +kernel :
      retiredInst .debug (stepped .debug (stepped .debug reservingHart)) =
        some 0x1862a3af)
  exact ⟨len, c₁, c₂, hretires, conditional_store hstart
    ((History.start.step hfirst).step hsecond) ⟨by decide, by decide⟩
    hretires.fetched hretires.executed⟩

end Cpu

end Nanoemu
