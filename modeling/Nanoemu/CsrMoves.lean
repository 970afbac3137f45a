import Nanoemu.RetiredCounter

/-!
# What a step does to the CSRs

The hart keeps its own account in some registers, rewrites `mstatus` when it
traps, returns or touches the floating-point state, and writes what a CSR
instruction has computed.  A step is a sequence of such moves, so what each
move keeps, every run keeps.
-/

namespace Nanoemu

open CheckedProgram

namespace Cpu

/-- The registers in which the hart keeps its own account: the counters, the
pending bits, the accrued flags and the registers of a trap. -/
def ownCsrs : List (BitVec 12) :=
  tickedCsrs ++ [Csr.MINSTRET, Csr.FCSR, Csr.SEPC, Csr.SCAUSE, Csr.STVAL,
    Csr.MEPC, Csr.MCAUSE, Csr.MTVAL]

/-- One move of the CSRs; `written` says what an instruction may write. -/
inductive CsrMove (written : BitVec 12 → BitVec 64 → Prop) (f : CsrFile) :
    CsrFile → Prop where
  | own {addr : BitVec 12} (value : BitVec 64) : addr ∈ ownCsrs →
      CsrMove written f (f.force addr value)
  | trap (entered mode : Priv) :
      CsrMove written f
        (f.force Csr.MSTATUS (trapStatus entered (f.read Csr.MSTATUS) mode))
  | ret (fromMachine : Bool) :
      CsrMove written f
        (f.force Csr.MSTATUS
          (statusAfterReturn (f.read Csr.MSTATUS) fromMachine))
  | dirty :
      CsrMove written f
        (f.force Csr.MSTATUS
          ((f.read Csr.MSTATUS &&& ~~~Mstatus.FS) ||| Mstatus.FS))
  | write {addr : BitVec 12} {value : BitVec 64} : written addr value →
      CsrMove written f (f.write addr value)

abbrev CsrMoves (written : BitVec 12 → BitVec 64 → Prop) :
    CsrFile → CsrFile → Prop :=
  Relation.ReflTransGen (CsrMove written)

theorem CsrMoves.invariant {written : BitVec 12 → BitVec 64 → Prop}
    {P : CsrFile → Prop} {f f' : CsrFile} (hmoves : CsrMoves written f f')
    (hmove : ∀ {g g' : CsrFile}, P g → CsrMove written g g' → P g')
    (h : P f) : P f' := by
  induction hmoves with
  | refl => exact h
  | tail _ hlast ih => exact hmove ih hlast

/-- The step from `c` retires a CSR instruction that writes `value`. -/
def WritesNow (profile : Profile) (c : Cpu) (addr : BitVec 12)
    (value : BitVec 64) : Prop :=
  ∃ inst, c.retiredInst profile = some inst ∧ WritesCsr inst ∧
    csr inst = addr ∧ c.ticked.csrWritten inst = value

variable {profile : Profile} {c c' : Cpu} {outcome : Except Exception Unit}
  {written : BitVec 12 → BitVec 64 → Prop}

theorem own_moves {f f' : CsrFile} (hxlen : f'.xlen = f.xlen)
    {addrs : List (BitVec 12)} (howned : addrs ⊆ ownCsrs)
    (hother : ∀ addr ∉ addrs, f'.regs addr = f.regs addr) :
    CsrMoves written f f' := by
  induction addrs generalizing f with
  | nil =>
      have hregs : f'.regs = f.regs :=
        funext fun addr => hother addr List.not_mem_nil
      have hsame : f' = f := by
        cases f
        cases f'
        cases hregs
        cases hxlen
        rfl
      rw [hsame]
  | cons addr rest ih =>
      rw [List.cons_subset] at howned
      apply Relation.ReflTransGen.head (.own (f'.regs addr) howned.1)
      refine ih (f := f.force addr (f'.regs addr)) hxlen howned.2 ?_
      intro other hrest
      by_cases hsame : other = addr
      · rw [hsame, CsrFile.force_regs_same]
      · rw [CsrFile.force_regs_other _ _ hsame]
        exact hother other
          (List.not_mem_cons_of_ne_of_not_mem hsame hrest)

theorem Ticked.moves (h : Ticked c c') : CsrMoves written c.csrs c'.csrs :=
  own_moves h.xlen (List.subset_append_left _ _) h.csrs

theorem Answered.moves (h : Answered c c') :
    CsrMoves written c.csrs c'.csrs := by
  have howned : [Csr.MIP] ⊆ ownCsrs := by decide
  apply own_moves h.xlen howned
  intro addr haddr
  exact h.csrs addr (List.ne_of_not_mem_cons haddr)

theorem trapCsrs_moves (c : Cpu) (entered : Priv)
    (word tval epc : BitVec 64) :
    CsrMoves written c.csrs (c.trapCsrs entered word tval epc) := by
  have hforced : CsrMoves written c.csrs
      (((c.csrs.force (trapEpc entered) epc).force (trapCause entered)
        word).force (trapTval entered) tval) := by
    refine .tail (.tail (.single (.own epc ?_)) (.own word ?_)) (.own tval ?_)
      <;> cases entered <;> decide
  have hread : (((c.csrs.force (trapEpc entered) epc).force (trapCause entered)
      word).force (trapTval entered) tval).read Csr.MSTATUS =
        c.csrs.read Csr.MSTATUS := by
    refine CsrFile.read_congr (Eq.refl c.csrs.xlen) ?_
    rw [CsrFile.force_regs_other _ _ (by cases entered <;> decide),
      CsrFile.force_regs_other _ _ (by cases entered <;> decide),
      CsrFile.force_regs_other _ _ (by cases entered <;> decide)]
  unfold trapCsrs
  rw [← hread]
  exact hforced.tail (.trap entered c.privMode)

theorem takeTrap_moves {cause : ℕ} {tval epc : BitVec 64} {isInterrupt : Bool}
    (htrap : takeTrap cause tval epc isInterrupt profile c =
      some (.ok (), c')) : CsrMoves written c.csrs c'.csrs := by
  obtain ⟨entered, word, pc, -, -, rfl⟩ :=
    (takeTrap_enters cause tval epc isInterrupt profile c).ok htrap
  exact trapCsrs_moves c entered word tval epc

theorem writeCsr_moves (c : Cpu) {addr : BitVec 12} {value : BitVec 64}
    (hwritten : written addr (trunc value c.xbits)) :
    CsrMoves written c.csrs (c.writeCsr addr value).csrs := by
  have hwrite : CsrMoves written c.csrs
      (c.csrs.write addr (trunc value c.xbits)) := .single (.write hwritten)
  unfold writeCsr
  dsimp only
  split
  · split
    · exact hwrite.tail .dirty
    · exact hwrite.tail .dirty
  · split
    · exact hwrite
    · exact hwrite

theorem setReg_csrs (c : Cpu) (r : Fin 32) (v : BitVec 64) :
    (c.setReg r v).csrs = c.csrs := by
  unfold setReg
  split <;> rfl

theorem setFflags_moves (c : Cpu) (raised : ℕ) :
    CsrMoves written c.csrs (c.setFflags raised).csrs := by
  unfold setFflags
  dsimp only
  split
  · exact .tail (.single (.own _ (by decide))) .dirty
  · exact .single .dirty

theorem Effect.moves {start : Cpu} {inst : BitVec 32} {instPc : BitVec 64}
    (h : Effect start inst instPc c c') : CsrMoves written c.csrs c'.csrs := by
  cases h with
  | register r v => rw [setReg_csrs]
  | jump _ => exact .refl
  | reserve _ => exact .refl
  | release _ => exact .refl
  | float r v _ => exact .single .dirty
  | flags raised _ => exact setFflags_moves c raised

theorem Command.moves {start : Cpu} {inst : BitVec 32}
    (hplain : ¬ WritesCsr inst) (h : Command start inst c c') :
    CsrMoves written c.csrs c'.csrs := by
  cases h with
  | none _ => exact .refl
  | csr value hwrites _ => exact absurd hwrites hplain
  | sret _ _ => exact .single (.ret false)
  | mret _ _ => exact .single (.ret true)
  | fence _ _ => exact .refl

theorem Executed.moves {start : Cpu} {inst : BitVec 32} {instPc : BitVec 64}
    (hplain : ¬ WritesCsr inst) (h : Executed start inst instPc c c') :
    CsrMoves written c.csrs c'.csrs := by
  have htouch : ∀ {x : Cpu}, Touched c x → x.csrs = c.csrs :=
    fun htouched => (congrArg Cpu.csrs htouched.frame :)
  have hcommand : ∀ {x y : Cpu}, Command start inst x y → x.csrs = c.csrs →
      CsrMoves written c.csrs y.csrs := by
    intro x y hcommanded hsame
    rw [← hsame]
    exact hcommanded.moves hplain
  exact h.induction htouch hcommand
    fun heffect hmoves => hmoves.trans heffect.moves

theorem retire_moves (c : Cpu) : CsrMoves written c.csrs c.retire.csrs := by
  unfold retire
  split
  · exact .refl
  · exact .single (.own _ (by decide))

/-! ## The step -/

/-- What an instruction writes is settled when the step sets out to fetch. -/
theorem Reached.csrWritten {x : Cpu} (h : Reached c x) {inst : BitVec 32}
    {value : BitVec 64}
    (hvalue : csrNew (funct3 inst) (x.csrs.read (csr inst))
      (x.csrSource inst) = some value) :
    c.ticked.csrWritten inst = trunc value x.xbits := by
  have hsource : x.csrSource inst = c.ticked.csrSource inst := by
    simp only [csrSource, h.rr, (Reached.refl c).rr]
  have hxlen : x.xlen = c.ticked.xlen := (congrArg Cpu.xlen h.frame :)
  rw [h.csrs, hsource] at hvalue
  unfold Cpu.csrWritten xbits
  rw [hvalue, hxlen]
  rfl

/-- A step moves the CSRs, and writes what the instruction it retires
computes. -/
theorem step_moves (hstep : step profile c = some (outcome, c')) :
    CsrMoves (WritesNow profile c) c.csrs c'.csrs := by
  have hticked : CsrMoves (WritesNow profile c) c.csrs c.ticked.csrs :=
    (ticked_ticked c).moves
  have hreached : ∀ {x : Cpu}, Reached c x →
      CsrMoves (WritesNow profile c) c.csrs x.csrs := by
    intro x hx
    rw [hx.csrs]
    exact hticked
  cases step_course hstep with
  | interrupt _ htrap => exact hticked.trans (takeTrap_moves htrap)
  | @retired inst len c₁ c₂ hpending hfetch hexecute =>
      have hretires := Retires.mk hpending hfetch hexecute
      obtain ⟨htouched, -, hexecuted⟩ := retired_executed hfetch hexecute
      have hx := htouched.reached
      refine ((hreached hx).trans ?_).trans (retire_moves c₂)
      by_cases hwrites : WritesCsr inst
      · obtain ⟨value, hvalue, -, hafter⟩ := execute_csr hwrites hexecute
        have hnow : WritesNow profile c (csr inst) (trunc value c₁.xbits) :=
          ⟨inst, hretires.retiredInst, hwrites, rfl, hx.csrWritten hvalue⟩
        rw [hafter, setReg_csrs]
        exact writeCsr_moves { c₁ with pc := c₁.pc + len } hnow
      · have hplain : CsrMoves (WritesNow profile c)
            ({ c₁ with pc := c₁.pc + len } : Cpu).csrs c₂.csrs :=
          hexecuted.moves hwrites
        exact hplain
  | answered _ hfail _ hanswer =>
      exact (hreached (fetchExecute_reached hfail)).trans
        ((answerCall_answers profile _).ok hanswer).moves
  | exception _ hfail _ htrap =>
      exact (hreached (fetchExecute_reached hfail)).trans (takeTrap_moves htrap)

end Cpu

end Nanoemu
