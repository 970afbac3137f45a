import Nanoemu.StepHistory

/-!
# The counter of retired instructions

The counter is 64 bits wide at either width, and RV32 reads and writes it in
halves.  A run is tallied from its history, and the counter is compared with
the tally.
-/

namespace Nanoemu

open CheckedProgram BitFields

namespace Cpu

def retiredCount (c : Cpu) : BitVec 64 :=
  if c.csrs.xlen = .rv32 then
    (c.csrs.read Csr.MINSTRETH <<< 32) ||| c.csrs.read Csr.MINSTRET
  else c.csrs.read Csr.MINSTRET

instance (inst : BitVec 32) : Decidable (WritesCsr inst) :=
  inferInstanceAs (Decidable (_ ∧ _ ∧ _))

/-- The instruction writes the counter, whole or in half. -/
def WritesCounter (inst : BitVec 32) : Prop :=
  WritesCsr inst ∧ isInstretCsr (csr inst) = true

instance (inst : BitVec 32) : Decidable (WritesCounter inst) :=
  inferInstanceAs (Decidable (_ ∧ _))

def csrSource (c : Cpu) (inst : BitVec 32) : BitVec 64 :=
  if funct3 inst &&& 0x4 ≠ 0 then BitVec.ofNat 64 (rs1 inst).val
  else c.rr (rs1 inst)

def csrWritten (c : Cpu) (inst : BitVec 32) : BitVec 64 :=
  trunc ((csrNew (funct3 inst) (c.csrs.read (csr inst))
    (c.csrSource inst)).getD 0) c.xbits

/-- A counter that stood at `count` before an instruction retires from `c`. -/
def countAfter (c : Cpu) (inst : BitVec 32) (count : BitVec 64) : BitVec 64 :=
  if WritesCounter inst then
    if c.xlen = .rv64 then c.csrWritten inst
    else if csr inst = Csr.MINSTRETH then
      (c.csrWritten inst <<< 32) ||| (count &&& 0xffffffff)
    else (count &&& ~~~0xffffffff) ||| c.csrWritten inst
  else count + 1

/-- One step of the tally: what retires is counted, and nothing else. -/
def tallyStep (profile : Profile) (c : Cpu) (count : BitVec 64) : BitVec 64 :=
  match c.retiredInst profile with
  | some inst => c.countAfter inst count
  | none => count

/-- The tally of a history, from the count it started with. -/
def tally (profile : Profile) (past : List Cpu) (count : BitVec 64) :
    BitVec 64 :=
  past.foldr (tallyStep profile) count

/-- The step does not carry through an RV32 counter whose high half is in
use. -/
def CarrySafe (profile : Profile) (c : Cpu) : Prop :=
  c.xlen = .rv64 ∨ c.retiredCount.toNat < 2 ^ 32 ∨
    ∀ inst, c.retiredInst profile = some inst →
      WritesCounter inst ∧ csr inst = Csr.MINSTRETH

theorem halves_join (word : BitVec 64) :
    (((word >>> 32) &&& 0xffffffff) <<< 32) ||| (word &&& 0xffffffff) =
      word := by
  apply BitVec.eq_of_getLsbD_eq
  intro i hi
  have hmask : ∀ j < 64, (0xffffffff : BitVec 64).getLsbD j = decide (j < 32) := by
    decide
  rw [BitVec.getLsbD_or, BitVec.getLsbD_shiftLeft, BitVec.getLsbD_and,
    BitVec.getLsbD_and, BitVec.getLsbD_ushiftRight, hmask i hi,
    hmask (i - 32) (by omega), decide_eq_true hi]
  by_cases hlow : i < 32
  · simp [hlow]
  · have hhigh : i - 32 < 32 := by omega
    have hback : 32 + (i - 32) = i := by omega
    simp [hlow, hhigh, hback]

theorem retiredCount_eq (c : Cpu) :
    c.retiredCount = c.csrs.regs Csr.MINSTRET := by
  have hlow : c.csrs.read Csr.MINSTRET =
      if c.csrs.xlen = .rv32 then c.csrs.regs Csr.MINSTRET &&& 0xffffffff
      else c.csrs.regs Csr.MINSTRET := rfl
  have hhigh : c.csrs.read Csr.MINSTRETH =
      if c.csrs.xlen = .rv32 then
        c.csrs.regs Csr.MINSTRET >>> 32 &&& 0xffffffff
      else c.csrs.regs Csr.MINSTRET >>> 32 := rfl
  rw [retiredCount]
  split
  · next hnarrow =>
      rw [hlow, hhigh, if_pos hnarrow, if_pos hnarrow]
      exact halves_join _
  · next hwide => rw [hlow, if_neg hwide]

theorem read_instret (f : CsrFile) :
    f.read Csr.INSTRET = f.read Csr.MINSTRET ∧
      f.read Csr.INSTRETH = f.read Csr.MINSTRETH :=
  ⟨rfl, rfl⟩

variable {profile : Profile} {c c' : Cpu} {outcome : Except Exception Unit}

theorem Reached.counter {x : Cpu} (h : Reached c x) :
    x.csrs.regs Csr.MINSTRET = c.csrs.regs Csr.MINSTRET := by
  rw [h.csrs]
  exact (ticked_ticked c).csrs _ (by decide)

theorem writeCsr_counter {addr : BitVec 12} (haddr : isInstretCsr addr = false)
    (c : Cpu) (value : BitVec 64) :
    (c.writeCsr addr value).csrs.regs Csr.MINSTRET =
        c.csrs.regs Csr.MINSTRET ∧
      (c.writeCsr addr value).wroteInstret = c.wroteInstret := by
  have hother : Csr.MINSTRET ≠ CsrFile.writeTarget addr := by
    intro htarget
    have hcounter := CsrFile.writeTarget_forall Csr.MINSTRET isInstretCsr
      (by decide) htarget.symm
    rw [haddr] at hcounter
    cases hcounter
  constructor
  · rw [writeCsr_regs c addr value (by decide)]
    exact c.csrs.write_regs_other _ hother
  · rw [writeCsr, haddr]
    dsimp only
    split <;> rfl

theorem Effect.counter {start : Cpu} {inst : BitVec 32} {instPc : BitVec 64}
    (h : Effect start inst instPc c c') :
    c'.csrs.regs Csr.MINSTRET = c.csrs.regs Csr.MINSTRET ∧
      c'.wroteInstret = c.wroteInstret := by
  cases h with
  | register r v =>
      rw [setReg]
      split <;> exact ⟨rfl, rfl⟩
  | jump _ => exact ⟨rfl, rfl⟩
  | reserve _ => exact ⟨rfl, rfl⟩
  | release _ => exact ⟨rfl, rfl⟩
  | float r v _ =>
      exact ⟨(dirtyFp_touched _).others _ (by decide) (by decide), rfl⟩
  | flags raised _ =>
      refine ⟨(setFflags_touched c raised).others _ (by decide) (by decide), ?_⟩
      rw [setFflags]
      split <;> rfl

theorem Executed.counter {start : Cpu} {inst : BitVec 32} {instPc : BitVec 64}
    (h : Executed start inst instPc c c') (hplain : ¬ WritesCounter inst) :
    c'.csrs.regs Csr.MINSTRET = c.csrs.regs Csr.MINSTRET ∧
      c'.wroteInstret = c.wroteInstret := by
  have htouch : ∀ {x : Cpu}, Touched c x →
      x.csrs.regs Csr.MINSTRET = c.csrs.regs Csr.MINSTRET ∧
        x.wroteInstret = c.wroteInstret := by
    intro x htouched
    rw [(congrArg Cpu.csrs htouched.frame :)]
    exact ⟨rfl, (congrArg Cpu.wroteInstret htouched.frame :)⟩
  have hcommand : ∀ {x y : Cpu}, Command start inst x y →
      y.csrs.regs Csr.MINSTRET = x.csrs.regs Csr.MINSTRET ∧
        y.wroteInstret = x.wroteInstret := by
    intro x y hcommand
    cases hcommand with
    | none _ => exact ⟨rfl, rfl⟩
    | csr value hwrites _ =>
        refine writeCsr_counter ?_ x value
        exact Bool.eq_false_iff.mpr fun hcounter => hplain ⟨hwrites, hcounter⟩
    | sret _ _ => exact ⟨CsrFile.force_regs_other _ _ (by decide), rfl⟩
    | mret _ _ => exact ⟨CsrFile.force_regs_other _ _ (by decide), rfl⟩
    | fence _ _ => exact ⟨rfl, rfl⟩
  exact h.induction
    (motive := fun x =>
      x.csrs.regs Csr.MINSTRET = c.csrs.regs Csr.MINSTRET ∧
        x.wroteInstret = c.wroteInstret)
    htouch
    (fun h hsame =>
      ⟨(hcommand h).1.trans hsame.1, (hcommand h).2.trans hsame.2⟩)
    fun heffect hsame =>
      ⟨heffect.counter.1.trans hsame.1, heffect.counter.2.trans hsame.2⟩

/-- What a CSR instruction does with the value it has computed. -/
def putCsr (inst : BitVec 32) (old : BitVec 64) (writes : Bool) :
    Option (BitVec 64) → Hart Unit
  | none => illegal inst
  | some value => do
      if writes then
        Program.update fun c => c.writeCsr (Nanoemu.csr inst) value
      else pure ()
      wr (rd inst) old

/-- A CSR instruction is refused, for its privilege or its form, or it writes
the value it has computed, if it writes at all, and then rd. -/
theorem execute_csr_cases {inst : BitVec 32}
    (hop : (opcode inst).toNat = 0x73) (hf3 : funct3 inst ≠ 0)
    {instPc nextPc : BitVec 64}
    (hrun : execute inst instPc nextPc profile c = some (outcome, c')) :
    ((∃ e, outcome = .error e) ∧ c' = { c with pc := nextPc } ∧
      (c.csrPermitted (Nanoemu.csr inst)
          (funct3 inst &&& 0x3 == 0x1 || rs1 inst != 0) = false ∨
        csrNew (funct3 inst) (c.csrs.read (Nanoemu.csr inst))
          (c.csrSource inst) = none)) ∨
    ∃ value, outcome = .ok () ∧
      csrNew (funct3 inst) (c.csrs.read (Nanoemu.csr inst))
        (c.csrSource inst) = some value ∧
      c.csrPermitted (Nanoemu.csr inst)
        (funct3 inst &&& 0x3 == 0x1 || rs1 inst != 0) = true ∧
      c' = (if funct3 inst &&& 0x3 == 0x1 || rs1 inst != 0 then
          ({ c with pc := nextPc } : Cpu).writeCsr (Nanoemu.csr inst) value
        else { c with pc := nextPc }).setReg (rd inst)
          (c.csrs.read (Nanoemu.csr inst)) := by
  have hplace : setPc nextPc profile c =
      some (.ok (), { c with pc := nextPc }) := rfl
  rw [execute, Program.bind_run_ok hplace, hop] at hrun
  change (if funct3 inst = 0 then executePriv inst else executeCsr inst)
    profile _ = _ at hrun
  rw [if_neg hf3] at hrun
  change (if (!c.csrPermitted (Nanoemu.csr inst)
      (funct3 inst &&& 0x3 == 0x1 || rs1 inst != 0)) = true then illegal inst
    else putCsr inst (c.csrs.read (Nanoemu.csr inst))
      (funct3 inst &&& 0x3 == 0x1 || rs1 inst != 0)
      (csrNew (funct3 inst) (c.csrs.read (Nanoemu.csr inst))
        (c.csrSource inst))) profile _ = _ at hrun
  rw [Program.ite_run] at hrun
  split at hrun
  · next hrefused =>
      cases hrun
      exact Or.inl ⟨⟨_, rfl⟩, rfl, Or.inl (by simpa using hrefused)⟩
  next hpermitted =>
    cases hvalue : csrNew (funct3 inst) (c.csrs.read (Nanoemu.csr inst))
        (c.csrSource inst) with
    | none =>
        rw [hvalue] at hrun
        cases hrun
        exact Or.inl ⟨⟨_, rfl⟩, rfl, Or.inr rfl⟩
    | some value =>
        rw [hvalue] at hrun
        refine Or.inr ⟨value, ?_, rfl, by simpa using hpermitted, ?_⟩
        all_goals
          cases hwrites : (funct3 inst &&& 0x3 == 0x1 || rs1 inst != 0) with
          | false =>
              rw [hwrites] at hrun
              cases hrun
              rfl
          | true =>
              rw [hwrites] at hrun
              cases hrun
              rfl

theorem execute_csr {inst : BitVec 32} (hwrites : WritesCsr inst)
    {instPc nextPc : BitVec 64}
    (hrun : execute inst instPc nextPc profile c = some (.ok (), c')) :
    ∃ value, csrNew (funct3 inst) (c.csrs.read (Nanoemu.csr inst))
        (c.csrSource inst) = some value ∧
      c.csrPermitted (Nanoemu.csr inst) true = true ∧
      c' = (({ c with pc := nextPc } : Cpu).writeCsr (Nanoemu.csr inst)
        value).setReg (rd inst) (c.csrs.read (Nanoemu.csr inst)) := by
  obtain ⟨hop, hf3, hwrites⟩ := hwrites
  rcases execute_csr_cases hop hf3 hrun with
    ⟨⟨e, hfail⟩, -⟩ | ⟨value, -, hvalue, hpermitted, hafter⟩
  · cases hfail
  · rw [hwrites] at hpermitted hafter
    exact ⟨value, hvalue, hpermitted, hafter⟩

theorem counter_permitted {addr : BitVec 12}
    (hpermitted : c.csrPermitted addr true = true)
    (hcounter : isInstretCsr addr = true) :
    addr = Csr.MINSTRET ∨ addr = Csr.MINSTRETH ∧ c.csrs.xlen = .rv32 := by
  simp only [csrPermitted, Bool.and_eq_true] at hpermitted
  obtain ⟨⟨⟨⟨hexists, haccessible⟩, -⟩, -⟩, -⟩ := hpermitted
  simp only [isInstretCsr, Bool.or_eq_true, beq_iff_eq] at hcounter
  rcases hcounter with (rfl | rfl) | rfl
  · exact Or.inl rfl
  · right
    refine ⟨rfl, ?_⟩
    have habsent : (CsrFile.common.contains Csr.MINSTRETH ||
        CsrFile.isPmp Csr.MINSTRETH) = false := by decide
    rw [CsrFile.existsCsr, habsent, Bool.false_or, Bool.and_eq_true,
      beq_iff_eq] at hexists
    exact hexists.1
  · have hreadOnly : CsrFile.accessible Csr.INSTRET c.privMode true = false := by
      cases c.privMode <;> decide
    cases hreadOnly.symm.trans haccessible

def counterStored (addr : BitVec 12) (value count : BitVec 64) : BitVec 64 :=
  if addr = Csr.MINSTRETH then (value <<< 32) ||| (count &&& 0xffffffff)
  else value

theorem write_counter {addr : BitVec 12}
    (haddr : addr = Csr.MINSTRET ∨ addr = Csr.MINSTRETH) (f : CsrFile)
    (value : BitVec 64) :
    (f.write addr value).regs Csr.MINSTRET =
      counterStored addr value (f.regs Csr.MINSTRET) := by
  rcases haddr with rfl | rfl <;> exact CsrFile.force_regs_same _ _ _

theorem trunc_within (v : BitVec 64) :
    Within (trunc v Xlen.rv32.bits) 0xffffffff := by
  have hwhole : (0xffffffff : BitVec 64) &&& 0xffffffff = 0xffffffff := by
    decide
  change v &&& 0xffffffff &&& 0xffffffff = v &&& 0xffffffff
  rw [BitVec.and_assoc, hwhole]

theorem idle_counter (hstep : step profile c = some (outcome, c'))
    (hnone : c.retiredInst profile = none) :
    c'.csrs.regs Csr.MINSTRET = c.csrs.regs Csr.MINSTRET := by
  rcases step_idle hstep hnone with
    ⟨x, cause, tval, isInterrupt, hx, htrap⟩ | ⟨x, hx, hanswer⟩
  · obtain ⟨entered, word, pc, -, -, rfl⟩ :=
      (takeTrap_enters cause tval _ isInterrupt profile x).ok htrap
    have hother : Csr.MINSTRET ∉ writtenBy entered := by
      cases entered <;> decide
    exact (trapCsrs_regs_other hother word tval _).trans hx.counter
  · have hanswered := (answerCall_answers profile x).ok hanswer
    exact (hanswered.csrs _ (by decide)).trans hx.counter

theorem plain_counter {inst : BitVec 32} {len : BitVec 64} {c₁ c₂ : Cpu}
    (hretires : Retires profile c inst len c₁ c₂)
    (hplain : ¬ WritesCounter inst) :
    c₂.retire.csrs.regs Csr.MINSTRET = c.csrs.read Csr.MINSTRET + 1 := by
  obtain ⟨htouched, -, hexecuted⟩ :=
    retired_executed hretires.fetched hretires.executed
  obtain ⟨hcounter, hmark⟩ := hexecuted.counter hplain
  have hmark : c₂.wroteInstret = false :=
    hmark.trans (congrArg Cpu.wroteInstret htouched.frame :)
  have hcounter : c₂.csrs.regs Csr.MINSTRET = c.csrs.regs Csr.MINSTRET :=
    hcounter.trans htouched.reached.counter
  have hwidth : c₂.csrs.xlen = c.csrs.xlen :=
    hexecuted.sameWidth.csrs.trans htouched.reached.sameWidth.csrs
  have hread : c₂.csrs.read Csr.MINSTRET = c.csrs.read Csr.MINSTRET :=
    CsrFile.read_congr hwidth hcounter
  rw [retire, if_neg (by rw [hmark]; decide), hread]
  exact CsrFile.force_regs_same _ _ _

theorem written_counter {inst : BitVec 32} {len : BitVec 64} {c₁ c₂ : Cpu}
    (hretires : Retires profile c inst len c₁ c₂)
    (hwrites : WritesCounter inst) :
    (csr inst = Csr.MINSTRET ∨
        csr inst = Csr.MINSTRETH ∧ c.csrs.xlen = .rv32) ∧
      c₂.retire.csrs.regs Csr.MINSTRET =
        counterStored (csr inst) (c.csrWritten inst)
          (c.csrs.regs Csr.MINSTRET) := by
  obtain ⟨hwrites, hcounter⟩ := hwrites
  have hreached : Reached c c₁ :=
    ((fetch_ensures profile c.fetching).ok hretires.fetched).1.reached
  have hwidth := hreached.sameWidth
  obtain ⟨value, hvalue, hpermitted, hafter⟩ :=
    execute_csr hwrites hretires.executed
  have haddr := counter_permitted hpermitted hcounter
  rw [hwidth.csrs] at haddr
  have hregs : c₁.regs = c.regs := by
    rw [(congrArg Cpu.regs hreached.frame :)]
    exact (congrArg Cpu.regs (ticked_ticked c).frame :)
  have hsource : c₁.csrSource inst = c.csrSource inst := by
    rw [csrSource, csrSource, rr, rr, hregs]
  have hread : c₁.csrs.read (csr inst) = c.csrs.read (csr inst) := by
    refine CsrFile.read_congr hwidth.csrs ?_
    have hone : CsrFile.source (csr inst) = Csr.MINSTRET := by
      rcases haddr with h | ⟨h, -⟩ <;> rw [h] <;> decide
    rw [hone]
    exact hreached.counter
  have hvalue : trunc value c₁.xbits = c.csrWritten inst := by
    rw [hread, hsource] at hvalue
    rw [csrWritten, hvalue, xbits, xbits, hwidth.xlen]
    rfl
  have hmark : c₂.wroteInstret = true := by
    rw [hafter, setReg]
    have hwritten : ∀ x : Cpu, (x.writeCsr (csr inst) value).wroteInstret =
        true := by
      intro x
      rw [writeCsr, hcounter]
      dsimp only
      split <;> rfl
    split <;> exact hwritten _
  refine ⟨haddr, ?_⟩
  rw [retire, if_pos hmark, hafter]
  have hkept : ∀ x : Cpu, ∀ r v, (x.setReg r v).csrs = x.csrs := by
    intro x r v
    rw [setReg]
    split <;> rfl
  rw [hkept, writeCsr_regs _ _ _ (by decide)]
  change (c₁.csrs.write (csr inst) (trunc value c₁.xbits)).regs _ = _
  rw [hvalue, write_counter (haddr.imp_right And.left), hreached.counter]

/-- Adding one to what is read is adding one to the counter, unless RV32 reads
only its low half. -/
theorem read_counter_succ_iff (c : Cpu) :
    c.csrs.read Csr.MINSTRET + 1 = c.csrs.regs Csr.MINSTRET + 1 ↔
      c.csrs.xlen = .rv64 ∨ (c.csrs.regs Csr.MINSTRET).toNat < 2 ^ 32 := by
  have hread : c.csrs.read Csr.MINSTRET =
      if c.csrs.xlen = .rv32 then c.csrs.regs Csr.MINSTRET &&& 0xffffffff
      else c.csrs.regs Csr.MINSTRET := rfl
  rw [BitVec.add_left_inj, hread]
  cases c.csrs.xlen with
  | rv32 =>
      rw [if_pos rfl]
      refine (within_low_iff (k := 32) (by decide)).trans ?_
      exact ⟨Or.inr, fun h => h.resolve_left (by decide)⟩
  | rv64 => exact iff_of_true rfl (Or.inl rfl)

/-- A stored value is the counter with one half replaced, unless RV32 writes
the low half over a high half in use. -/
theorem stored_iff {inst : BitVec 32} (hwidth : c.csrs.xlen = c.xlen)
    (hwrites : WritesCounter inst)
    (haddr : csr inst = Csr.MINSTRET ∨
      csr inst = Csr.MINSTRETH ∧ c.csrs.xlen = .rv32) (count : BitVec 64) :
    counterStored (csr inst) (c.csrWritten inst) count =
        c.countAfter inst count ↔
      c.xlen = .rv64 ∨ count.toNat < 2 ^ 32 ∨ csr inst = Csr.MINSTRETH := by
  have hother : Csr.MINSTRET ≠ Csr.MINSTRETH := by decide
  rw [countAfter, if_pos hwrites, counterStored]
  rcases haddr with haddr | ⟨haddr, hnarrow⟩
  · rw [haddr, if_neg hother, if_neg hother]
    cases hxlen : c.xlen with
    | rv64 => exact iff_of_true rfl (Or.inl rfl)
    | rv32 =>
        have hwithin : Within (c.csrWritten inst) 0xffffffff := by
          rw [csrWritten, xbits, hxlen]
          exact trunc_within _
        rw [if_neg (by decide), eq_comm, replace_eq_part_iff hwithin]
        refine (within_low_iff (k := 32) (by decide)).trans ?_
        exact ⟨fun h => Or.inr (Or.inl h), fun h =>
          (h.resolve_left (by decide)).resolve_right hother⟩
  · rw [hwidth] at hnarrow
    rw [haddr, hnarrow, if_pos rfl, if_neg (by decide), if_pos rfl]
    exact iff_of_true rfl (Or.inr (Or.inr rfl))

theorem step_counted_iff (hwidth : c.csrs.xlen = c.xlen)
    (hstep : step profile c = some (outcome, c')) :
    c'.retiredCount = tallyStep profile c c.retiredCount ↔
      CarrySafe profile c := by
  rw [CarrySafe, tallyStep, retiredCount_eq, retiredCount_eq]
  cases hretired : c.retiredInst profile with
  | none =>
      exact iff_of_true (idle_counter hstep hretired)
        (Or.inr (Or.inr fun inst h => by cases h))
  | some inst =>
      obtain ⟨len, c₁, c₂, hretires, rfl⟩ := step_retires hstep hretired
      simp only [Option.some.injEq, forall_eq']
      by_cases hwrites : WritesCounter inst
      · obtain ⟨haddr, hcount⟩ := written_counter hretires hwrites
        rw [hcount, stored_iff hwidth hwrites haddr]
        simp only [hwrites, true_and]
      · rw [plain_counter hretires hwrites, countAfter, if_neg hwrites,
          read_counter_succ_iff, hwidth]
        simp only [hwrites, false_and, or_false]

/-! ## Runs -/

/-- In every run whose steps are all safe the counter is the tally of what has
retired, under each of its names. -/
theorem retired_counted {c₀ : Cpu} (hstart : Started profile c₀)
    {past : List Cpu} (hrun : History profile c₀ past c)
    (hsafe : ∀ x ∈ past, CarrySafe profile x) :
    c.retiredCount = tally profile past c₀.retiredCount ∧
      c.csrs.read Csr.INSTRET = c.csrs.read Csr.MINSTRET ∧
      c.csrs.read Csr.INSTRETH = c.csrs.read Csr.MINSTRETH := by
  refine ⟨?_, read_instret c.csrs⟩
  induction hrun with
  | start => rfl
  | @step past x c' outcome hpast hstep ih =>
      have hwidth : x.csrs.xlen = x.xlen :=
        Reachable.width ⟨c₀, hstart, hpast.run⟩
      have hbefore : x.retiredCount = tally profile past c₀.retiredCount :=
        ih fun y hy => hsafe y (List.mem_cons_of_mem _ hy)
      have hcounted := (step_counted_iff hwidth hstep).mpr
        (hsafe x List.mem_cons_self)
      rw [hcounted, hbefore]
      rfl
  | input bytes _ ih => exact ih hsafe

/-- An RV32 program that sets the high half of the counter to one and goes on:
`csrrwi x0, minstreth, 1`, then a no-op. -/
def highHalfHart : Cpu :=
  programmedHart .rv32 [0xb820d073, 0x00000013]

theorem highHalfHart_started (profile : Profile) :
    Started profile highHalfHart :=
  Or.inl (programmedHart_loaded profile .rv32 (by decide))

theorem highHalfHart_first :
    step .debug highHalfHart =
      some (.ok (), stepped .debug highHalfHart) :=
  step_eq_stepped (by decide +kernel)

/-- The write of the high half itself is tallied. -/
theorem retired_counted_high_half :
    (stepped .debug highHalfHart).retiredCount =
        tally .debug [highHalfHart] highHalfHart.retiredCount ∧
      (stepped .debug highHalfHart).csrs.read Csr.INSTRET =
        (stepped .debug highHalfHart).csrs.read Csr.MINSTRET ∧
      (stepped .debug highHalfHart).csrs.read Csr.INSTRETH =
        (stepped .debug highHalfHart).csrs.read Csr.MINSTRETH := by
  apply retired_counted (highHalfHart_started .debug)
    (History.start.step highHalfHart_first)
  intro x hx
  obtain rfl := List.mem_singleton.mp hx
  exact Or.inr (Or.inl (by decide +kernel))

/-- The no-op after it drops the high half. -/
theorem retired_miscounted :
    ∃ past c, Started .debug highHalfHart ∧
      History .debug highHalfHart past c ∧
      c.retiredCount ≠ tally .debug past highHalfHart.retiredCount := by
  have hsecond : step .debug (stepped .debug highHalfHart) =
      some (.ok (), stepped .debug (stepped .debug highHalfHart)) :=
    step_eq_stepped (by decide +kernel)
  exact ⟨_, _, highHalfHart_started .debug,
    (History.start.step highHalfHart_first).step hsecond, by decide +kernel⟩

end Cpu

end Nanoemu
