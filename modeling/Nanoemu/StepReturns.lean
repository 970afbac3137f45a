import Nanoemu.InstructionReturns
import Nanoemu.SupervisorCalls

/-!
# Steps under overflow checks

A step panics where its fetch or its instruction does, where the handler of a
vectored interrupt lies past the top of the address space, and where the
firmware follows a pointer of the guest to a panic.
-/

namespace Nanoemu

open CheckedProgram

namespace Cpu

/-- The bytes of the console's buffer from number `n` on that the copy loop
reaches, with `remaining` to come: it ends at the first that is not mapped.
No address passes the top, and none is in the CLINT past a register. -/
def ConsoleClear (mem : Memory) (addr : BitVec 64) (n remaining : ℕ) : Prop :=
  ∀ k < remaining,
    (∀ j < k, mem.Mapped (addr + BitVec.ofNat 64 (n + j)) 1) →
    addr.toNat + (n + k) < 2 ^ 64 ∧
      ¬ Clint.Beyond (addr + BitVec.ofNat 64 (n + k))

theorem consoleClear_succ {mem : Memory} {addr : BitVec 64}
    {n remaining : ℕ} :
    ConsoleClear mem addr n (remaining + 1) ↔
      (addr.toNat + n < 2 ^ 64 ∧ ¬ Clint.Beyond (addr + BitVec.ofNat 64 n)) ∧
        (mem.Mapped (addr + BitVec.ofNat 64 n) 1 →
          ConsoleClear mem addr (n + 1) remaining) := by
  constructor
  · intro h
    refine ⟨h 0 (by omega) fun j hj => absurd hj (by omega), ?_⟩
    intro hmapped k hk hbefore
    have hindex : ∀ j, n + 1 + j = n + (j + 1) := fun j => by omega
    rw [hindex]
    refine h (k + 1) (by omega) fun j hj => ?_
    rcases j with _ | j
    · exact hmapped
    · rw [← hindex]
      exact hbefore j (by omega)
  · rintro ⟨hfirst, hrest⟩ k hk hbefore
    rcases k with _ | k
    · exact hfirst
    · have hindex : ∀ j, n + (j + 1) = n + 1 + j := fun j => by omega
      rw [hindex]
      refine hrest (hbefore 0 (by omega)) k (by omega) fun j hj => ?_
      rw [← hindex]
      exact hbefore (j + 1) (by omega)

theorem mapped_congr {mem mem' : Memory} (h : mem'.dram = mem.dram)
    (addr : BitVec 64) (size : ℕ) :
    mem'.Mapped addr size ↔ mem.Mapped addr size := by
  unfold Memory.Mapped Memory.InDram
  rw [h]

theorem consoleClear_congr {mem mem' : Memory} (h : mem'.dram = mem.dram)
    (addr : BitVec 64) (n remaining : ℕ) :
    ConsoleClear mem' addr n remaining ↔ ConsoleClear mem addr n remaining := by
  unfold ConsoleClear
  simp only [mapped_congr h]

theorem tryRead_returns_iff {c : Cpu} {addr : BitVec 64} {size : ℕ}
    (hsize : Memory.validSize size = true) :
    (tryRead addr size).Returns .debug c ↔ ¬ Clint.Beyond addr := by
  rw [tryRead, Program.returns_attempt_iff, onMemory, Program.returns_zoom_iff,
    Memory.read_returns_iff hsize]

/-- A read that does not panic is answered, with a value exactly where the
address is mapped. -/
theorem tryRead_answered {c : Cpu} {addr : BitVec 64} {size : ℕ}
    (hsize : Memory.validSize size = true) (hclear : ¬ Clint.Beyond addr) :
    ∃ outcome c', tryRead addr size .debug c = some (.ok outcome, c') ∧
      c'.mem.dram = c.mem.dram ∧
      ((∃ v, outcome = .ok v) ↔ c.mem.Mapped addr size) := by
  obtain ⟨⟨outcome, mem⟩, hread⟩ := Option.isSome_iff_exists.mp
    ((Memory.read_returns_iff hsize c.mem).mpr hclear)
  have htry : tryRead addr size .debug c =
      some (.ok outcome, { c with mem := mem }) := by
    apply Program.attempt_run_some
    unfold onMemory Program.zoom
    rw [hread]
  refine ⟨outcome, _, htry, (Memory.read_keeps_dram addr size).of_run hread, ?_⟩
  by_cases hmapped : c.mem.Mapped addr size
  · refine iff_of_true ?_ hmapped
    cases outcome with
    | error e =>
        exact ((Memory.read_mapped hsize hmapped .debug).error hread).elim
    | ok v => exact ⟨v, rfl⟩
  · obtain ⟨hdram, hdevice⟩ := not_or.mp hmapped
    cases hread.symm.trans (Memory.read_unmapped hdram hdevice .debug)
    refine iff_of_false ?_ hmapped
    rintro ⟨_, h⟩
    cases h

theorem consoleWrite_returns_iff {addr : BitVec 64} {remaining : ℕ}
    {i : BitVec 64} (hend : i.toNat + remaining < 2 ^ 64) (c : Cpu) :
    (consoleWrite addr remaining i).Returns .debug c ↔
      ConsoleClear c.mem addr i.toNat remaining := by
  induction remaining generalizing i c with
  | zero => exact iff_of_true rfl fun k hk => absurd hk (by omega)
  | succ remaining ih =>
      have hword : BitVec.ofNat 64 i.toNat = i := by
        rw [BitVec.ofNat_toNat, BitVec.setWidth_eq]
      have hnext : (i + 1).toNat = i.toNat + 1 := by
        rw [BitVec.toNat_add]
        change (i.toNat + 1) % 2 ^ 64 = i.toNat + 1
        omega
      rw [consoleWrite, Program.returns_add_iff, Program.returns_bind_iff,
        tryRead_returns_iff rfl, consoleClear_succ, hword, and_assoc]
      refine and_congr_right fun _ => and_congr_right fun hclear => ?_
      obtain ⟨outcome, c', htry, hdram, hanswer⟩ :=
        @tryRead_answered c _ 1 rfl hclear
      have hrest : ∀ b : BitVec 64, (do
          onUart fun uart => uart.putchar (b.setWidth 8)
          let i ← Program.check (Checked.add i 1)
          consoleWrite addr remaining i : Hart (BitVec 64)).Returns .debug c' ↔
            ConsoleClear c.mem addr (i.toNat + 1) remaining := by
        intro b
        rw [onUart, Program.returns_update_bind_iff, Program.returns_add_iff,
          ih (by omega), hnext]
        refine (and_iff_right ?_).trans (consoleClear_congr hdram addr _ _)
        change i.toNat + 1 < 2 ^ 64
        omega
      constructor
      · intro h hmapped
        obtain ⟨b, rfl⟩ := hanswer.mpr hmapped
        exact (hrest b).mp (h _ _ htry)
      · intro h outcome' middle hrun
        cases htry.symm.trans hrun
        cases outcome with
        | error e => rfl
        | ok b => exact (hrest b).mpr (h (hanswer.mp ⟨b, rfl⟩))

/-- The mask of a legacy interrupt call and the buffer of the console are
clear. -/
structure CallClear (c : Cpu) : Prop where
  mask : c.regs 17 = Sbi.LEGACY_SEND_IPI → c.regs a0 ≠ 0 →
    ¬ Clint.Beyond (c.regs a0)
  console : c.regs 17 = Sbi.EXT_DBCN → c.regs 16 = 0 →
    ConsoleClear c.mem (c.regs a1) 0 (c.regs a0).toNat

theorem setArg_total (r : Fin 32) (v : BitVec 64) :
    (setArg r v).Total .debug :=
  Program.Total.update _

theorem reply_total (value : BitVec 64) :
    (do setArg a0 value; pure true : Hart Bool).Total .debug :=
  (setArg_total a0 value).bind fun _ => Program.Total.pure _

theorem legacySendIpi_returns_iff {c : Cpu} (pointer : BitVec 64) :
    (legacySendIpi pointer).Returns .debug c ↔
      (pointer ≠ 0 → ¬ Clint.Beyond pointer) := by
  have hfinish : ∀ selected : Bool, (do
      if selected then setMip IntBit.SSIP else pure ()
      setArg a0 0 : Hart Unit).Total .debug := by
    intro selected
    apply Program.Total.ite
    · exact Program.Total.bind (Program.Total.update _) fun _ =>
        setArg_total _ _
    · exact setArg_total _ _
  unfold legacySendIpi
  by_cases hnull : pointer = 0
  · rw [if_pos hnull]
    exact iff_of_true (hfinish true c) fun h => absurd hnull h
  · rw [if_neg hnull, Program.returns_bind_iff, tryRead_returns_iff rfl]
    refine (and_iff_left fun mask c' _ => ?_).trans ?_
    · exact hfinish _ c'
    · exact ⟨fun h _ => h, fun h => h hnull⟩

theorem handleLegacy_returns_iff {c : Cpu} (eid arg : BitVec 64) :
    (handleLegacy eid arg).Returns .debug c ↔
      (eid = Sbi.LEGACY_SEND_IPI → arg ≠ 0 → ¬ Clint.Beyond arg) := by
  by_cases hsend : eid = Sbi.LEGACY_SEND_IPI
  · subst hsend
    rw [handleLegacy, if_neg (by decide), if_neg (by decide),
      if_neg (by decide), if_neg (by decide), if_pos rfl,
      Program.returns_bind_iff, legacySendIpi_returns_iff]
    exact (and_iff_left fun _ _ _ => rfl).trans
      ⟨fun h _ => h, fun h => h rfl⟩
  · refine iff_of_true ?_ fun h => absurd h hsend
    suffices htotal : (handleLegacy eid arg).Total .debug from htotal c
    unfold handleLegacy
    rw [if_neg hsend]
    apply Program.Total.ite
    · exact (Program.Total.update _).bind fun _ => reply_total 0
    apply Program.Total.ite
    · exact (Program.Total.update _).bind fun _ => reply_total 0
    apply Program.Total.ite
    · apply Program.Total.bind
      · exact (Program.Total.read _).bind fun _ =>
          (Program.Total.update _).bind fun _ => setArg_total _ _
      · exact fun _ => Program.Total.pure _
    apply Program.Total.ite (Program.Total.pure _)
    apply Program.Total.ite
    · exact (Program.Total.update _).bind fun _ => reply_total 0
    apply Program.Total.ite
    · exact (Program.Total.update _).bind fun _ => reply_total 0
    · exact reply_total (-2)

theorem handleExtension_returns_iff {c : Cpu} (eid fid arg0 arg1 : BitVec 64) :
    (handleExtension eid fid arg0 arg1).Returns .debug c ↔
      (eid = Sbi.EXT_DBCN → fid = 0 →
        ConsoleClear c.mem arg1 0 arg0.toNat) := by
  by_cases hwrite : eid = Sbi.EXT_DBCN ∧ fid = 0
  · obtain ⟨rfl, rfl⟩ := hwrite
    have hroom : (0 : BitVec 64).toNat + arg0.toNat < 2 ^ 64 := by
      have := arg0.isLt
      simpa using this
    rw [handleExtension, if_neg (by decide), if_neg (by decide),
      if_neg (by decide), if_neg (by decide), if_neg (by decide),
      if_neg (by decide), if_pos ⟨rfl, rfl⟩, Program.returns_bind_iff,
      consoleWrite_returns_iff hroom]
    exact (and_iff_left fun _ _ _ => rfl).trans
      ⟨fun h _ _ => h, fun h => h rfl rfl⟩
  · refine iff_of_true ?_ fun heid hfid => absurd ⟨heid, hfid⟩ hwrite
    suffices htotal : (handleExtension eid fid arg0 arg1).Total .debug from
      htotal c
    unfold handleExtension
    rw [if_neg hwrite]
    apply Program.Total.ite (Program.Total.pure _)
    apply Program.Total.ite
    · exact (Program.Total.update _).bind fun _ => Program.Total.pure _
    apply Program.Total.ite
    · apply Program.Total.bind
      · apply Program.Total.check
        rw [Sbi.hartSelected_zero]
        rfl
      · intro selected
        apply Program.Total.ite
        · exact (Program.Total.update _).bind fun _ => Program.Total.pure _
        · exact Program.Total.pure _
    apply Program.Total.ite
    · exact (Program.Total.update _).bind fun _ => Program.Total.pure _
    apply Program.Total.ite (Program.Total.pure _)
    apply Program.Total.ite (Program.Total.pure _)
    apply Program.Total.ite
    · exact (Program.Total.update _).bind fun _ => Program.Total.pure _
    · exact Program.Total.pure _

theorem replyCall_total (reply : Option Sbi.Ret) :
    (replyCall reply).Total .debug := by
  cases reply with
  | none => exact Program.Total.pure _
  | some ret =>
      exact (setArg_total a0 ret.error).bind fun _ =>
        (setArg_total a1 ret.value).bind fun _ => Program.Total.pure _

theorem handleSbi_returns_iff {c : Cpu} :
    handleSbi.Returns .debug c ↔ c.CallClear := by
  rw [handleSbi, Program.returns_read_bind_iff]
  dsimp only [id]
  by_cases hlegacy : c.regs 17 < 0x10
  · rw [if_pos hlegacy, handleLegacy_returns_iff]
    constructor
    · refine fun h => ⟨h, fun hconsole => ?_⟩
      rw [hconsole] at hlegacy
      exact absurd hlegacy (by decide)
    · exact CallClear.mask
  · rw [if_neg hlegacy]
    change (handleExtension (c.regs 17) (c.regs 16) (c.regs a0) (c.regs a1) >>=
      replyCall).Returns .debug c ↔ _
    rw [Program.returns_bind_iff, handleExtension_returns_iff]
    refine (and_iff_left fun reply c' _ => replyCall_total reply c').trans ?_
    constructor
    · refine fun h => ⟨fun hsend => ?_, h⟩
      rw [hsend] at hlegacy
      exact absurd (by decide) hlegacy
    · exact CallClear.console

theorem answerCall_returns_iff {c : Cpu} :
    answerCall.Returns .debug c ↔ c.CallClear := by
  rw [answerCall, Program.returns_bind_iff, handleSbi_returns_iff]
  refine and_iff_left fun running c' _ => ?_
  exact Program.returns_ite (fun _ => rfl) fun _ => rfl

/-- The handler of a vectored interrupt starts below the top of the address
space. -/
def HandlerClear (c : Cpu) (cause : ℕ) (isInterrupt : Bool) : Prop :=
  let tvec := c.csrs.read
    (trapTvec (enteredMode (c.Delegated cause isInterrupt)))
  tvec &&& 0x3 = 1 → isInterrupt = true →
    (tvec &&& ~~~0x3).toNat + 4 * cause < 2 ^ 64

theorem trapVector_isSome_iff {c : Cpu} (which : BitVec 12) {cause : ℕ}
    (hcause : cause < 64) (isInterrupt : Bool) :
    (c.trapVector which cause isInterrupt .debug).isSome = true ↔
      (c.csrs.read which &&& 0x3 = 1 → isInterrupt = true →
        (c.csrs.read which &&& ~~~0x3).toNat + 4 * cause < 2 ^ 64) := by
  unfold trapVector
  by_cases hvectored : c.csrs.read which &&& 0x3 = 1 ∧ isInterrupt
  · have hoffset : (4 : BitVec 64).toNat * (BitVec.ofNat 64 cause).toNat =
        4 * cause := by
      rw [BitVec.toNat_ofNat, Nat.mod_eq_of_lt (by omega)]
      rfl
    have hvalue : (4 * BitVec.ofNat 64 cause : BitVec 64).toNat =
        4 * cause := by
      rw [BitVec.toNat_mul, hoffset]
      omega
    simp only [hvectored, and_self, if_true, true_implies]
    rw [Checked.mul_eq_pure (by omega), pure_bind, Checked.add, hvalue]
    split
    · next hbelow => exact iff_of_true rfl hbelow
    · next habove => exact iff_of_false Bool.false_ne_true habove
  · simp only [if_neg hvectored]
    exact iff_of_true rfl fun hlow hinterrupt =>
      absurd ⟨hlow, hinterrupt⟩ hvectored

theorem enter_returns_iff {c : Cpu} {which : BitVec 12} {cause : ℕ}
    {isInterrupt : Bool} (hcause : cause < 64) (enter : Cpu → Cpu)
    (hkept : (enter c).csrs.read which = c.csrs.read which) :
    (do
      Program.update enter
      let c ← Program.read id
      let pc ← Program.check (c.trapVector which cause isInterrupt)
      setPc pc : Hart Unit).Returns .debug c ↔
      (c.csrs.read which &&& 0x3 = 1 → isInterrupt = true →
        (c.csrs.read which &&& ~~~0x3).toNat + 4 * cause < 2 ^ 64) := by
  rw [Program.returns_update_bind_iff, Program.returns_read_bind_iff, id,
    Program.returns_bind_iff, Program.returns_check_iff,
    trapVector_isSome_iff which hcause, hkept]
  exact and_iff_left fun _ _ _ => rfl

theorem takeTrap_returns_iff {c : Cpu} {cause : ℕ} (hcause : cause < 64)
    (tval epc : BitVec 64) (isInterrupt : Bool) :
    (takeTrap cause tval epc isInterrupt).Returns .debug c ↔
      c.HandlerClear cause isInterrupt := by
  rw [takeTrap, Program.returns_read_bind_iff, id, delegates_eq_pure c hcause,
    Program.check_pure, pure_bind, causeWord_eq_pure, Program.check_pure,
    pure_bind, HandlerClear]
  cases c.Delegated cause isInterrupt with
  | true =>
      rw [if_pos rfl]
      exact enter_returns_iff hcause _ (trapCsrs_tvec c .supervisor _ tval epc)
  | false =>
      rw [if_neg Bool.false_ne_true]
      exact enter_returns_iff hcause _ (trapCsrs_tvec c .machine _ tval epc)

/-! ## Steps -/

/-- What the step from `c` does is clear: the handler of a pending interrupt,
the fetch, the instruction fetched, and the call it makes into the firmware. -/
structure StepClear (c : Cpu) : Prop where
  handler : ∀ cause, c.ticked.pendingInterrupt = some cause →
    c.ticked.HandlerClear cause true
  fetch : c.ticked.pendingInterrupt = none → c.fetching.FetchClear
  instruction : ∀ inst len c₁, Fetched .debug c inst len c₁ →
    InstructionClear { c₁ with pc := c₁.pc + len } inst
  call : ∀ inst len c₁, Fetched .debug c inst len c₁ → IsEcall inst →
    c₁.sbi = true → c₁.privMode = .supervisor → c₁.CallClear

theorem trapFail_returns {e : Exception} {instPc : BitVec 64} {c : Cpu} :
    (do trap e instPc; Program.fail e : Hart Unit).Returns .debug c := by
  rw [Program.returns_bind_iff, trap, Program.returns_read_bind_iff, id,
    takeTrap_returns_iff (exception_cause_lt e c.privMode)]
  refine ⟨fun _ h => absurd h Bool.false_ne_true, fun _ _ _ => rfl⟩

theorem fetchExecute_returns_iff {instPc : BitVec 64} {c : Cpu} :
    (fetchExecute instPc).Returns .debug c ↔
      c.FetchClear ∧ ∀ inst len c₁,
        Cpu.fetch .debug c = some (.ok (inst, len), c₁) →
          InstructionClear { c₁ with pc := c₁.pc + len } inst := by
  rw [fetchExecute, Program.returns_bind_iff, fetch_returns_iff]
  refine and_congr_right fun _ => ?_
  constructor
  · intro h inst len c₁ hfetch
    have hnext := h (inst, len) c₁ hfetch
    rw [Program.returns_read_bind_iff, execute_returns_iff] at hnext
    exact hnext
  · rintro h ⟨inst, len⟩ c₁ hfetch
    rw [Program.returns_read_bind_iff, execute_returns_iff]
    exact h inst len c₁ hfetch

theorem callClear_placed {c : Cpu} (pc : BitVec 64) :
    CallClear { c with pc := pc } ↔ c.CallClear :=
  ⟨fun h => ⟨h.mask, h.console⟩, fun h => ⟨h.mask, h.console⟩⟩

theorem runInstruction_returns_iff {c : Cpu} :
    runInstruction.Returns .debug c ↔
      (fetchExecute c.pc).Returns .debug { c with wroteInstret := false } ∧
        ∀ e x, fetchExecute c.pc .debug { c with wroteInstret := false } =
            some (.error e, x) →
          x.callsFirmware e = true → x.CallClear := by
  rw [runInstruction, Program.returns_read_bind_iff,
    Program.returns_update_bind_iff, Program.returns_bind_iff,
    Program.returns_attempt_iff]
  refine and_congr_right fun _ => ?_
  constructor
  · intro h e x hfail hcalls
    have hafter := h _ x (Program.attempt_run_some hfail)
    rw [Program.returns_read_bind_iff, id, if_pos hcalls,
      answerCall_returns_iff] at hafter
    exact hafter
  · intro h result x hrun
    cases result with
    | ok value => rfl
    | error e =>
        rw [Program.returns_read_bind_iff, id]
        refine Program.returns_ite (fun hcalls => ?_) fun _ => trapFail_returns
        exact answerCall_returns_iff.mpr
          (h e x (Program.attempt_eq_ok_iff.mp hrun) hcalls)

/-- The call of a step: the firmware is called by an ECALL that was fetched. -/
theorem firmwareCalls_iff {c : Cpu}
    (hpending : c.ticked.pendingInterrupt = none) :
    (∀ e x, fetchExecute c.ticked.pc .debug c.fetching = some (.error e, x) →
        x.callsFirmware e = true → x.CallClear) ↔
      ∀ inst len c₁, Fetched .debug c inst len c₁ → IsEcall inst →
        c₁.sbi = true → c₁.privMode = .supervisor → c₁.CallClear := by
  constructor
  · intro h inst len c₁ hfetched hecall hsbi hmode
    have hraised := fetchExecute_ecall hfetched.word hecall c.ticked.pc
    refine (callClear_placed _).mp (h _ _ hraised ?_)
    rw [callsFirmware, hsbi, hmode]
    rfl
  · intro h e x hfail hcalls
    obtain ⟨-, hsbi, hmode⟩ := callsFirmware_eq_true hcalls
    obtain ⟨inst, c₁, hfetched, hecall, rfl⟩ :=
      answered_ecall hpending hfail hcalls
    exact (callClear_placed _).mpr (h inst 4 c₁ hfetched hecall hsbi hmode)

theorem afterTick_returns_iff {c : Cpu} :
    c.ticked.afterTick.Returns .debug c.ticked ↔ c.StepClear := by
  cases hpending : c.ticked.pendingInterrupt with
  | some cause =>
      rw [afterTick_interrupt hpending,
        takeTrap_returns_iff (pendingInterrupt_lt hpending)]
      have hother : ∀ {inst len c₁}, ¬ Fetched .debug c inst len c₁ :=
        fun hfetched => by cases hpending.symm.trans hfetched.pending
      constructor
      · intro h
        refine ⟨fun cause' hcause => ?_, fun hnone => ?_,
          fun _ _ _ hfetched => absurd hfetched hother,
          fun _ _ _ hfetched => absurd hfetched hother⟩
        · cases hpending.symm.trans hcause
          exact h
        · cases hpending.symm.trans hnone
      · exact fun h => h.handler cause hpending
  | none =>
      rw [afterTick_instruction hpending, runInstruction_returns_iff,
        fetchExecute_returns_iff]
      change (c.fetching.FetchClear ∧ _) ∧ _ ↔ _
      rw [show ({ c.ticked with wroteInstret := false } : Cpu) = c.fetching
        from rfl, firmwareCalls_iff hpending]
      constructor
      · rintro ⟨⟨hfetch, hinstruction⟩, hcall⟩
        refine ⟨fun _ hcause => ?_, fun _ => hfetch,
          fun inst len c₁ hfetched => hinstruction inst len c₁ hfetched.word,
          hcall⟩
        cases hpending.symm.trans hcause
      · intro h
        exact ⟨⟨h.fetch hpending, fun inst len c₁ hfetch =>
          h.instruction inst len c₁ ⟨hpending, hfetch⟩⟩, h.call⟩

/-- The step counter has room for one more. -/
theorem countCycle_returns_iff {c : Cpu} :
    countCycle.Returns .debug c ↔ c.cycle ≠ BitVec.allOnes 64 := by
  rw [countCycle, Program.returns_read_bind_iff, id, Program.returns_add_iff]
  refine (and_iff_left rfl).trans ?_
  change c.cycle.toNat + 1 < 2 ^ 64 ↔ _
  have hbelow := c.cycle.isLt
  have hfull : c.cycle = BitVec.allOnes 64 ↔ c.cycle.toNat = 2 ^ 64 - 1 := by
    rw [← BitVec.toNat_inj]
    rfl
  rw [Ne, hfull]
  omega

/-- With overflow checks on, a step returns exactly where the counter of steps
is not full and what the step does is clear. -/
theorem step_returns_iff {c : Cpu} :
    step.Returns .debug c ↔
      c.cycle ≠ BitVec.allOnes 64 ∧ c.StepClear := by
  rw [step, Program.returns_bind_iff, countCycle_returns_iff,
    ← afterTick_returns_iff]
  refine and_congr_right fun hcount => ?_
  obtain ⟨⟨outcome, c'⟩, hcounted⟩ :=
    Option.isSome_iff_exists.mp (countCycle_returns_iff.mpr hcount)
  cases outcome with
  | error e => exact ((countCycle_ensures .debug c).error hcounted).elim
  | ok value =>
      obtain rfl := (countCycle_ensures .debug c).ok hcounted
      constructor
      · exact fun h => h () _ hcounted
      · intro h _ c' hrun
        cases hcounted.symm.trans hrun
        exact h

/-- What a run has stepped from has returned. -/
theorem History.returned {profile : Profile} {c₀ c : Cpu} {past : List Cpu}
    (hrun : History profile c₀ past c) :
    ∀ x ∈ past, Cpu.step.Returns profile x := by
  induction hrun with
  | start => exact List.forall_mem_nil _
  | step _ hstep ih =>
      exact List.forall_mem_cons.mpr ⟨Program.returns_of_run hstep, ih⟩
  | input _ _ ih => exact ih

/-- In every run with overflow checks on, and room in the counter for one more
step, no step panics, the next included, exactly where all of them are
clear. -/
theorem run_returns_iff {c₀ c : Cpu} {past : List Cpu}
    (hrun : History .debug c₀ past c)
    (hcount : c.cycle ≠ BitVec.allOnes 64) :
    (∀ x ∈ c :: past, (step .debug x).isSome = true) ↔
      ∀ x ∈ c :: past, x.StepClear := by
  rw [List.forall_mem_cons, List.forall_mem_cons]
  have hpast : ∀ x ∈ past, x.StepClear :=
    fun x hx => (step_returns_iff.mp (hrun.returned x hx)).2
  constructor
  · exact fun h => ⟨(step_returns_iff.mp h.1).2, hpast⟩
  · exact fun h => ⟨step_returns_iff.mpr ⟨hcount, h.1⟩, hrun.returned⟩

/-- `lui x1, 0x2000; lb x3, 3(x1)`: the byte is the last of the software
interrupt register of the CLINT. -/
def clintLoadHart : Cpu :=
  programmedHart .rv64 [0x020000b7, 0x00308183]

theorem clintLoadHart_clear :
    ((stepped .debug)^[2] clintLoadHart).StepClear ∧
      (stepped .debug clintLoadHart).StepClear ∧ clintLoadHart.StepClear := by
  have hlui : step .debug clintLoadHart =
      some (.ok (), stepped .debug clintLoadHart) :=
    step_eq_stepped (by decide +kernel)
  have hload : step .debug (stepped .debug clintLoadHart) =
      some (.ok (), (stepped .debug)^[2] clintLoadHart) :=
    step_eq_stepped (by decide +kernel)
  have hrun := (History.start.step hlui).step hload
  have hreturns : ∀ x ∈ [(stepped .debug)^[2] clintLoadHart,
      stepped .debug clintLoadHart, clintLoadHart],
      (step .debug x).isSome = true :=
    List.forall_mem_cons.mpr ⟨by decide +kernel, hrun.returned⟩
  have hclear := (run_returns_iff hrun (by decide +kernel)).mp hreturns
  exact ⟨hclear _ (by simp), hclear _ (by simp), hclear _ (by simp)⟩

/-! ## A load past a register -/

/-- `lui x1, 0x2000; lb x3, 8(x1)`: the byte is eight past the software
interrupt register of the CLINT. -/
def strayLoadHart : Cpu :=
  programmedHart .rv64 [0x020000b7, 0x00808183]

theorem strayLoadHart_panics :
    Started .debug strayLoadHart ∧
      ∃ c, History .debug strayLoadHart [strayLoadHart] c ∧
        c.cycle ≠ BitVec.allOnes 64 ∧ step .debug c = none := by
  have hlui : step .debug strayLoadHart =
      some (.ok (), stepped .debug strayLoadHart) :=
    step_eq_stepped (by decide +kernel)
  refine ⟨Or.inl (programmedHart_loaded .debug .rv64 (by decide)),
    stepped .debug strayLoadHart, .step .start hlui, ?_, ?_⟩
  · decide +kernel
  · decide +kernel

end Cpu

end Nanoemu
