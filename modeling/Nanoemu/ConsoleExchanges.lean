import Nanoemu.ConsoleAccess
import Nanoemu.ConsoleWrites

/-!
# What the console and a program exchange

A byte leaves the queue for the register that a load or the firmware puts it
in, and a byte joins the log from the register it was stored or printed from.
Step by step the exchanges of a run account for both streams: nothing is lost,
doubled or taken out of order.
-/

namespace Nanoemu

open CheckedProgram

namespace Cpu

variable {profile : Profile} {c c₀ c' x : Cpu}
  {outcome : Except Exception Unit}

/-- What a call hands over: the byte that has waited longest, in `a0`, where -1
says that none has. -/
inductive CallTakes (x c' : Cpu) : List (BitVec 8) → Prop where
  | byte {byte : BitVec 8} : x.regs 17 = Sbi.LEGACY_CONSOLE_GETCHAR →
      x.mem.uart.rx.head? = some byte → c'.regs a0 = byte.setWidth 64 →
      CallTakes x c' [byte]
  | none : x.regs 17 = Sbi.LEGACY_CONSOLE_GETCHAR → x.mem.uart.rx = [] →
      c'.regs a0 = -1 → CallTakes x c' []
  | other : x.regs 17 ≠ Sbi.LEGACY_CONSOLE_GETCHAR → CallTakes x c' []

def IsDebugConsole (x : Cpu) (fid : BitVec 64) : Prop :=
  x.regs 17 = Sbi.EXT_DBCN ∧ x.regs 16 = fid

/-- What a call prints: the byte in `a0`, or the text in memory that `a0` and
`a1` describe. -/
inductive CallSends (x : Cpu) : List (BitVec 8) → Prop where
  | putchar : x.regs 17 = Sbi.LEGACY_CONSOLE_PUTCHAR →
      CallSends x [(x.regs a0).setWidth 8]
  | debugByte : IsDebugConsole x 2 → CallSends x [(x.regs a0).setWidth 8]
  | debugWrite : IsDebugConsole x 0 →
      CallSends x (x.mem.text (x.regs a1) (x.regs a0).toNat)
  | other : x.regs 17 ≠ Sbi.LEGACY_CONSOLE_PUTCHAR → ¬ IsDebugConsole x 2 →
      ¬ IsDebugConsole x 0 → CallSends x []

/-- The text or the mask that the call points to is not in memory. -/
def PointsElsewhere (x : Cpu) : Prop :=
  x.regs 17 = Sbi.LEGACY_SEND_IPI ∧ Memory.InUart (x.regs a0) ∨
    IsDebugConsole x 0 ∧ ¬ (DRAM_BASE ≤ x.regs a1 ∧
      (x.regs a1).toNat + (x.regs a0).toNat < 2 ^ 64)

abbrev uartKept : Frame Cpu :=
  memFrame Memory.uartFrame

theorem setArg_uart (r : Fin 32) (v : BitVec 64) : (setArg r v).Moves uartKept :=
  Program.Moves.update fun _ => rfl

theorem legacySendIpi_uart {pointer : BitVec 64}
    (hmask : ¬ Memory.InUart pointer) :
    (legacySendIpi pointer).Moves uartKept := by
  have hfinish : ∀ selected : Bool, Program.Moves uartKept (do
      if selected then setMip IntBit.SSIP else pure ()
      setArg a0 0) := fun selected =>
    Program.Moves.ite
      (Program.Moves.bind (Program.Moves.update fun _ => rfl)
        fun _ => setArg_uart _ _)
      (setArg_uart _ _)
  apply Program.Moves.ite (hfinish true)
  apply Program.Moves.bind
  · exact Program.Moves.attempt
      (Program.Keeps.zoom (Memory.read_apart hmask 8) fun _ _ h => h)
  · exact fun _ => hfinish _

theorem handleLegacy_uart {eid arg : BitVec 64}
    (hputchar : eid ≠ Sbi.LEGACY_CONSOLE_PUTCHAR)
    (hgetchar : eid ≠ Sbi.LEGACY_CONSOLE_GETCHAR)
    (hmask : eid = Sbi.LEGACY_SEND_IPI → ¬ Memory.InUart arg) :
    (handleLegacy eid arg).Moves uartKept := by
  have hreply : ∀ {body : Hart Unit} (v : BitVec 64), body.Moves uartKept →
      Program.Moves uartKept (do
        body
        setArg a0 v
        pure true : Hart Bool) := fun v hbody =>
    hbody.bind fun _ => (setArg_uart _ _).bind fun _ => Program.Moves.pure _
  rw [handleLegacy, if_neg hputchar, if_neg hgetchar]
  apply Program.Moves.ite
  · exact hreply 0 (Program.Moves.update fun _ => rfl)
  apply Program.Moves.ite (Program.Moves.pure _)
  by_cases hsend : eid = Sbi.LEGACY_SEND_IPI
  · rw [if_pos hsend]
    exact (legacySendIpi_uart (hmask hsend)).bind fun _ => Program.Moves.pure _
  rw [if_neg hsend]
  apply Program.Moves.ite
  · exact hreply 0 (Program.Moves.update fun _ => rfl)
  apply Program.Moves.ite
  · exact hreply 0 (Program.Moves.update fun _ => rfl)
  · exact (setArg_uart _ _).bind fun _ => Program.Moves.pure _

theorem handleExtension_uart {eid fid arg0 arg1 : BitVec 64}
    (hwrite : ¬ (eid = Sbi.EXT_DBCN ∧ fid = 0))
    (hbyte : ¬ (eid = Sbi.EXT_DBCN ∧ fid = 2)) :
    (handleExtension eid fid arg0 arg1).Moves uartKept := by
  have hsuccess : ∀ {body : Hart Unit}, body.Moves uartKept →
      Program.Moves uartKept (do
        body
        pure (some Sbi.Ret.success) : Hart (Option Sbi.Ret)) :=
    fun hbody => hbody.bind fun _ => Program.Moves.pure _
  rw [handleExtension, if_neg hwrite, if_neg hbyte]
  apply Program.Moves.ite (Program.Moves.pure _)
  apply Program.Moves.ite
  · exact hsuccess (Program.Moves.update fun _ => rfl)
  apply Program.Moves.ite
  · apply Program.Moves.bind (Program.Moves.check _)
    intro selected
    apply Program.Moves.ite _ (Program.Moves.pure _)
    exact hsuccess (Program.Moves.update fun _ => rfl)
  apply Program.Moves.ite
  · exact hsuccess (Program.Moves.update fun _ => rfl)
  apply Program.Moves.ite (Program.Moves.pure _)
  exact Program.Moves.ite (Program.Moves.pure _) (Program.Moves.pure _)

theorem replyCall_uart (reply : Option Sbi.Ret) :
    (replyCall reply).Moves uartKept := by
  cases reply with
  | none => exact Program.Moves.pure _
  | some ret =>
      apply (setArg_uart a0 ret.error).bind
      intro _
      exact (setArg_uart a1 ret.value).bind fun _ => Program.Moves.pure _

/-- The other calls have nothing to do with the console. -/
theorem answerCall_uart (hputchar : x.regs 17 ≠ Sbi.LEGACY_CONSOLE_PUTCHAR)
    (hgetchar : x.regs 17 ≠ Sbi.LEGACY_CONSOLE_GETCHAR)
    (hwrite : ¬ IsDebugConsole x 0) (hbyte : ¬ IsDebugConsole x 2)
    (hmask : x.regs 17 = Sbi.LEGACY_SEND_IPI → ¬ Memory.InUart (x.regs a0))
    (hanswer : answerCall profile x = some (.ok (), c')) :
    c'.mem.uart = x.mem.uart := by
  have hlast : ∀ running : Bool, Program.Moves uartKept (do
      if running then pure ()
      else Program.update fun c => { c with shutdown := true } : Hart Unit) :=
    fun running => Program.Moves.ite (Program.Moves.pure _)
      (Program.Moves.update fun _ => rfl)
  have hsbi : Program.Moves uartKept
      (if x.regs 17 < 0x10 then handleLegacy (x.regs 17) (x.regs a0)
        else handleExtension (x.regs 17) (x.regs 16) (x.regs a0) (x.regs a1)
          >>= replyCall) :=
    Program.Moves.ite (handleLegacy_uart hputchar hgetchar hmask)
      ((handleExtension_uart hwrite hbyte).bind replyCall_uart)
  have hensures : answerCall.Ensures profile x
      (fun _ c' => uartKept.rel x c') (fun _ _ => False) := by
    apply Program.Ensures.bind
    apply Program.Ensures.bind
    apply Program.Ensures.read
    apply (hsbi profile x).mono
    · intro running x₁ hmoved
      apply (hlast running profile x₁).mono
      · exact fun _ _ hrest => uartKept.trans hmoved hrest
      · exact fun _ _ h => h
    · exact fun _ _ h => h
  exact hensures.ok hanswer

theorem answerCall_putchar (hcall : x.regs 17 = Sbi.LEGACY_CONSOLE_PUTCHAR) :
    answerCall profile x = some (.ok (),
      { x.printing [(x.regs a0).setWidth 8] with
        regs := Function.update x.regs a0 0 }) := by
  have hsbi : handleSbi profile x = some (.ok true,
      { x.printing [(x.regs a0).setWidth 8] with
        regs := Function.update x.regs a0 0 }) := by
    rw [handleSbi, Program.bind_run_ok (Program.read_run _ _ _), id]
    dsimp only
    rw [hcall, if_pos (by decide), handleLegacy, if_neg (by decide), if_pos rfl]
    rfl
  rw [answerCall, Program.bind_run_ok hsbi]
  rfl

theorem answerCall_debugByte (hcall : IsDebugConsole x 2) :
    answerCall profile x = some (.ok (),
      { x.printing [(x.regs a0).setWidth 8] with
        regs := Function.update (Function.update x.regs a0 0) a1 0 }) := by
  have hsbi : handleSbi profile x = some (.ok true,
      { x.printing [(x.regs a0).setWidth 8] with
        regs := Function.update (Function.update x.regs a0 0) a1 0 }) := by
    rw [handleSbi, Program.bind_run_ok (Program.read_run _ _ _), id]
    dsimp only
    rw [hcall.1, hcall.2, if_neg (by decide), handleExtension,
      if_neg (by decide), if_neg (by decide), if_neg (by decide),
      if_neg (by decide), if_neg (by decide), if_neg (by decide),
      if_neg (by decide), if_pos ⟨rfl, rfl⟩]
    rfl
  rw [answerCall, Program.bind_run_ok hsbi]
  rfl

theorem answerCall_takes (hcall : x.regs 17 = Sbi.LEGACY_CONSOLE_GETCHAR) :
    answerCall profile x = some (.ok (),
      { x with
        mem := { x.mem with uart := x.mem.uart.takeInput.2 }
        regs := Function.update x.regs a0 (match x.mem.uart.rx.head? with
          | some byte => byte.setWidth 64
          | none => -1) }) := by
  have hsbi : handleSbi profile x = some (.ok true,
      { x with
        mem := { x.mem with uart := x.mem.uart.takeInput.2 }
        regs := Function.update x.regs a0 (match x.mem.uart.rx.head? with
          | some byte => byte.setWidth 64
          | none => -1) }) := by
    rw [handleSbi, Program.bind_run_ok (Program.read_run _ _ _), id]
    dsimp only
    rw [hcall, if_pos (by decide), handleLegacy, if_neg (by decide),
      if_neg (by decide), if_pos rfl]
    rfl
  rw [answerCall, Program.bind_run_ok hsbi]
  rfl

theorem conserves_printing (x : Cpu) (bytes : List (BitVec 8)) :
    x.mem.uart.Conserves (x.printing bytes).mem.uart [] [] bytes :=
  ⟨List.append_nil _, rfl⟩

/-- The firmware takes and prints what the call asks for. -/
theorem answerCall_exchanges (hpoints : ¬ PointsElsewhere x)
    (hanswer : answerCall profile x = some (.ok (), c')) :
    ∃ taken sent, x.mem.uart.Conserves c'.mem.uart [] taken sent ∧
      CallTakes x c' taken ∧ CallSends x sent := by
  by_cases hgetchar : x.regs 17 = Sbi.LEGACY_CONSOLE_GETCHAR
  · have hother : Sbi.LEGACY_CONSOLE_GETCHAR ≠ Sbi.LEGACY_CONSOLE_PUTCHAR ∧
        Sbi.LEGACY_CONSOLE_GETCHAR ≠ Sbi.EXT_DBCN := by decide
    have hsends : CallSends x [] :=
      .other (fun h => hother.1 (hgetchar.symm.trans h))
        (fun h => hother.2 (hgetchar.symm.trans h.1))
        (fun h => hother.2 (hgetchar.symm.trans h.1))
    cases hanswer.symm.trans (answerCall_takes hgetchar)
    refine ⟨_, [], x.mem.uart.conserves_take, ?_, hsends⟩
    cases hrx : x.mem.uart.rx with
    | nil =>
        rw [Uart.takeInput, hrx]
        exact .none hgetchar hrx rfl
    | cons byte rest =>
        rw [Uart.takeInput, hrx]
        exact .byte hgetchar (by rw [hrx]; rfl) rfl
  by_cases hputchar : x.regs 17 = Sbi.LEGACY_CONSOLE_PUTCHAR
  · cases hanswer.symm.trans (answerCall_putchar hputchar)
    exact ⟨[], _, conserves_printing x _, .other hgetchar, .putchar hputchar⟩
  by_cases hbyte : IsDebugConsole x 2
  · cases hanswer.symm.trans (answerCall_debugByte hbyte)
    exact ⟨[], _, conserves_printing x _, .other hgetchar, .debugByte hbyte⟩
  by_cases hwrite : IsDebugConsole x 0
  · obtain ⟨hbase, hroom⟩ := not_not.mp fun h => hpoints (Or.inr ⟨hwrite, h⟩)
    cases hanswer.symm.trans
      (answerCall_prints profile hwrite.1 hwrite.2 hbase hroom)
    exact ⟨[], _, conserves_printing x _, .other hgetchar, .debugWrite hwrite⟩
  · refine ⟨[], [], ?_, .other hgetchar, .other hputchar hbyte hwrite⟩
    rw [answerCall_uart hputchar hgetchar hwrite hbyte
      (fun hsend huart => hpoints (Or.inl ⟨hsend, huart⟩)) hanswer]
    exact Uart.Conserves.refl _

/-! ## Steps -/

/-- The step fetches an instruction and leaves `x` to execute it. -/
def Begins (profile : Profile) (c : Cpu) (inst : BitVec 32) (x : Cpu) : Prop :=
  ∃ len c₁, Fetched profile c inst len c₁ ∧ x = { c₁ with pc := c₁.pc + len }

/-- The address of the data of a step, where it lies on one page. -/
def stepData (profile : Profile) (c : Cpu) : Option (BitVec 64) :=
  match fetch profile c.fetching with
  | some (.ok (inst, _), c₁) => c₁.directData inst
  | _ => none

/-- The step gets to the console by other ways than the data of its instruction
and the registers of its call: a walk or a fetch among the console's registers,
data that cross a page into them, or a pointer to them. -/
def Strays (profile : Profile) (c : Cpu) : Prop :=
  stepThrough (shunning (stepData profile c)) profile c = none ∨
    Calls profile c ∧ PointsElsewhere c

/-- What the bytes that a step takes and sends have to do with the rest of it:
with the load and the store of its instruction, with its call, or with
nothing. -/
inductive Exchange (profile : Profile) (c : Cpu)
    (outcome : Except Exception Unit) (c' : Cpu) :
    (taken sent : List (BitVec 8)) → Prop where
  | instruction {inst : BitVec 32} {x : Cpu} {taken sent : List (BitVec 8)} :
      Begins profile c inst x → ¬ Calls profile c →
      LoadTakes profile inst x outcome c' taken →
      StoreSends profile inst x outcome sent →
      Exchange profile c outcome c' taken sent
  | call {inst : BitVec 32} {x : Cpu} {taken sent : List (BitVec 8)} :
      Begins profile c inst x → Calls profile c → CallTakes x c' taken →
      CallSends x sent → Exchange profile c outcome c' taken sent
  | idle : (∀ inst x, ¬ Begins profile c inst x) →
      Exchange profile c outcome c' [] []
  | stray {taken sent : List (BitVec 8)} : Strays profile c →
      Exchange profile c outcome c' taken sent

section Steps

variable {direct : Option (BitVec 64)} {tr : Translation}

theorem landed_congr {inst : BitVec 32} {byte : BitVec 8} {c'' : Cpu}
    (hregs : c''.regs = c'.regs) (hfregs : c''.fregs = c'.fregs) :
    Landed inst byte outcome c'' ↔ Landed inst byte outcome c' := by
  cases outcome with
  | ok _ => simp only [Landed, hregs, hfregs]
  | error _ => exact Iff.rfl

theorem LoadTakes.congr {inst : BitVec 32} {c'' : Cpu}
    {taken : List (BitVec 8)} (h : LoadTakes profile inst x outcome c' taken)
    (hregs : c''.regs = c'.regs) (hfregs : c''.fregs = c'.fregs) :
    LoadTakes profile inst x outcome c'' taken := by
  cases h with
  | data hload hled hlanded =>
      exact .data hload hled fun byte hbyte =>
        (landed_congr hregs hfregs).mpr (hlanded byte hbyte)
  | other hother => exact .other hother

theorem retire_kept (c : Cpu) :
    c.retire.regs = c.regs ∧ c.retire.fregs = c.fregs ∧
      c.retire.mem = c.mem := by
  rw [retire]
  split <;> exact ⟨rfl, rfl, rfl⟩

theorem takeTrap_kept {cause : ℕ} {tval epc : BitVec 64} {isInterrupt : Bool}
    (htrap : takeTrap cause tval epc isInterrupt profile c =
      some (.ok (), c')) :
    c'.regs = c.regs ∧ c'.fregs = c.fregs ∧ c'.mem = c.mem := by
  obtain ⟨entered, word, pc, -, -, rfl⟩ :=
    (takeTrap_enters cause tval epc isInterrupt profile c).ok htrap
  exact ⟨rfl, rfl, rfl⟩

/-- What became of a fetch and its instruction under a translation kept off the
console. -/
theorem fetchExecute_exchanges {instPc : BitVec 64}
    (htr : Shuns (stepData profile c) tr)
    (hpending : c.ticked.pendingInterrupt = none)
    (hthrough : fetchExecuteThrough tr instPc profile c.fetching =
      some (outcome, x)) :
    x.mem.uart = c.mem.uart ∧ (∀ inst y, ¬ Begins profile c inst y) ∨
      ∃ inst y, Begins profile c inst y ∧ y.mem.uart = c.mem.uart ∧
        Exchanges profile inst y outcome x := by
  have hstart : c.fetching.mem.uart = c.mem.uart := ticked_uart c
  rcases Program.bind_cases hthrough with
    ⟨e, hfails, -⟩ | ⟨⟨inst, len⟩, c₁, hfetched, hexecuted⟩
  · have hplain := fetchThrough_approximates htr.approximates _ _ _ hfails
    have hkept : x.mem.uart = c.fetching.mem.uart :=
      htr.fetch_keeps.of_run hfails
    refine Or.inl ⟨hkept.trans hstart, ?_⟩
    rintro inst y ⟨len, c₁, hword, -⟩
    cases hword.word.symm.trans hplain
  · have hplain := fetchThrough_approximates htr.approximates _ _ _ hfetched
    have hkept : c₁.mem.uart = c.fetching.mem.uart :=
      htr.fetch_keeps.of_run hfetched
    have hdata : stepData profile c = c₁.directData inst := by
      rw [stepData, hplain]
    rw [hdata] at htr
    dsimp only at hexecuted
    rw [Program.bind_run_ok (Program.read_run _ _ _)] at hexecuted
    exact Or.inr ⟨inst, _, ⟨len, c₁, ⟨hpending, hplain⟩, rfl⟩,
      hkept.trans hstart, htr.execute hexecuted⟩

theorem pointsElsewhere_congr (hregs : x.regs = c.regs) :
    PointsElsewhere x ↔ PointsElsewhere c := by
  unfold PointsElsewhere IsDebugConsole
  rw [hregs]

/-- The bytes that a step takes and sends, and where they go and come from. -/
theorem step_exchange (hstep : step profile c = some (outcome, c')) :
    ∃ taken sent, c.mem.uart.Conserves c'.mem.uart [] taken sent ∧
      Exchange profile c outcome c' taken sent := by
  by_cases hstrays : Strays profile c
  · obtain ⟨taken, sent, hconserves⟩ := step_streams hstep
    exact ⟨taken, sent, hconserves, .stray hstrays⟩
  obtain ⟨hgets, hpoints⟩ := not_or.mp hstrays
  have htr := shunning_shuns (stepData profile c)
  have hexecuted : ∀ {r x}, c.ticked.pendingInterrupt = none →
      fetchExecute c.ticked.pc profile c.fetching = some (r, x) →
      x.mem.uart = c.mem.uart ∧ (∀ inst y, ¬ Begins profile c inst y) ∨
        ∃ inst y, Begins profile c inst y ∧ y.mem.uart = c.mem.uart ∧
          Exchanges profile inst y r x := by
    intro r x hpending hplain
    obtain ⟨r', x', hthrough⟩ := fetchExecuteThrough_of_step hpending hgets
    cases hplain.symm.trans (fetchExecuteThrough_approximates
      htr.approximates _ _ _ _ hthrough)
    exact fetchExecute_exchanges htr hpending hthrough
  cases step_course hstep with
  | interrupt hpending htrap =>
      have hnone : ∀ inst x, ¬ Begins profile c inst x := by
        rintro inst x ⟨len, c₁, hfetched, -⟩
        cases hpending.symm.trans hfetched.pending
      refine ⟨[], [], ?_, .idle hnone⟩
      rw [(takeTrap_kept htrap).2.2, ticked_uart]
      exact Uart.Conserves.refl _
  | @retired inst len c₁ c₂ hpending hfetch hexecute =>
      have hplain : fetchExecute c.ticked.pc profile c.fetching =
          some (.ok (), c₂) := by
        rw [fetchExecute, Program.bind_run_ok hfetch]
        exact hexecute
      have hnot : ¬ Calls profile c := by
        rintro ⟨-, e, x, hfail, -⟩
        cases hplain.symm.trans hfail
      obtain ⟨hregs, hfregs, hmem⟩ := retire_kept c₂
      rcases hexecuted hpending hplain with
        ⟨-, hnone⟩ | ⟨inst, y, hbegins, hkept, taken, sent, hconserves, htakes,
          hsends⟩
      · exact absurd ⟨len, c₁, ⟨hpending, hfetch⟩, rfl⟩ (hnone inst _)
      · rw [hkept, ← hmem] at hconserves
        exact ⟨taken, sent, hconserves, .instruction hbegins hnot
          (htakes.congr hregs hfregs) hsends⟩
  | @answered e x _ hpending hfail hcalls hanswer =>
      obtain ⟨inst, c₁, hfetched, hecall, -⟩ :=
        answered_ecall hpending hfail hcalls
      cases hfail.symm.trans (fetchExecute_ecall hfetched.word hecall _)
      have hcalled : Calls profile c := ⟨hpending, _, _, hfail, hcalls⟩
      have hregs := (fetchExecute_reached hfail).regs
      obtain ⟨taken, sent, hconserves, htakes, hsends⟩ :=
        answerCall_exchanges ((pointsElsewhere_congr hregs).not.mpr
          fun h => hpoints ⟨hcalled, h⟩) hanswer
      have hbegins : Begins profile c inst { c₁ with pc := c₁.pc + 4 } :=
        ⟨4, c₁, hfetched, rfl⟩
      refine ⟨taken, sent, ?_, .call hbegins hcalled htakes hsends⟩
      rcases hexecuted hpending hfail with
        ⟨-, hnone⟩ | ⟨inst', y, ⟨len, c₂, hfetched', rfl⟩, hkept, -⟩
      · exact absurd hbegins (hnone inst _)
      · cases hfetched.word.symm.trans hfetched'.word
        rw [← show c₁.mem.uart = c.mem.uart from hkept]
        exact hconserves
  | @exception e x _ hpending hfail hrefused htrap =>
      have hnot : ¬ Calls profile c := by
        rintro ⟨-, e', x', hfail', hcalls⟩
        cases hfail.symm.trans hfail'
        cases hrefused.symm.trans hcalls
      obtain ⟨hregs, hfregs, hmem⟩ := takeTrap_kept htrap
      rcases hexecuted hpending hfail with
        ⟨hkept, hnone⟩ | ⟨inst, y, hbegins, hkept, taken, sent, hconserves,
          htakes, hsends⟩
      · refine ⟨[], [], ?_, .idle hnone⟩
        rw [hmem, hkept]
        exact Uart.Conserves.refl _
      · rw [hkept, ← hmem] at hconserves
        exact ⟨taken, sent, hconserves, .instruction hbegins hnot
          (htakes.congr hregs hfregs) hsends⟩

end Steps

/-! ## Runs -/

/-- A run during which bytes were typed, in their order. -/
inductive Typed (profile : Profile) (c₀ : Cpu) :
    List (BitVec 8) → Cpu → Prop where
  | start : Typed profile c₀ [] c₀
  | step {typed : List (BitVec 8)} {c c' : Cpu}
      {outcome : Except Exception Unit} :
      Typed profile c₀ typed c →
      Cpu.step profile c = some (outcome, c') →
      Typed profile c₀ typed c'
  | input {typed : List (BitVec 8)} {c : Cpu} (bytes : List (BitVec 8)) :
      Typed profile c₀ typed c →
      Typed profile c₀ (typed ++ bytes) (c.pushInput bytes)

/-- The run again, with what its steps have taken and sent. -/
inductive Accounts (profile : Profile) (c₀ : Cpu) :
    (typed taken sent : List (BitVec 8)) → Cpu → Prop where
  | start : Accounts profile c₀ [] [] [] c₀
  | step {typed taken sent taken' sent' : List (BitVec 8)} {c c' : Cpu}
      {outcome : Except Exception Unit} :
      Accounts profile c₀ typed taken sent c →
      Cpu.step profile c = some (outcome, c') →
      Exchange profile c outcome c' taken' sent' →
      Accounts profile c₀ typed (taken ++ taken') (sent ++ sent') c'
  | input {typed taken sent : List (BitVec 8)} {c : Cpu}
      (bytes : List (BitVec 8)) :
      Accounts profile c₀ typed taken sent c →
      Accounts profile c₀ (typed ++ bytes) taken sent (c.pushInput bytes)

/-- Over any run, whatever the program does, the bytes taken and then the queue
are the queue at the start and then what was typed, and the log is the log at
the start and then the bytes sent. -/
theorem console_streams {typed : List (BitVec 8)}
    (hrun : Typed profile c₀ typed c) :
    ∃ taken sent, Accounts profile c₀ typed taken sent c ∧
      c₀.mem.uart.rx ++ typed = taken ++ c.mem.uart.rx ∧
      c.mem.uart.tx = c₀.mem.uart.tx ++ sent := by
  suffices haccounts : ∃ taken sent, Accounts profile c₀ typed taken sent c ∧
      c₀.mem.uart.Conserves c.mem.uart typed taken sent by
    obtain ⟨taken, sent, htrace, hrx, htx⟩ := haccounts
    exact ⟨taken, sent, htrace, hrx, htx⟩
  induction hrun with
  | start => exact ⟨[], [], .start, Uart.Conserves.refl _⟩
  | step _ hstep ih =>
      obtain ⟨taken, sent, htrace, hpast⟩ := ih
      obtain ⟨taken', sent', hconserves, hexchange⟩ := step_exchange hstep
      refine ⟨taken ++ taken', sent ++ sent', htrace.step hstep hexchange, ?_⟩
      simpa using hpast.trans hconserves
  | @input typed c bytes _ ih =>
      obtain ⟨taken, sent, htrace, hpast⟩ := ih
      have htyped : c.mem.uart.Conserves (c.pushInput bytes).mem.uart bytes
          [] [] := c.mem.uart.conserves_typed bytes
      refine ⟨taken, sent, htrace.input bytes, ?_⟩
      simpa using hpast.trans htyped

/-- A kernel that asks the firmware for a byte and prints it. -/
def echoingHart : Cpu :=
  -- addi a7, x0, 2; ecall; addi a7, x0, 1; ecall
  (programmedHart .rv64
    [0x00200893, 0x00000073, 0x00100893, 0x00000073]).bootSupervisor
      DRAM_BASE 0 0

/-- Two bytes are typed while it gets ready to ask. -/
def askedHart : Cpu :=
  (stepped .debug echoingHart).pushInput [0x41, 0x42]

def echoedHart : Cpu :=
  (stepped .debug)^[3] askedHart

/-- It has taken the first byte and sent it back. -/
theorem console_streams_echo :
    Accounts .debug echoingHart [0x41, 0x42] [0x41] [0x41] echoedHart := by
  have hready : step .debug echoingHart =
      some (.ok (), stepped .debug echoingHart) :=
    step_eq_stepped (by decide +kernel)
  have hasked : step .debug askedHart = some (.ok (), stepped .debug askedHart) :=
    step_eq_stepped (by decide +kernel)
  have hset : step .debug (stepped .debug askedHart) =
      some (.ok (), (stepped .debug)^[2] askedHart) :=
    step_eq_stepped (by decide +kernel)
  have hprinted : step .debug ((stepped .debug)^[2] askedHart) =
      some (.ok (), echoedHart) :=
    step_eq_stepped (by decide +kernel)
  have hrun : Typed .debug echoingHart ([] ++ [0x41, 0x42]) echoedHart :=
    (((Typed.start.step hready).input [0x41, 0x42]).step hasked).step hset
      |>.step hprinted
  obtain ⟨taken, sent, haccounts, hrx, htx⟩ := console_streams hrun
  have hqueue : echoingHart.mem.uart.rx = [] ∧
      echoedHart.mem.uart.rx = [0x42] := by decide +kernel
  have hlog : echoingHart.mem.uart.tx = [] ∧
      echoedHart.mem.uart.tx = [0x41] := by decide +kernel
  rw [hqueue.1, hqueue.2] at hrx
  rw [hlog.1, hlog.2] at htx
  have htaken : taken = [0x41] :=
    (List.append_left_inj [0x42]).mp hrx.symm
  have hsent : sent = [0x41] := htx.symm
  rw [htaken, hsent] at haccounts
  exact haccounts

/-- It asks in the straight way: no walk, fetch or pointer strays. -/
example : ¬ Strays .debug askedHart := by
  rintro (hpanics | ⟨-, hpoints⟩)
  · have hgets : (stepThrough (shunning (stepData .debug askedHart)) .debug
        askedHart).isSome = true := by decide +kernel
    rw [hpanics] at hgets
    cases hgets
  · revert hpoints
    unfold PointsElsewhere IsDebugConsole
    decide +kernel

end Cpu

end Nanoemu
