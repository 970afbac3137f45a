import Nanoemu.AddressWidth
import Nanoemu.IllegalEncoding
import Nanoemu.SupervisorTimer

/-!
# What a call into the firmware leaves alone

A supervisor call is answered outside the path of the other instructions: it
reaches the registers, the devices and the cache directly.  For the caller it
is an instruction all the same, with one or two registers as its results.
-/

namespace Nanoemu

open CheckedProgram Mmu

/-- Some entries have their accessed bit set now; the rest of DRAM is as it
was. -/
structure AccessedOnly (size : ℕ) (dram dram' : Dram) : Prop where
  len : dram'.len = dram.len
  bytes : ∀ i, dram'.byte i = dram.byte i ∨
    size ∣ i ∧ dram'.byte i = dram.byte i ||| A.setWidth 8

theorem AccessedOnly.refl (size : ℕ) (dram : Dram) :
    AccessedOnly size dram dram :=
  ⟨rfl, fun _ => Or.inl rfl⟩

theorem AccessedOnly.trans {size : ℕ} {first second third : Dram}
    (hfirst : AccessedOnly size first second)
    (hsecond : AccessedOnly size second third) :
    AccessedOnly size first third := by
  refine ⟨hsecond.len.trans hfirst.len, fun i => ?_⟩
  rcases hsecond.bytes i with hsame | ⟨hdvd, hmarked⟩
  · rw [hsame]
    exact hfirst.bytes i
  · right
    refine ⟨hdvd, ?_⟩
    rw [hmarked]
    rcases hfirst.bytes i with hsame | ⟨-, hmarked'⟩
    · rw [hsame]
    · rw [hmarked', BitVec.or_assoc, BitVec.or_self]

def accessedFrame (size : ℕ) : Frame Dram where
  rel := AccessedOnly size
  refl := AccessedOnly.refl size
  trans := AccessedOnly.trans

theorem leByte_accessed (dram : Dram) {i size k : ℕ} (hsize : size ≤ 8)
    (hk : k < size) :
    Dram.leByte (dram.loadLe i size ||| A) k =
      if k = 0 then dram.byte i ||| A.setWidth 8 else dram.byte (i + k) := by
  apply BitVec.eq_of_getLsbD_eq
  intro b hb
  have hflag : ∀ j < 64, A.getLsbD j = decide (j = 6) := by decide
  have hdiv : (8 * k + b) / 8 = k := by omega
  have hmod : (8 * k + b) % 8 = b := by omega
  have hin : 8 * k + b < 8 * size := by omega
  rw [Dram.getLsbD_leByte _ _ _ hb, BitVec.getLsbD_or,
    Dram.getLsbD_loadLe _ _ _ _ hsize, hdiv, hmod,
    hflag _ (by omega)]
  by_cases hzero : k = 0
  · subst hzero
    rw [if_pos rfl, BitVec.getLsbD_or, BitVec.getLsbD_setWidth,
      hflag _ (by omega)]
    have hlow : b < 8 * size := by omega
    simp [hlow, hb]
  · have hother : ¬ 8 * k + b = 6 := by omega
    rw [if_neg hzero]
    simp [hin, hother]

theorem accessedFrame_marks {size : ℕ} (hsize : 0 < size ∧ size ≤ 8) :
    KeepsMarks (accessedFrame size) size .fetch := by
  intro mem addr hdvd
  rw [Memory.stored_dram]
  refine ⟨Dram.storeLe_len _ _ _ _, fun i => ?_⟩
  by_cases hin : Memory.offset addr ≤ i ∧ i < Memory.offset addr + size
  · obtain ⟨k, rfl⟩ := Nat.exists_eq_add_of_le hin.1
    have hk : k < size := by omega
    have hbyte := leByte_accessed mem.dram (i := Memory.offset addr) hsize.2 hk
    have hstored : (mem.dram.storeLe (Memory.offset addr) size
        (mem.dram.loadLe (Memory.offset addr) size ||| need .fetch)).byte
          (Memory.offset addr + k) =
        Dram.leByte (mem.dram.loadLe (Memory.offset addr) size ||| A) k := by
      unfold Dram.storeLe
      dsimp only
      rw [if_pos hin, Nat.add_sub_cancel_left]
      rfl
    rw [hstored, hbyte]
    by_cases hzero : k = 0
    · rw [if_pos hzero, hzero, Nat.add_zero]
      exact Or.inr ⟨hdvd, rfl⟩
    · left
      rw [if_neg hzero]
  · left
    rw [Dram.storeLe_byte_outside _ _ hin]

namespace Cpu

variable {profile : Profile} {c c' : Cpu} {outcome : Except Exception Unit}
  {inst : BitVec 32}

def fetchMarksFrame : Frame Cpu where
  rel c c' := c'.xlen = c.xlen ∧
    AccessedOnly (entrySize c.xlen) c.mem.dram c'.mem.dram
  refl c := ⟨rfl, AccessedOnly.refl _ _⟩
  trans := by
    rintro c c' c'' ⟨hxlen, hfirst⟩ ⟨hxlen', hsecond⟩
    rw [hxlen] at hsecond
    exact ⟨hxlen'.trans hxlen, hfirst.trans hsecond⟩

theorem translateFetch_marks (va : BitVec 64) :
    (translate va .fetch).Keeps fetchMarksFrame := by
  intro profile c
  have hmarks := translate_tables (accessedFrame_marks
    (entrySize_bounds c.xlen)) (c.csrs.read Csr.SATP)
      (c.csrs.read Csr.MSTATUS) c.privMode va profile c.mem
  apply Program.Ensures.bind
  apply Program.Ensures.read
  apply Program.Ensures.ite
  · exact fun _ => Program.Ensures.pure (fetchMarksFrame.refl c)
  · intro _
    apply Program.Ensures.bind
    apply onMemory_ensures
    apply hmarks.mono
    · intro pa mem hmem
      apply Program.Ensures.bind
      apply Program.Ensures.update
      exact Program.Ensures.pure ⟨rfl, hmem⟩
    · exact fun _ _ hmem => ⟨rfl, hmem⟩

theorem fetch_marks : fetch.Keeps fetchMarksFrame := by
  apply fetch_frame translateFetch_marks
  intro fault pa size
  apply Program.Keeps.zoom
    (Program.Keeps.mapError (Memory.read_keeps_dram pa size))
  intro c mem hdram
  refine ⟨rfl, ?_⟩
  rw [show mem.dram = c.mem.dram from hdram]
  exact AccessedOnly.refl _ _

/-- The encodings that are decoded as ECALL. -/
def IsEcall (inst : BitVec 32) : Prop :=
  (opcode inst).toNat = 0x73 ∧ funct3 inst = 0 ∧ inst >>> 20 = 0

theorem execute_ecall (hecall : IsEcall inst) (instPc nextPc : BitVec 64)
    (profile : Profile) (c : Cpu) :
    execute inst instPc nextPc profile c =
      some (.error .environmentCall, { c with pc := nextPc }) := by
  obtain ⟨hop, hf3, hcall⟩ := hecall
  have hplace : setPc nextPc profile c =
      some (.ok (), { c with pc := nextPc }) := rfl
  rw [execute, Program.bind_run_ok hplace, hop]
  change (if funct3 inst = 0 then executePriv inst else executeCsr inst)
    profile _ = _
  rw [if_pos hf3, executePriv, Program.bind_run_ok (Program.read_run _ _ _),
    if_pos hcall]
  rfl

/-- The call is raised by ECALL alone, which does nothing else. -/
theorem execute_call {instPc nextPc : BitVec 64}
    (hrun : execute inst instPc nextPc profile c =
      some (.error .environmentCall, c')) :
    IsEcall inst ∧ c' = { c with pc := nextPc } := by
  by_cases hsystem : (opcode inst).toNat = 0x73 ∧ funct3 inst = 0
  · obtain ⟨hop, hf3⟩ := hsystem
    have hplace : setPc nextPc profile c =
        some (.ok (), { c with pc := nextPc }) := rfl
    rw [execute, Program.bind_run_ok hplace, hop] at hrun
    change (if funct3 inst = 0 then executePriv inst else executeCsr inst)
      profile _ = _ at hrun
    rw [if_pos hf3, executePriv,
      Program.bind_run_ok (Program.read_run _ _ _)] at hrun
    by_cases hcall : inst >>> 20 = 0
    · rw [if_pos hcall] at hrun
      cases hrun
      exact ⟨⟨hop, hf3, hcall⟩, rfl⟩
    · rw [if_neg hcall] at hrun
      simp only [Program.ite_run] at hrun
      split_ifs at hrun <;> cases hrun
  · have hother : Exception.AllowsFaults inst (· ≠ .environmentCall) := by
      constructor <;> simp
    have hraises := execute_kinds hother
      (fun _ => accesses_raise hother anyFrame_respects) instPc nextPc
      fun hop hf3 => absurd ⟨hop, hf3⟩ hsystem
    exact absurd rfl ((hraises profile c).error hrun).2

theorem base_not_ecall {b : Rvc.Base} {xlen : Xlen}
    (hsorted : b.IsFloat ∨ b.Accepted xlen) : ¬ IsEcall b.encode := by
  have hop := Rvc.Base.opcode_encode b
  rintro ⟨hsystem, -, hfunct⟩
  rw [hop] at hsystem
  rcases hsorted with hfloat | haccepted
  · rcases hfloat.fields.1 with h | h <;> rw [h] at hsystem <;>
      exact absurd hsystem (by decide)
  · cases haccepted with
    | ebreak => exact absurd hfunct (by decide)
    | shift hbase _ _ _ =>
        rcases hbase with rfl | rfl | rfl <;>
          simp [Rvc.Base.opcode, Rvc.Base.slli, Rvc.Base.srli,
            Rvc.Base.srai] at hsystem
    | _ =>
        simp [Rvc.Base.opcode, Rvc.Base.addiw, Rvc.Base.lui, Rvc.Base.jal,
          Rvc.Base.jalr] at hsystem

/-- No compressed instruction expands to it. -/
theorem fetched_call {len : BitVec 64}
    (hfetch : fetch profile c = some (.ok (inst, len), c'))
    (hcall : IsEcall inst) : len = 4 := by
  rw [fetch_eq] at hfetch
  obtain ⟨word, x, hword, hdecoded⟩ := Program.bind_ok hfetch
  by_cases hlow : word &&& 0x3 ≠ 0x3
  · have hhalf := (encodingAt_ensures profile c).ok hword hlow
    rw [decoded_short hlow hhalf] at hdecoded
    have hexpanded : x.expanded (word.setWidth 16) = .ok (inst, len) := by
      simp only [Option.some.injEq, Prod.mk.injEq] at hdecoded
      exact hdecoded.1
    obtain ⟨b, rfl, hsorted⟩ := expanded_sorted hexpanded
    exact absurd hcall (base_not_ecall (hsorted.imp_left And.right))
  · rw [decoded_long hlow] at hdecoded
    cases hdecoded
    rfl

/-! ## The registers of a call -/

def resultRegs (eid : BitVec 64) : List (Fin 32) :=
  if eid < 0x10 then [a0] else [a0, a1]

/-- The other registers stay. -/
def answerRegsFrame (results : List (Fin 32)) : Frame Cpu where
  rel c c' := ∀ r ∉ results, c'.regs r = c.regs r
  refl _ _ _ := rfl
  trans hfirst hsecond r hr := (hsecond r hr).trans (hfirst r hr)

section Registers

variable {results : List (Fin 32)}

theorem Moves.quiet {α : Type} {prog : Hart α} (h : prog.Moves regsFrame) :
    prog.Moves (answerRegsFrame results) := by
  intro profile c
  apply (h profile c).mono
  · exact fun _ _ hregs r _ => congrFun hregs r
  · exact fun _ _ hfalse => hfalse

theorem setArg_answers {r : Fin 32} (hr : r ∈ results) (v : BitVec 64) :
    (setArg r v).Moves (answerRegsFrame results) := by
  apply Program.Moves.update
  intro c other hother
  apply Function.update_of_ne
  rintro rfl
  exact hother hr

theorem writes_answers {α : Type} {prog : Hart α} {r : Fin 32}
    (hr : r ∈ results)
    (h : ∀ profile c, ∃ v, prog.Ensures profile c
      (fun _ c' => c'.regs = Function.update c.regs r v)
      (fun _ _ => False)) : prog.Moves (answerRegsFrame results) := by
  intro profile c
  obtain ⟨v, hensures⟩ := h profile c
  apply hensures.mono
  · intro _ c' hregs other hother
    rw [hregs]
    apply Function.update_of_ne
    rintro rfl
    exact hother hr
  · exact fun _ _ hfalse => hfalse

theorem handleLegacy_answers (eid arg : BitVec 64) :
    (handleLegacy eid arg).Moves (answerRegsFrame [a0]) := by
  have hreply : ∀ {body : Hart Unit} (v : BitVec 64),
      body.Moves regsFrame → Program.Moves (answerRegsFrame [a0]) (do
        body
        setArg a0 v
        pure true : Hart Bool) := by
    intro body v hbody
    apply (Moves.quiet hbody).bind
    intro _
    exact (setArg_answers List.mem_cons_self v).bind
      fun _ => Program.Moves.pure _
  apply Program.Moves.ite
  · exact hreply 0 (Program.Moves.update fun _ => rfl)
  apply Program.Moves.ite (hreply 0 (putchar_regs _))
  apply Program.Moves.ite
  · have hgetchar : consoleGetchar.Moves (answerRegsFrame [a0]) :=
      writes_answers List.mem_cons_self fun profile c =>
        ⟨_, consoleGetchar_regs profile c⟩
    exact hgetchar.bind fun _ => Program.Moves.pure _
  apply Program.Moves.ite (Program.Moves.pure _)
  apply Program.Moves.ite
  · have hsend : (legacySendIpi arg).Moves (answerRegsFrame [a0]) :=
      writes_answers List.mem_cons_self fun profile c =>
        ⟨0, legacySendIpi_regs arg profile c⟩
    exact hsend.bind fun _ => Program.Moves.pure _
  apply Program.Moves.ite
  · exact hreply 0 (Program.Moves.update fun _ => rfl)
  apply Program.Moves.ite
  · exact hreply 0 (Program.Moves.update fun _ => rfl)
  · exact (setArg_answers List.mem_cons_self _).bind
      fun _ => Program.Moves.pure _

theorem consoleWrite_quiet (addr : BitVec 64) (remaining : ℕ)
    (i : BitVec 64) : (consoleWrite addr remaining i).Moves regsFrame := by
  induction remaining generalizing i with
  | zero => exact Program.Moves.pure _
  | succ remaining ih =>
      apply Program.Moves.bind (Program.Moves.check _)
      intro source
      apply (tryRead_regs source 1).bind
      intro byte
      cases byte with
      | error _ => exact Program.Moves.pure _
      | ok b =>
          apply (putchar_regs _).bind
          intro _
          apply Program.Moves.bind (Program.Moves.check _)
          intro next
          exact ih next

theorem handleExtension_quiet (eid fid arg0 arg1 : BitVec 64) :
    (handleExtension eid fid arg0 arg1).Moves regsFrame := by
  have hsuccess : ∀ {body : Hart Unit}, body.Moves regsFrame →
      Program.Moves regsFrame (do
        body
        pure (some Sbi.Ret.success) : Hart (Option Sbi.Ret)) :=
    fun hbody => hbody.bind fun _ => Program.Moves.pure _
  apply Program.Moves.ite (Program.Moves.pure _)
  apply Program.Moves.ite
  · exact hsuccess (Program.Moves.update fun _ => rfl)
  apply Program.Moves.ite
  · apply Program.Moves.bind (Program.Moves.check _)
    intro selected
    apply Program.Moves.ite _ (Program.Moves.pure _)
    exact hsuccess (Program.Moves.update fun _ => rfl)
  apply Program.Moves.ite
  · exact hsuccess (Program.Moves.update fun _ => rfl)
  apply Program.Moves.ite (Program.Moves.pure _)
  apply Program.Moves.ite (Program.Moves.pure _)
  apply Program.Moves.ite
  · exact (consoleWrite_quiet arg1 _ 0).bind fun _ => Program.Moves.pure _
  apply Program.Moves.ite _ (Program.Moves.pure _)
  exact hsuccess (putchar_regs _)

end Registers

theorem answerCall_regs (hanswer : answerCall profile c = some (outcome, c'))
    {r : Fin 32} (hr : r ∉ resultRegs (c.regs 17)) :
    c'.regs r = c.regs r := by
  have hlast : ∀ running : Bool, Program.Moves regsFrame (do
      if running then pure ()
      else Program.update fun c => { c with shutdown := true } : Hart Unit) :=
    fun running => Program.Moves.ite (Program.Moves.pure _)
      (Program.Moves.update fun _ => rfl)
  have hsbi : Program.Moves (answerRegsFrame (resultRegs (c.regs 17)))
      (if c.regs 17 < 0x10 then handleLegacy (c.regs 17) (c.regs a0)
        else handleExtension (c.regs 17) (c.regs 16) (c.regs a0)
          (c.regs a1) >>= replyCall) := by
    unfold resultRegs
    split
    · exact handleLegacy_answers _ _
    · apply (Moves.quiet (handleExtension_quiet _ _ _ _)).bind
      intro reply
      cases reply with
      | none => exact Program.Moves.pure _
      | some ret =>
          apply (setArg_answers List.mem_cons_self ret.error).bind
          intro _
          have hlater : a1 ∈ [a0, a1] := by decide
          exact (setArg_answers hlater ret.value).bind
            fun _ => Program.Moves.pure _
  have hensures : answerCall.Ensures profile c
      (fun _ c' => (answerRegsFrame (resultRegs (c.regs 17))).rel c c')
      (fun _ _ => False) := by
    apply Program.Ensures.bind
    apply Program.Ensures.bind
    apply Program.Ensures.read
    apply (hsbi profile c).mono
    · intro running c₁ hmoved
      apply (Moves.quiet (hlast running) profile c₁).mono
      · exact fun _ _ hrest => Frame.trans _ hmoved hrest
      · exact fun _ _ hfalse => hfalse
    · exact fun _ _ hfalse => hfalse
  cases outcome with
  | ok value => exact hensures.ok hanswer r hr
  | error e => exact (hensures.error hanswer).elim

/-! ## The step -/

theorem fetched_touched {len : BitVec 64} {c₁ : Cpu}
    (hfetch : fetch profile c.fetching = some (.ok (inst, len), c₁)) :
    Touched c.fetching c₁ :=
  ((fetch_ensures profile c.fetching).ok hfetch).1

/-- An ECALL that has been fetched raises the call. -/
theorem fetchExecute_ecall {len : BitVec 64}
    (hfetch : fetch profile c = some (.ok (inst, len), c'))
    (hecall : IsEcall inst) (instPc : BitVec 64) :
    fetchExecute instPc profile c =
      some (.error .environmentCall, { c' with pc := c'.pc + len }) := by
  rw [fetchExecute, Program.bind_run_ok hfetch]
  dsimp only
  rw [Program.bind_run_ok (Program.read_run _ _ _)]
  exact execute_ecall hecall _ _ profile c'

/-- The firmware is called by an ECALL that has been fetched. -/
theorem answered_ecall {e : Exception} {x : Cpu}
    (hpending : c.ticked.pendingInterrupt = none)
    (hfail : fetchExecute c.ticked.pc profile c.fetching = some (.error e, x))
    (hcalls : x.callsFirmware e = true) :
    ∃ inst c₁, Fetched profile c inst 4 c₁ ∧ IsEcall inst ∧
      x = { c₁ with pc := c.pc + 4 } := by
  obtain ⟨rfl, -, -⟩ := callsFirmware_eq_true hcalls
  obtain ⟨inst, len, c₁, hfetched, hexecute⟩ :=
    answered_fetched hpending hfail hcalls
  obtain ⟨hecall, hplaced⟩ := execute_call hexecute
  obtain rfl := fetched_call hfetched.word hecall
  exact ⟨inst, c₁, hfetched, hecall, hplaced⟩

/-- The calls are the ECALLs of supervisor mode, where there is a firmware. -/
theorem calls_iff_ecall :
    Calls profile c ↔ c.ticked.pendingInterrupt = none ∧ c.sbi = true ∧
      c.privMode = .supervisor ∧
      ∃ inst c₁, fetch profile c.fetching = some (.ok (inst, 4), c₁) ∧
        IsEcall inst := by
  have hticked : Ticked c c.ticked := ticked_ticked c
  have hsbi : c.fetching.sbi = c.sbi := (congrArg Cpu.sbi hticked.frame :)
  have hmode : c.fetching.privMode = c.privMode :=
    (congrArg Cpu.privMode hticked.frame :)
  constructor
  · rintro ⟨hpending, e, x, hfail, hfirmware⟩
    obtain ⟨inst, c₁, hfetched, hecall, rfl⟩ :=
      answered_ecall hpending hfail hfirmware
    obtain ⟨-, hcallee, hcaller⟩ := callsFirmware_eq_true hfirmware
    have htouched := fetched_touched hfetched.word
    refine ⟨hpending, ?_, ?_, inst, c₁, hfetched.word, hecall⟩
    · rw [← hsbi, ← hcallee]
      exact (congrArg Cpu.sbi htouched.frame :).symm
    · rw [← hmode, ← hcaller]
      exact (congrArg Cpu.privMode htouched.frame :).symm
  · rintro ⟨hpending, hfirmware, hsupervisor, inst, c₁, hfetch, hecall⟩
    have htouched := fetched_touched hfetch
    refine ⟨hpending, _, _, fetchExecute_ecall hfetch hecall _, ?_⟩
    have hsbi' : c₁.sbi = true :=
      (congrArg Cpu.sbi htouched.frame :).trans (hsbi.trans hfirmware)
    have hmode' : c₁.privMode = .supervisor :=
      (congrArg Cpu.privMode htouched.frame :).trans (hmode.trans hsupervisor)
    simp [callsFirmware, hsbi', hmode']

theorem Calls.answered (hcalls : Calls profile c)
    (hstep : step profile c = some (outcome, c')) :
    ∃ inst c₁, fetch profile c.fetching = some (.ok (inst, 4), c₁) ∧
      answerCall profile { c₁ with pc := c.pc + 4 } = some (.ok (), c') := by
  obtain ⟨hpending, e, x, hfail, hfirmware⟩ := hcalls
  cases step_course hstep with
  | interrupt hinterrupt _ => cases hpending.symm.trans hinterrupt
  | retired _ hfetch hexecute =>
      have hretires := Retires.mk hpending hfetch hexecute
      cases (retiredInst_of_error hfail).symm.trans hretires.retiredInst
  | exception _ hfail' hrefused _ =>
      cases hfail.symm.trans hfail'
      cases hfirmware.symm.trans hrefused
  | answered _ hfail' _ hanswer =>
      cases hfail.symm.trans hfail'
      obtain ⟨inst, c₁, hfetched, -, rfl⟩ :=
        answered_ecall hpending hfail hfirmware
      exact ⟨inst, c₁, hfetched.word, hanswer⟩

/-- The numbers of the registers that move: the pending bits, the cycles and
the time. -/
def callCsrs : List (BitVec 12) :=
  [Csr.MIP, Csr.SIP, Csr.CYCLE, Csr.MCYCLE, Csr.CYCLEH, Csr.MCYCLEH, Csr.TIME,
    Csr.TIMEH]

theorem source_not_ticked {addr : BitVec 12} (haddr : addr ∉ callCsrs) :
    CsrFile.source addr ∉ tickedCsrs := by
  by_cases halias : addr ∈ CsrFile.aliases
  · have hall : CsrFile.aliases.all (fun addr => callCsrs.contains addr ||
        !tickedCsrs.contains (CsrFile.source addr)) = true := by decide
    have hone := List.all_eq_true.mp hall addr halias
    simpa [haddr] using hone
  · rw [CsrFile.source_of_not_alias halias]
    have hwithin : tickedCsrs ⊆ callCsrs := by decide
    exact fun hticked => haddr (hwithin hticked)

/-- What a call leaves alone: all but its results, the pending bits, the
counters that run anyway and the marks of its own fetch. -/
structure CallFrame (profile : Profile) (c c' : Cpu) : Prop where
  regs : ∀ r ∉ resultRegs (c.regs 17), c'.regs r = c.regs r
  fregs : c'.fregs = c.fregs
  privMode : c'.privMode = c.privMode
  csrs : ∀ addr ∉ callCsrs, c'.csrs.read addr = c.csrs.read addr
  pc : c'.pc = c.pc + 4
  dram : ∃ inst c₁, fetch profile c.fetching = some (.ok (inst, 4), c₁) ∧
    AccessedOnly (entrySize c.xlen) c.mem.dram c₁.mem.dram ∧
    c'.mem.dram = c₁.mem.dram

/-- To its caller a call into the firmware is an instruction that writes its
results and goes on behind itself. -/
theorem step_callFrame (hcalls : Calls profile c)
    (hstep : step profile c = some (outcome, c')) :
    CallFrame profile c c' := by
  obtain ⟨inst, c₁, hfetch, hanswer⟩ := hcalls.answered hstep
  have hticked : Ticked c c.ticked := ticked_ticked c
  have hreached : c₁ = { c.fetching with mem := c₁.mem, tlb := c₁.tlb } :=
    (fetched_touched hfetch).frame
  have hsame : c₁.regs = c.regs ∧ c₁.fregs = c.fregs ∧
      c₁.privMode = c.privMode ∧ c₁.csrs = c.ticked.csrs := by
    rw [hreached]
    exact ⟨(congrArg Cpu.regs hticked.frame :),
      (congrArg Cpu.fregs hticked.frame :),
      (congrArg Cpu.privMode hticked.frame :), rfl⟩
  obtain ⟨hregs, hfregs, hmode, hcsrs⟩ := hsame
  have hanswered : Answered { c₁ with pc := c.pc + 4 } c' :=
    (answerCall_answers profile _).ok hanswer
  have hmarks : fetchMarksFrame.rel c.fetching c₁ :=
    fetch_marks.of_run hfetch
  refine ⟨?_, ?_, ?_, ?_, ?_, inst, c₁, hfetch, ?_, hanswered.dram⟩
  · intro r hr
    rw [← hregs] at hr ⊢
    exact answerCall_regs hanswer hr
  · exact (congrArg Cpu.fregs hanswered.frame :).trans hfregs
  · exact hanswered.privMode.trans hmode
  · intro addr haddr
    have hsource := source_not_ticked haddr
    apply CsrFile.read_congr
    · exact hanswered.xlen.trans
        ((congrArg CsrFile.xlen hcsrs).trans hticked.xlen)
    · have hpending : CsrFile.source addr ≠ Csr.MIP := by
        intro h
        rw [h] at hsource
        exact hsource (by decide)
      rw [hanswered.csrs _ hpending]
      exact (congrFun (congrArg CsrFile.regs hcsrs) _).trans
        (hticked.csrs _ hsource)
  · exact (congrArg Cpu.pc hanswered.frame :)
  · have hxlen : c.fetching.xlen = c.xlen :=
      (congrArg Cpu.xlen hticked.frame :)
    have hdram : c.fetching.mem.dram = c.mem.dram := hticked.dram
    rw [← hxlen, ← hdram]
    exact hmarks.2

/-- The kernel that sets its timer. -/
theorem step_callFrame_timer :
    CallFrame .debug (timedHart .rv64 3 0)
      (stepped .debug (timedHart .rv64 3 0)) := by
  have hstep : step .debug (timedHart .rv64 3 0) =
      some (.ok (), stepped .debug (timedHart .rv64 3 0)) :=
    step_eq_stepped (by decide +kernel)
  exact step_callFrame (calls_iff.mpr (by decide +kernel)) hstep

end Cpu

end Nanoemu
