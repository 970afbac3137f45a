import Nanoemu.CompressedHints
import Nanoemu.FetchFaults
import Nanoemu.StepCourse

/-!
# Steps over the compressed instructions

A step whose pc addresses a 16-bit encoding does what the C extension says of
it, unless the encoding is a hint that the decoder drops or the word around it
leaves DRAM.
-/

namespace Nanoemu

open CheckedProgram

namespace Dram

def half (dram : Dram) (i : ℕ) : BitVec 16 :=
  dram.byte (i + 1) ++ dram.byte i

theorem loadLe_half (dram : Dram) {i count : ℕ} (hlow : 2 ≤ count)
    (hhigh : count ≤ 8) :
    (dram.loadLe i count).setWidth 16 = dram.half i := by
  apply BitVec.eq_of_getLsbD_eq
  intro j hj
  have hin : j < 8 * count := by omega
  rw [BitVec.getLsbD_setWidth, getLsbD_loadLe dram i count j hhigh, half,
    BitVec.getLsbD_append]
  by_cases hbyte : j < 8
  · simp [hbyte, hin, hj, Nat.div_eq_of_lt hbyte, Nat.mod_eq_of_lt hbyte]
  · have hdiv : j / 8 = 1 := by omega
    have hmod : j % 8 = j - 8 := by omega
    simp [hbyte, hin, hj, hdiv, hmod]

theorem loadLe_two (dram : Dram) (i : ℕ) :
    dram.loadLe i 2 = (dram.half i).setWidth 64 := by
  rw [← loadLe_half dram le_rfl (by decide)]
  apply BitVec.eq_of_getLsbD_eq
  intro j hj
  rw [BitVec.getLsbD_setWidth, BitVec.getLsbD_setWidth]
  by_cases hlow : j < 16
  · simp [hlow, hj]
  · rw [getLsbD_loadLe_of_ge dram (by decide) (not_lt.mp hlow)]
    simp [hlow]

end Dram

namespace Rvc

open FieldWords

theorem low_bits_iff {w : ℕ} (word : BitVec w) :
    (word.setWidth 32) &&& 0x3 = 0x3 ↔ op (word.setWidth 16) = 3 := by
  have hmask : (word.setWidth 32) &&& 0x3 =
      ((word.setWidth 32).setWidth 2).setWidth 32 :=
    and_ones (k := 2) _ (by decide)
  have hfield : (word.setWidth 32).setWidth 2 = op (word.setWidth 16) := by
    apply BitVec.eq_of_getLsbD_eq
    intro j hj
    simp [op, hj]
  rw [hmask, hfield]
  exact setWidth_inj (b := 3#2) (by decide)

theorem low_bits_half (word : BitVec 32) :
    (word &&& 0xffff) &&& 0x3 = word &&& 0x3 := by
  rw [BitVec.and_assoc]
  rfl

end Rvc

namespace Cpu

/-- The pc addresses the 16-bit encoding `h` in DRAM: `pa` is the address it
is translated to, and `x` the hart once it is. -/
structure Addressed (profile : Profile) (c : Cpu) (h : BitVec 16)
    (pa : BitVec 64) (x : Cpu) : Prop where
  even : c.pc &&& 1 = 0
  translated : translate c.pc .fetch profile c = some (.ok pa, x)
  inDram : x.mem.InDram pa 2
  half : x.mem.dram.half (Memory.offset pa) = h
  compressed : Rvc.op h ≠ 3

/-- The fetch reads a word, except in the last halfword of a page. -/
def ReadsWord (c : Cpu) : Prop :=
  c.pc &&& 0xfff ≤ 0xffc

section Fetch

variable {profile : Profile} {c x : Cpu} {h : BitVec 16} {pa : BitVec 64}

theorem physRead_inDram {fault : Exception} {size : ℕ}
    (hin : c.mem.InDram pa size) (hsize : Memory.validSize size = true) :
    physRead fault pa size profile c =
      some (.ok (c.mem.dram.loadLe (Memory.offset pa) size), c) := by
  unfold physRead onMemory Program.zoom Program.mapError
  rw [Memory.read_inDram hin hsize]

theorem physRead_outside {fault : Exception} {size : ℕ}
    (hbase : DRAM_BASE ≤ pa) (hout : ¬ c.mem.InDram pa size) :
    physRead fault pa size profile c = some (.error fault, c) := by
  have hread : Memory.read pa size profile c.mem =
      some (.error .unmapped, c.mem) := by
    rw [Memory.read, if_pos hbase,
      Program.bind_run_ok (Program.read_run _ _ _),
      Memory.index_of_not_inDram hout]
    rfl
  unfold physRead onMemory Program.zoom Program.mapError
  rw [hread]

/-- What the decoder makes of an encoding, in the hart that has read it. -/
def expanded (x : Cpu) (h : BitVec 16) :
    Except Exception (BitVec 32 × BitVec 64) :=
  match decompress (h.setWidth 32) x.xlen with
  | none => .error (.illegalInstruction (h.setWidth 32))
  | some inst => .ok (inst, 2)

theorem expand_run (profile : Profile) (x : Cpu) (h : BitVec 16) :
    expand (h.setWidth 32) profile x = some (x.expanded h, x) := by
  unfold expand expanded
  rw [Program.bind_run_ok (Program.read_run _ _ _)]
  dsimp only [id]
  cases decompress (h.setWidth 32) x.xlen with
  | none => rfl
  | some inst => rfl

theorem Addressed.even_pc (haddr : Addressed profile c h pa x) :
    ¬ (c.pc &&& 0x1 ≠ 0) :=
  not_not.mpr haddr.even

theorem fetch_expands (haddr : Addressed profile c h pa x)
    (hfits : c.ReadsWord → x.mem.InDram pa 4) :
    fetch profile c = some (x.expanded h, x) := by
  unfold fetch
  rw [Program.bind_run_ok (Program.read_run _ _ _), if_neg haddr.even_pc]
  by_cases hword : c.pc &&& 0xfff ≤ 0xffc
  · have hhalf : (x.mem.dram.loadLe (Memory.offset pa) 4).setWidth 16 = h :=
      (x.mem.dram.loadLe_half (by decide) (by decide)).trans haddr.half
    have hlow : ((x.mem.dram.loadLe (Memory.offset pa) 4).setWidth 32) &&&
        0x3 ≠ 0x3 := by
      rw [ne_eq, Rvc.low_bits_iff, hhalf]
      exact haddr.compressed
    have hmask : ((x.mem.dram.loadLe (Memory.offset pa) 4).setWidth 32) &&&
        0xffff = h.setWidth 32 := by
      rw [← hhalf]
      refine (FieldWords.and_ones (k := 16) _ (by decide)).trans ?_
      exact congrArg (BitVec.setWidth 32)
        (BitVec.setWidth_setWidth_of_le _ (by decide))
    rw [if_pos hword, Program.bind_run_ok haddr.translated,
      Program.bind_run_ok (physRead_inDram (hfits hword) rfl)]
    rw [if_pos hlow, hmask]
    exact expand_run profile x h
  · have hhalf : (x.mem.dram.loadLe (Memory.offset pa) 2) = h.setWidth 64 := by
      rw [Dram.loadLe_two, haddr.half]
    have hlow : ((h.setWidth 64).setWidth 32) &&& 0x3 ≠ 0x3 := by
      rw [ne_eq, Rvc.low_bits_iff,
        FieldWords.setWidth_setWidth_of_le h (by decide), BitVec.setWidth_eq]
      exact haddr.compressed
    have hread : fetchHalf c.pc profile c = some (.ok (h.setWidth 64), x) := by
      unfold fetchHalf
      rw [Program.bind_run_ok haddr.translated,
        physRead_inDram haddr.inDram rfl, hhalf]
    rw [if_neg hword, Program.bind_run_ok hread]
    rw [if_pos hlow, FieldWords.setWidth_setWidth_of_le h (by decide)]
    exact expand_run profile x h

/-- The word around the encoding is read and is not all there. -/
theorem fetch_faults (haddr : Addressed profile c h pa x)
    (hword : c.ReadsWord) (hout : ¬ x.mem.InDram pa 4) :
    fetch profile c = some (.error (.instructionAccessFault c.pc), x) := by
  have hpage : c.pc &&& 0xfff ≤ 0xffc := hword
  unfold fetch
  rw [Program.bind_run_ok (Program.read_run _ _ _), if_neg haddr.even_pc,
    if_pos hpage, Program.bind_run_ok haddr.translated,
    Program.bind_run_error (physRead_outside haddr.inDram.1 hout)]

theorem Addressed.touched (haddr : Addressed profile c h pa x) :
    Touched c x :=
  (translate_touches c.pc .fetch).keeps.of_run haddr.translated

end Fetch

/-! ## The end of a step -/

def conclude (instPc : BitVec 64) : Except Exception Unit → Hart Unit
  | .ok () => Program.update retire
  | .error e => do
      let c ← Program.read id
      if c.callsFirmware e then answerCall
      else do
        trap e instPc
        Program.fail e

def runDecoded (inst : BitVec 32) (instPc nextPc : BitVec 64) : Hart Unit := do
  let result : Except Exception Unit ←
    Program.attempt (execute inst instPc nextPc)
  conclude instPc result

/-- The step counts its cycle and takes no interrupt. -/
structure TakesInstruction (profile : Profile) (c : Cpu) : Prop where
  counts : (countCycle profile c).isSome = true
  pending : c.ticked.pendingInterrupt = none

section Step

variable {profile : Profile} {c x : Cpu}

theorem fetching_pc (c : Cpu) : c.fetching.pc = c.pc :=
  (congrArg Cpu.pc (ticked_ticked c).frame :)

theorem step_runs (htakes : TakesInstruction profile c) :
    step profile c = runInstruction profile c.ticked := by
  obtain ⟨⟨outcome, c₁⟩, hcount⟩ := Option.isSome_iff_exists.mp htakes.counts
  cases outcome with
  | error e => exact ((countCycle_ensures profile c).error hcount).elim
  | ok value =>
      obtain rfl := (countCycle_ensures profile c).ok hcount
      have hrest : step profile c = c.ticked.afterTick profile c.ticked :=
        Program.bind_run_ok hcount
      rw [hrest, afterTick_instruction htakes.pending]

theorem step_attempts (htakes : TakesInstruction profile c) :
    step profile c =
      (Program.attempt (fetchExecute c.pc) >>= conclude c.pc : Hart Unit)
        profile c.fetching := by
  rw [step_runs htakes, ← fetching_pc c, runInstruction,
    Program.bind_run_ok (Program.read_run _ _ _),
    Program.bind_run_ok (Program.update_run _ _ _),
    show ({ c.ticked with wroteInstret := false } : Cpu) = c.fetching from rfl]
  rcases hresult : fetchExecute c.fetching.pc profile c.fetching with
    _ | ⟨result, x⟩
  · rw [Program.bind_run_none (Program.attempt_run_none hresult)]
    exact Program.bind_run_none (Program.attempt_run_none hresult)
  · rw [Program.bind_run_ok (Program.attempt_run_some hresult)]
    refine (Program.bind_run_ok (Program.attempt_run_some hresult)).trans ?_
    cases result with
    | ok value => rfl
    | error e => rfl

theorem step_decoded (htakes : TakesInstruction profile c) {inst : BitVec 32}
    {len : BitVec 64}
    (hfetch : fetch profile c.fetching = some (.ok (inst, len), x))
    (hpc : x.pc = c.pc) :
    step profile c = runDecoded inst c.pc (c.pc + len) profile x := by
  have hrest : fetchExecute c.pc profile c.fetching =
      execute inst c.pc (c.pc + len) profile x := by
    unfold fetchExecute
    rw [Program.bind_run_ok hfetch]
    dsimp only
    rw [Program.bind_run_ok (Program.read_run _ _ _), hpc]
  rw [step_attempts htakes]
  unfold runDecoded
  rcases hexecute : execute inst c.pc (c.pc + len) profile x with
    _ | ⟨result, c'⟩
  · rw [Program.bind_run_none
        (Program.attempt_run_none (hrest.trans hexecute)),
      Program.bind_run_none (Program.attempt_run_none hexecute)]
  · rw [Program.bind_run_ok (Program.attempt_run_some (hrest.trans hexecute)),
      Program.bind_run_ok (Program.attempt_run_some hexecute)]

theorem step_unfetched (htakes : TakesInstruction profile c) {e : Exception}
    (hfetch : fetch profile c.fetching = some (.error e, x)) :
    step profile c = conclude c.pc (.error e) profile x := by
  have hrest : fetchExecute c.pc profile c.fetching = some (.error e, x) := by
    unfold fetchExecute
    rw [Program.bind_run_error hfetch]
  rw [step_attempts htakes,
    Program.bind_run_ok (Program.attempt_run_some hrest)]

theorem takeTrap_exception {cause : ℕ} (hcause : cause < 64)
    (tval epc : BitVec 64) (profile : Profile) (c : Cpu) :
    ∃ c', takeTrap cause tval epc false profile c = some (.ok (), c') := by
  have hvector : ∀ (c : Cpu) which, c.trapVector which cause false =
      pure (c.csrs.read which &&& ~~~0x3) := by
    intro c which
    exact if_neg fun h => Bool.false_ne_true h.2
  unfold takeTrap
  rw [Program.bind_run_ok (Program.read_run _ _ _), id,
    delegates_eq_pure c hcause, causeWord_eq_pure, Program.check_pure,
    Program.check_pure, pure_bind, pure_bind, Program.ite_run]
  split
  · rw [Program.bind_run_ok (Program.update_run _ _ _),
      Program.bind_run_ok (Program.read_run _ _ _), hvector,
      Program.check_pure, pure_bind]
    exact ⟨_, rfl⟩
  · rw [Program.bind_run_ok (Program.update_run _ _ _),
      Program.bind_run_ok (Program.read_run _ _ _), hvector,
      Program.check_pure, pure_bind]
    exact ⟨_, rfl⟩

theorem conclude_fails (e : Exception) (instPc : BitVec 64)
    (profile : Profile) (c : Cpu) :
    conclude instPc (.error e) profile c =
      if c.callsFirmware e then answerCall profile c
      else (do trap e instPc; Program.fail e : Hart Unit) profile c :=
  Program.ite_run _ _ _ _

theorem conclude_error {e : Exception} (he : e ≠ .environmentCall)
    (instPc : BitVec 64) (profile : Profile) (c : Cpu) :
    ∃ c', conclude instPc (.error e) profile c = some (.error e, c') := by
  have hcalls : c.callsFirmware e = false :=
    Bool.eq_false_iff.mpr fun h => he (callsFirmware_eq_true h).1
  obtain ⟨c', htrap⟩ := takeTrap_exception (exception_cause_lt e c.privMode)
    e.tval instPc profile c
  refine ⟨c', ?_⟩
  rw [conclude_fails, hcalls, if_neg Bool.false_ne_true]
  unfold trap
  exact Program.bind_run_ok htrap

theorem runDecoded_spares {inst : BitVec 32} {instPc nextPc : BitVec 64}
    {e : Exception} {c' : Cpu}
    (hrun : runDecoded inst instPc nextPc profile c = some (.error e, c')) :
    e.SparesFetch := by
  unfold runDecoded at hrun
  rcases hexecute : execute inst instPc nextPc profile c with
    _ | ⟨e₁ | value, c₁⟩
  · rw [Program.bind_run_none (Program.attempt_run_none hexecute)] at hrun
    cases hrun
  · rw [Program.bind_run_ok (Program.attempt_run_some hexecute)] at hrun
    have hspares := ((execute_raises inst instPc nextPc profile c).error
      hexecute).2.sparesFetch
    rw [conclude_fails] at hrun
    split at hrun
    · cases answerCall_ok hrun
    · cases (trapFail_run hrun).2
      exact hspares
  · rw [Program.bind_run_ok (Program.attempt_run_some hexecute)] at hrun
    cases hrun

end Step

/-! ## What a compressed instruction must do -/

/-- A step over a 16-bit encoding follows the C extension; `x` is the hart
once the pc is translated.  A reserved encoding is illegal, whatever the trap
reports as the instruction.  Every other one runs its base instruction with
the next instruction two bytes on, and a hint also retires and changes nothing
but the pc and the counter. -/
def Conforms (profile : Profile) (c x : Cpu) (h : BitVec 16) : Prop :=
  match Rvc.meaning c.xlen h with
  | .reserved => ∃ word, step profile c =
      conclude c.pc (.error (.illegalInstruction word)) profile x
  | .plain b => step profile c =
      runDecoded b.encode c.pc (c.pc + 2) profile x
  | .hint b =>
      step profile c = runDecoded b.encode c.pc (c.pc + 2) profile x ∧
        ∃ regs, x.SameRegs regs ∧ step profile c =
          some (.ok (), ({ x with pc := c.pc + 2, regs := regs } : Cpu).retire)

section Compressed

variable {profile : Profile} {c x : Cpu} {h : BitVec 16} {pa : BitVec 64}

theorem Addressed.pc (haddr : Addressed profile c.fetching h pa x) :
    x.pc = c.pc :=
  (congrArg Cpu.pc haddr.touched.frame :).trans (fetching_pc c)

theorem fetching_readsWord (c : Cpu) : c.fetching.ReadsWord ↔ c.ReadsWord := by
  unfold ReadsWord
  rw [fetching_pc]

theorem fits_fetching (hfits : c.ReadsWord → x.mem.InDram pa 4) :
    c.fetching.ReadsWord → x.mem.InDram pa 4 :=
  fun hword => hfits ((fetching_readsWord c).mp hword)

theorem Addressed.xlen (haddr : Addressed profile c.fetching h pa x) :
    x.xlen = c.xlen :=
  haddr.touched.sameWidth.xlen.trans (ticked_sameWidth c).xlen

theorem dropped_hint (xlen : Xlen) (hdropped : Rvc.DroppedHint h) :
    ∃ b, Rvc.meaning xlen h = .hint b := by
  unfold Rvc.meaning
  rcases hdropped with ⟨hop, hf3, hrd, himm⟩ | ⟨hop, hf3, hbit, hrd, hrs2⟩
  · have hsp : Rvc.rd h ≠ 2 := by
      rw [hrd]
      decide
    rw [hop]
    change ∃ b, Rvc.meaning1 xlen h = .hint b
    unfold Rvc.meaning1
    rw [hf3]
    refine ⟨.lui 0 ((Rvc.ciImm h).signExtend 20), ?_⟩
    change (if Rvc.rd h = 2 then _ else if Rvc.ciImm h = 0 then _
      else if Rvc.rd h = 0 then _ else _) = _
    rw [if_neg hsp, if_neg himm, if_pos hrd]
  · rw [hop]
    change ∃ b, Rvc.meaning2 xlen h = .hint b
    unfold Rvc.meaning2
    rw [hf3]
    change ∃ b, Rvc.meaning2Move h = .hint b
    unfold Rvc.meaning2Move
    rw [if_pos hbit, if_neg hrs2, if_pos hrd]
    exact ⟨_, rfl⟩

theorem Conforms.retires {b : Rvc.Base} (hmeaning : Rvc.meaning c.xlen h = .hint b)
    (hconforms : Conforms profile c x h) :
    ∃ c', step profile c = some (.ok (), c') := by
  unfold Conforms at hconforms
  rw [hmeaning] at hconforms
  obtain ⟨-, regs, -, hstep⟩ := hconforms
  exact ⟨_, hstep⟩

/-- Where the word around the encoding leaves DRAM, the step raises a fault
that no encoding stands for. -/
theorem not_conforms_outside (htakes : TakesInstruction profile c)
    (haddr : Addressed profile c.fetching h pa x)
    (hword : c.ReadsWord) (hout : ¬ x.mem.InDram pa 4) :
    ¬ Conforms profile c x h := by
  intro hconforms
  have hstep := step_unfetched htakes
    (fetch_faults haddr ((fetching_readsWord c).mpr hword) hout)
  rw [fetching_pc] at hstep
  obtain ⟨c', hfault⟩ := conclude_error (e := .instructionAccessFault c.pc)
    nofun c.pc profile x
  rw [hfault] at hstep
  unfold Conforms at hconforms
  cases hmeaning : Rvc.meaning c.xlen h with
  | reserved =>
      rw [hmeaning] at hconforms
      obtain ⟨word, hillegal⟩ := hconforms
      obtain ⟨c₁, hconclude⟩ := conclude_error (e := .illegalInstruction word)
        nofun c.pc profile x
      rw [hstep, hconclude] at hillegal
      cases hillegal
  | plain b =>
      rw [hmeaning] at hconforms
      exact runDecoded_spares (hconforms.symm.trans hstep)
  | hint b =>
      rw [hmeaning] at hconforms
      exact runDecoded_spares (hconforms.1.symm.trans hstep)

/-- A hint that is dropped is illegal where it should retire. -/
theorem not_conforms_dropped (htakes : TakesInstruction profile c)
    (haddr : Addressed profile c.fetching h pa x)
    (hfits : c.ReadsWord → x.mem.InDram pa 4)
    (hdropped : Rvc.DroppedHint h) : ¬ Conforms profile c x h := by
  intro hconforms
  obtain ⟨b, hmeaning⟩ := dropped_hint c.xlen hdropped
  obtain ⟨c', hretires⟩ := hconforms.retires hmeaning
  have hfetch := fetch_expands haddr (fits_fetching hfits)
  unfold expanded at hfetch
  rw [Rvc.decompress_eq, if_pos hdropped] at hfetch
  obtain ⟨c₁, hillegal⟩ := conclude_error
    (e := .illegalInstruction (h.setWidth 32)) nofun c.pc profile x
  rw [step_unfetched htakes hfetch, hillegal] at hretires
  cases hretires

/-- A step over a 16-bit encoding follows the C extension exactly where the
decoder does not drop the hint and the word that is read lies in DRAM. -/
theorem conforms_iff (profile : Profile) (c x : Cpu) (h : BitVec 16)
    (pa : BitVec 64) (htakes : TakesInstruction profile c)
    (haddr : Addressed profile c.fetching h pa x) :
    Conforms profile c x h ↔
      ¬ Rvc.DroppedHint h ∧ (c.ReadsWord → x.mem.InDram pa 4) := by
  constructor
  · intro hconforms
    have hfits : c.ReadsWord → x.mem.InDram pa 4 := fun hword =>
      not_not.mp fun hout =>
        not_conforms_outside htakes haddr hword hout hconforms
    exact ⟨fun hdropped =>
      not_conforms_dropped htakes haddr hfits hdropped hconforms, hfits⟩
  · rintro ⟨hkept, hfits⟩
    have hfetch := fetch_expands haddr (fits_fetching hfits)
    unfold expanded at hfetch
    rw [Rvc.decompress_eq, if_neg hkept, haddr.xlen] at hfetch
    unfold Conforms
    cases hmeaning : Rvc.meaning c.xlen h with
    | reserved =>
        rw [hmeaning] at hfetch
        exact ⟨_, step_unfetched htakes hfetch⟩
    | plain b =>
        rw [hmeaning] at hfetch
        exact step_decoded htakes hfetch haddr.pc
    | hint b =>
        rw [hmeaning] at hfetch
        have hstep := step_decoded htakes hfetch haddr.pc
        rw [← haddr.xlen] at hmeaning
        obtain ⟨regs, hregs, hidle⟩ :=
          hint_idles c.pc (c.pc + 2) profile x hmeaning
        refine ⟨hstep, regs, hregs, hstep.trans ?_⟩
        unfold runDecoded
        rw [Program.bind_run_ok (Program.attempt_run_some hidle)]
        rfl

end Compressed

def located (profile : Profile) (c : Cpu) : Cpu :=
  match translate c.pc .fetch profile c with
  | some (_, x) => x
  | none => c

/-- A machine-mode hart at reset whose program starts with one encoding. -/
def compressedHart (h : BitVec 16) : Cpu :=
  programmedHart .rv64 [h.setWidth 32]

/-- An addition of an immediate to a register, C.ADDI. -/
theorem conforms_addi :
    TakesInstruction .debug (compressedHart 0x0505) ∧
      Addressed .debug (compressedHart 0x0505).fetching 0x0505 DRAM_BASE
        (located .debug (compressedHart 0x0505).fetching) ∧
      (Conforms .debug (compressedHart 0x0505)
          (located .debug (compressedHart 0x0505).fetching) 0x0505 ↔
        ¬ Rvc.DroppedHint 0x0505 ∧ ((compressedHart 0x0505).ReadsWord →
          (located .debug (compressedHart 0x0505).fetching).mem.InDram
            DRAM_BASE 4)) := by
  have htakes : TakesInstruction .debug (compressedHart 0x0505) :=
    ⟨by decide, by decide⟩
  have haddr : Addressed .debug (compressedHart 0x0505).fetching 0x0505
      DRAM_BASE (located .debug (compressedHart 0x0505).fetching) :=
    ⟨by decide, rfl, by decide, by decide, by decide⟩
  exact ⟨htakes, haddr, conforms_iff .debug _ _ _ _ htakes haddr⟩

/-- A move to x0, C.MV, is a hint and raises an exception. -/
theorem not_conforms_mv :
    TakesInstruction .debug (compressedHart 0x8006) ∧
      Addressed .debug (compressedHart 0x8006).fetching 0x8006 DRAM_BASE
        (located .debug (compressedHart 0x8006).fetching) ∧
      ¬ Conforms .debug (compressedHart 0x8006)
        (located .debug (compressedHart 0x8006).fetching) 0x8006 := by
  have htakes : TakesInstruction .debug (compressedHart 0x8006) :=
    ⟨by decide, by decide⟩
  have haddr : Addressed .debug (compressedHart 0x8006).fetching 0x8006
      DRAM_BASE (located .debug (compressedHart 0x8006).fetching) :=
    ⟨by decide, rfl, by decide, by decide, by decide⟩
  exact ⟨htakes, haddr,
    not_conforms_dropped htakes haddr (fun _ => by decide) (by decide)⟩

end Cpu

end Nanoemu
