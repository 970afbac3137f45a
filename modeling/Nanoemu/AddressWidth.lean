import Nanoemu.PresentedAddresses
import Nanoemu.RegisterWidth

/-!
# Addresses of an RV32 hart

A jump through a register, a taken branch, a return and the first byte of a
load or a store are cut to the width of the hart.  Whatever counts on from an
address does so in 64 bits: the instruction that follows, a direct jump, the
handler of an interrupt, and the bytes of an access that crosses a page.
-/

namespace Nanoemu

open CheckedProgram BitFields

theorem trunc_low (v : BitVec 64) :
    (trunc v Xlen.rv32.bits).toNat < 2 ^ 32 :=
  (within_low_iff (k := 32) (by decide)).mp (Cpu.trunc_within v)

theorem CsrFile.read_low {f : CsrFile} (hxlen : f.xlen = .rv32)
    (addr : BitVec 12) : (f.read addr).toNat < 2 ^ 32 := by
  rw [CsrFile.read, if_pos hxlen]
  exact trunc_low (f.view addr)

namespace Cpu

variable {profile : Profile} {c c' : Cpu} {outcome : Except Exception Unit}

def TakesBranch (profile : Profile) (c : Cpu) (inst : BitVec 32) : Prop :=
  ∃ sa sb, c.rs (rs1 inst) profile = some sa ∧
    c.rs (rs2 inst) profile = some sb ∧
    branchTaken (funct3 inst) (c.rr (rs1 inst)) (c.rr (rs2 inst)) sa sb =
      some true

def IsReturn (inst : BitVec 32) : Prop :=
  (opcode inst).toNat = 0x73 ∧ funct3 inst = 0 ∧
    (inst >>> 20 = 0x102 ∨ inst >>> 20 = 0x302)

/-- The instruction goes somewhere else than to the one that follows it. -/
def Jumps (profile : Profile) (c : Cpu) (inst : BitVec 32) : Prop :=
  (opcode inst).toNat = 0x6f ∨ (opcode inst).toNat = 0x67 ∨
    ((opcode inst).toNat = 0x63 ∧ TakesBranch profile c inst) ∨ IsReturn inst

/-- Where an instruction can arrive that does not go on to the next. -/
def Arrives (start : Cpu) (inst : BitVec 32) (instPc : BitVec 64)
    (c' : Cpu) : Prop :=
  JumpTarget start inst instPc c'.pc ∨
    ∃ f : CsrFile, f.xlen = start.csrs.xlen ∧ ∃ addr, c'.pc = f.read addr

theorem trapReturn_arrives {start x : Cpu} {inst : BitVec 32}
    {instPc : BitVec 64} (hxlen : x.csrs.xlen = start.csrs.xlen)
    (fromMachine : Bool) : Arrives start inst instPc (x.trapReturn fromMachine) :=
  Or.inr ⟨(x.trapReturn fromMachine).csrs, hxlen,
    if fromMachine then Csr.MEPC else Csr.SEPC, rfl⟩

theorem executeBranch_arrives {inst : BitVec 32} {instPc nextPc : BitVec 64}
    (htaken : TakesBranch profile c inst)
    (hrun : executeBranch inst instPc profile { c with pc := nextPc } =
      some (.ok (), c')) : Arrives c inst instPc c' := by
  obtain ⟨sa, sb, hsa, hsb, hbranch⟩ := htaken
  have hplaced : ∀ r, ({ c with pc := nextPc } : Cpu).rr r = c.rr r :=
    fun _ => rfl
  have hsa : ({ c with pc := nextPc } : Cpu).rs (rs1 inst) profile =
      some sa := hsa
  have hsb : ({ c with pc := nextPc } : Cpu).rs (rs2 inst) profile =
      some sb := hsb
  rw [executeBranch, Program.bind_run_ok (Program.read_run _ _ _), id,
    Program.bind_run_ok (Program.check_run_some hsa _),
    Program.bind_run_ok (Program.check_run_some hsb _), hplaced, hplaced,
    hbranch] at hrun
  cases hrun
  exact Or.inl .branch

theorem executePriv_arrives {inst : BitVec 32} {instPc nextPc : BitVec 64}
    (hreturn : inst >>> 20 = 0x102 ∨ inst >>> 20 = 0x302)
    (hrun : executePriv inst profile { c with pc := nextPc } =
      some (.ok (), c')) : Arrives c inst instPc c' := by
  rw [executePriv, Program.bind_run_ok (Program.read_run _ _ _), id] at hrun
  rcases hreturn with hsret | hmret
  · rw [hsret, if_neg (by decide), if_neg (by decide), if_pos rfl,
      Program.ite_run] at hrun
    split at hrun
    · cases hrun
    · cases hrun
      exact trapReturn_arrives rfl false
  · rw [hmret, if_neg (by decide), if_neg (by decide), if_neg (by decide),
      if_pos rfl, Program.ite_run] at hrun
    split at hrun
    · cases hrun
    · cases hrun
      exact trapReturn_arrives rfl true

theorem execute_arrives {inst : BitVec 32} {instPc nextPc : BitVec 64}
    (hjumps : Jumps profile c inst)
    (hrun : execute inst instPc nextPc profile c = some (.ok (), c')) :
    Arrives c inst instPc c' := by
  have hplace : setPc nextPc profile c =
      some (.ok (), { c with pc := nextPc }) := rfl
  rw [execute, Program.bind_run_ok hplace] at hrun
  rcases hjumps with hjal | hjalr | ⟨hbranch, htaken⟩ | ⟨hsystem, hf3, hreturn⟩
  · rw [hjal] at hrun
    cases hrun
    exact Or.inl (.jal hjal)
  · rw [hjalr] at hrun
    change (if funct3 inst = 0 then executeJalr inst nextPc
      else illegal inst) profile { c with pc := nextPc } = _ at hrun
    rw [Program.ite_run] at hrun
    split at hrun
    · cases hrun
      exact Or.inl .jalr
    · cases hrun
  · rw [hbranch] at hrun
    exact executeBranch_arrives htaken hrun
  · rw [hsystem] at hrun
    change (if funct3 inst = 0 then executePriv inst
      else executeCsr inst) profile { c with pc := nextPc } = _ at hrun
    rw [if_pos hf3] at hrun
    exact executePriv_arrives hreturn hrun

/-! ## What stays below 4 GiB -/

def Low (va : BitVec 64) : Prop :=
  va.toNat < 2 ^ 32

/-- The step goes on to the instruction that follows: the one at hand retires
without a jump, or the firmware answers it. -/
def GoesOn (profile : Profile) (c : Cpu) (inst : BitVec 32)
    (instPc nextPc : BitVec 64) : Prop :=
  (∃ c', execute inst instPc nextPc profile c = some (.ok (), c') ∧
      ¬ Jumps profile c inst) ∨
    ∃ e c', execute inst instPc nextPc profile c = some (.error e, c') ∧
      c'.callsFirmware e = true

def enteredMode (toSupervisor : Bool) : Priv :=
  if toSupervisor then .supervisor else .machine

/-- Nothing that the step from `c` counts on to from an address passes the top
of the address space, and a direct jump does not pass its bottom. -/
structure StaysInside (profile : Profile) (c : Cpu) : Prop where
  handler : ∀ {cause : ℕ} {toSupervisor : Bool},
    c.ticked.pendingInterrupt = some cause →
    c.ticked.delegates cause true profile = some toSupervisor →
    c.ticked.csrs.read (trapTvec (enteredMode toSupervisor)) &&& 0x3 = 1 →
    (c.ticked.csrs.read (trapTvec (enteredMode toSupervisor)) &&&
      ~~~0x3).toNat + 4 * cause < 2 ^ 32
  second : FetchesSecond profile c → c.pc.toNat + 2 < 2 ^ 32
  next : ∀ {inst : BitVec 32} {len : BitVec 64} {c₁ : Cpu},
    Fetched profile c inst len c₁ →
    GoesOn profile c₁ inst c.pc (c.pc + len) →
    c.pc.toNat + len.toNat < 2 ^ 32
  jal : ∀ {inst : BitVec 32} {len : BitVec 64} {c₁ : Cpu},
    Fetched profile c inst len c₁ → (opcode inst).toNat = 0x6f →
    0 ≤ (c.pc.toNat : ℤ) + (immJ inst).toInt ∧
      (c.pc.toNat : ℤ) + (immJ inst).toInt < 2 ^ 32
  atomic : ∀ {inst : BitVec 32} {len : BitVec 64} {c₁ : Cpu} {width : ℕ},
    Fetched profile c inst len c₁ → (opcode inst).toNat = 0x2f →
    amoWidth (funct3 inst) c₁.xlen = some width →
    AtomicAccess c₁ inst width → (c₁.rr (rs1 inst)).toNat < 2 ^ 32
  crossing : ∀ {inst : BitVec 32} {len start : BitVec 64} {c₁ : Cpu}
    {size : ℕ}, Fetched profile c inst len c₁ →
    c₁.dataAccess inst = some (start, size) →
    0x1000 < (start &&& 0xfff).toNat + size → start.toNat + size ≤ 2 ^ 32

theorem takeTrap_delegated (cause : ℕ) (tval epc : BitVec 64)
    (isInterrupt : Bool) (profile : Profile) (c : Cpu) :
    (takeTrap cause tval epc isInterrupt).Ensures profile c
      (fun _ c' => ∃ toSupervisor,
        c.delegates cause isInterrupt profile = some toSupervisor ∧
        c'.privMode = enteredMode toSupervisor)
      (fun _ _ => False) := by
  apply (takeTrap_course cause tval epc isInterrupt profile c).mono
  · intro _ c' hcourse
    cases hcourse with
    | supervisor hdelegates => exact ⟨true, hdelegates, rfl⟩
    | machine hdelegates => exact ⟨false, hdelegates, rfl⟩
  · exact fun _ _ h => h

theorem IsHandler.low {tvec pc : BitVec 64} {cause : ℕ} {isInterrupt : Bool}
    (h : IsHandler tvec cause isInterrupt pc) (htvec : tvec.toNat < 2 ^ 32)
    (hvectored : isInterrupt = true → tvec &&& 0x3 = 1 →
      (tvec &&& ~~~0x3).toNat + 4 * cause < 2 ^ 32) : Low pc := by
  rcases h with rfl | ⟨hmode, hinterrupt, rfl⟩
  · rw [Low, BitVec.toNat_and]
    exact Nat.and_le_left.trans_lt htvec
  · have hsum := hvectored hinterrupt hmode
    have hoffset : (4 * BitVec.ofNat 64 cause).toNat = 4 * cause := by
      rw [BitVec.toNat_mul, BitVec.toNat_ofNat]
      change 4 * (cause % 2 ^ 64) % 2 ^ 64 = 4 * cause
      omega
    rw [Low, BitVec.toNat_add, hoffset]
    omega

/-- An exception goes to the base of the vector, which is narrow; an interrupt
may go past it. -/
theorem takeTrap_low {cause : ℕ} {tval epc : BitVec 64} {isInterrupt : Bool}
    (hxlen : c.csrs.xlen = .rv32)
    (hvectored : isInterrupt = true → ∀ {toSupervisor : Bool},
      c.delegates cause true profile = some toSupervisor →
      c.csrs.read (trapTvec (enteredMode toSupervisor)) &&& 0x3 = 1 →
      (c.csrs.read (trapTvec (enteredMode toSupervisor)) &&& ~~~0x3).toNat +
        4 * cause < 2 ^ 32)
    (htrap : takeTrap cause tval epc isInterrupt profile c =
      some (.ok (), c')) : Low c'.pc := by
  obtain ⟨toSupervisor, hdelegates, hmode⟩ :=
    (takeTrap_delegated cause tval epc isInterrupt profile c).ok htrap
  obtain ⟨entered, word, pc, -, hhandler, rfl⟩ :=
    (takeTrap_enters cause tval epc isInterrupt profile c).ok htrap
  have hentered : entered = enteredMode toSupervisor := hmode
  refine hhandler.low (CsrFile.read_low hxlen _) ?_
  rintro rfl
  rw [hentered]
  exact hvectored rfl hdelegates

theorem jal_low {pc : BitVec 64} {imm : BitVec 32}
    (hinside : 0 ≤ (pc.toNat : ℤ) + imm.toInt ∧
      (pc.toNat : ℤ) + imm.toInt < 2 ^ 32) : Low (pc + widen imm) := by
  have hwiden : (widen imm).toInt = imm.toInt :=
    BitVec.toInt_signExtend_of_le (by decide)
  have hsplit := BitVec.toInt_eq_toNat_cond (widen imm)
  rw [hwiden] at hsplit
  rw [Low, BitVec.toNat_add]
  have hlt := (widen imm).isLt
  split at hsplit <;> omega

theorem JumpTarget.low {start : Cpu} {inst : BitVec 32}
    {instPc target : BitVec 64} (hxlen : start.xlen = .rv32)
    (hjal : (opcode inst).toNat = 0x6f →
      0 ≤ (instPc.toNat : ℤ) + (immJ inst).toInt ∧
        (instPc.toNat : ℤ) + (immJ inst).toInt < 2 ^ 32)
    (h : JumpTarget start inst instPc target) : Low target := by
  cases h with
  | jal hop => exact jal_low (hjal hop)
  | jalr =>
      rw [xbits, hxlen]
      exact trunc_low _
  | branch =>
      rw [xbits, hxlen]
      exact trunc_low _

theorem Arrives.low {start : Cpu} {inst : BitVec 32} {instPc : BitVec 64}
    (hxlen : start.xlen = .rv32) (hcsrs : start.csrs.xlen = .rv32)
    (hjal : (opcode inst).toNat = 0x6f →
      0 ≤ (instPc.toNat : ℤ) + (immJ inst).toInt ∧
        (instPc.toNat : ℤ) + (immJ inst).toInt < 2 ^ 32)
    (h : Arrives start inst instPc c') : Low c'.pc := by
  rcases h with htarget | ⟨f, hf, addr, hpc⟩
  · exact htarget.low hxlen hjal
  · rw [hpc]
    exact CsrFile.read_low (hf.trans hcsrs) addr

theorem Command.low {start : Cpu} {inst : BitVec 32}
    (hcommand : Command start inst c c') (hcsrs : c.csrs.xlen = .rv32)
    (h : Low c.pc) : Low c'.pc := by
  cases hcommand with
  | none _ => exact h
  | csr value _ _ =>
      rw [writeCsr_frame]
      exact h
  | sret _ _ => exact CsrFile.read_low hcsrs Csr.SEPC
  | mret _ _ => exact CsrFile.read_low hcsrs Csr.MEPC
  | fence _ _ => exact h

theorem Effect.low {start : Cpu} {inst : BitVec 32} {instPc : BitVec 64}
    (heffect : Effect start inst instPc c c')
    (htarget : ∀ target, JumpTarget start inst instPc target → Low target)
    (h : Low c.pc) : Low c'.pc := by
  cases heffect with
  | register r v =>
      rw [setReg]
      split <;> exact h
  | jump hjump => exact htarget _ hjump
  | reserve _ => exact h
  | release _ => exact h
  | float r v _ => exact h
  | flags raised _ =>
      rw [setFflags]
      split <;> exact h

theorem Executed.low {start : Cpu} {inst : BitVec 32} {instPc : BitVec 64}
    (hexecuted : Executed start inst instPc c c')
    (htarget : ∀ target, JumpTarget start inst instPc target → Low target)
    (hcsrs : c.csrs.xlen = .rv32) (h : Low c.pc) : Low c'.pc := by
  have htouch : ∀ {x : Cpu}, Touched c x →
      x.csrs.xlen = .rv32 ∧ Low x.pc := by
    intro x htouched
    refine ⟨htouched.sameWidth.csrs.trans hcsrs, ?_⟩
    rw [(congrArg Cpu.pc htouched.frame :)]
    exact h
  exact hexecuted.induction htouch
    (fun hcommand hplace => hcommand.low hplace.1 hplace.2)
    fun heffect => heffect.low htarget

theorem accessAddresses_low {start va : BitVec 64} {size : ℕ}
    (hstart : Low start)
    (hinside : 0x1000 < (start &&& 0xfff).toNat + size →
      start.toNat + size ≤ 2 ^ 32)
    (hva : va ∈ accessAddresses start size) : Low va := by
  rw [accessAddresses] at hva
  split at hva
  · obtain rfl := List.mem_singleton.mp hva
    exact hstart
  · next hcrosses =>
      obtain ⟨k, hk, rfl⟩ := List.mem_map.mp hva
      have hk : k < size := List.mem_range.mp hk
      have hend := hinside (not_le.mp hcrosses)
      rw [Low, BitVec.toNat_add, BitVec.toNat_ofNat]
      omega

theorem dataAccess_start {inst : BitVec 32} {start : BitVec 64} {size : ℕ}
    (haccess : c.dataAccess inst = some (start, size)) :
    (∃ v, start = trunc v c.xbits) ∨
      (opcode inst).toNat = 0x2f ∧ start = c.rr (rs1 inst) ∧
        ∃ width, amoWidth (funct3 inst) c.xlen = some width ∧
          AtomicAccess c inst width := by
  rw [dataAccess] at haccess
  split at haccess
  · obtain ⟨form, -, hpair⟩ := Option.map_eq_some_iff.mp haccess
    cases hpair
    exact Or.inl ⟨_, rfl⟩
  · obtain ⟨_, -, hpair⟩ := Option.map_eq_some_iff.mp haccess
    cases hpair
    exact Or.inl ⟨_, rfl⟩
  · obtain ⟨_, -, hpair⟩ := Option.map_eq_some_iff.mp haccess
    cases hpair
    exact Or.inl ⟨_, rfl⟩
  · obtain ⟨_, -, hpair⟩ := Option.map_eq_some_iff.mp haccess
    cases hpair
    exact Or.inl ⟨_, rfl⟩
  · next hop =>
      obtain ⟨width, hwidth, hpair⟩ := Option.bind_eq_some_iff.mp haccess
      split at hpair
      · next hatomic =>
          cases hpair
          exact Or.inr ⟨hop, rfl, width, hwidth, hatomic⟩
      · cases hpair
  · cases haccess

/-! ## Steps and runs -/

/-- The width of the hart, of its CSRs and of the place in the program. -/
structure NarrowPlace (c : Cpu) : Prop where
  xlen : c.xlen = .rv32
  csrs : c.csrs.xlen = .rv32
  pc : Low c.pc

theorem Fetched.touched {inst : BitVec 32} {len : BitVec 64} {c₁ : Cpu}
    (h : Fetched profile c inst len c₁) :
    Touched c.fetching c₁ ∧ (len = 2 ∨ len = 4) :=
  (fetch_ensures profile c.fetching).ok h.word

theorem Fetched.pc {inst : BitVec 32} {len : BitVec 64} {c₁ : Cpu}
    (h : Fetched profile c inst len c₁) : c₁.pc = c.pc :=
  (congrArg Cpu.pc h.touched.1.frame :).trans (ticked_pc c)

theorem Names.low (hplace : NarrowPlace c) (hinside : StaysInside profile c)
    {va : BitVec 64} (h : Names profile c va) : Low va := by
  cases h with
  | first _ _ => exact hplace.pc
  | second hsecond =>
      have hend := hinside.second hsecond
      rw [Low, BitVec.toNat_add]
      change (c.pc.toNat + 2) % 2 ^ 64 < 2 ^ 32
      omega
  | data hfetched haccess hva =>
      refine accessAddresses_low ?_ (hinside.crossing hfetched haccess) hva
      rcases dataAccess_start haccess with
        ⟨v, rfl⟩ | ⟨hop, rfl, width, hwidth, hatomic⟩
      · rw [xbits, hfetched.touched.1.reached.sameWidth.xlen, hplace.xlen]
        exact trunc_low v
      · exact hinside.atomic hfetched hop hwidth hatomic

theorem answered_fetched {e : Exception} {x : Cpu}
    (hpending : c.ticked.pendingInterrupt = none)
    (hfail : fetchExecute c.ticked.pc profile c.fetching = some (.error e, x))
    (hcalls : x.callsFirmware e = true) :
    ∃ inst len c₁, Fetched profile c inst len c₁ ∧
      execute inst c.pc (c.pc + len) profile c₁ = some (.error e, x) := by
  have hcall : e = .environmentCall := (callsFirmware_eq_true hcalls).1
  rcases Program.bind_cases hfail with
    ⟨_, hfetch, herror⟩ | ⟨⟨inst, len⟩, c₁, hfetch, hexecute⟩
  · cases herror
    rcases ((fetch_ensures profile c.fetching).error hfetch).2 with
      hfault | ⟨inst, hillegal⟩ | ⟨-, hmisaligned⟩
    · rw [hcall] at hfault
      exact hfault.elim
    · cases hcall.symm.trans hillegal
    · cases hcall.symm.trans hmisaligned
  · have hfetched : Fetched profile c inst len c₁ := ⟨hpending, hfetch⟩
    have hexecute : execute inst c.ticked.pc (c₁.pc + len) profile c₁ =
        some (.error e, x) := hexecute
    rw [ticked_pc, hfetched.pc] at hexecute
    exact ⟨inst, len, c₁, hfetched, hexecute⟩

theorem next_low {inst : BitVec 32} {len : BitVec 64} {c₁ : Cpu}
    (hinside : StaysInside profile c) (hfetched : Fetched profile c inst len c₁)
    (hgoes : GoesOn profile c₁ inst c.pc (c.pc + len)) : Low (c.pc + len) := by
  have hend := hinside.next hfetched hgoes
  rw [Low, BitVec.toNat_add]
  omega

theorem step_low (hplace : NarrowPlace c) (hinside : StaysInside profile c)
    (hstep : step profile c = some (outcome, c')) : Low c'.pc := by
  cases step_course hstep with
  | interrupt hpending htrap =>
      refine takeTrap_low
        ((Reached.refl c).sameWidth.csrs.trans hplace.csrs) ?_ htrap
      exact fun _ _ hdelegates => hinside.handler hpending hdelegates
  | @retired inst len c₁ c₂ hpending hfetch hexecute =>
      have hfetched : Fetched profile c inst len c₁ := ⟨hpending, hfetch⟩
      rw [ticked_pc, hfetched.pc] at hexecute
      have hwidth := hfetched.touched.1.reached.sameWidth
      have hxlen : c₁.xlen = .rv32 := hwidth.xlen.trans hplace.xlen
      have hcsrs : c₁.csrs.xlen = .rv32 := hwidth.csrs.trans hplace.csrs
      have hpc : c₂.retire.pc = c₂.pc := by
        rw [retire]
        split <;> rfl
      rw [hpc]
      by_cases hjumps : Jumps profile c₁ inst
      · exact (execute_arrives hjumps hexecute).low hxlen hcsrs
          (hinside.jal hfetched)
      · have hexecuted := (execute_acts c₁ inst _ _ profile).ok hexecute
        refine hexecuted.low
          (fun _ htarget => htarget.low hxlen (hinside.jal hfetched)) hcsrs ?_
        exact next_low hinside hfetched (Or.inl ⟨c₂, hexecute, hjumps⟩)
  | @answered e x _ hpending hfail hcalls hanswer =>
      obtain ⟨inst, len, c₁, hfetched, hexecute⟩ :=
        answered_fetched hpending hfail hcalls
      have hrefused := (execute_acts c₁ inst _ _ profile).error hexecute
      have hpc : c'.pc = c.pc + len := by
        rw [((answerCall_answers profile x).ok hanswer).frame]
        exact congrArg Cpu.pc hrefused.touched.frame
      rw [hpc]
      exact next_low hinside hfetched (Or.inr ⟨e, x, hexecute, hcalls⟩)
  | exception _ hfail _ htrap =>
      refine takeTrap_low ?_ ?_ htrap
      · exact (fetchExecute_reached hfail).sameWidth.csrs.trans hplace.csrs
      · exact fun hinterrupt => absurd hinterrupt Bool.false_ne_true

theorem Started.narrowPlace {pc : BitVec 64} (hstart : Started profile c)
    (hxlen : c.xlen = .rv32) (hpc : pc.toNat < 2 ^ 32) :
    NarrowPlace { c with pc := pc } :=
  ⟨hxlen, hstart.width.trans hxlen, hpc⟩

theorem NarrowPlace.step (hplace : NarrowPlace c)
    (hinside : StaysInside profile c)
    (hstep : Cpu.step profile c = some (outcome, c')) : NarrowPlace c' := by
  have hwidth := (step_outline hstep).sameWidth
  exact ⟨hwidth.xlen.trans hplace.xlen, hwidth.csrs.trans hplace.csrs,
    step_low hplace hinside hstep⟩

/-- In every run of an RV32 hart from a narrow place whose steps stay inside,
the place stays narrow, and so is every address a step has presented to
translation. -/
theorem addresses_narrow {c₀ : Cpu} (hstart : Started profile c₀)
    (hxlen : c₀.xlen = .rv32) {pc : BitVec 64} (hpc : pc.toNat < 2 ^ 32)
    {past : List Cpu} (hrun : History profile { c₀ with pc := pc } past c)
    (hinside : ∀ x ∈ past, StaysInside profile x) :
    c.pc.toNat < 2 ^ 32 ∧
      ∀ x ∈ past, x.pc.toNat < 2 ^ 32 ∧
        ∀ va, Presents profile x va → va.toNat < 2 ^ 32 := by
  obtain ⟨hplace, hpast⟩ := hrun.invariant (hstart.narrowPlace hxlen hpc)
    NarrowPlace.step (fun _ h => ⟨h.xlen, h.csrs, h.pc⟩) hinside
  refine ⟨hplace.pc, fun x hx => ⟨(hpast x hx).pc, fun va hva => ?_⟩⟩
  exact hva.names.low (hpast x hx) (hinside x hx)

theorem staysInside_of (inst : BitVec 32) (len : BitVec 64)
    (access : Option (BitVec 64 × ℕ))
    (hpending : c.ticked.pendingInterrupt = none)
    (hfetch : (fetch profile c.fetching).map (fun fetched =>
        (fetched.1.toOption, fetched.2.dataAccess inst)) =
      some (some (inst, len), access))
    (hlast : c.pc &&& 0xfff ≤ 0xffc) (hnext : c.pc.toNat + len.toNat < 2 ^ 32)
    (hjal : (opcode inst).toNat ≠ 0x6f) (hamo : (opcode inst).toNat ≠ 0x2f)
    (hwithin : ∀ start size, access = some (start, size) →
      (start &&& 0xfff).toNat + size ≤ 0x1000) : StaysInside profile c := by
  have hfetched : ∀ {inst' : BitVec 32} {len' : BitVec 64} {c₁ : Cpu},
      Fetched profile c inst' len' c₁ →
        inst' = inst ∧ len' = len ∧ c₁.dataAccess inst = access := by
    intro inst' len' c₁ h
    rw [h.word] at hfetch
    cases hfetch
    exact ⟨rfl, rfl, rfl⟩
  constructor
  · intro cause _ hsome
    cases hpending.symm.trans hsome
  · exact fun hsecond => absurd hlast hsecond.last
  · intro _ _ _ h _
    obtain ⟨-, rfl, -⟩ := hfetched h
    exact hnext
  · intro _ _ _ h hop
    obtain ⟨rfl, -⟩ := hfetched h
    exact absurd hop hjal
  · intro _ _ _ _ h hop
    obtain ⟨rfl, -⟩ := hfetched h
    exact absurd hop hamo
  · intro _ _ start _ size h haccess hcrosses
    obtain ⟨rfl, -, rfl⟩ := hfetched h
    exact absurd (hwithin start size haccess) (not_le.mpr hcrosses)

/-- An RV32 hart that loads a word of its own program: `auipc x1, 0` and
`lw x2, 4(x1)`. -/
def loadingHart : Cpu :=
  programmedHart .rv32 [0x00000097, 0x0040a103]

theorem loadingHart_inside :
    StaysInside .debug loadingHart ∧
      StaysInside .debug (stepped .debug loadingHart) := by
  constructor
  · refine staysInside_of 0x00000097 4 none (by decide +kernel)
      (by decide +kernel) (by decide +kernel) (by decide +kernel) (by decide)
      (by decide) ?_
    rintro _ _ ⟨⟩
  · refine staysInside_of 0x0040a103 4 (some (0x80000004, 4))
      (by decide +kernel) (by decide +kernel) (by decide +kernel)
      (by decide +kernel) (by decide) (by decide) ?_
    rintro _ _ ⟨⟩
    decide

/-- The second step presents the word it loads. -/
example :
    Presents .debug (stepped .debug loadingHart) 0x80000004 := by
  have hcut : stepThrough (cutAt 0x80000004) .debug
      (stepped .debug loadingHart) = none :=
    Option.isNone_iff_eq_none.mp (by decide +kernel)
  have hstep : (step .debug (stepped .debug loadingHart)).isSome = true := by
    decide +kernel
  intro hsame
  rw [← hsame, hcut] at hstep
  cases hstep

theorem addresses_narrow_loaded :
    ((stepped .debug)^[2] loadingHart).pc = 0x80000008 ∧
      ∀ x ∈ [stepped .debug loadingHart, loadingHart], x.pc.toNat < 2 ^ 32 ∧
        ∀ va, Presents .debug x va → va.toNat < 2 ^ 32 := by
  have hstart : Started .debug loadingHart :=
    Or.inl (programmedHart_loaded .debug .rv32 (by decide))
  have hfirst : step .debug loadingHart =
      some (.ok (), stepped .debug loadingHart) :=
    step_eq_stepped (by decide +kernel)
  have hsecond : step .debug (stepped .debug loadingHart) =
      some (.ok (), (stepped .debug)^[2] loadingHart) :=
    step_eq_stepped (by decide +kernel)
  refine ⟨by decide +kernel, (addresses_narrow hstart rfl
    (by decide : DRAM_BASE.toNat < 2 ^ 32)
    ((History.start.step hfirst).step hsecond) ?_).2⟩
  intro x hx
  rcases List.mem_pair.mp hx with rfl | rfl
  · exact loadingHart_inside.2
  · exact loadingHart_inside.1

/-- An RV32 hart whose memory fills the address space to the top, with the
same instruction in its last word. -/
def topHart : Cpu :=
  ((Cpu.new 0x80000000 .rv32).get rfl).placed 0x7ffffffc
    (wordBytes 0x00000013)

theorem topHart_loaded (profile : Profile) : Loaded profile topHart := by
  have hnew : Loaded profile ((Cpu.new 0x80000000 .rv32).get rfl) :=
    .new (Option.some_get rfl).symm
  exact hnew.placed 0xfffffffc (by decide +kernel)

/-- After the last instruction the place is 4 GiB. -/
theorem addresses_wide :
    Started .debug topHart ∧ topHart.xlen = .rv32 ∧
      Run .debug (fun _ => True) { topHart with pc := 0xfffffffc }
        (stepped .debug { topHart with pc := 0xfffffffc }) ∧
      (stepped .debug { topHart with pc := 0xfffffffc }).pc = 0x100000000 := by
  refine ⟨Or.inl (topHart_loaded .debug), rfl, ?_, by decide +kernel⟩
  have hstep : step .debug { topHart with pc := 0xfffffffc } =
      some (.ok (), stepped .debug { topHart with pc := 0xfffffffc }) :=
    step_eq_stepped (by decide +kernel)
  exact (Run.refl trivial).tail (.step hstep) trivial

end Cpu

end Nanoemu
