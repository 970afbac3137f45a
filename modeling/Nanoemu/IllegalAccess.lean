import Nanoemu.StepCourse
import Nanoemu.StoreAtomicity

/-!
# Instructions that are rejected as illegal

An illegal instruction is rejected before it accesses memory.  The exception
is an atomic of a reserved operation, which loads its operand before the
operation is looked at.
-/

namespace Nanoemu

open CheckedProgram

namespace Memory

/-- The same memory, up to the flag that devices were touched. -/
def SameStore (mem mem' : Memory) : Prop :=
  mem'.dram = mem.dram ∧ SameDevices mem mem'

theorem SameStore.refl (mem : Memory) : SameStore mem mem :=
  ⟨rfl, SameDevices.refl mem⟩

theorem SameStore.trans {mem mem' mem'' : Memory} (hfirst : SameStore mem mem')
    (hsecond : SameStore mem' mem'') : SameStore mem mem'' :=
  ⟨hsecond.1.trans hfirst.1, hfirst.2.trans hsecond.2⟩

/-- The address is one of a device register, and a write of the value leaves
the register as it is. -/
inductive Absorbs (profile : Profile) (mem : Memory) (addr : BitVec 64)
    (size : ℕ) (value : BitVec 64) : Prop where
  | clint : CLINT_BASE ≤ addr ∧ addr < CLINT_END →
      mem.clint.write addr size value profile = some mem.clint →
      Absorbs profile mem addr size value
  | plic : InPlic addr →
      mem.plic.write (addr - Plic.PLIC_BASE) value = mem.plic →
      Absorbs profile mem addr size value
  | uart : Uart.UART_BASE ≤ addr ∧ addr < Uart.UART_BASE + Uart.UART_SIZE →
      mem.uart.write (addr - Uart.UART_BASE) value = mem.uart →
      Absorbs profile mem addr size value

theorem Absorbs.congr {profile : Profile} {mem mem' : Memory}
    {addr value : BitVec 64} {size : ℕ} (hsame : SameDevices mem mem') :
    mem'.Absorbs profile addr size value ↔
      mem.Absorbs profile addr size value := by
  constructor
  · intro h
    cases h with
    | clint hin hwrite =>
        rw [hsame.clint] at hwrite
        exact .clint hin hwrite
    | plic hin hwrite =>
        rw [hsame.plic] at hwrite
        exact .plic hin hwrite
    | uart hin hwrite =>
        rw [hsame.uart] at hwrite
        exact .uart hin hwrite
  · intro h
    cases h with
    | clint hin hwrite =>
        rw [← hsame.clint] at hwrite
        exact .clint hin hwrite
    | plic hin hwrite =>
        rw [← hsame.plic] at hwrite
        exact .plic hin hwrite
    | uart hin hwrite =>
        rw [← hsame.uart] at hwrite
        exact .uart hin hwrite

end Memory

namespace Mmu

theorem and_need_iff (pte : BitVec 64) (access : Access) :
    pte &&& need access = need access ↔ pte ||| need access = pte := by
  constructor
  · intro hneed
    rw [← hneed]
    apply BitVec.eq_of_getLsbD_eq
    intro i _
    rw [BitVec.getLsbD_or, BitVec.getLsbD_and]
    cases pte.getLsbD i <;> rfl
  · intro hsame
    rw [← hsame]
    apply BitVec.eq_of_getLsbD_eq
    intro i _
    rw [BitVec.getLsbD_and, BitVec.getLsbD_or]
    cases (need access).getLsbD i <;> simp

/-- A load sets the accessed bit only. -/
theorem and_need_load_iff (pte : BitVec 64) :
    pte &&& need .load = need .load ↔ pte.getLsbD 6 = true := by
  have hneed : need .load = BitVec.twoPow 64 6 := by decide
  rw [hneed, BitVec.and_twoPow]
  cases pte.getLsbD 6 with
  | true => exact iff_of_true rfl rfl
  | false => exact iff_of_false (by decide) Bool.false_ne_true

/-- The bits an access sets in a leaf change nothing exactly if they are set
already, or the leaf is a device register that does not take them. -/
theorem Marks.sameStore_iff {scheme : Mode} (hscheme : scheme ≠ .bare)
    {access : Access} {profile : Profile} {mem after : Memory} {reached : Leaf}
    (h : Marks scheme access profile mem reached after)
    (hword : DRAM_BASE ≤ reached.addr →
      reached.pte = entryAt scheme mem.dram reached.addr) :
    Memory.SameStore mem after ↔
      reached.pte &&& need access = need access ∨
        mem.Absorbs profile reached.addr scheme.pteSize
          (reached.pte ||| need access) := by
  by_cases hneed : reached.pte &&& need access = need access
  · rw [Marks, if_pos hneed] at h
    rw [h]
    exact iff_of_true (Memory.SameStore.refl mem) (Or.inl hneed)
  rw [or_iff_right hneed]
  have hmarks := h
  rw [Marks, if_neg hneed] at h
  cases Memory.write_course h with
  | dram hin _ =>
      refine iff_of_false (fun hsame => hneed ?_) fun habsorbs => ?_
      · -- DRAM takes every bit that is written to it.
        have hentry := (marked_spec hscheme access mem (hword hin.1)).2.2
        rw [marked, if_neg hneed, hsame.1, ← hword hin.1] at hentry
        exact (and_need_iff reached.pte access).mpr hentry.symm
      · cases habsorbs with
        | clint hclint _ => exact absurd hclint.2 (BitVec.not_lt.mpr
            (BitVec.le_trans (by decide) hin.1))
        | plic hplic _ => exact (Memory.inPlic_apart hplic).1 hin.1
        | uart huart _ => exact absurd huart.2 (BitVec.not_lt.mpr
            (BitVec.le_trans (by decide) hin.1))
  | clint _ hclint hwrite =>
      constructor
      · rintro ⟨-, hsame⟩
        exact .clint hclint (hwrite.trans (congrArg some hsame.clint))
      · intro habsorbs
        cases habsorbs with
        | clint _ hkept =>
            cases hwrite.symm.trans hkept
            exact ⟨rfl, rfl, rfl, rfl⟩
        | plic hplic _ => exact absurd hclint (Memory.inPlic_apart hplic).2
        | uart huart _ => exact absurd hclint.2 (BitVec.not_lt.mpr
            (BitVec.le_trans (by decide) huart.1))
  | plic _ hplic =>
      constructor
      · rintro ⟨-, hsame⟩
        exact .plic hplic hsame.plic
      · intro habsorbs
        cases habsorbs with
        | clint hclint _ => exact absurd hclint (Memory.inPlic_apart hplic).2
        | plic _ hkept => exact ⟨rfl, rfl, hkept, rfl⟩
        | uart huart _ => exact absurd hplic.2 (BitVec.not_lt.mpr
            (BitVec.le_trans (by decide) huart.1))
  | uart _ huart =>
      constructor
      · rintro ⟨-, hsame⟩
        exact .uart huart hsame.uart
      · intro habsorbs
        cases habsorbs with
        | clint hclint _ => exact absurd hclint.2 (BitVec.not_lt.mpr
            (BitVec.le_trans (by decide) huart.1))
        | plic hplic _ => exact absurd hplic.2 (BitVec.not_lt.mpr
            (BitVec.le_trans (by decide) huart.1))
        | uart _ hkept => exact ⟨rfl, rfl, rfl, hkept⟩

end Mmu

namespace Cpu

variable {profile : Profile} {c c' : Cpu} {outcome : Except Exception Unit}

/-- A load that reads `entries` to find its page, and then `pa`, has no side
effect: none of these is a register that a read changes, and the leaf has its
accessed bit or is a register that does not take it. -/
structure QuietLoad (profile : Profile) (c : Cpu)
    (entries : List (BitVec 64)) (found : Option Mmu.Leaf) (pa : BitVec 64) :
    Prop where
  entries : ∀ addr ∈ entries, c.mem.QuietAt addr
  accessed : ∀ reached, found = some reached →
    reached.pte.getLsbD 6 = true ∨
      c.mem.Absorbs profile reached.addr c.scheme.pteSize
        (reached.pte ||| Mmu.A)
  operand : c.mem.QuietAt pa

/-- The load of an operand that a reserved atomic makes before it is rejected
has no side effect, if it is made: the width exists, the operand is aligned, its
page is found and memory answers at its address. -/
def QuietOperand (profile : Profile) (c : Cpu) (inst : BitVec 32) : Prop :=
  IsReservedAtomic inst → ∀ width,
    amoWidth (funct3 inst) c.xlen = some width →
    (c.rr (rs1 inst)).toNat % (width / 8) = 0 →
    ∀ entries found page mem,
      Translates profile c (c.rr (rs1 inst)) .load entries found (some page)
        mem →
      (∃ v mem', Memory.read (page ||| (c.rr (rs1 inst) &&& 0xfff)) (width / 8)
        profile c.mem = some (.ok v, mem')) →
      QuietLoad profile c entries found
        (page ||| (c.rr (rs1 inst) &&& 0xfff))

/-- A load that succeeds changes memory or a device exactly if it is not
quiet. -/
theorem Translates.quietLoad_iff {va : BitVec 64} {size : ℕ}
    {entries : List (BitVec 64)} {found : Option Mmu.Leaf} {page : BitVec 64}
    {mem mem' : Memory} {v : BitVec 64}
    (htranslates : Translates profile c va .load entries found (some page) mem)
    (hread : Memory.read (page ||| (va &&& 0xfff)) size profile mem =
      some (.ok v, mem')) :
    Memory.SameStore c.mem mem' ↔
      QuietLoad profile c entries found (page ||| (va &&& 0xfff)) := by
  obtain ⟨read, hdram, htaken, hentries, hnone, hsome⟩ := htranslates.reads
  obtain ⟨hdram', htaken', hoperand⟩ := Memory.read_taken hread
  have hqueues : Memory.SameQueues read mem := by
    cases found with
    | none =>
        rw [hnone rfl]
        exact ⟨rfl, rfl⟩
    | some reached => exact (hsome reached rfl).1.queues
  have hmarks : Memory.SameDevices c.mem read →
      (Memory.SameStore read mem ↔ ∀ reached, found = some reached →
        reached.pte.getLsbD 6 = true ∨
          c.mem.Absorbs profile reached.addr c.scheme.pteSize
            (reached.pte ||| Mmu.A)) := by
    intro hdevices
    cases found with
    | none =>
        rw [hnone rfl]
        exact iff_of_true (.refl read) fun _ h => nomatch h
    | some reached =>
        obtain ⟨hmarked, hword⟩ := hsome reached rfl
        rw [hmarked.sameStore_iff (htranslates.paged rfl) hword,
          Memory.Absorbs.congr hdevices, Mmu.and_need_load_iff]
        exact ⟨fun h _ hreached => Option.some.inj hreached ▸ h,
          fun h => h reached rfl⟩
  constructor
  · intro hsame
    have hfirst := (Memory.Drained.of_taken htaken).queues_of
      ((Memory.Drained.of_queues hqueues).trans (.of_taken htaken'))
      hsame.2.queues
    have hrest := hfirst.symm.trans hsame.2.queues
    have hlast := hqueues.symm.trans hrest
    have hdevices := htaken.sameDevices hfirst
    have hdevices' := htaken'.sameDevices hlast
    have hmarked : Memory.SameStore read mem :=
      ⟨hdram'.symm.trans (hsame.1.trans hdram.symm),
        hdevices.symm.trans (hsame.2.trans hdevices'.symm)⟩
    exact ⟨hentries.mp hfirst, (hmarks hdevices).mp hmarked,
      (Memory.QuietAt.congr (hdevices.trans hmarked.2) _).mp
        (hoperand.mp hlast)⟩
  · rintro ⟨hquiet, haccessed, hpa⟩
    have hdevices := htaken.sameDevices (hentries.mpr hquiet)
    have hmarked := (hmarks hdevices).mpr haccessed
    have hdevices' := htaken'.sameDevices (hoperand.mpr
      ((Memory.QuietAt.congr (hdevices.trans hmarked.2) _).mpr hpa))
    exact (Memory.SameStore.trans ⟨hdram, hdevices⟩ hmarked).trans
      ⟨hdram', hdevices'⟩

theorem amoWidth_size {f3 : BitVec 32} {xlen : Xlen} {width : ℕ}
    (hwidth : amoWidth f3 xlen = some width) : width / 8 ≤ 8 := by
  rcases amoWidth_cases hwidth with rfl | rfl <;> decide

theorem sext_run {width : ℕ} (hwidth : width = 32 ∨ width = 64)
    (v : BitVec 64) (profile : Profile) :
    ∃ word, sext v width profile = some word := by
  rcases hwidth with rfl | rfl
  · exact ⟨_, rfl⟩
  · exact ⟨_, rfl⟩

theorem amoOp_reserved {inst : BitVec 32} (h : IsReservedAtomic inst)
    {width : ℕ} (hwidth : width = 32 ∨ width = 64) (a b : BitVec 64)
    (profile : Profile) :
    amoOp (funct7 inst >>> 2) a b width profile = some none := by
  obtain ⟨sb, hsb⟩ := sext_run hwidth b profile
  have hreserved := h.2
  simp only [List.mem_cons, List.not_mem_nil, or_false, not_or] at hreserved
  obtain ⟨-, -, h0, h1, h4, h8, hc, h10, h14, h18, h1c⟩ := hreserved
  rw [amoOp, Checked.bind_of_some hsb]
  refine congrArg some ?_
  split <;> first | rfl | contradiction

theorem executeRmw_reserved {inst : BitVec 32} (h : IsReservedAtomic inst)
    {width : ℕ} (hwidth : width = 32 ∨ width = 64) {addr v : BitVec 64}
    {x : Cpu} (hload : readMem addr (width / 8) profile c = some (.ok v, x)) :
    executeRmw inst addr width profile c =
      some (.error (.illegalInstruction inst), x) := by
  obtain ⟨a, ha⟩ := sext_run hwidth v profile
  rw [executeRmw, Program.bind_run_ok hload,
    Program.bind_run_ok (Program.check_run_some ha x),
    Program.bind_run_ok (Program.read_run _ _ _),
    Program.bind_run_ok (Program.check_run_some
      (amoOp_reserved h hwidth a _ profile) x)]
  rfl

theorem IsReservedAtomic.operation {inst : BitVec 32}
    (h : IsReservedAtomic inst) (addr : BitVec 64) (width : ℕ) :
    atomicOperation inst addr width = executeRmw inst addr width := by
  have hload : funct7 inst >>> 2 ≠ 0x02 := fun hop => h.2 (by rw [hop]; decide)
  have hstore : funct7 inst >>> 2 ≠ 0x03 := fun hop => h.2 (by rw [hop]; decide)
  rw [atomicOperation, if_neg hload, if_neg hstore]

/-! ## Rejected instructions -/

/-- Wherever the instruction is rejected as illegal, memory and the devices
are as they were, also after the step that fetched it. -/
def RejectsCleanly (profile : Profile) (inst : BitVec 32)
    (instPc nextPc : BitVec 64) (c : Cpu) : Prop :=
  ∀ word c', execute inst instPc nextPc profile c =
      some (.error (.illegalInstruction word), c') →
    Memory.SameStore c.mem c'.mem ∧
      ∀ start len outcome c'', fetch profile start.fetching =
          some (.ok (inst, len), c) → start.ticked.pc = instPc →
        c.pc + len = nextPc → start.ticked.pendingInterrupt = none →
        step profile start = some (outcome, c'') →
        Memory.SameStore c.mem c''.mem

theorem step_rejected {inst : BitVec 32} {len : BitVec 64} {c₁ c₂ : Cpu}
    {word : BitVec 32}
    (hfetch : fetch profile c.fetching = some (.ok (inst, len), c₁))
    (hexecute : execute inst c.ticked.pc (c₁.pc + len) profile c₁ =
      some (.error (.illegalInstruction word), c₂))
    (hpending : c.ticked.pendingInterrupt = none)
    (hstep : step profile c = some (outcome, c')) : c'.mem = c₂.mem := by
  have hfail : fetchExecute c.ticked.pc profile c.fetching =
      some (.error (.illegalInstruction word), c₂) := by
    rw [fetchExecute, Program.bind_run_ok hfetch]
    exact hexecute
  cases step_course hstep with
  | interrupt hsome _ => cases hpending.symm.trans hsome
  | retired _ hfetch' hexecute' =>
      cases hfetch.symm.trans hfetch'
      cases hexecute.symm.trans hexecute'
  | answered _ hfail' hcalls _ =>
      cases hfail.symm.trans hfail'
      cases hcalls
  | exception _ hfail' _ htrap =>
      cases hfail.symm.trans hfail'
      obtain ⟨entered, word, pc, -, -, rfl⟩ :=
        (takeTrap_enters _ _ _ _ profile _).ok htrap
      rfl

theorem QuietOperand.reserved {inst : BitVec 32} {instPc nextPc : BitVec 64}
    (h : QuietOperand profile { c with pc := nextPc } inst)
    (hreserved : IsReservedAtomic inst) {word : BitVec 32}
    (hrun : execute inst instPc nextPc profile c =
      some (.error (.illegalInstruction word), c')) :
    Memory.SameStore c.mem c'.mem := by
  rw [execute_atomic ⟨hreserved.1, rfl⟩] at hrun
  rcases executeAmo_cases hrun with ⟨rfl, -⟩ | ⟨width, hwidth, haligned, hrun⟩
  · exact Memory.SameStore.refl c.mem
  rw [hreserved.operation] at hrun
  rcases Program.bind_cases (show executeRmw _ _ _ _ _ = _ from hrun) with
    ⟨e, hload, herror⟩ | ⟨v, x, hload, -⟩
  · -- A load that fails raises a fault, not an illegal instruction.
    cases herror
    exact ((readMem_touches _ _ profile _).error hload).2.elim
  · have hrejected := executeRmw_reserved hreserved (amoWidth_cases hwidth) hload
    cases hrun.symm.trans hrejected
    obtain ⟨entries, found, page, mem, mem', htranslates, hread, rfl⟩ :=
      (readMem_within_iff (fitsPage_aligned (amoWidth_cases hwidth) haligned
        profile)).mp hload
    exact (htranslates.quietLoad_iff hread).mpr (h hreserved width hwidth
      haligned entries found page mem htranslates (Memory.read_answers
        (amoWidth_size hwidth) hread htranslates.len.symm))

/-- For every word and every state, an instruction that is rejected as illegal
leaves memory and the devices untouched, exactly if it is no reserved atomic
that loads its operand with a side effect. -/
theorem rejectsCleanly_iff (profile : Profile) (inst : BitVec 32)
    (instPc nextPc : BitVec 64) (c : Cpu) :
    RejectsCleanly profile inst instPc nextPc c ↔
      QuietOperand profile { c with pc := nextPc } inst := by
  constructor
  · rintro h hreserved width hwidth haligned entries found page mem htranslates
      ⟨_, _, hanswers⟩
    obtain ⟨v, mem', hread⟩ := Memory.read_answers (amoWidth_size hwidth)
      hanswers htranslates.len
    obtain ⟨x, hload, hmem⟩ : ∃ x, readMem (c.rr (rs1 inst)) (width / 8) profile
        { c with pc := nextPc } = some (.ok v, x) ∧ x.mem = mem' :=
      ⟨_, (readMem_within_iff (fitsPage_aligned (amoWidth_cases hwidth) haligned
        profile)).mpr
        ⟨entries, found, page, mem, mem', htranslates, hread, rfl⟩, rfl⟩
    have hrun : execute inst instPc nextPc profile c =
        some (.error (.illegalInstruction inst), x) := by
      rw [execute_atomic ⟨hreserved.1, rfl⟩, executeAmo_run hwidth haligned,
        hreserved.operation]
      exact executeRmw_reserved hreserved (amoWidth_cases hwidth) hload
    have hsame := (h inst x hrun).1
    rw [hmem] at hsame
    exact (htranslates.quietLoad_iff hread).mp hsame
  · intro h word c' hrun
    have hsame : Memory.SameStore c.mem c'.mem := by
      rcases ((execute_acts c inst instPc nextPc profile).error hrun).early
        word rfl with rfl | hreserved
      · exact Memory.SameStore.refl c.mem
      · exact h.reserved hreserved hrun
    refine ⟨hsame, ?_⟩
    rintro start len outcome c'' hfetch rfl rfl hpending hstep
    rw [step_rejected hfetch hrun hpending hstep]
    exact hsame

/-- One byte is typed, and a program points x5 at the UART and then names the
reserved operation 5: `lui x5, 0x10000`, then the word 0x2802a02f. -/
def typedHart : Cpu :=
  (programmedHart .rv64 [0x100002b7, 0x2802a02f]).pushInput [0x41]

/-- The rejected instruction takes the byte. -/
theorem rejected_takes_input :
    Reachable .debug (Started .debug) (stepped .debug typedHart) ∧
      ¬ RejectsCleanly .debug 0x2802a02f (stepped .debug typedHart).pc
        ((stepped .debug typedHart).pc + 4) (stepped .debug typedHart) := by
  have hstart : Started .debug (programmedHart .rv64 [0x100002b7, 0x2802a02f]) :=
    Or.inl (programmedHart_loaded .debug .rv64 (by decide))
  have hstep : step .debug typedHart = some (.ok (), stepped .debug typedHart) :=
    step_eq_stepped (by decide +kernel)
  refine ⟨⟨_, hstart, ((Run.refl trivial).tail (.input [0x41]) trivial).tail
    (.step hstep) trivial⟩, fun hclean => ?_⟩
  have htaken : ((execute 0x2802a02f (stepped .debug typedHart).pc
      ((stepped .debug typedHart).pc + 4) .debug
        (stepped .debug typedHart)).map fun (outcome, c) =>
          (outcome, c.mem.uart.rx)) =
      some (.error (.illegalInstruction 0x2802a02f), []) := by
    decide +kernel
  obtain ⟨⟨outcome, c'⟩, hrun, heq⟩ := Option.map_eq_some_iff.mp htaken
  obtain ⟨rfl, hrx⟩ := Prod.mk.inj heq
  have hsame := (hclean _ c' hrun).1.2.uart
  rw [hsame] at hrx
  have hqueued : (stepped .debug typedHart).mem.uart.rx = [0x41] := by
    decide +kernel
  rw [hqueued] at hrx
  cases hrx

end Cpu

end Nanoemu
