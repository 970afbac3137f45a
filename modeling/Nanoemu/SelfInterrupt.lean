import Nanoemu.CsrAliases
import Nanoemu.SupervisorTimer
import Nanoemu.TableReads

/-!
# Interrupts between harts

A kernel sends a software interrupt to the harts a mask selects.  The mask
comes in a register with the number of its first hart, or, in the older call,
from the caller's memory.  There is one hart, and the question is whether the
call means it.
-/

namespace Nanoemu

open CheckedProgram BitFields

theorem and_one_ne_zero (word : BitVec 64) :
    (word &&& 1 != 0) = word.getLsbD 0 := by
  change (word &&& 1#64 != 0) = _
  rw [BitVec.and_one_eq_setWidth_ofBool_getLsbD]
  cases word.getLsbD 0 <;> rfl

/-- Hart 0 is the first one the mask counts from, or any. -/
theorem Sbi.hartSelected_zero (mask base : BitVec 64) (profile : Profile) :
    Sbi.hartSelected mask base 0 profile =
      some (decide (base = BitVec.allOnes 64) ||
        decide (base = 0) && mask.getLsbD 0) := by
  unfold Sbi.hartSelected
  by_cases hall : base = BitVec.allOnes 64
  · rw [if_pos hall, decide_eq_true hall]
    rfl
  rw [if_neg hall]
  by_cases hzero : base = 0
  · subst hzero
    rw [if_neg (by decide)]
    change some (mask &&& 1 != 0) = _
    rw [and_one_ne_zero]
    simp
  · have hbelow : (0 : BitVec 64) < base := by
      rw [BitVec.lt_def]
      have hnat : base.toNat ≠ 0 := fun h =>
        hzero (BitVec.eq_of_toNat_eq h)
      exact Nat.pos_of_ne_zero hnat
    rw [if_pos hbelow, decide_eq_false hall, decide_eq_false hzero]
    rfl

namespace Memory

/-- The address holds something, and its lowest bit is set. -/
inductive ShowsBit (profile : Profile) (mem : Memory) (addr : BitVec 64)
    (size : ℕ) : Prop where
  | dram : mem.InDram addr size →
      (mem.dram.byte (offset addr)).getLsbD 0 = true →
      ShowsBit profile mem addr size
  | clint {v : BitVec 64} : Clint.InWindow addr →
      mem.clint.read addr size profile = some v → v.getLsbD 0 = true →
      ShowsBit profile mem addr size
  | plic : InPlic addr →
      (mem.plic.read (addr - Plic.PLIC_BASE)).1.getLsbD 0 = true →
      ShowsBit profile mem addr size
  | uart : Uart.UART_BASE ≤ addr ∧ addr < Uart.UART_BASE + Uart.UART_SIZE →
      (mem.uart.read (addr - Uart.UART_BASE)).1.getLsbD 0 = true →
      ShowsBit profile mem addr size

theorem loadLe_bit_zero (dram : Dram) (i : ℕ) {size : ℕ}
    (hsize : validSize size = true) :
    (dram.loadLe i size).getLsbD 0 = (dram.byte i).getLsbD 0 := by
  have hpos : 0 < size := by
    rcases size with _ | _
    · cases hsize
    · exact Nat.succ_pos _
  rw [Dram.getLsbD_loadLe _ _ _ _ (size_le_of_valid hsize),
    decide_eq_true (by omega), Bool.true_and]
  rfl

theorem showsBit_iff {profile : Profile} {mem : Memory} {addr : BitVec 64}
    {size : ℕ} (hsize : validSize size = true) :
    mem.ShowsBit profile addr size ↔
      ∃ word after, Memory.read addr size profile mem =
        some (.ok word, after) ∧ word.getLsbD 0 = true := by
  constructor
  · intro h
    cases h with
    | dram hin hbit =>
        exact ⟨_, _, read_inDram hin hsize profile,
          (loadLe_bit_zero _ _ hsize).trans hbit⟩
    | clint hin hread hbit =>
        refine ⟨_, { mem with devicesDirty := true }, ?_, hbit⟩
        rw [Clint.memory_read_run hin, hread]
        rfl
    | plic hin hbit => exact ⟨_, _, read_plic hin profile mem, hbit⟩
    | uart hin hbit => exact ⟨_, _, read_uart hin size profile mem, hbit⟩
  · rintro ⟨word, after, hread, hbit⟩
    cases read_course hread with
    | dram hin _ => exact .dram hin ((loadLe_bit_zero _ _ hsize).symm.trans hbit)
    | clint _ hin hword => exact .clint hin hword hbit
    | plic _ hin => exact .plic hin hbit
    | uart _ hin => exact .uart hin hbit

/-- Only the shift of the CLINT's words can overflow. -/
theorem read_returns {profile : Profile} {mem : Memory} {addr : BitVec 64}
    {size : ℕ} (hsize : validSize size = true) :
    (∃ result, Memory.read addr size profile mem = some result) ↔
      (Clint.InWindow addr →
        ∃ v, mem.clint.read addr size profile = some v) := by
  by_cases hclint : Clint.InWindow addr
  · rw [Clint.memory_read_run hclint]
    cases mem.clint.read addr size profile <;> simp [hclint]
  refine iff_of_true ?_ fun h => absurd h hclint
  by_cases hmapped : mem.Mapped addr size
  · rcases hmapped with hin | ⟨-, h | h | h⟩
    · exact ⟨_, read_inDram hin hsize profile⟩
    · exact absurd h hclint
    · exact ⟨_, read_plic h profile mem⟩
    · exact ⟨_, read_uart h size profile mem⟩
  · exact ⟨_, read_unmapped (fun h => hmapped (.inl h))
      (fun h => hmapped (.inr h)) profile⟩

end Memory

namespace Cpu

variable {profile : Profile} {c c' : Cpu}

/-- What a register holds, cut to the width of the hart. -/
def argument (c : Cpu) (r : Fin 32) : BitVec 64 :=
  trunc (c.regs r) c.xbits

def SoftwarePending (c : Cpu) : Prop :=
  c.csrs.read Csr.MIP &&& IntBit.SSIP ≠ 0

instance (c : Cpu) : Decidable (SoftwarePending c) :=
  inferInstanceAs (Decidable (_ ≠ _))

/-- A load of a word at `va` by the code that runs on `c` would find bit 0
set. -/
def LoadsBit (profile : Profile) (c : Cpu) (va : BitVec 64) : Prop :=
  ∃ word c', readMem va (c.xbits / 8) profile c = some (.ok word, c') ∧
    word.getLsbD 0 = true

/-- The bytes from `k` on of a load that crosses a page boundary are found and
answered, one after another. -/
inductive Gathers (profile : Profile) (va : BitVec 64) :
    (remaining k : ℕ) → Cpu → Prop where
  | done {k : ℕ} {c : Cpu} : Gathers profile va 0 k c
  | byte {remaining k : ℕ} {c : Cpu} {addr page v : BitVec 64}
      {entries : List (BitVec 64)} {found : Option Mmu.Leaf}
      {mem mem' : Memory} :
      Checked.add va (BitVec.ofNat 64 k) profile = some addr →
      Translates profile c addr .load entries found (some page) mem →
      Memory.read (page ||| (addr &&& 0xfff)) 1 profile mem =
        some (.ok v, mem') →
      Gathers profile va remaining (k + 1)
        { (c.answer addr .load (some page) mem).2 with mem := mem' } →
      Gathers profile va (remaining + 1) k c

/-- The code that runs on `c` finds a page for `va` and there the lowest bit
set; beyond a page boundary the other bytes must be there too. -/
inductive FindsBit (profile : Profile) (c : Cpu) (va : BitVec 64) (size : ℕ) :
    Prop where
  | within {entries : List (BitVec 64)} {found : Option Mmu.Leaf}
      {page : BitVec 64} {mem : Memory} :
      va.toNat % 4096 + size ≤ 4096 →
      Translates profile c va .load entries found (some page) mem →
      mem.ShowsBit profile (page ||| (va &&& 0xfff)) size →
      FindsBit profile c va size
  | crossing {entries : List (BitVec 64)} {found : Option Mmu.Leaf}
      {page v : BitVec 64} {mem mem' : Memory} :
      4096 < va.toNat % 4096 + size →
      Translates profile c va .load entries found (some page) mem →
      Memory.read (page ||| (va &&& 0xfff)) 1 profile mem =
        some (.ok v, mem') →
      v.getLsbD 0 = true →
      Gathers profile va (size - 1) 1
        { (c.answer va .load (some page) mem).2 with mem := mem' } →
      FindsBit profile c va size

theorem readBytes_succ_iff {va v : BitVec 64} {remaining k : ℕ} (hk : k < 8)
    {word : BitVec 64} :
    readBytes va (remaining + 1) k v profile c = some (.ok word, c') ↔
      ∃ addr entries found page mem b mem',
        Checked.add va (BitVec.ofNat 64 k) profile = some addr ∧
          Translates profile c addr .load entries found (some page) mem ∧
          Memory.read (page ||| (addr &&& 0xfff)) 1 profile mem =
            some (.ok b, mem') ∧
          readBytes va remaining (k + 1) (v ||| b <<< (8 * k)) profile
              { (c.answer addr .load (some page) mem).2 with mem := mem' } =
            some (.ok word, c') := by
  have hshift : Checked.umul 64 8 k = pure (8 * k) :=
    Checked.umul_eq_pure (by omega)
  have hpiece : ∀ b : BitVec 64,
      Checked.shl b (8 * k) = pure (b <<< (8 * k)) :=
    fun b => Checked.shl_eq_pure (by omega)
  have hsplit : readBytes va (remaining + 1) k v =
      Program.check (Checked.add va (BitVec.ofNat 64 k)) >>= fun addr =>
        (translate addr .load >>= fun pa =>
          physRead (.loadAccessFault va) pa 1) >>= fun b =>
            readBytes va remaining (k + 1) (v ||| b <<< (8 * k)) := by
    simp only [readBytes, hshift, hpiece, Program.check_pure, pure_bind,
      bind_assoc]
  rw [hsplit]
  constructor
  · intro hrun
    obtain ⟨addr, c₁, hcheck, hrest⟩ := Program.bind_ok hrun
    obtain ⟨_, hadd, heq, rfl⟩ := Program.check_cases hcheck
    cases heq
    obtain ⟨b, c₂, hload, hbytes⟩ := Program.bind_ok hrest
    obtain ⟨entries, found, page, mem, mem', htranslates, hread, rfl⟩ :=
      load_iff.mp hload
    exact ⟨addr, entries, found, page, mem, b, mem', hadd, htranslates, hread,
      hbytes⟩
  · rintro ⟨addr, entries, found, page, mem, b, mem', hadd, htranslates, hread,
      hbytes⟩
    rw [Program.bind_run_ok (Program.check_run_some hadd c),
      Program.bind_run_ok (load_iff.mpr ⟨entries, found, page, mem, mem',
        htranslates, hread, rfl⟩)]
    exact hbytes

/-- The bytes after the first leave the lowest bit alone. -/
theorem readBytes_iff_gathers {va v : BitVec 64} {remaining k : ℕ}
    (hk : 0 < k) (hsize : k + remaining ≤ 8) :
    (∃ word c', readBytes va remaining k v profile c = some (.ok word, c') ∧
        word.getLsbD 0 = true) ↔
      Gathers profile va remaining k c ∧ v.getLsbD 0 = true := by
  induction remaining generalizing k v c with
  | zero =>
      constructor
      · rintro ⟨word, c', hrun, hbit⟩
        cases hrun
        exact ⟨.done, hbit⟩
      · rintro ⟨-, hbit⟩
        exact ⟨v, c, rfl, hbit⟩
  | succ remaining ih =>
      have hlow : ∀ b : BitVec 64,
          (v ||| b <<< (8 * k)).getLsbD 0 = v.getLsbD 0 := by
        intro b
        rw [BitVec.getLsbD_or, BitVec.getLsbD_shiftLeft,
          decide_eq_true (show 0 < 8 * k by omega)]
        simp
      constructor
      · rintro ⟨word, c', hrun, hbit⟩
        obtain ⟨addr, entries, found, page, mem, b, mem', hadd, htranslates,
          hread, hbytes⟩ := (readBytes_succ_iff (by omega)).mp hrun
        obtain ⟨hrest, hv⟩ := (ih (Nat.succ_pos k) (by omega)).mp
          ⟨word, c', hbytes, hbit⟩
        exact ⟨.byte hadd htranslates hread hrest, (hlow b).symm.trans hv⟩
      · rintro ⟨hgathers, hv⟩
        cases hgathers with
        | byte hadd htranslates hread hrest =>
            obtain ⟨word, c', hbytes, hbit⟩ :=
              (ih (Nat.succ_pos k) (by omega)).mpr
                ⟨hrest, (hlow _).trans hv⟩
            exact ⟨word, c', (readBytes_succ_iff (by omega)).mpr
              ⟨_, _, _, _, _, _, _, hadd, htranslates, hread, hbytes⟩, hbit⟩

theorem xbits_size (c : Cpu) : Memory.validSize (c.xbits / 8) = true := by
  unfold xbits
  cases c.xlen <;> rfl

/-- A load finds the bit where its page is. -/
theorem loadsBit_iff {va : BitVec 64} :
    LoadsBit profile c va ↔ FindsBit profile c va (c.xbits / 8) := by
  have hle := Memory.size_le_of_valid c.xbits_size
  unfold LoadsBit
  by_cases hwithin : va.toNat % 4096 + c.xbits / 8 ≤ 4096
  · have hfits : fitsPage va (c.xbits / 8) profile = some true := by
      rw [fitsPage_eq hle, decide_eq_true hwithin]
      rfl
    constructor
    · rintro ⟨word, c', hrun, hbit⟩
      obtain ⟨entries, found, page, mem, mem', htranslates, hread, -⟩ :=
        (readMem_within_iff hfits).mp hrun
      exact .within hwithin htranslates
        ((Memory.showsBit_iff c.xbits_size).mpr ⟨word, mem', hread, hbit⟩)
    · intro hfinds
      cases hfinds with
      | within _ htranslates hshows =>
          obtain ⟨word, mem', hread, hbit⟩ :=
            (Memory.showsBit_iff c.xbits_size).mp hshows
          exact ⟨word, _, (readMem_within_iff hfits).mpr
            ⟨_, _, _, _, mem', htranslates, hread, rfl⟩, hbit⟩
      | crossing hcross => exact absurd hwithin (not_le.mpr hcross)
  · have hfits : fitsPage va (c.xbits / 8) profile = some false := by
      rw [fitsPage_eq hle, decide_eq_false hwithin]
      rfl
    have hbytes : readMem va (c.xbits / 8) profile c =
        readBytes va (c.xbits / 8 - 1 + 1) 0 0 profile c := by
      rw [readMem, Program.bind_run_ok (Program.check_run_some hfits c),
        if_neg Bool.false_ne_true, Nat.sub_add_cancel]
      unfold xbits
      cases c.xlen <;> decide
    have hfirst : Checked.add va (BitVec.ofNat 64 0) profile = some va := by
      have hzero := BitVec.add_zero va
      rw [Checked.add_eq_pure (by simpa using va.isLt)]
      exact congrArg some hzero
    have hvalue : ∀ b : BitVec 64, (0 : BitVec 64) ||| b <<< (8 * 0) = b := by
      intro b
      rw [Nat.mul_zero, BitVec.shiftLeft_zero]
      exact BitVec.zero_or
    rw [hbytes]
    constructor
    · rintro ⟨word, c', hrun, hbit⟩
      obtain ⟨addr, entries, found, page, mem, b, mem', hadd, htranslates,
        hread, hrest⟩ := (readBytes_succ_iff (by decide)).mp hrun
      cases hfirst.symm.trans hadd
      rw [hvalue] at hrest
      obtain ⟨hgathers, hb⟩ := (readBytes_iff_gathers Nat.one_pos
        (by omega)).mp ⟨word, c', hrest, hbit⟩
      exact .crossing (not_le.mp hwithin) htranslates hread hb hgathers
    · intro hfinds
      cases hfinds with
      | within hfit => exact absurd hfit hwithin
      | crossing _ htranslates hread hb hgathers =>
          obtain ⟨word, c', hrest, hbit⟩ := (readBytes_iff_gathers Nat.one_pos
            (by omega)).mpr ⟨hgathers, hb⟩
          refine ⟨word, c', (readBytes_succ_iff (by decide)).mpr
            ⟨va, _, _, _, _, _, _, hfirst, htranslates, hread, ?_⟩, hbit⟩
          rw [hvalue]
          exact hrest

end Cpu

/-- The two calls that send a software interrupt. -/
inductive IpiCall where
  | extension | legacy
deriving DecidableEq, Repr

namespace IpiCall

open Cpu

/-- The function that a7 and a6 name. -/
def NamedBy (c : Cpu) : IpiCall → Prop
  | extension => c.regs 17 = Sbi.EXT_IPI ∧ c.regs 16 = 0
  | legacy => c.regs 17 = Sbi.LEGACY_SEND_IPI

/-- The call means hart 0: the mask counts from it and has it, or there is no
mask. -/
def SelectsHart (profile : Profile) (c : Cpu) : IpiCall → Prop
  | extension =>
      c.argument a1 = trunc (BitVec.allOnes 64) c.xbits ∨
        c.argument a1 = 0 ∧ (c.argument a0).getLsbD 0 = true
  | legacy =>
      c.argument a0 = 0 ∨ LoadsBit profile c (c.argument a0)

/-- The call returns, and has raised the interrupt if it means the hart. -/
def Delivers (profile : Profile) (c : Cpu) (call : IpiCall) : Prop :=
  ∃ c', handleSbi profile c = some (.ok true, c') ∧
    (SoftwarePending c' ↔ SoftwarePending c ∨ call.SelectsHart profile c)

/-- The firmware compares whole registers, and reads eight bytes at the pointer
without the caller's translation; here this makes no difference. -/
def Understood (profile : Profile) (c : Cpu) : IpiCall → Prop
  | extension =>
      SoftwarePending c ∨
        (c.argument a1 = trunc (BitVec.allOnes 64) c.xbits →
          c.regs a1 = BitVec.allOnes 64) ∧
        (c.argument a1 = 0 →
          c.regs a1 = 0 ∨ (c.argument a0).getLsbD 0 = false)
  | legacy =>
      c.regs a0 = 0 ∨
        (Clint.InWindow (c.regs a0) →
          ∃ v, c.mem.clint.read (c.regs a0) 8 profile = some v) ∧
        (SoftwarePending c ∨
          (c.mem.ShowsBit profile (c.regs a0) 8 ↔
            c.argument a0 = 0 ∨
              FindsBit profile c (c.argument a0) (c.xbits / 8)))

end IpiCall

namespace Cpu

variable {profile : Profile} {c c' : Cpu}

/-! ## The calls -/

def withSoftware (c : Cpu) (selected : Bool) : Cpu :=
  if selected then { c with csrs := c.csrs.setBits Csr.MIP IntBit.SSIP } else c

theorem softwarePending_iff :
    SoftwarePending c ↔ c.csrs.regs Csr.MIP &&& IntBit.SSIP ≠ 0 := by
  rw [SoftwarePending, read_mip_and c.csrs (by decide)]

theorem withSoftware_pending (selected : Bool) :
    SoftwarePending (c.withSoftware selected) ↔
      SoftwarePending c ∨ selected = true := by
  cases selected with
  | false => simp [withSoftware]
  | true =>
      have hraised : (c.withSoftware true).csrs.regs Csr.MIP =
          c.csrs.regs Csr.MIP ||| IntBit.SSIP := CsrFile.force_regs_same _ _ _
      have hset : SoftwarePending (c.withSoftware true) := by
        rw [softwarePending_iff, hraised, or_and_self]
        decide
      simp [hset]

theorem handleSbi_extension (h : IpiCall.extension.NamedBy c) :
    ∃ regs, handleSbi profile c = some (.ok true,
      { c.withSoftware (decide (c.regs a1 = BitVec.allOnes 64) ||
          decide (c.regs a1 = 0) && (c.regs a0).getLsbD 0) with
        regs := regs }) := by
  obtain ⟨heid, hfid⟩ := h
  rw [handleSbi, Program.bind_run_ok (Program.read_run _ _ _), id]
  dsimp only
  rw [heid, hfid, if_neg (by decide), handleExtension, if_neg (by decide),
    if_neg (by decide), if_pos ⟨rfl, rfl⟩]
  have hselected := Program.check_run_some (ε := Exception)
    (Sbi.hartSelected_zero (c.regs a0) (c.regs a1) profile) c
  cases hsel : (decide (c.regs a1 = BitVec.allOnes 64) ||
      decide (c.regs a1 = 0) && (c.regs a0).getLsbD 0) with
  | false =>
      rw [hsel] at hselected
      rw [bind_assoc, Program.bind_run_ok hselected]
      exact ⟨_, rfl⟩
  | true =>
      rw [hsel] at hselected
      rw [bind_assoc, Program.bind_run_ok hselected]
      exact ⟨_, rfl⟩

theorem handleSbi_legacy (h : IpiCall.legacy.NamedBy c) :
    handleSbi profile c =
      (legacySendIpi (c.regs a0) >>= fun _ => pure true) profile c := by
  change c.regs 17 = Sbi.LEGACY_SEND_IPI at h
  rw [handleSbi, Program.bind_run_ok (Program.read_run _ _ _), id, h,
    if_pos (by decide), handleLegacy, if_neg (by decide),
    if_neg (by decide), if_neg (by decide), if_neg (by decide), if_pos rfl]

theorem handleSbi_null (h : IpiCall.legacy.NamedBy c)
    (hnull : c.regs a0 = 0) :
    ∃ regs, handleSbi profile c =
      some (.ok true, { c.withSoftware true with regs := regs }) := by
  rw [handleSbi_legacy h, legacySendIpi, if_pos hnull]
  exact ⟨_, rfl⟩

theorem handleSbi_pointer (h : IpiCall.legacy.NamedBy c)
    (hpointer : c.regs a0 ≠ 0) {outcome : Except Unmapped (BitVec 64)}
    {mem : Memory} (hread : Memory.read (c.regs a0) 8 profile c.mem =
      some (outcome, mem)) :
    ∃ regs, handleSbi profile c = some (.ok true,
      { c.withSoftware (outcome.toOption.any fun word =>
          word.getLsbD 0) with regs := regs, mem := mem }) := by
  have htry : tryRead (c.regs a0) 8 profile c =
      some (.ok outcome, { c with mem := mem }) := by
    apply Program.attempt_run_some
    unfold onMemory Program.zoom
    rw [hread]
  rw [handleSbi_legacy h, legacySendIpi, if_neg hpointer, bind_assoc,
    Program.bind_run_ok htry]
  cases outcome with
  | error _ => exact ⟨_, rfl⟩
  | ok word =>
      change ∃ regs, ((if (word &&& 1 != 0) = true then
          setMip IntBit.SSIP >>= fun _ => setArg a0 0
        else setArg a0 0) >>= fun _ => pure true) profile
          { c with mem := mem } = some (.ok true,
            { c.withSoftware (word.getLsbD 0) with regs := regs, mem := mem })
      rw [and_one_ne_zero]
      cases word.getLsbD 0 with
      | false => exact ⟨_, rfl⟩
      | true => exact ⟨_, rfl⟩

theorem handleSbi_panics (h : IpiCall.legacy.NamedBy c)
    (hpointer : c.regs a0 ≠ 0)
    (hread : Memory.read (c.regs a0) 8 profile c.mem = none) :
    handleSbi profile c = none := by
  have htry : tryRead (c.regs a0) 8 profile c = none := by
    apply Program.attempt_run_none
    unfold onMemory Program.zoom
    rw [hread]
  rw [handleSbi_legacy h, legacySendIpi, if_neg hpointer, bind_assoc,
    Program.bind_run_none htry]

/-! ## Who is selected -/

theorem argument_of_zero {r : Fin 32} (h : c.regs r = 0) :
    c.argument r = 0 := by
  unfold argument trunc
  rw [h]
  split
  · rfl
  · exact BitVec.zero_and

/-- A choice between two exclusive cases is made alike, if each case is
recognised whenever it matters. -/
theorem selected_iff {all zero all' zero' : Prop} {first : Prop}
    (hall : all → all') (hzero : zero → zero') (hexclusive : all' → ¬ zero') :
    (all ∨ zero ∧ first ↔ all' ∨ zero' ∧ first) ↔
      (all' → all) ∧ (zero' → zero ∨ ¬ first) := by
  constructor
  · intro hsame
    constructor
    · intro h
      rcases hsame.mpr (Or.inl h) with hone | ⟨hnone, -⟩
      · exact hone
      · exact absurd (hzero hnone) (hexclusive h)
    · intro h
      by_cases hfirst : first
      · rcases hsame.mpr (Or.inr ⟨h, hfirst⟩) with hone | ⟨hnone, -⟩
        · exact absurd h (hexclusive (hall hone))
        · exact Or.inl hnone
      · exact Or.inr hfirst
  · rintro ⟨hback, hbackZero⟩
    constructor
    · exact Or.imp hall (And.imp_left hzero)
    · rintro (h | ⟨h, hfirst⟩)
      · exact Or.inl (hback h)
      · exact Or.inr ⟨(hbackZero h).resolve_right (not_not.mpr hfirst), hfirst⟩

theorem raised_iff {pending selected meant : Prop} :
    (pending ∨ selected ↔ pending ∨ meant) ↔
      pending ∨ (selected ↔ meant) := by
  by_cases h : pending
  · simp [h]
  · simp [h]

theorem argument_bit (r : Fin 32) :
    (c.argument r).getLsbD 0 = (c.regs r).getLsbD 0 := by
  unfold argument xbits trunc
  cases c.xlen with
  | rv64 => rfl
  | rv32 =>
      rw [if_neg (by decide), BitVec.getLsbD_and]
      exact Bool.and_true _

end Cpu

namespace IpiCall

open Cpu

variable {profile : Profile} {c : Cpu} {call : IpiCall}

theorem delivers_of_run {x : Cpu} {selected : Bool}
    (hrun : handleSbi profile c = some (.ok true, x))
    (hpending : SoftwarePending x ↔ SoftwarePending c ∨ selected = true) :
    call.Delivers profile c ↔
      SoftwarePending c ∨ (selected = true ↔ call.SelectsHart profile c) := by
  rw [← raised_iff, ← hpending]
  constructor
  · rintro ⟨c', hrun', hdelivered⟩
    cases hrun.symm.trans hrun'
    exact hdelivered
  · intro hdelivered
    exact ⟨x, hrun, hdelivered⟩

theorem delivers_extension (hcall : extension.NamedBy c) :
    extension.Delivers profile c ↔ extension.Understood profile c := by
  obtain ⟨regs, hrun⟩ := @handleSbi_extension profile c hcall
  have hexclusive : c.argument a1 = trunc (BitVec.allOnes 64) c.xbits →
      ¬ c.argument a1 = 0 := by
    intro hall hnone
    have hones : trunc (BitVec.allOnes 64) c.xbits ≠ 0 := by
      unfold xbits
      cases c.xlen <;> decide
    exact hones (hall.symm.trans hnone)
  have hall : c.regs a1 = BitVec.allOnes 64 →
      c.argument a1 = trunc (BitVec.allOnes 64) c.xbits :=
    fun h => congrArg (fun v => trunc v c.xbits) h
  have hcode : (decide (c.regs a1 = BitVec.allOnes 64) ||
      decide (c.regs a1 = 0) && (c.regs a0).getLsbD 0) = true ↔
        c.regs a1 = BitVec.allOnes 64 ∨
          c.regs a1 = 0 ∧ (c.regs a0).getLsbD 0 = true := by
    simp only [Bool.or_eq_true, Bool.and_eq_true, decide_eq_true_eq]
  rw [delivers_of_run hrun (withSoftware_pending _), hcode]
  dsimp only [SelectsHart, Understood]
  rw [argument_bit, selected_iff hall argument_of_zero hexclusive,
    Bool.not_eq_true]

theorem delivers_legacy (hcall : legacy.NamedBy c) :
    legacy.Delivers profile c ↔ legacy.Understood profile c := by
  have hmeans : legacy.SelectsHart profile c ↔ c.argument a0 = 0 ∨
      FindsBit profile c (c.argument a0) (c.xbits / 8) :=
    or_congr_right loadsBit_iff
  by_cases hnull : c.regs a0 = 0
  · obtain ⟨regs, hrun⟩ := @handleSbi_null profile c hcall hnull
    have hmeant : legacy.SelectsHart profile c :=
      Or.inl (argument_of_zero hnull)
    rw [delivers_of_run hrun (withSoftware_pending _)]
    exact iff_of_true (Or.inr (iff_of_true rfl hmeant)) (Or.inl hnull)
  have hreturns : (∃ result, Memory.read (c.regs a0) 8 profile c.mem =
      some result) ↔ _ := Memory.read_returns rfl
  cases hread : Memory.read (c.regs a0) 8 profile c.mem with
  | none =>
      have hpanics := handleSbi_panics hcall hnull hread
      constructor
      · rintro ⟨c', hrun, -⟩
        cases hpanics.symm.trans hrun
      · rintro (h | ⟨hword, -⟩)
        · exact absurd h hnull
        · obtain ⟨_, hsome⟩ := hreturns.mpr hword
          cases hread.symm.trans hsome
  | some result =>
      obtain ⟨outcome, mem⟩ := result
      obtain ⟨regs, hrun⟩ := handleSbi_pointer hcall hnull hread
      have hbit : (outcome.toOption.any fun word => word.getLsbD 0) = true ↔
          c.mem.ShowsBit profile (c.regs a0) 8 := by
        rw [Memory.showsBit_iff rfl, hread]
        cases outcome with
        | error e => simp [Except.toOption]
        | ok word => simp [Except.toOption]
      rw [delivers_of_run hrun (withSoftware_pending _), hbit, hmeans]
      constructor
      · intro h
        exact Or.inr ⟨hreturns.mp ⟨_, hread⟩, h⟩
      · rintro (h | ⟨-, h⟩)
        · exact absurd h hnull
        · exact h

/-- A call that sends a software interrupt delivers it as the specification
says exactly when its arguments mean the same to the firmware. -/
theorem delivers_iff (hcall : call.NamedBy c) :
    call.Delivers profile c ↔ call.Understood profile c := by
  cases call with
  | extension => exact delivers_extension hcall
  | legacy => exact delivers_legacy hcall

/-- A pointer into DRAM that the caller's code does not translate either is
understood, if the whole word lies on its page. -/
theorem understood_of_direct (hdirect : c.Untranslated .load)
    (hmiss : c.tlbHit (c.argument a0) .load = false)
    (hwhole : c.argument a0 = c.regs a0)
    (hfits : (c.regs a0).toNat % 4096 + 8 ≤ 4096)
    (hin : c.mem.InDram (c.regs a0) 8) : legacy.Understood profile c := by
  have hsize : c.xbits / 8 ≤ 8 := Memory.size_le_of_valid c.xbits_size
  have hnull : c.argument a0 ≠ 0 := by
    intro hzero
    have hbase := hin.1
    rw [← hwhole, hzero] at hbase
    exact absurd hbase (by decide)
  have hword : c.mem.InDram (c.regs a0) (c.xbits / 8) := by
    obtain ⟨hbase, hlen, hrange⟩ := hin
    exact ⟨hbase, by omega, by omega⟩
  have hshows : ∀ size, c.mem.InDram (c.regs a0) size →
      (c.mem.ShowsBit profile (c.regs a0) size ↔
        (c.mem.dram.byte (Memory.offset (c.regs a0))).getLsbD 0 = true) := by
    intro size hsize
    refine ⟨fun h => ?_, .dram hsize⟩
    cases h with
    | dram _ hbit => exact hbit
    | clint hclint => exact absurd hin.1 (Clint.below_dram hclint)
    | plic hplic => exact absurd hin.1 (Memory.inPlic_apart hplic).1
    | uart huart => exact absurd hin.1 (Memory.uart_apart huart).1
  refine Or.inr ⟨fun hclint => absurd hin.1 (Clint.below_dram hclint),
    Or.inr ?_⟩
  rw [hshows 8 hin, or_iff_right hnull, ← hshows _ hword]
  have hpage : c.regs a0 =
      (c.regs a0 &&& ~~~0xfff) ||| (c.regs a0 &&& 0xfff) :=
    Mmu.eq_of_page_and_offset rfl rfl
  constructor
  · intro h
    rw [hwhole] at hmiss ⊢
    refine .within (by omega) ((translates_direct_iff hdirect hmiss).mpr
      ⟨rfl, rfl, rfl, rfl⟩) ?_
    rw [← hpage]
    exact h
  · intro h
    rw [hwhole] at hmiss h
    cases h with
    | within _ htranslates h =>
        obtain ⟨-, -, heq, rfl⟩ :=
          (translates_direct_iff hdirect hmiss).mp htranslates
        cases heq
        rw [← hpage] at h
        exact h
    | crossing hcross => omega

/-- A kernel that sends the interrupt to every hart: the base is -1, whatever
the mask. -/
def broadcastHart (xlen : Xlen) : Cpu :=
  (programmedHart xlen
    [ -- lui a7, 0x735; addi a7, a7, 0x49; addi a1, x0, -1; ecall
      0x007358b7, 0x04988893, 0xfff00593, 0x00000073]).bootSupervisor
    DRAM_BASE 0 0

theorem broadcastHart_run (xlen : Xlen) :
    Reachable .debug (Started .debug)
      ((stepped .debug)^[3] (broadcastHart xlen)) := by
  have hbooted : Booted .debug (broadcastHart xlen) :=
    .boot DRAM_BASE 0 0 (programmedHart_loaded .debug xlen (by decide))
  refine ⟨broadcastHart xlen, Or.inr hbooted, Run.iterate ?_ fun _ _ => trivial⟩
  cases xlen <;> decide +kernel

/-- The older call, with a pointer to the word 0x00000517 of the program. -/
def pointerHart : Cpu :=
  (programmedHart .rv64
    [ -- addi a7, x0, 4; auipc a0, 0; ecall
      0x00400893, 0x00000517, 0x00000073]).bootSupervisor DRAM_BASE 0 0

/-- On RV64 it is interrupted, and so is a kernel that points at a mask with
the bit of its own hart. -/
theorem delivers_sent :
    extension.Delivers .debug
        ((stepped .debug)^[3] (broadcastHart .rv64)) ∧
      legacy.Delivers .debug ((stepped .debug)^[2] pointerHart) ∧
      ∀ x, handleSbi .debug ((stepped .debug)^[2] pointerHart) =
        some (.ok true, x) → SoftwarePending x := by
  have hcall : extension.NamedBy
      ((stepped .debug)^[3] (broadcastHart .rv64)) := by
    constructor <;> decide +kernel
  have hbase : ((stepped .debug)^[3] (broadcastHart .rv64)).regs a1 =
      BitVec.allOnes 64 := by decide +kernel
  have hwhole : ((stepped .debug)^[3] (broadcastHart .rv64)).argument a1 ≠ 0 := by
    decide +kernel
  have hsent : extension.Delivers .debug _ := (delivers_iff hcall).mpr
    (Or.inr ⟨fun _ => hbase, fun hzero => absurd hzero hwhole⟩)
  have hpoints : legacy.NamedBy ((stepped .debug)^[2] pointerHart) := by
    change _ = _
    decide +kernel
  have hdirect : ((stepped .debug)^[2] pointerHart).Untranslated .load := by
    decide +kernel
  have hlegacy : legacy.Delivers .debug _ :=
    (delivers_iff hpoints).mpr (understood_of_direct hdirect
      (by decide +kernel) (by decide +kernel) (by decide +kernel)
      (by decide +kernel))
  refine ⟨hsent, hlegacy, fun x hrun => ?_⟩
  have hraised : ((handleSbi .debug ((stepped .debug)^[2] pointerHart)).all
      fun r => decide (SoftwarePending r.2)) = true := by decide +kernel
  rw [hrun] at hraised
  exact of_decide_eq_true hraised

/-- On RV32 it is not: the base is all ones in 32 bits, and the firmware
answers that all is well. -/
theorem broadcast_lost :
    ∃ c, Reachable .debug (Started .debug) c ∧ c.privMode = .supervisor ∧
      extension.NamedBy c ∧ extension.SelectsHart .debug c ∧
      ¬ extension.Delivers .debug c ∧
      (stepped .debug c).pc = c.pc + 4 ∧ (stepped .debug c).regs a0 = 0 ∧
      ¬ SoftwarePending (stepped .debug c) := by
  have hselects : extension.SelectsHart .debug
      ((stepped .debug)^[3] (broadcastHart .rv32)) := Or.inl (by decide +kernel)
  refine ⟨_, broadcastHart_run .rv32, by decide +kernel,
    by constructor <;> decide +kernel, hselects, ?_, by decide +kernel,
    by decide +kernel, by decide +kernel⟩
  rintro ⟨c', hrun, hdelivered⟩
  have hsilent : ((handleSbi .debug
      ((stepped .debug)^[3] (broadcastHart .rv32))).any fun r =>
        decide (SoftwarePending r.2)) = false := by decide +kernel
  rw [hrun] at hsilent
  exact of_decide_eq_false hsilent (hdelivered.mpr (Or.inr hselects))

end IpiCall

end Nanoemu
