import Nanoemu.ConsoleStreams
import Nanoemu.CrossingStores
import Nanoemu.IntegerUnits
import Nanoemu.StoreRequests

/-!
# Accesses to the console

The console moves by what is read and written at its data register.  The walks
and the fetches of a step read memory too, and kept off the registers of the
console they leave it alone.  What is left is the load and the store that the
instruction asks for.
-/

namespace Nanoemu

open CheckedProgram

namespace Memory

/-- An address of the console's registers. -/
def InUart (addr : BitVec 64) : Prop :=
  Uart.UART_BASE ≤ addr ∧ addr < Uart.UART_BASE + Uart.UART_SIZE

instance (addr : BitVec 64) : Decidable (InUart addr) :=
  inferInstanceAs (Decidable (_ ∧ _))

def uartFrame : Frame Memory where
  rel mem mem' := mem'.uart = mem.uart
  refl _ := rfl
  trans hfirst hsecond := hsecond.trans hfirst

theorem offset_data {addr : BitVec 64} (hother : addr ≠ Uart.UART_BASE) :
    addr - Uart.UART_BASE ≠ Uart.RBR_THR :=
  fun hdata => hother (BitVec.sub_eq_iff_eq_add.mp hdata)

section Apart

variable {addr : BitVec 64}

/-- Only a read of the data register takes anything. -/
theorem read_other (hother : addr ≠ Uart.UART_BASE) (size : ℕ) :
    (Memory.read addr size).Keeps uartFrame := by
  apply Program.Keeps.intro
  intro profile mem outcome mem' hrun
  cases read_course hrun with
  | dram | outside | clint | plic | unmapped => rfl
  | uart => exact Uart.read_other (offset_data hother)

theorem read_apart (hapart : ¬ InUart addr) (size : ℕ) :
    (Memory.read addr size).Keeps uartFrame :=
  read_other (fun h => hapart (by rw [h]; decide)) size

theorem write_apart (hapart : ¬ InUart addr) (size : ℕ) (value : BitVec 64) :
    (Memory.write addr size value).Keeps uartFrame := by
  apply Program.Keeps.intro
  intro profile mem outcome mem' hrun
  cases write_course hrun with
  | dram =>
      unfold stored noteTohost
      split <;> rfl
  | outside | clint | plic | unmapped => rfl
  | uart _ huart => exact absurd huart hapart

/-- Only a write of the data register sends anything. -/
theorem write_other (hother : addr ≠ Uart.UART_BASE) {size : ℕ}
    {value : BitVec 64} {profile : Profile} {mem mem' : Memory}
    {outcome : Except Unmapped Unit}
    (hrun : Memory.write addr size value profile mem = some (outcome, mem')) :
    mem.uart.Conserves mem'.uart [] [] [] := by
  by_cases huart : InUart addr
  · rw [write_uart huart] at hrun
    cases hrun
    exact Uart.write_other (offset_data hother) value
  · have hsame : mem'.uart = mem.uart :=
      (write_apart huart size value).of_run hrun
    rw [hsame]
    exact Uart.Conserves.refl _

end Apart

end Memory

namespace Mmu

/-! ## The entries of a walk -/

/-- The addresses of the entries that a walk reads. -/
def visited (scheme : Mode) (profile : Profile) (va : BitVec 64) :
    (remaining : ℕ) → (table : BitVec 64) → Memory → List (BitVec 64)
  | 0, _, _ => []
  | level + 1, table, mem =>
      let addr := entryAddr scheme va table level
      addr ::
        match Memory.read addr scheme.pteSize profile mem with
        | some (.ok pte, mem') =>
            if valid pte && isPointer pte then
              visited scheme profile va level (nextTable scheme pte) mem'
            else []
        | _ => []

section Visits

variable {scheme : Mode} {profile : Profile} {va table : BitVec 64}
  {mem mem' : Memory} {remaining : ℕ} {entries : List (BitVec 64)}
  {found : Option Leaf}

theorem Visits.entries_eq
    (h : Visits scheme profile va remaining table mem entries found mem') :
    entries = visited scheme profile va remaining table mem := by
  induction h with
  | last => rfl
  | unmapped hread => simp only [visited, hread]
  | invalid hread hinvalid =>
      simp only [visited, hread, not_valid hinvalid, Bool.false_and,
        Bool.false_eq_true, if_false]
  | leaf hread _ hleaf =>
      simp only [visited, hread, not_isPointer hleaf, Bool.and_false,
        Bool.false_eq_true, if_false]
  | pointer hread hvalid hpointer _ ih =>
      simp only [visited, hread, (valid_iff _).mpr hvalid,
        (isPointer_iff _).mpr hpointer, Bool.and_self, if_true, ih]

theorem Visits.uart
    (h : Visits scheme profile va remaining table mem entries found mem')
    (hapart : ∀ addr ∈ entries, ¬ Memory.InUart addr) :
    mem'.uart = mem.uart := by
  induction h with
  | last => rfl
  | unmapped hread | invalid hread _ | leaf hread _ _ =>
      exact (Memory.read_apart (hapart _ List.mem_cons_self) _).of_run hread
  | pointer hread _ _ _ ih =>
      have hfirst : Memory.uartFrame.rel _ _ :=
        (Memory.read_apart (hapart _ List.mem_cons_self) _).of_run hread
      exact (ih fun addr haddr => hapart addr (List.mem_cons_of_mem _ haddr))
        |>.trans hfirst

theorem Visits.leaf_mem
    (h : Visits scheme profile va remaining table mem entries found mem')
    {reached : Leaf} (hfound : found = some reached) :
    reached.addr ∈ entries := by
  induction h with
  | last | unmapped _ | invalid _ _ => cases hfound
  | leaf _ _ _ =>
      cases hfound
      exact List.mem_cons_self
  | pointer _ _ _ _ ih => exact List.mem_cons_of_mem _ (ih hfound)

theorem Marks.uart {access : Access} {reached : Leaf} {after : Memory}
    (h : Marks scheme access profile mem reached after)
    (hapart : ¬ Memory.InUart reached.addr) : after.uart = mem.uart := by
  unfold Marks at h
  split at h
  · rw [h]
  · exact (Memory.write_apart hapart _ _).of_run h

end Visits

end Mmu

namespace Cpu

open Mmu

variable {profile : Profile} {c c' : Cpu} {va : BitVec 64} {access : Access}

/-- The addresses of the entries that a translation reads. -/
def walkEntries (profile : Profile) (c : Cpu) (va : BitVec 64)
    (access : Access) : List (BitVec 64) :=
  if c.tlbHit va access = true ∨ c.Untranslated access ∨
      c.scheme = .sv39 ∧ canonical va = false then []
  else
    visited c.scheme profile va c.scheme.levels
      (rootTable c.scheme (c.csrs.read Csr.SATP)) c.mem

section Translates

variable {entries : List (BitVec 64)} {found : Option Leaf}
  {page : Option (BitVec 64)} {mem : Memory}

theorem Looks.entries_eq (hmiss : c.tlbHit va access = false)
    (hpaged : ¬ c.Untranslated access)
    (h : Looks profile c va entries found mem) :
    entries = c.walkEntries profile va access := by
  have hwalks : ¬ (c.tlbHit va access = true ∨ c.Untranslated access ∨
      c.scheme = .sv39 ∧ canonical va = false) := by
    rintro (hhit | hdirect | ⟨hscheme, hfar⟩)
    · cases hmiss.symm.trans hhit
    · exact hpaged hdirect
    · rw [(canonical_iff va).mpr (h.1 hscheme)] at hfar
      cases hfar
  rw [walkEntries, if_neg hwalks]
  exact h.2.entries_eq

theorem Translates.uart
    (h : Translates profile c va access entries found page mem)
    (hapart : ∀ addr ∈ c.walkEntries profile va access,
      ¬ Memory.InUart addr) : mem.uart = c.mem.uart := by
  cases h with
  | cached | direct | far => rfl
  | missing hmiss hpaged hlooks | denied hmiss hpaged hlooks _ =>
      rw [← hlooks.entries_eq hmiss hpaged] at hapart
      exact hlooks.2.uart hapart
  | granted hmiss hpaged hlooks _ hmarks =>
      rw [← hlooks.entries_eq hmiss hpaged] at hapart
      exact (hmarks.uart (hapart _ (hlooks.2.leaf_mem rfl))).trans
        (hlooks.2.uart hapart)

/-- A walk over entries elsewhere leaves the console alone. -/
theorem translate_uart {outcome : Except Exception (BitVec 64)}
    (hrun : translate va access profile c = some (outcome, c'))
    (hapart : ∀ addr ∈ c.walkEntries profile va access,
      ¬ Memory.InUart addr) : c'.mem.uart = c.mem.uart := by
  obtain ⟨entries, found, page, mem, htranslates, hanswer⟩ :=
    translate_iff.mp hrun
  have hmem : c'.mem = mem :=
    (congrArg (fun answer => answer.2.mem) hanswer).trans
      htranslates.answer_mem
  rw [hmem]
  exact htranslates.uart hapart

end Translates

/-! ## Translations kept off the console -/

/-- The hart's translation, kept off the console: it panics where a walk would
read an entry there, and where a fetch, or data at any other address than
`direct`, would be led there. -/
def shunning (direct : Option (BitVec 64)) : Translation :=
  fun va access profile c =>
    if (c.walkEntries profile va access).any fun addr =>
        decide (Memory.InUart addr) then none
    else
      match translate va access profile c with
      | some (.ok pa, c') =>
          if Memory.InUart pa ∧ (access = .fetch ∨ direct ≠ some va) then none
          else some (.ok pa, c')
      | result => result

/-- What matters of it. -/
structure Shuns (direct : Option (BitVec 64)) (tr : Translation) : Prop where
  approximates : ∀ va access, (tr va access).Approximates (translate va access)
  keeps : ∀ va access, (tr va access).Keeps (memFrame Memory.uartFrame)
  apart : ∀ {va access profile c pa c'}, access = .fetch ∨ direct ≠ some va →
    tr va access profile c = some (.ok pa, c') → ¬ Memory.InUart pa

theorem shunning_run {direct : Option (BitVec 64)}
    {outcome : Except Exception (BitVec 64)}
    (hrun : shunning direct va access profile c = some (outcome, c')) :
    translate va access profile c = some (outcome, c') ∧
      (∀ addr ∈ c.walkEntries profile va access, ¬ Memory.InUart addr) ∧
      ∀ pa, outcome = .ok pa → access = .fetch ∨ direct ≠ some va →
        ¬ Memory.InUart pa := by
  unfold shunning at hrun
  split at hrun
  · cases hrun
  next hwalks =>
    have hapart : ∀ addr ∈ c.walkEntries profile va access,
        ¬ Memory.InUart addr := fun addr haddr huart =>
      hwalks (List.any_eq_true.mpr ⟨addr, haddr, decide_eq_true huart⟩)
    split at hrun
    · next pa c₁ htranslate =>
      split at hrun
      · cases hrun
      · next hled =>
        cases hrun
        refine ⟨htranslate, hapart, ?_⟩
        rintro pa' hpa hother huart
        cases hpa
        exact hled ⟨huart, hother⟩
    · next hfails =>
      refine ⟨hrun, hapart, ?_⟩
      rintro pa rfl
      exact absurd hrun (hfails pa c')

theorem shunning_shuns (direct : Option (BitVec 64)) :
    Shuns direct (shunning direct) where
  approximates va access profile c := by
    rintro ⟨outcome, c'⟩ hrun
    exact (shunning_run hrun).1
  keeps va access := by
    apply Program.Keeps.intro
    intro profile c outcome c' hrun
    obtain ⟨htranslate, hapart, -⟩ := shunning_run hrun
    exact translate_uart htranslate hapart
  apart hother hrun := (shunning_run hrun).2.2 _ rfl hother

/-! ## Loads and stores -/

/-- The address of an access that lies on one page. -/
def directAddress (va : BitVec 64) (size : ℕ) : Option (BitVec 64) :=
  if va.toNat % 4096 + size ≤ 4096 then some va else none

/-- The access lies on one page and is led to the data register. -/
def LedToData (profile : Profile) (c : Cpu) (access : Access)
    (va : BitVec 64) (size : ℕ) : Prop :=
  va.toNat % 4096 + size ≤ 4096 ∧
    ∃ c', translate va access profile c = some (.ok Uart.UART_BASE, c')

/-- What a load does to the console. -/
inductive LoadsData (profile : Profile) (c : Cpu) (va : BitVec 64) (size : ℕ) :
    Except Exception (BitVec 64) → Cpu → Prop where
  | data {c' : Cpu} : LedToData profile c .load va size →
      c'.mem.uart = (c.mem.uart.read Uart.RBR_THR).2 →
      LoadsData profile c va size (.ok (c.mem.uart.read Uart.RBR_THR).1) c'
  | other {outcome : Except Exception (BitVec 64)} {c' : Cpu} :
      ¬ LedToData profile c .load va size → c'.mem.uart = c.mem.uart →
      LoadsData profile c va size outcome c'

/-- What a store does to it. -/
inductive StoresData (profile : Profile) (c : Cpu) (va : BitVec 64) (size : ℕ)
    (value : BitVec 64) : Except Exception Unit → Cpu → Prop where
  | data {c' : Cpu} : LedToData profile c .store va size →
      c'.mem.uart = c.mem.uart.write Uart.RBR_THR value →
      StoresData profile c va size value (.ok ()) c'
  | other {outcome : Except Exception Unit} {c' : Cpu} :
      ¬ LedToData profile c .store va size →
      c.mem.uart.Conserves c'.mem.uart [] [] [] →
      StoresData profile c va size value outcome c'

theorem not_led {e : Exception} {c₁ : Cpu} {size : ℕ}
    (hfails : translate va access profile c = some (.error e, c₁)) :
    ¬ LedToData profile c access va size := by
  rintro ⟨-, c₂, hled⟩
  cases hfails.symm.trans hled

theorem not_led_elsewhere {pa : BitVec 64} {c₁ : Cpu} {size : ℕ}
    (hled : translate va access profile c = some (.ok pa, c₁))
    (hother : pa ≠ Uart.UART_BASE) :
    ¬ LedToData profile c access va size := by
  rintro ⟨-, c₂, hdata⟩
  cases hled.symm.trans hdata
  exact hother rfl

theorem physRead_uart {pa : BitVec 64} (hother : pa ≠ Uart.UART_BASE)
    (fault : Exception) (size : ℕ) :
    (physRead fault pa size).Keeps (memFrame Memory.uartFrame) :=
  Program.Keeps.zoom (Program.Keeps.mapError (Memory.read_other hother size))
    fun _ _ h => h

theorem physWrite_uart {pa : BitVec 64} (hapart : ¬ Memory.InUart pa)
    (fault : Exception) (size : ℕ) (value : BitVec 64) :
    (physWrite fault pa size value).Keeps (memFrame Memory.uartFrame) :=
  Program.Keeps.zoom
    (Program.Keeps.mapError (Memory.write_apart hapart size value))
    fun _ _ h => h

theorem ne_data_of_apart {pa : BitVec 64} (hapart : ¬ Memory.InUart pa) :
    pa ≠ Uart.UART_BASE :=
  fun h => hapart (by rw [h]; decide)

section Shuns

variable {tr : Translation} {direct : Option (BitVec 64)}

/-- An address that is not led to the console may be read and written. -/
theorem Shuns.led_keeps {α : Type} {rest : BitVec 64 → Hart α}
    (htr : Shuns direct tr) (hother : access = .fetch ∨ direct ≠ some va)
    (hrest : ∀ pa, ¬ Memory.InUart pa →
      (rest pa).Keeps (memFrame Memory.uartFrame)) :
    (tr va access >>= rest).Keeps (memFrame Memory.uartFrame) := by
  apply Program.Keeps.intro
  intro profile c outcome c' hrun
  rcases Program.bind_cases hrun with
    ⟨e, hfails, rfl⟩ | ⟨pa, c₁, hled, hafter⟩
  · exact (htr.keeps va access).of_run hfails
  · exact (memFrame Memory.uartFrame).trans ((htr.keeps va access).of_run hled)
      ((hrest pa (htr.apart hother hled)).of_run hafter)

theorem Shuns.fetchHalf_keeps (htr : Shuns direct tr) (va : BitVec 64) :
    (fetchHalfThrough tr va).Keeps (memFrame Memory.uartFrame) :=
  htr.led_keeps (Or.inl rfl) fun _ hapart =>
    physRead_uart (ne_data_of_apart hapart) _ 2

theorem Shuns.fetch_keeps (htr : Shuns direct tr) :
    (fetchThrough tr).Keeps (memFrame Memory.uartFrame) := by
  apply Program.Keeps.bind (Program.Keeps.read _)
  intro pc
  apply Program.Keeps.ite (Program.Keeps.fail _)
  apply Program.Keeps.ite
  · apply htr.led_keeps (Or.inl rfl)
    intro pa hapart
    apply Program.Keeps.bind (physRead_uart (ne_data_of_apart hapart) _ 4)
    intro word
    exact Program.Keeps.ite (expand_keeps _) (Program.Keeps.pure _)
  · apply Program.Keeps.bind (htr.fetchHalf_keeps pc)
    intro lo
    apply Program.Keeps.ite (expand_keeps _)
    apply Program.Keeps.bind (Program.Keeps.check _)
    intro next
    exact Program.Keeps.bind (htr.fetchHalf_keeps next)
      fun _ => Program.Keeps.pure _

section Crossing

variable (htr : Shuns none tr)

include htr

theorem Shuns.readBytes_keeps (va : BitVec 64) (remaining k : ℕ)
    (v : BitVec 64) : (readBytesThrough tr va remaining k v).Keeps
      (memFrame Memory.uartFrame) := by
  induction remaining generalizing k v with
  | zero => exact Program.Keeps.pure _
  | succ remaining ih =>
      apply Program.Keeps.bind (Program.Keeps.check _)
      intro addr
      apply htr.led_keeps (Or.inr (by simp))
      intro pa hapart
      apply Program.Keeps.bind (physRead_uart (ne_data_of_apart hapart) _ 1)
      intro b
      apply Program.Keeps.bind (Program.Keeps.check _)
      intro shift
      exact Program.Keeps.bind (Program.Keeps.check _)
        fun piece => ih (k + 1) _

theorem Shuns.translateBytes_keeps (va : BitVec 64) (remaining k : ℕ) :
    (translateBytesThrough tr va remaining k).Keeps
      (memFrame Memory.uartFrame) := by
  induction remaining generalizing k with
  | zero => exact Program.Keeps.pure _
  | succ remaining ih =>
      apply Program.Keeps.bind (Program.Keeps.check _)
      intro addr
      exact Program.Keeps.bind (htr.keeps addr .store) fun _ => ih (k + 1)

theorem Shuns.writeBytes_keeps (va value : BitVec 64) (remaining k : ℕ) :
    (writeBytesThrough tr va value remaining k).Keeps
      (memFrame Memory.uartFrame) := by
  induction remaining generalizing k with
  | zero => exact Program.Keeps.pure _
  | succ remaining ih =>
      apply Program.Keeps.bind (Program.Keeps.check _)
      intro addr
      apply htr.led_keeps (Or.inr (by simp))
      intro pa hapart
      apply Program.Keeps.bind (Program.Keeps.check _)
      intro shift
      apply Program.Keeps.bind (Program.Keeps.check _)
      intro byte
      exact Program.Keeps.bind (physWrite_uart hapart _ 1 byte)
        fun _ => ih (k + 1)

end Crossing

/-- A load takes what the data register hands over, if it is led there, and
else nothing. -/
theorem Shuns.loaded {size : ℕ} (hsize : size ≤ 8)
    (htr : Shuns (directAddress va size) tr)
    {outcome : Except Exception (BitVec 64)}
    (hrun : readMemThrough tr va size profile c = some (outcome, c')) :
    LoadsData profile c va size outcome c' := by
  rw [readMemThrough, fitsPage_eq hsize, Program.check_pure, pure_bind] at hrun
  by_cases hfits : va.toNat % 4096 + size ≤ 4096
  · rw [decide_eq_true hfits, if_pos rfl] at hrun
    rcases Program.bind_cases hrun with
      ⟨e, hfails, rfl⟩ | ⟨pa, c₁, hled, hread⟩
    · exact .other (not_led (htr.approximates _ _ _ _ _ hfails))
        ((htr.keeps va .load).of_run hfails)
    · have hkept : c₁.mem.uart = c.mem.uart := (htr.keeps va .load).of_run hled
      have htranslate := htr.approximates _ _ _ _ _ hled
      by_cases hdata : pa = Uart.UART_BASE
      · subst hdata
        have hanswer : physRead (.loadAccessFault va) Uart.UART_BASE size
            profile c₁ = some (.ok (c₁.mem.uart.read Uart.RBR_THR).1, _) :=
          physRead_ok_iff.mpr ⟨_, Memory.read_uart (by decide) size profile
            c₁.mem, rfl⟩
        cases hread.symm.trans hanswer
        rw [hkept]
        exact .data ⟨hfits, c₁, htranslate⟩ rfl
      · have hsame : c'.mem.uart = c₁.mem.uart :=
          (physRead_uart hdata _ size).of_run hread
        exact .other (not_led_elsewhere htranslate hdata) (hsame.trans hkept)
  · rw [directAddress, if_neg hfits] at htr
    rw [decide_eq_false hfits, if_neg Bool.false_ne_true] at hrun
    exact .other (fun h => hfits h.1)
      ((htr.readBytes_keeps va size 0 0).of_run hrun)

/-- A store sends its low byte, if it is led to the data register, and else
nothing. -/
theorem Shuns.stored {size : ℕ} (hsize : size ≤ 8)
    (htr : Shuns (directAddress va size) tr) {value : BitVec 64}
    {outcome : Except Exception Unit}
    (hrun : writeMemThrough tr va size value profile c =
      some (outcome, c')) :
    StoresData profile c va size value outcome c' := by
  have hquiet : c'.mem.uart = c.mem.uart →
      c.mem.uart.Conserves c'.mem.uart [] [] [] := fun hsame =>
    hsame ▸ Uart.Conserves.refl c.mem.uart
  rw [writeMemThrough, fitsPage_eq hsize, Program.check_pure, pure_bind] at hrun
  by_cases hfits : va.toNat % 4096 + size ≤ 4096
  · rw [decide_eq_true hfits, if_pos rfl] at hrun
    rcases Program.bind_cases hrun with
      ⟨e, hfails, rfl⟩ | ⟨pa, c₁, hled, hwrite⟩
    · exact .other (not_led (htr.approximates _ _ _ _ _ hfails))
        (hquiet ((htr.keeps va .store).of_run hfails))
    · have hkept : c₁.mem.uart = c.mem.uart :=
        (htr.keeps va .store).of_run hled
      have htranslate := htr.approximates _ _ _ _ _ hled
      by_cases hdata : pa = Uart.UART_BASE
      · subst hdata
        have hanswer : physWrite (.storeAccessFault va) Uart.UART_BASE size
            value profile c₁ = some (.ok (), _) :=
          physWrite_ok_iff.mpr ⟨_, Memory.write_uart (by decide) size value
            profile c₁.mem, rfl⟩
        cases hwrite.symm.trans hanswer
        exact .data ⟨hfits, c₁, htranslate⟩ (by rw [← hkept]; rfl)
      · refine .other (not_led_elsewhere htranslate hdata) ?_
        rw [← hkept]
        rw [physWrite, onMemory, Program.zoom, Program.mapError] at hwrite
        rcases hmem : Memory.write pa size value profile c₁.mem with
          _ | ⟨_ | _, mem⟩
        · rw [hmem] at hwrite
          cases hwrite
        · rw [hmem] at hwrite
          cases hwrite
          exact Memory.write_other hdata hmem
        · rw [hmem] at hwrite
          cases hwrite
          exact Memory.write_other hdata hmem
  · rw [directAddress, if_neg hfits] at htr
    rw [decide_eq_false hfits, if_neg Bool.false_ne_true] at hrun
    have hkeeps : (translateBytesThrough tr va size 0 >>= fun _ =>
        writeBytesThrough tr va value size 0).Keeps
          (memFrame Memory.uartFrame) :=
      Program.Keeps.bind (htr.translateBytes_keeps va size 0)
        fun _ => htr.writeBytes_keeps va value size 0
    exact .other (fun h => hfits h.1) (hquiet (hkeeps.of_run hrun))

end Shuns

/-! ## Instructions -/

/-- The access of the instruction, where it lies on one page. -/
def directData (c : Cpu) (inst : BitVec 32) : Option (BitVec 64) :=
  (c.dataAccess inst).bind fun access => directAddress access.1 access.2

def IsStoreOnly (inst : BitVec 32) : Prop :=
  (opcode inst).toNat = 0x23 ∨ (opcode inst).toNat = 0x27 ∨
    (opcode inst).toNat = 0x2f ∧ funct7 inst >>> 2 = 0x03

instance (inst : BitVec 32) : Decidable (IsStoreOnly inst) :=
  inferInstanceAs (Decidable (_ ∨ _))

/-- Loads and stores the word of its operand. -/
def IsRmw (inst : BitVec 32) : Prop :=
  (opcode inst).toNat = 0x2f ∧ funct7 inst >>> 2 ≠ 0x02 ∧
    funct7 inst >>> 2 ≠ 0x03

/-- The load an instruction makes, if it makes one. -/
def loadAccess (c : Cpu) (inst : BitVec 32) : Option (BitVec 64 × ℕ) :=
  if IsStoreOnly inst then none else c.dataAccess inst

/-- The byte is the low byte of the destination.  Only an instruction that
would go on to store can have failed. -/
def Landed (inst : BitVec 32) (byte : BitVec 8) :
    Except Exception Unit → Cpu → Prop
  | .ok (), c' =>
      if (opcode inst).toNat = 0x07 then
        (c'.fregs (rd inst)).setWidth 8 = byte
      else rd inst ≠ 0 → (c'.regs (rd inst)).setWidth 8 = byte
  | .error _, _ => IsRmw inst

/-- What the load of an instruction takes: led to the data register, it is
handed the byte there, and that lands in the destination. -/
inductive LoadTakes (profile : Profile) (inst : BitVec 32) (x : Cpu)
    (outcome : Except Exception Unit) (c' : Cpu) : List (BitVec 8) → Prop where
  | data {va : BitVec 64} {size : ℕ} :
      x.loadAccess inst = some (va, size) → LedToData profile x .load va size →
      (∀ byte ∈ x.mem.uart.handed, Landed inst byte outcome c') →
      LoadTakes profile inst x outcome c' x.mem.uart.handed
  | other :
      (∀ va size, x.loadAccess inst = some (va, size) →
        ¬ LedToData profile x .load va size) →
      LoadTakes profile inst x outcome c' []

/-- What the store of an instruction sends: led to the data register, it sends
the low byte of what it stores. -/
inductive StoreSends (profile : Profile) (inst : BitVec 32) (x : Cpu) :
    Except Exception Unit → List (BitVec 8) → Prop where
  | data {s : StoreRequest} : storeRequest profile inst x = some s →
      LedToData profile s.hart .store s.va s.size →
      StoreSends profile inst x (.ok ()) (x.mem.uart.emitted s.value)
  | other {outcome : Except Exception Unit} :
      (∀ s, storeRequest profile inst x = some s →
        ¬ LedToData profile s.hart .store s.va s.size) →
      StoreSends profile inst x outcome []

/-- All that an instruction does to the console. -/
def Exchanges (profile : Profile) (inst : BitVec 32) (x : Cpu)
    (outcome : Except Exception Unit) (c' : Cpu) : Prop :=
  ∃ taken sent, x.mem.uart.Conserves c'.mem.uart [] taken sent ∧
    LoadTakes profile inst x outcome c' taken ∧
    StoreSends profile inst x outcome sent

section Instructions

variable {inst : BitVec 32} {x y : Cpu} {outcome : Except Exception Unit}
  {size : ℕ}

theorem exchanges_quiet
    (hload : ∀ va size, x.loadAccess inst = some (va, size) →
      ¬ LedToData profile x .load va size)
    (hstore : ∀ s, storeRequest profile inst x = some s →
      ¬ LedToData profile s.hart .store s.va s.size)
    (hsame : c'.mem.uart = x.mem.uart) :
    Exchanges profile inst x outcome c' := by
  refine ⟨[], [], ?_, .other hload, .other hstore⟩
  rw [hsame]
  exact Uart.Conserves.refl _

/-- The loads of an instruction that stores nothing. -/
theorem LoadsData.exchanges {read : Except Exception (BitVec 64)}
    (h : LoadsData profile x va size read y)
    (hload : x.loadAccess inst = some (va, size))
    (hstore : storeRequest profile inst x = none)
    (hmem : c'.mem = y.mem)
    (hlanded : ∀ byte : BitVec 8, read = .ok (byte.setWidth 64) →
      Landed inst byte outcome c') :
    Exchanges profile inst x outcome c' := by
  have hnone : ∀ s, storeRequest profile inst x = some s →
      ¬ LedToData profile s.hart .store s.va s.size := fun s hs =>
    nomatch hstore.symm.trans hs
  cases h with
  | data hled huart =>
      refine ⟨_, [], ?_, .data hload hled fun byte hbyte => hlanded byte ?_,
        .other hnone⟩
      · rw [hmem, huart]
        exact x.mem.uart.conserves_read
      · rw [Uart.read_handed hbyte]
  | other hother huart =>
      refine exchanges_quiet ?_ hnone ((congrArg Memory.uart hmem).trans huart)
      intro va' size' hload'
      cases hload.symm.trans hload'
      exact hother

/-- The stores of an instruction that loads nothing. -/
theorem StoresData.exchanges {value : BitVec 64}
    {wrote : Except Exception Unit}
    (h : StoresData profile x va size value wrote y)
    (hload : x.loadAccess inst = none)
    (hstore : storeRequest profile inst x = some ⟨x, va, size, value⟩)
    (hmem : c'.mem = y.mem) (hretires : wrote = .ok () → outcome = .ok ()) :
    Exchanges profile inst x outcome c' := by
  have hnone : ∀ va size, x.loadAccess inst = some (va, size) →
      ¬ LedToData profile x .load va size := fun va size hva =>
    nomatch hload.symm.trans hva
  cases h with
  | data hled huart =>
      rw [hretires rfl]
      refine ⟨[], _, ?_, .other hnone, .data hstore hled⟩
      rw [hmem, huart]
      exact x.mem.uart.conserves_write value
  | other hother hquiet =>
      refine ⟨[], [], ?_, .other hnone, .other ?_⟩
      · rw [hmem]
        exact hquiet
      · intro s hs
        cases hstore.symm.trans hs
        exact hother

theorem sext_landed {byte : BitVec 8} {width : ℕ} (hwidth : 8 ≤ width)
    (hword : width ≤ 64) {v : BitVec 64}
    (hv : sext (byte.setWidth 64) width profile = some v) :
    v.setWidth 8 = byte := by
  rw [sext_word _ (by omega) hword] at hv
  cases hv
  apply BitVec.eq_of_getLsbD_eq
  intro i hi
  have hin : i < width := by omega
  have hin' : i < 64 := by omega
  rw [BitVec.getLsbD_setWidth, BitVec.getLsbD_signExtend,
    BitVec.getLsbD_setWidth, BitVec.getLsbD_setWidth]
  simp [hi, hin, hin']

theorem setReg_landed (c : Cpu) {r : Fin 32} (hr : r ≠ 0) (v : BitVec 64) :
    ((c.setReg r v).regs r).setWidth 8 = v.setWidth 8 := by
  have hwide : 32 ≤ c.xbits ∧ c.xbits ≤ 64 := by
    cases h : c.xlen <;> simp [xbits, h, Xlen.bits]
  rw [setReg, if_neg hr]
  change (Function.update c.regs r (trunc v c.xbits) r).setWidth 8 = _
  rw [Function.update_self, trunc_word v hwide.2]
  apply BitVec.eq_of_getLsbD_eq
  intro i hi
  have hin : i < c.xbits := by omega
  have hin' : i < 64 := by omega
  simp [hi, hin, hin']

theorem box32_landed (byte : BitVec 8) :
    (box32 (byte.setWidth 64)).setWidth 8 = byte := by
  apply BitVec.eq_of_getLsbD_eq
  intro i hi
  have hhigh : ∀ j < 8, (0xffffffff00000000 : BitVec 64).getLsbD j = false := by
    decide
  have hlow : ∀ j < 8, (0xffffffff : BitVec 64).getLsbD j = true := by decide
  rw [BitVec.getLsbD_setWidth, box32, BitVec.getLsbD_or, BitVec.getLsbD_and,
    hhigh i hi, hlow i hi, BitVec.getLsbD_setWidth]
  have hin : i < 64 := by omega
  simp [hi, hin]

variable {tr : Translation}

/-- A load, and what the instruction does with the word. -/
theorem Shuns.load_exchanges {rest : BitVec 64 → Hart Unit}
    (htr : Shuns (x.directData inst) tr) (hsize : size ≤ 8)
    (haccess : x.dataAccess inst = some (va, size))
    (hloads : ¬ IsStoreOnly inst) (hstore : storeRequest profile inst x = none)
    (hspares : ∀ v, SparesMemory (rest v))
    (hlands : ∀ byte y, (rest (byte.setWidth 64)).Ensures profile y
      (fun _ c' => Landed inst byte (.ok ()) c') (fun _ _ => False))
    (hrun : (readMemThrough tr va size >>= rest) profile x =
      some (outcome, c')) : Exchanges profile inst x outcome c' := by
  have hload : x.loadAccess inst = some (va, size) :=
    (if_neg hloads).trans haccess
  have hdirect : x.directData inst = directAddress va size := by
    rw [directData, haccess]
    rfl
  rw [hdirect] at htr
  rcases Program.bind_cases hrun with
    ⟨e, hfails, rfl⟩ | ⟨v, y, hread, hafter⟩
  · exact (htr.loaded hsize hfails).exchanges hload hstore rfl
      fun _ h => nomatch h
  · refine (htr.loaded hsize hread).exchanges hload hstore
      ((hspares v).of_run hafter) fun byte hbyte => ?_
    cases hbyte
    cases outcome with
    | ok _ => exact (hlands byte y).ok hafter
    | error _ => exact ((hlands byte y).error hafter).elim

theorem Shuns.store_exchanges {rest : Unit → Hart Unit} {value : BitVec 64}
    (htr : Shuns (x.directData inst) tr) (hsize : size ≤ 8)
    (haccess : x.dataAccess inst = some (va, size))
    (hstores : IsStoreOnly inst)
    (hstore : storeRequest profile inst x = some ⟨x, va, size, value⟩)
    (hrest : ∀ {y : Cpu} {outcome : Except Exception Unit} {c' : Cpu},
      rest () profile y = some (outcome, c') →
      outcome = .ok () ∧ c'.mem = y.mem)
    (hrun : (writeMemThrough tr va size value >>= rest) profile x =
      some (outcome, c')) : Exchanges profile inst x outcome c' := by
  have hdirect : x.directData inst = directAddress va size := by
    rw [directData, haccess]
    rfl
  rw [hdirect] at htr
  rcases Program.bind_cases hrun with
    ⟨e, hfails, rfl⟩ | ⟨_, y, hwrite, hafter⟩
  · exact (htr.stored hsize hfails).exchanges (if_pos hstores) hstore rfl
      fun h => nomatch h
  · obtain ⟨rfl, hmem⟩ := hrest hafter
    exact (htr.stored hsize hwrite).exchanges (if_pos hstores) hstore hmem
      fun _ => rfl

theorem Shuns.store_exchanges_last {value : BitVec 64}
    (htr : Shuns (x.directData inst) tr) (hsize : size ≤ 8)
    (haccess : x.dataAccess inst = some (va, size))
    (hstores : IsStoreOnly inst)
    (hstore : storeRequest profile inst x = some ⟨x, va, size, value⟩)
    (hrun : writeMemThrough tr va size value profile x =
      some (outcome, c')) : Exchanges profile inst x outcome c' := by
  rw [← bind_pure (writeMemThrough tr va size value)] at hrun
  refine htr.store_exchanges hsize haccess hstores hstore ?_ hrun
  intro y outcome c' hafter
  cases hafter
  exact ⟨rfl, rfl⟩

theorem register_landed (hop : (opcode inst).toNat ≠ 0x07) {byte : BitVec 8}
    {v : BitVec 64} (hv : v.setWidth 8 = byte) (y : Cpu) :
    Landed inst byte (.ok ()) (y.setReg (rd inst) v) := by
  simp only [Landed, if_neg hop]
  intro hr
  rw [setReg_landed y hr, hv]

theorem float_landed (hop : (opcode inst).toNat = 0x07) {byte : BitVec 8}
    {v : BitVec 64} (hv : v.setWidth 8 = byte) (y : Cpu) :
    Landed inst byte (.ok ()) (y.setFreg (rd inst) v) := by
  simp only [Landed, if_pos hop]
  change (Function.update y.fregs (rd inst) v (rd inst)).setWidth 8 = byte
  rw [Function.update_self, hv]

theorem idle_exchanges (haccess : x.dataAccess inst = none)
    (hstore : storeRequest profile inst x = none) (hmem : c'.mem = x.mem) :
    Exchanges profile inst x outcome c' := by
  refine exchanges_quiet (fun va size hload => ?_)
    (fun s hs => nomatch hstore.symm.trans hs) (congrArg Memory.uart hmem)
  rw [loadAccess, haccess] at hload
  split at hload <;> cases hload

theorem fails_exchanges {e : Exception} (haccess : x.dataAccess inst = none)
    (hstore : storeRequest profile inst x = none)
    (hrun : (Program.fail e : Hart Unit) profile x = some (outcome, c')) :
    Exchanges profile inst x outcome c' := by
  cases hrun
  exact idle_exchanges haccess hstore rfl

theorem Shuns.executeLoad (htr : Shuns (x.directData inst) tr)
    (hop : (opcode inst).toNat = 0x03)
    (hrun : executeLoadThrough tr inst profile x = some (outcome, c')) :
    Exchanges profile inst x outcome c' := by
  have hstore : storeRequest profile inst x = none := by
    simp [storeRequest, hop]
  rw [executeLoadThrough, Program.bind_run_ok (Program.read_run _ _ _), id]
    at hrun
  cases hform : loadForm (funct3 inst) x.xlen with
  | none =>
      simp only [hform] at hrun
      exact fails_exchanges (by simp [dataAccess, hop, hform]) hstore hrun
  | some form =>
      have hwidth : 8 ≤ form.2 ∧ form.2 ≤ 64 := by
        rw [loadForm] at hform
        split at hform
        any_goals split at hform
        all_goals first
          | cases hform
            decide
          | cases hform
      have hother : (opcode inst).toNat ≠ 0x07 := by simp [hop]
      simp only [hform] at hrun
      refine htr.load_exchanges (Memory.size_le_of_valid
        (loadForm_valid hform).1) (by simp [dataAccess, hop, hform])
        (by simp [IsStoreOnly, hop]) hstore ?_ ?_ hrun
      · exact fun v => Program.Keeps.bind (Program.Keeps.check _)
          fun v => wr_spares _ v
      · intro byte y
        apply Program.Ensures.bind
        apply Program.Ensures.check
        intro v hv
        exact Program.Ensures.update
          (register_landed hother (sext_landed hwidth.1 hwidth.2 hv) y)

theorem Shuns.executeStore (htr : Shuns (x.directData inst) tr)
    (hop : (opcode inst).toNat = 0x23)
    (hrun : executeStoreThrough tr inst profile x = some (outcome, c')) :
    Exchanges profile inst x outcome c' := by
  rw [executeStoreThrough, Program.bind_run_ok (Program.read_run _ _ _), id]
    at hrun
  cases hsize : storeSize (funct3 inst) x.xlen with
  | none =>
      simp only [hsize] at hrun
      exact fails_exchanges (by simp [dataAccess, hop, hsize])
        (by simp [storeRequest, hop, hsize]) hrun
  | some size =>
      have haccess : x.dataAccess inst = some (x.storeAddr inst, size) := by
        simp [dataAccess, hop, hsize, storeAddr]
      have hstore : storeRequest profile inst x =
          some ⟨x, x.storeAddr inst, size, x.rr (rs2 inst)⟩ := by
        simp [storeRequest, hop, hsize]
      simp only [hsize] at hrun
      exact htr.store_exchanges_last
        (Memory.size_le_of_valid (storeSize_valid hsize)) haccess (Or.inl hop)
        hstore hrun

theorem Shuns.executeFpLoad (htr : Shuns (x.directData inst) tr)
    (hop : (opcode inst).toNat = 0x07)
    (hrun : executeFpMemThrough tr inst profile x = some (outcome, c')) :
    Exchanges profile inst x outcome c' := by
  have hstore : storeRequest profile inst x = none := by
    simp [storeRequest, hop]
  have hload : opcode inst ≠ 0x27 := by
    intro h
    rw [h] at hop
    cases hop
  have hloads : ¬ IsStoreOnly inst := by simp [IsStoreOnly, hop]
  have haccess : ∀ size, x.floatSize inst = some size → x.dataAccess inst =
      some (trunc (x.rr (rs1 inst) + widen (immI inst)) x.xbits, size) := by
    intro size hsize
    simp [dataAccess, hop, hsize]
  have hlands : ∀ (form : BitVec 64 → BitVec 64),
      (∀ byte : BitVec 8, (form (byte.setWidth 64)).setWidth 8 = byte) →
      ∀ byte y, (fw (rd inst) (form (byte.setWidth 64)) : Hart Unit).Ensures
        profile y (fun _ c' => Landed inst byte (.ok ()) c')
        (fun _ _ => False) := fun form hform byte y =>
    Program.Ensures.update (float_landed hop (hform byte) y)
  rw [executeFpMemThrough, Program.bind_run_ok (Program.read_run _ _ _), id]
    at hrun
  simp only [hload, if_false] at hrun
  by_cases hon : x.fpEnabled = true
  · simp only [hon, Bool.not_true, Bool.false_eq_true, if_false] at hrun
    by_cases hsingle : funct3 inst = 0x2
    · rw [if_pos hsingle] at hrun
      exact htr.load_exchanges (by decide)
        (haccess 4 (by simp [floatSize, hon, hsingle])) hloads hstore
        (fun _ => fw_spares _ _) (hlands box32 box32_landed) hrun
    · rw [if_neg hsingle] at hrun
      by_cases hdouble : funct3 inst = 0x3
      · rw [if_pos hdouble] at hrun
        exact htr.load_exchanges (by decide)
          (haccess 8 (by simp [floatSize, hon, hdouble])) hloads hstore
          (fun _ => fw_spares _ _) (hlands id fun byte => by simp) hrun
      · have hnone : x.floatSize inst = none := by
          rw [floatSize, hon, if_neg (by decide), if_neg hsingle,
            if_neg hdouble]
        rw [if_neg hdouble] at hrun
        exact fails_exchanges (by simp [dataAccess, hop, hnone]) hstore hrun
  · have hoff : x.fpEnabled = false := Bool.eq_false_iff.mpr hon
    simp only [hoff, Bool.not_false, if_true] at hrun
    exact fails_exchanges (by simp [dataAccess, hop, floatSize, hoff]) hstore
      hrun

theorem Shuns.executeFpStore (htr : Shuns (x.directData inst) tr)
    (hop : (opcode inst).toNat = 0x27)
    (hrun : executeFpMemThrough tr inst profile x = some (outcome, c')) :
    Exchanges profile inst x outcome c' := by
  have hsame : opcode inst = 0x27 := BitVec.eq_of_toNat_eq hop
  have hstores : IsStoreOnly inst := Or.inr (Or.inl hop)
  have haccess : ∀ size, x.floatSize inst = some size →
      x.dataAccess inst = some (x.storeAddr inst, size) := by
    intro size hsize
    simp [dataAccess, hop, hsize, storeAddr]
  rw [executeFpMemThrough, Program.bind_run_ok (Program.read_run _ _ _), id]
    at hrun
  simp only [hsame, if_true] at hrun
  by_cases hon : x.fpEnabled = true
  · simp only [hon, Bool.not_true, Bool.false_eq_true, if_false] at hrun
    by_cases hsingle : funct3 inst = 0x2
    · have hstore : storeRequest profile inst x =
          some ⟨x, x.storeAddr inst, 4, x.fregs (rs2 inst)⟩ := by
        simp [storeRequest, hop, hon, hsingle]
      rw [if_pos hsingle] at hrun
      exact htr.store_exchanges_last (by decide)
        (haccess 4 (by simp [floatSize, hon, hsingle])) hstores hstore hrun
    · rw [if_neg hsingle] at hrun
      by_cases hdouble : funct3 inst = 0x3
      · have hstore : storeRequest profile inst x =
            some ⟨x, x.storeAddr inst, 8, x.fregs (rs2 inst)⟩ := by
          simp [storeRequest, hop, hon, hdouble]
        rw [if_pos hdouble] at hrun
        exact htr.store_exchanges_last (by decide)
          (haccess 8 (by simp [floatSize, hon, hdouble])) hstores hstore hrun
      · have hnone : x.floatSize inst = none := by
          rw [floatSize, hon, if_neg (by decide), if_neg hsingle,
            if_neg hdouble]
        have hstore : storeRequest profile inst x = none := by
          simp only [storeRequest, hop, hon, Bool.not_true,
            Bool.false_eq_true, if_false, if_neg hsingle, if_neg hdouble]
        rw [if_neg hdouble] at hrun
        exact fails_exchanges (by simp [dataAccess, hop, hnone]) hstore hrun
  · have hoff : x.fpEnabled = false := Bool.eq_false_iff.mpr hon
    simp only [hoff, Bool.not_false, if_true] at hrun
    exact fails_exchanges (by simp [dataAccess, hop, floatSize, hoff])
      (by simp [storeRequest, hop, hoff]) hrun

/-- The word has been loaded, and the new one is stored. -/
theorem LoadsData.then_stores {y z : Cpu} {old new : BitVec 64}
    {wrote : Except Exception Unit}
    (hloaded : LoadsData profile x va size (.ok old) y)
    (hstored : StoresData profile y va size new wrote z)
    (hload : x.loadAccess inst = some (va, size))
    (hstore : storeRequest profile inst x = some ⟨y, va, size, new⟩)
    (hmem : c'.mem = z.mem) (hretires : wrote = .ok () → outcome = .ok ())
    (hlanded : ∀ byte : BitVec 8, old = byte.setWidth 64 →
      Landed inst byte outcome c') :
    Exchanges profile inst x outcome c' := by
  have htaken : ∃ taken, x.mem.uart.Conserves y.mem.uart [] taken [] ∧
      LoadTakes profile inst x outcome c' taken ∧
      y.mem.uart.emitted new = x.mem.uart.emitted new := by
    cases hloaded with
    | data hled huart =>
        refine ⟨_, ?_, .data hload hled fun byte hbyte => hlanded byte ?_, ?_⟩
        · rw [huart]
          exact x.mem.uart.conserves_read
        · exact Uart.read_handed hbyte
        · rw [huart]
          exact x.mem.uart.emitted_read new
    | other hother huart =>
        refine ⟨[], ?_, .other ?_, by rw [huart]⟩
        · rw [huart]
          exact Uart.Conserves.refl _
        · intro va' size' hload'
          cases hload.symm.trans hload'
          exact hother
  obtain ⟨taken, hfirst, htakes, hemitted⟩ := htaken
  cases hstored with
  | data hled huart =>
      rw [hretires rfl] at htakes ⊢
      refine ⟨taken, _, ?_, htakes, .data hstore hled⟩
      rw [hmem, huart, ← hemitted]
      simpa using hfirst.trans (y.mem.uart.conserves_write new)
  | other hother hquiet =>
      refine ⟨taken, [], ?_, htakes, .other ?_⟩
      · rw [hmem]
        simpa using hfirst.trans hquiet
      · intro s hs
        cases hstore.symm.trans hs
        exact hother

section Atomics

variable {width : ℕ} (hat : AtomicAt inst x width)

include hat

theorem AtomicAt.dataAccess_eq (hatomic : AtomicAccess x inst width) :
    x.dataAccess inst = some (x.rr (rs1 inst), width / 8) := by
  simp [dataAccess, hat.atomic, hat.legal, hatomic]

theorem AtomicAt.dataAccess_none (hatomic : ¬ AtomicAccess x inst width) :
    x.dataAccess inst = none := by
  simp [dataAccess, hat.atomic, hat.legal, hatomic]

theorem AtomicAt.not_storeOnly (hsc : funct7 inst >>> 2 ≠ 0x03) :
    ¬ IsStoreOnly inst := by
  unfold IsStoreOnly
  rw [hat.atomic]
  rintro (h | h | h)
  · cases h
  · cases h
  · exact hsc h.2

theorem AtomicAt.width_bounds : 8 ≤ width ∧ width ≤ 64 ∧ width / 8 ≤ 8 := by
  rcases amoWidth_cases hat.legal with rfl | rfl <;> decide

theorem AtomicAt.register_landed {byte : BitVec 8} {v : BitVec 64}
    (hv : sext (byte.setWidth 64) width profile = some v) (y : Cpu) :
    Landed inst byte (.ok ()) (y.setReg (rd inst) v) := by
  have hother : (opcode inst).toNat ≠ 0x07 := by simp [hat.atomic]
  exact Cpu.register_landed hother
    (sext_landed hat.width_bounds.1 hat.width_bounds.2.1 hv) y

theorem Shuns.executeLr (htr : Shuns (x.directData inst) tr)
    (hlr : funct7 inst >>> 2 = 0x02)
    (hrun : executeLrThrough tr inst (x.rr (rs1 inst)) width profile x =
      some (outcome, c')) : Exchanges profile inst x outcome c' := by
  have hsc : funct7 inst >>> 2 ≠ 0x03 := by
    rw [hlr]
    decide
  have hstore : storeRequest profile inst x = none :=
    (hat.request profile).trans (if_pos hlr)
  rw [executeLrThrough] at hrun
  by_cases hrs2 : rs2 inst = 0
  · have hatomic : AtomicAccess x inst width :=
      ⟨hat.aligned, fun _ => hrs2, fun h => absurd h hsc⟩
    rw [if_neg (not_not.mpr hrs2)] at hrun
    refine htr.load_exchanges hat.width_bounds.2.2 (hat.dataAccess_eq hatomic)
      (hat.not_storeOnly hsc) hstore ?_ ?_ hrun
    · intro v
      apply Program.Keeps.bind (Program.Keeps.check _)
      intro v
      exact Program.Keeps.bind (Program.Keeps.update fun _ => rfl)
        fun _ => wr_spares _ v
    · intro byte y
      apply Program.Ensures.bind
      apply Program.Ensures.check
      intro v hv
      apply Program.Ensures.bind
      apply Program.Ensures.update
      exact Program.Ensures.update (hat.register_landed hv _)
  · rw [if_pos hrs2] at hrun
    exact fails_exchanges
      (hat.dataAccess_none fun hatomic => hrs2 (hatomic.2.1 hlr)) hstore hrun

theorem Shuns.executeSc (htr : Shuns (x.directData inst) tr)
    (hsc : funct7 inst >>> 2 = 0x03)
    (hrun : executeScThrough tr inst (x.rr (rs1 inst)) width profile x =
      some (outcome, c')) : Exchanges profile inst x outcome c' := by
  have hlr : funct7 inst >>> 2 ≠ 0x02 := by
    rw [hsc]
    decide
  have hrequest := hat.request profile
  rw [if_neg hlr, if_pos hsc] at hrequest
  have hfinish : ∀ {v : BitVec 64} {y : Cpu}
      {outcome : Except Exception Unit} {c' : Cpu},
      (do
        setReservation none
        wr (rd inst) v : Hart Unit) profile y = some (outcome, c') →
      outcome = .ok () ∧ c'.mem = y.mem := by
    intro v y outcome c' hafter
    cases hafter
    exact ⟨rfl, setReg_mem _ _ _⟩
  rw [executeScThrough, Program.bind_run_ok (Program.read_run _ _ _), id]
    at hrun
  cases hheld : x.reservation == some (x.rr (rs1 inst)) with
  | true =>
      have hatomic : AtomicAccess x inst width :=
        ⟨hat.aligned, fun h => absurd h hlr, fun _ => eq_of_beq hheld⟩
      rw [hheld, if_pos rfl] at hrequest
      simp only [hheld, if_true] at hrun
      exact htr.store_exchanges hat.width_bounds.2.2
        (hat.dataAccess_eq hatomic) (Or.inr (Or.inr ⟨hat.atomic, hsc⟩))
        hrequest hfinish hrun
  | false =>
      have hnone : x.dataAccess inst = none := by
        apply hat.dataAccess_none
        intro hatomic
        rw [hatomic.2.2 hsc, beq_self_eq_true] at hheld
        cases hheld
      rw [hheld, if_neg Bool.false_ne_true] at hrequest
      simp only [hheld, Bool.false_eq_true, if_false] at hrun
      exact idle_exchanges hnone hrequest (hfinish hrun).2

theorem Shuns.executeRmw (htr : Shuns (x.directData inst) tr)
    (hlr : funct7 inst >>> 2 ≠ 0x02) (hsc : funct7 inst >>> 2 ≠ 0x03)
    (hrun : executeRmwThrough tr inst (x.rr (rs1 inst)) width profile x =
      some (outcome, c')) : Exchanges profile inst x outcome c' := by
  have hrmw : IsRmw inst := ⟨hat.atomic, hlr, hsc⟩
  have haccess := hat.dataAccess_eq (⟨hat.aligned, fun h => absurd h hlr,
    fun h => absurd h hsc⟩ : AtomicAccess x inst width)
  have hload : x.loadAccess inst = some (x.rr (rs1 inst), width / 8) :=
    (if_neg (hat.not_storeOnly hsc)).trans haccess
  have hdirect : x.directData inst =
      directAddress (x.rr (rs1 inst)) (width / 8) := by
    rw [directData, haccess]
    rfl
  have hrequest := hat.request profile
  rw [if_neg hlr, if_neg hsc, rmwRequest] at hrequest
  rw [hdirect] at htr
  have hsize := hat.width_bounds.2.2
  rw [executeRmwThrough] at hrun
  rcases Program.bind_cases hrun with
    ⟨e, hfails, rfl⟩ | ⟨old, y, hread, hafter⟩
  · have hplain := readMemThrough_approximates htr.approximates _ _ _ _ _ hfails
    simp only [hplain] at hrequest
    exact (htr.loaded hsize hfails).exchanges hload hrequest rfl
      fun _ h => by cases h
  have hplain := readMemThrough_approximates htr.approximates _ _ _ _ _ hread
  have hloaded := htr.loaded hsize hread
  rcases Program.bind_cases hafter with ⟨e, ha, -⟩ | ⟨a, _, ha, hnext⟩
  · obtain ⟨_, -, h, -⟩ := Program.check_cases ha
    cases h
  obtain ⟨_, hvalue, hok, rfl⟩ := Program.check_cases ha
  cases hok
  rw [Program.bind_run_ok (Program.read_run _ _ _), id] at hnext
  rcases Program.bind_cases hnext with ⟨e, hnew, -⟩ | ⟨new, _, hnew, hlast⟩
  · obtain ⟨_, -, h, -⟩ := Program.check_cases hnew
    cases h
  obtain ⟨_, hcomputed, hok, rfl⟩ := Program.check_cases hnew
  cases hok
  simp only [hplain, Checked.bind_of_some hvalue, hcomputed] at hrequest
  cases new with
  | none =>
      cases hlast
      exact hloaded.exchanges hload hrequest rfl fun _ _ => hrmw
  | some new =>
      rcases Program.bind_cases hlast with
        ⟨e, hfails, rfl⟩ | ⟨_, z, hwrite, hwr⟩
      · exact hloaded.then_stores (htr.stored hsize hfails) hload hrequest
          rfl (fun h => by cases h) fun _ _ => hrmw
      · cases hwr
        refine hloaded.then_stores (htr.stored hsize hwrite) hload hrequest
          (setReg_mem _ _ _) (fun _ => rfl) fun byte hbyte => ?_
        rw [hbyte] at hvalue
        exact hat.register_landed hvalue _

end Atomics

theorem Shuns.executeAmo (htr : Shuns (x.directData inst) tr)
    (hop : (opcode inst).toNat = 0x2f)
    (hrun : executeAmoThrough tr inst profile x = some (outcome, c')) :
    Exchanges profile inst x outcome c' := by
  rw [executeAmoThrough, Program.bind_run_ok (Program.read_run _ _ _), id]
    at hrun
  cases hwidth : amoWidth (funct3 inst) x.xlen with
  | none =>
      simp only [hwidth] at hrun
      exact fails_exchanges (by simp [dataAccess, hop, hwidth])
        (by simp [storeRequest, hop, atomicRequest, hwidth]) hrun
  | some width =>
      simp only [hwidth] at hrun
      by_cases haligned : (x.rr (rs1 inst)).toNat % (width / 8) = 0
      · have hat : AtomicAt inst x width := ⟨hop, hwidth, haligned⟩
        rw [if_neg (not_not.mpr haligned)] at hrun
        by_cases hlr : funct7 inst >>> 2 = 0x02
        · rw [if_pos hlr] at hrun
          exact htr.executeLr hat hlr hrun
        by_cases hsc : funct7 inst >>> 2 = 0x03
        · rw [if_neg hlr, if_pos hsc] at hrun
          exact htr.executeSc hat hsc hrun
        · rw [if_neg hlr, if_neg hsc] at hrun
          exact htr.executeRmw hat hlr hsc hrun
      · rw [if_pos haligned] at hrun
        refine fails_exchanges ?_ ?_ hrun
        · simp [dataAccess, hop, hwidth, AtomicAccess, haligned]
        · simp [storeRequest, hop, atomicRequest, hwidth, haligned]

theorem dataAccess_other (hother : ¬ IsAccess inst) :
    x.dataAccess inst = none := by
  unfold IsAccess at hother
  unfold dataAccess
  dsimp only
  split
  all_goals first
    | rfl
    | next hop => simp [hop] at hother

/-- An instruction takes and sends by its own load and store only. -/
theorem Shuns.execute {instPc nextPc : BitVec 64}
    (htr : Shuns (c.directData inst) tr)
    (hrun : executeThrough tr inst instPc nextPc profile c =
      some (outcome, c')) :
    Exchanges profile inst { c with pc := nextPc } outcome c' := by
  have hplaced : Shuns (({ c with pc := nextPc } : Cpu).directData inst) tr :=
    htr
  fun_cases executeThrough tr inst instPc nextPc
  · next hop =>
      rw [executeThrough, hop] at hrun
      exact hplaced.executeLoad hop hrun
  · next hop =>
      rw [executeThrough, hop] at hrun
      exact hplaced.executeStore hop hrun
  · next hop =>
      rw [executeThrough, hop] at hrun
      exact hplaced.executeAmo hop hrun
  · next hop =>
      rw [executeThrough, hop] at hrun
      exact hplaced.executeFpLoad hop hrun
  · next hop =>
      rw [executeThrough, hop] at hrun
      exact hplaced.executeFpStore hop hrun
  · next hload hstore hamo hfload hfstore =>
      have hother : ¬ IsAccess inst := by
        unfold IsAccess
        simp only [List.mem_cons, List.not_mem_nil, or_false]
        rintro (h | h | h | h | h)
        exacts [hload h, hfload h, hstore h, hfstore h, hamo h]
      have hplain := executeThrough_approximates htr.approximates _ _ _ _ _ _
        hrun
      have hmem : c'.mem = c.mem :=
        (execute_spares hother instPc nextPc).of_run hplain
      exact idle_exchanges (dataAccess_other hother)
        (storeRequest_other hother) hmem

end Instructions

end Cpu

end Nanoemu
