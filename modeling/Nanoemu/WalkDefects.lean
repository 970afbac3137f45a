import Nanoemu.EntryWalk
import Nanoemu.FetchFaults
import Nanoemu.StoreAtomicity

/-!
# Defects of page tables

The specification tells two defects of a table apart: an entry that is not
mapped to memory or a device is an access fault, and one with a reserved bit
set is a page fault.  The walk raises page faults only, and looks at no
reserved bit.
-/

namespace Nanoemu

open CheckedProgram

namespace Memory

instance (mem : Memory) (addr : BitVec 64) (size : ℕ) :
    Decidable (mem.Mapped addr size) :=
  inferInstanceAs (Decidable (_ ∨ _))

end Memory

namespace Mmu

instance (pte : BitVec 64) : Decidable (ValidEntry pte) :=
  decidable_of_iff _ (valid_iff pte)

instance (pte : BitVec 64) : Decidable (PointerEntry pte) :=
  inferInstanceAs (Decidable (_ ∧ _))

inductive Defect where
  | unmapped
  | reserved
deriving DecidableEq, Repr

/-- What the specification raises for a defect. -/
def Defect.fault (va : BitVec 64) : Access → Defect → Exception
  | .fetch, .unmapped => .instructionAccessFault va
  | .load, .unmapped => .loadAccessFault va
  | .store, .unmapped => .storeAccessFault va
  | .fetch, .reserved => .instructionPageFault va
  | .load, .reserved => .loadPageFault va
  | .store, .reserved => .storePageFault va

theorem Defect.fault_reserved (va : BitVec 64) (access : Access) :
    Defect.fault va access .reserved = Exception.pageFault access va := by
  cases access <;> rfl

/-- A bit above the page number of an Sv39 entry, or the user, accessed or
dirty bit (bits 4, 6 and 7) of a pointer. -/
def HasReserved (scheme : Mode) (pte : BitVec 64) : Prop :=
  scheme = .sv39 ∧ pte >>> 54 ≠ 0 ∨
    ValidEntry pte ∧ PointerEntry pte ∧
      (pte.getLsbD 4 = true ∨ pte.getLsbD 6 = true ∨ pte.getLsbD 7 = true)

/-- The defect that a walk meets first. -/
inductive Meets (scheme : Mode) (profile : Profile) (va : BitVec 64) :
    (remaining : ℕ) → (table : BitVec 64) → Memory → Defect → Prop where
  | unmapped {level : ℕ} {table : BitVec 64} {mem : Memory} :
      ¬ mem.Mapped (entryAddr scheme va table level) scheme.pteSize →
      Meets scheme profile va (level + 1) table mem .unmapped
  | reserved {level : ℕ} {table pte : BitVec 64} {mem mem' : Memory} :
      Memory.read (entryAddr scheme va table level) scheme.pteSize profile
        mem = some (.ok pte, mem') →
      HasReserved scheme pte →
      Meets scheme profile va (level + 1) table mem .reserved
  | pointer {level : ℕ} {table pte : BitVec 64} {mem mem' : Memory}
      {defect : Defect} :
      Memory.read (entryAddr scheme va table level) scheme.pteSize profile
        mem = some (.ok pte, mem') →
      ¬ HasReserved scheme pte → ValidEntry pte → PointerEntry pte →
      Meets scheme profile va level (nextTable scheme pte) mem' defect →
      Meets scheme profile va (level + 1) table mem defect

/-- What the walk refuses an access for, reserved bits aside: an entry that is
unmapped, absent or writable only, a pointer where levels have run out, or a
leaf that does not grant the access. -/
inductive Refused (scheme : Mode) (effective : Priv) (status va : BitVec 64)
    (access : Access) (profile : Profile) :
    (remaining : ℕ) → (table : BitVec 64) → Memory → Prop where
  | last {table : BitVec 64} {mem : Memory} :
      Refused scheme effective status va access profile 0 table mem
  | unmapped {level : ℕ} {table : BitVec 64} {mem : Memory} :
      ¬ mem.Mapped (entryAddr scheme va table level) scheme.pteSize →
      Refused scheme effective status va access profile (level + 1) table mem
  | invalid {level : ℕ} {table pte : BitVec 64} {mem mem' : Memory} :
      Memory.read (entryAddr scheme va table level) scheme.pteSize profile
        mem = some (.ok pte, mem') →
      ¬ ValidEntry pte →
      Refused scheme effective status va access profile (level + 1) table mem
  | pointer {level : ℕ} {table pte : BitVec 64} {mem mem' : Memory} :
      Memory.read (entryAddr scheme va table level) scheme.pteSize profile
        mem = some (.ok pte, mem') →
      ValidEntry pte → PointerEntry pte →
      Refused scheme effective status va access profile level
        (nextTable scheme pte) mem' →
      Refused scheme effective status va access profile (level + 1) table mem
  | denied {level : ℕ} {table pte : BitVec 64} {mem mem' : Memory} :
      Memory.read (entryAddr scheme va table level) scheme.pteSize profile
        mem = some (.ok pte, mem') →
      ValidEntry pte → ¬ PointerEntry pte →
      ¬ Leaf.Grants { level := level
                      addr := entryAddr scheme va table level
                      pte := pte } scheme status effective access →
      Refused scheme effective status va access profile (level + 1) table mem

section Walks

variable {scheme : Mode} {effective : Priv} {status va : BitVec 64}
  {access : Access} {profile : Profile} {mem mem' : Memory}

theorem refused_iff {level : ℕ} {table pte : BitVec 64}
    (hmapped : mem.Mapped (entryAddr scheme va table level) scheme.pteSize)
    (hread : Memory.read (entryAddr scheme va table level) scheme.pteSize
      profile mem = some (.ok pte, mem')) :
    Refused scheme effective status va access profile (level + 1) table mem ↔
      (ValidEntry pte →
        if PointerEntry pte then
          Refused scheme effective status va access profile level
            (nextTable scheme pte) mem'
        else ¬ Leaf.Grants { level := level
                             addr := entryAddr scheme va table level
                             pte := pte } scheme status effective access) := by
  constructor
  · intro h hvalid
    cases h with
    | unmapped hout => exact absurd hmapped hout
    | invalid hread' hinvalid =>
        rw [hread] at hread'
        cases hread'
        exact absurd hvalid hinvalid
    | pointer hread' _ hpointer hrest =>
        rw [hread] at hread'
        cases hread'
        rw [if_pos hpointer]
        exact hrest
    | denied hread' _ hleaf hdenied =>
        rw [hread] at hread'
        cases hread'
        rw [if_neg hleaf]
        exact hdenied
  · intro h
    by_cases hvalid : ValidEntry pte
    · have hrest := h hvalid
      by_cases hpointer : PointerEntry pte
      · rw [if_pos hpointer] at hrest
        exact .pointer hread hvalid hpointer hrest
      · rw [if_neg hpointer] at hrest
        exact .denied hread hvalid hpointer hrest
    · exact .invalid hread hvalid

/-- A walk ends in a page fault exactly where it is refused. -/
theorem walk_refused_iff (hscheme : scheme ≠ .bare) {remaining : ℕ}
    (hremaining : remaining ≤ scheme.levels) {table : BitVec 64}
    (htable : TableBase table) :
    (∃ mem', walk scheme effective status va access remaining table profile
      mem = some (.error (Exception.pageFault access va), mem')) ↔
      Refused scheme effective status va access profile remaining table
        mem := by
  induction remaining generalizing table mem with
  | zero => exact ⟨fun _ => .last, fun _ => ⟨mem, rfl⟩⟩
  | succ level ih =>
      have hlevel : level < scheme.levels := hremaining
      have hsize := validSize_pteSize hscheme
      rw [walk, pteAddr_eq_pure hscheme hlevel htable, Program.check_pure,
        pure_bind]
      by_cases hmapped : mem.Mapped (entryAddr scheme va table level)
          scheme.pteSize
      · rcases hread : Memory.read (entryAddr scheme va table level)
            scheme.pteSize profile mem with _ | ⟨error | pte, mem₁⟩
        · rw [Program.bind_run_none (by rw [Program.mapError, hread])]
          constructor
          · rintro ⟨mem', hrun⟩
            cases hrun
          · intro h
            cases h with
            | unmapped hout => exact absurd hmapped hout
            | invalid hread' _ => cases hread.symm.trans hread'
            | pointer hread' _ _ _ => cases hread.symm.trans hread'
            | denied hread' _ _ _ => cases hread.symm.trans hread'
        · exact ((Memory.read_mapped hsize hmapped profile).error hread).elim
        · rw [Program.bind_run_ok (by rw [Program.mapError, hread]),
            refused_iff hmapped hread]
          by_cases hvalid : ValidEntry pte
          · rw [(valid_iff pte).mpr hvalid]
            simp only [Bool.not_true, Bool.false_eq_true, if_false]
            by_cases hpointer : PointerEntry pte
            · rw [if_pos ((isPointer_iff pte).mpr hpointer), if_pos hpointer]
              rcases Nat.eq_zero_or_pos level with rfl | hpos
              · exact ⟨fun _ _ => .last, fun _ => ⟨mem₁, rfl⟩⟩
              · have hrest := @ih mem₁ hlevel.le _
                  (nextTable_tableBase scheme pte)
                rw [if_neg (by omega), (page_mul (ppn_toNat_lt scheme pte)).1,
                  Program.check_pure, pure_bind]
                exact ⟨fun h _ => hrest.mp h, fun h => hrest.mpr (h hvalid)⟩
            · have hleaf : isPointer pte = false := by
                rw [← Bool.not_eq_true, isPointer_iff]
                exact hpointer
              rw [hleaf, if_neg hpointer]
              simp only [Bool.false_eq_true, if_false]
              set reached : Leaf :=
                { level := level
                  addr := entryAddr scheme va table level
                  pte := pte }
              by_cases hgrants :
                  reached.Grants scheme status effective access
              · constructor
                · rintro ⟨mem', hrun⟩
                  have hanswers := @leaf_answers _ _ _ va _ profile _ reached
                    hscheme hlevel hgrants (Memory.mapped_of_read hread hmapped)
                  exact (hanswers.error hrun).elim
                · exact fun h => absurd hgrants (h hvalid)
              · exact ⟨fun _ _ => hgrants, fun _ => ⟨mem₁,
                  @leaf_refused _ _ _ _ _ _ reached hlevel hgrants profile⟩⟩
          · have hinvalid : valid pte = false := by
              rw [← Bool.not_eq_true, valid_iff]
              exact hvalid
            rw [hinvalid]
            exact ⟨fun _ h => absurd h hvalid, fun _ => ⟨mem₁, rfl⟩⟩
      · obtain ⟨hdram, hdevice⟩ := not_or.mp hmapped
        rw [Program.bind_run_error (by
          rw [Program.mapError, Memory.read_unmapped hdram hdevice])]
        exact ⟨fun _ => .unmapped hmapped, fun _ => ⟨_, rfl⟩⟩

end Walks

/-! ## Translations -/

section Translations

variable (xlen : Xlen) (satp status : BitVec 64) (mode : Priv)
  (va : BitVec 64) (access : Access) (profile : Profile) (mem : Memory)

/-- The access is translated, and the first defect that its walk meets. -/
structure Malformed (defect : Defect) : Prop where
  paged : Mode.of satp xlen ≠ .bare
  below : effectivePriv status mode access ≠ .machine
  canonical : ¬ (Mode.of satp xlen = .sv39 ∧ !canonical va)
  meets : Meets (Mode.of satp xlen) profile va (Mode.of satp xlen).levels
    (rootTable (Mode.of satp xlen) satp) mem defect

/-- A malformed table raises the fault of its defect. -/
def Classifies : Prop :=
  ∀ defect, Malformed xlen satp status mode va access profile mem defect →
    ∃ mem', translate xlen satp status mode va access profile mem =
      some (.error (Defect.fault va access defect), mem')

/-- A translation classifies no unmapped entry, and a reserved bit only where
the walk that does not look at it is refused all the same. -/
theorem translate_classifies_iff :
    Classifies xlen satp status mode va access profile mem ↔
      ¬ Malformed xlen satp status mode va access profile mem .unmapped ∧
        (Malformed xlen satp status mode va access profile mem .reserved →
          Refused (Mode.of satp xlen) (effectivePriv status mode access) status
            va access profile (Mode.of satp xlen).levels
            (rootTable (Mode.of satp xlen) satp) mem) := by
  have htable := rootTable_tableBase (Mode.of satp xlen) satp
  constructor
  · intro h
    constructor
    · intro hmalformed
      obtain ⟨mem', hrun⟩ := h .unmapped hmalformed
      have hraises : (translate xlen satp status mode va access).Raises
          (anyFrame Memory) (Eq (Exception.pageFault access va)) :=
        translate_raises anyFrame_respects rfl xlen satp status mode
      have hfault := ((hraises profile mem).error hrun).2
      cases access <;> cases hfault
    · intro hmalformed
      obtain ⟨mem', hrun⟩ := h .reserved hmalformed
      rw [Defect.fault_reserved, translate_eq_walk hmalformed.paged
        hmalformed.below, if_neg hmalformed.canonical] at hrun
      exact (walk_refused_iff hmalformed.paged le_rfl htable).mp ⟨mem', hrun⟩
  · rintro ⟨hmapped, hrefused⟩ defect hmalformed
    cases defect with
    | unmapped => exact absurd hmalformed hmapped
    | reserved =>
        rw [Defect.fault_reserved, translate_eq_walk hmalformed.paged
          hmalformed.below, if_neg hmalformed.canonical]
        exact (walk_refused_iff hmalformed.paged le_rfl htable).mpr
          (hrefused hmalformed)

end Translations

/-- A gigapage at the start of DRAM whose entry has bit 63 set. -/
def reservedTable : Memory :=
  (Memory.new 0x1000).stored DRAM_BASE 8 0x80000000200000cf

/-- A root table that is nowhere is a page fault, and an entry with bit 63 set
translates. -/
theorem not_classifies :
    ¬ Classifies .rv64 0x8000000000000000 0 .supervisor 0 .load .debug
        (Memory.new 0x1000) ∧
      ¬ Classifies .rv64 0x8000000000080000 0 .supervisor 0 .load .debug
        reservedTable := by
  constructor
  · intro h
    have hfault : (translate .rv64 0x8000000000000000 0 .supervisor 0 .load
        .debug (Memory.new 0x1000)).map Prod.fst =
        some (.error (.loadPageFault 0)) := by decide +kernel
    obtain ⟨mem', hrun⟩ := h .unmapped
      ⟨by decide, by decide, by decide, .unmapped (by decide)⟩
    rw [hrun] at hfault
    cases hfault
  · intro h
    have hanswer : (translate .rv64 0x8000000000080000 0 .supervisor 0 .load
        .debug reservedTable).map Prod.fst = some (.ok 0x80000000) := by
      decide +kernel
    have hread : Memory.read 0x80000000 8 .debug reservedTable =
        some (.ok 0x80000000200000cf, reservedTable) := rfl
    obtain ⟨mem', hrun⟩ := h .reserved
      ⟨by decide, by decide, by decide,
        .reserved hread (Or.inl ⟨rfl, by decide⟩)⟩
    rw [hrun] at hanswer
    cases hanswer

end Mmu

end Nanoemu
