import Nanoemu.FreshHart
import Nanoemu.StepOutcome

/-!
# Which interrupt is taken

An interrupt is destined for the mode its delegation names, and it is
deliverable when that mode outranks the current one, or is the current one
with interrupts on.  The hart scans the six sources in one fixed order, which
agrees with the order by destination exactly when delegation does not put a
deliverable supervisor interrupt in front of every deliverable machine one.
-/

namespace Nanoemu

open CheckedProgram

theorem Priv.le_machine (mode : Priv) : mode ≤ .machine := by
  cases mode <;> decide

namespace Cpu

def destination (c : Cpu) (bit : BitVec 64) : Priv :=
  if c.csrs.read Csr.MIDELEG &&& bit ≠ 0 then .supervisor else .machine

def globalEnable (c : Cpu) (mode : Priv) : Bool :=
  match mode with
  | .machine => c.csrs.read Csr.MSTATUS &&& Mstatus.MIE != 0
  | .supervisor => c.csrs.read Csr.MSTATUS &&& Mstatus.SIE != 0
  | .user => false

/-- Pending and enabled, and destined for a mode that may be interrupted. -/
def Deliverable (c : Cpu) (bit : BitVec 64) : Prop :=
  c.csrs.read Csr.MIE &&& c.csrs.read Csr.MIP &&& bit ≠ 0 ∧
    (c.privMode < c.destination bit ∨
      c.privMode = c.destination bit ∧
        c.globalEnable (c.destination bit) = true)

instance (c : Cpu) (bit : BitVec 64) : Decidable (c.Deliverable bit) :=
  inferInstanceAs (Decidable (_ ∧ _))

/-- MEI, MSI, MTI, SEI, SSI, STI, each with its bit. -/
def priorityOrder : List (BitVec 64 × ℕ) :=
  [(1#64 <<< 11, 11), (1#64 <<< 3, 3), (1#64 <<< 7, 7),
    (1#64 <<< 9, 9), (1#64 <<< 1, 1), (1#64 <<< 5, 5)]

theorem interruptOrder_eq : interruptOrder = priorityOrder := by decide

/-- Destined for the most privileged mode that has a deliverable interrupt,
and the first of that mode's in the fixed order. -/
def Preferred (c : Cpu) (entry : BitVec 64 × ℕ) : Prop :=
  c.Deliverable entry.1 ∧
    (∀ other ∈ priorityOrder, c.Deliverable other.1 →
      c.destination other.1 ≤ c.destination entry.1) ∧
    ∃ front back, priorityOrder = front ++ entry :: back ∧
      ∀ other ∈ front, c.Deliverable other.1 →
        c.destination other.1 ≠ c.destination entry.1

/-- An interrupt is taken exactly when one is deliverable, it is the preferred
one, and its trap enters the mode it is destined for. -/
structure Arbitrated (c : Cpu) : Prop where
  taken : c.pendingInterrupt.isSome = true ↔
    ∃ entry ∈ priorityOrder, c.Deliverable entry.1
  preferred : ∀ cause, c.pendingInterrupt = some cause →
    ∃ entry ∈ priorityOrder, entry.2 = cause ∧ c.Preferred entry
  delivered : ∀ entry ∈ priorityOrder, c.pendingInterrupt = some entry.2 →
    ∀ profile tval epc c',
      takeTrap entry.2 tval epc true profile c = some (.ok (), c') →
      c'.privMode = c.destination entry.1

/-- A deliverable supervisor interrupt comes after a deliverable machine one,
or no deliverable machine one comes after it. -/
def InOrder (c : Cpu) : Prop :=
  ∀ front entry back, priorityOrder = front ++ entry :: back →
    c.Deliverable entry.1 → c.destination entry.1 = .supervisor →
    (∃ other ∈ front, c.Deliverable other.1 ∧
      c.destination other.1 = .machine) ∨
    ∀ other ∈ back, c.Deliverable other.1 →
      c.destination other.1 = .supervisor

theorem destination_cases (c : Cpu) (bit : BitVec 64) :
    c.destination bit = .supervisor ∨ c.destination bit = .machine := by
  rw [destination]
  split
  · exact Or.inl rfl
  · exact Or.inr rfl

theorem scan_test (c : Cpu) (bit : BitVec 64) :
    (c.csrs.read Csr.MIE &&& c.csrs.read Csr.MIP &&& bit != 0 &&
      c.interruptEnabled bit) = decide (c.Deliverable bit) := by
  have henabled : c.interruptEnabled bit =
      decide (c.privMode < c.destination bit ∨
        c.privMode = c.destination bit ∧
          c.globalEnable (c.destination bit) = true) := by
    rw [interruptEnabled, destination]
    split
    · cases hmode : c.privMode with
      | machine => rfl
      | supervisor =>
          rw [Bool.eq_iff_iff, decide_eq_true_iff]
          refine ⟨fun henable => Or.inr ⟨rfl, henable⟩, ?_⟩
          rintro (hlower | ⟨-, henable⟩)
          · exact absurd hlower (by decide)
          · exact henable
      | user => rfl
    · cases hmode : c.privMode with
      | machine =>
          rw [Bool.eq_iff_iff, decide_eq_true_iff]
          refine ⟨fun henable => Or.inr ⟨rfl, henable⟩, ?_⟩
          rintro (hlower | ⟨-, henable⟩)
          · exact absurd hlower (by decide)
          · exact henable
      | supervisor => rfl
      | user => rfl
  rw [henabled, bne, Bool.eq_iff_iff, Bool.and_eq_true, decide_eq_true_iff,
    decide_eq_true_iff, Bool.not_eq_true', beq_eq_false_iff_ne]
  rfl

theorem pendingInterrupt_eq (c : Cpu) :
    c.pendingInterrupt =
      (priorityOrder.find? fun entry => decide (c.Deliverable entry.1)).map
        Prod.snd := by
  have htest : (fun entry : BitVec 64 × ℕ => decide (c.Deliverable entry.1)) =
      fun entry => c.csrs.read Csr.MIE &&& c.csrs.read Csr.MIP &&& entry.1 != 0
        && c.interruptEnabled entry.1 := by
    funext entry
    exact (c.scan_test entry.1).symm
  rw [pendingInterrupt]
  dsimp only
  split
  · next hnone =>
      have hfind : priorityOrder.find?
          (fun entry => decide (c.Deliverable entry.1)) = none := by
        apply List.find?_eq_none.mpr
        intro entry _ hdeliverable
        have hpending := (of_decide_eq_true hdeliverable).1
        rw [hnone] at hpending
        exact hpending BitVec.zero_and
      rw [hfind]
      rfl
  · rw [htest, interruptOrder_eq]

theorem pendingInterrupt_eq_some {c : Cpu} {cause : ℕ} :
    c.pendingInterrupt = some cause ↔
      ∃ entry front back, priorityOrder = front ++ entry :: back ∧
        entry.2 = cause ∧ c.Deliverable entry.1 ∧
        ∀ other ∈ front, ¬ c.Deliverable other.1 := by
  rw [pendingInterrupt_eq, Option.map_eq_some_iff]
  constructor
  · rintro ⟨entry, hfind, rfl⟩
    obtain ⟨hdeliverable, front, back, horder, hfront⟩ :=
      List.find?_eq_some_iff_append.mp hfind
    refine ⟨entry, front, back, horder, rfl, of_decide_eq_true hdeliverable, ?_⟩
    intro other hother hdel
    have htest := hfront other hother
    rw [decide_eq_true hdel] at htest
    cases htest
  · rintro ⟨entry, front, back, horder, rfl, hdeliverable, hfront⟩
    refine ⟨entry, List.find?_eq_some_iff_append.mpr
      ⟨decide_eq_true hdeliverable, front, back, horder, ?_⟩, rfl⟩
    intro other hother
    rw [decide_eq_false (hfront other hother)]
    rfl

theorem pendingInterrupt_isSome (c : Cpu) :
    c.pendingInterrupt.isSome = true ↔
      ∃ entry ∈ priorityOrder, c.Deliverable entry.1 := by
  rw [pendingInterrupt_eq, Option.isSome_map, List.find?_isSome]
  constructor
  · rintro ⟨entry, hmem, hdeliverable⟩
    exact ⟨entry, hmem, of_decide_eq_true hdeliverable⟩
  · rintro ⟨entry, hmem, hdeliverable⟩
    exact ⟨entry, hmem, decide_eq_true hdeliverable⟩

theorem delegation_bit {entry : BitVec 64 × ℕ} (hentry : entry ∈ priorityOrder)
    (deleg : BitVec 64) :
    ((deleg >>> entry.2) &&& 1 == 1) = decide (deleg &&& entry.1 ≠ 0) := by
  have hall : ∀ entry ∈ priorityOrder,
      entry.1 = 1#64 <<< entry.2 ∧ entry.2 < 64 := by decide
  obtain ⟨hbit, hlt⟩ := hall entry hentry
  have hselected : (deleg >>> entry.2) &&& 1 =
      BitVec.setWidth 64 (BitVec.ofBool (deleg.getLsbD entry.2)) := by
    rw [BitVec.ofNat_eq_ofNat, BitVec.and_one_eq_setWidth_ofBool_getLsbD,
      BitVec.getLsbD_ushiftRight, Nat.add_zero]
  have hmasked : deleg &&& entry.1 =
      if deleg.getLsbD entry.2 then BitVec.twoPow 64 entry.2 else 0 := by
    rw [hbit, ← BitVec.twoPow_eq, BitVec.and_twoPow]
    rfl
  have hpower : BitVec.twoPow 64 entry.2 ≠ 0 := by
    intro hzero
    have hbit := congrArg (fun word => word.getLsbD entry.2) hzero
    simp [hlt] at hbit
  rw [hselected, hmasked]
  cases deleg.getLsbD entry.2 with
  | false => rfl
  | true =>
      rw [if_pos rfl, decide_eq_true hpower]
      rfl

theorem takeTrap_delivers {c c' : Cpu} {entry : BitVec 64 × ℕ}
    (hentry : entry ∈ priorityOrder) (hdeliverable : c.Deliverable entry.1)
    {profile : Profile} {tval epc : BitVec 64}
    (htrap : takeTrap entry.2 tval epc true profile c = some (.ok (), c')) :
    c'.privMode = c.destination entry.1 := by
  have hcause : entry.2 < 64 :=
    (by decide : ∀ entry ∈ priorityOrder, entry.2 < 64) entry hentry
  obtain ⟨entered, pc, hentered, rfl⟩ :=
    ((takeTrap_ensures hcause tval epc true profile c).ok htrap).spec
  have hdelegated : c.Delegated entry.2 true =
      (decide (c.privMode ≤ .supervisor) &&
        decide (c.csrs.read Csr.MIDELEG &&& entry.1 ≠ 0)) := by
    rw [← delegation_bit hentry]
    rfl
  by_cases hdeleg : c.csrs.read Csr.MIDELEG &&& entry.1 ≠ 0
  · have hdestination : c.destination entry.1 = .supervisor := if_pos hdeleg
    have hle : c.privMode ≤ .supervisor := by
      have hmode := hdeliverable.2
      rw [hdestination] at hmode
      rcases hmode with hlower | ⟨hsame, -⟩
      · exact Nat.le_of_lt hlower
      · exact hsame ▸ (by decide : Priv.supervisor ≤ .supervisor)
    rw [decide_eq_true hle, decide_eq_true hdeleg] at hdelegated
    rw [hdestination]
    rcases hentered with ⟨rfl, -⟩ | ⟨-, hkept⟩
    · rfl
    · cases hdelegated.symm.trans hkept
  · have hdestination : c.destination entry.1 = .machine := if_neg hdeleg
    rw [decide_eq_false hdeleg, Bool.and_false] at hdelegated
    rw [hdestination]
    rcases hentered with ⟨-, hgone⟩ | ⟨rfl, -⟩
    · cases hdelegated.symm.trans hgone
    · rfl

/-! ## When the orders agree -/

theorem priorityOrder_causes :
    ∀ first ∈ priorityOrder, ∀ second ∈ priorityOrder,
      first.2 = second.2 → first = second := by
  decide

theorem first_deliverable {c : Cpu}
    {front front' back back' : List (BitVec 64 × ℕ)}
    {entry first : BitVec 64 × ℕ}
    (hsplit : priorityOrder = front ++ entry :: back)
    (hdeliverable : c.Deliverable entry.1)
    (hsplit' : priorityOrder = front' ++ first :: back')
    (hfirst : ∀ other ∈ front', ¬ c.Deliverable other.1) :
    first = entry ∨ first ∈ front := by
  rcases List.append_eq_append_iff.mp (hsplit.symm.trans hsplit') with
    ⟨between, hfront', htail⟩ | ⟨between, hfront, htail⟩
  · cases between with
    | nil => exact Or.inl (List.cons.inj htail).1.symm
    | cons head rest =>
        obtain rfl := (List.cons.inj htail).1
        exact absurd hdeliverable (hfirst entry (by rw [hfront']; simp))
  · cases between with
    | nil => exact Or.inl (List.cons.inj htail).1
    | cons head rest =>
        obtain rfl := (List.cons.inj htail).1
        exact Or.inr (by rw [hfront]; simp)

theorem arbitrated_iff_inOrder (c : Cpu) : c.Arbitrated ↔ c.InOrder := by
  constructor
  · intro h front entry back horder hdeliverable hsupervisor
    by_cases hearlier : ∃ other ∈ front, c.Deliverable other.1 ∧
        c.destination other.1 = .machine
    · exact Or.inl hearlier
    right
    intro other hother hlater
    obtain ⟨cause, hcause⟩ := Option.isSome_iff_exists.mp
      (h.taken.mpr ⟨entry, by rw [horder]; simp, hdeliverable⟩)
    obtain ⟨first, front', back', hsplit', rfl, hdel, hfirst⟩ :=
      pendingInterrupt_eq_some.mp hcause
    obtain ⟨chosen, hchosen, hsame, -, hhighest, -⟩ := h.preferred _ hcause
    obtain rfl := priorityOrder_causes chosen hchosen first
      (by rw [hsplit']; simp) hsame
    have hother' := hhighest other (by rw [horder]; simp [hother]) hlater
    -- The returned interrupt is the given one or one before it, so it goes to
    -- supervisor mode, and no deliverable interrupt goes higher.
    have hchosenMode : c.destination chosen.1 = .supervisor := by
      rcases first_deliverable horder hdeliverable hsplit' hfirst with
        rfl | hbefore
      · exact hsupervisor
      · exact (c.destination_cases chosen.1).resolve_right
          fun hmachine => hearlier ⟨chosen, hbefore, hdel, hmachine⟩
    refine (c.destination_cases other.1).resolve_right fun hmachine => ?_
    rw [hchosenMode, hmachine] at hother'
    exact absurd hother' (by decide)
  · intro h
    refine ⟨pendingInterrupt_isSome c, ?_, ?_⟩
    · intro cause hcause
      obtain ⟨entry, front, back, horder, rfl, hdeliverable, hfront⟩ :=
        pendingInterrupt_eq_some.mp hcause
      have hentry : entry ∈ priorityOrder := by
        rw [horder]
        simp
      refine ⟨entry, hentry, rfl, hdeliverable, ?_, front, back, horder,
        fun other hother hdel => absurd hdel (hfront other hother)⟩
      intro other hother hdel
      rcases c.destination_cases entry.1 with hsupervisor | hmachine
      · have hback := (h front entry back horder hdeliverable
          hsupervisor).resolve_left (by
            rintro ⟨before, hbefore, hdel', -⟩
            exact hfront before hbefore hdel')
        rw [horder, List.mem_append, List.mem_cons] at hother
        rcases hother with hbefore | rfl | hafter
        · exact absurd hdel (hfront other hbefore)
        · exact Nat.le_refl _
        · rw [hback other hafter hdel, hsupervisor]
          exact Nat.le_refl _
      · rw [hmachine]
        exact Priv.le_machine _
    · intro entry hentry hcause profile tval epc c' htrap
      obtain ⟨found, front, back, horder, hsame, hdeliverable, -⟩ :=
        pendingInterrupt_eq_some.mp hcause
      have hfound : found ∈ priorityOrder := by
        rw [horder]
        simp
      obtain rfl := priorityOrder_causes found hfound entry hentry hsame
      exact takeTrap_delivers hentry hdeliverable htrap

/-- A program that delegates the software interrupt but not the timer one,
makes both pending, and drops to user mode. -/
def partlyDelegatingHart : Cpu :=
  programmedHart .rv64
    [ -- li t0, 0x22; csrrwi x0, mideleg, 2
      0x02200293, 0x30315073,
      -- csrrw x0, mie, t0; csrrw x0, mip, t0; mret
      0x30429073, 0x34429073, 0x30200073]

/-- The software interrupt is returned, for supervisor mode, although the
timer interrupt is deliverable to machine mode. -/
theorem arbitrated_fails_under_partial_delegation :
    Reachable .debug (Started .debug)
        ((stepped .debug)^[5] partlyDelegatingHart) ∧
      ¬ ((stepped .debug)^[5] partlyDelegatingHart).Arbitrated := by
  refine ⟨⟨partlyDelegatingHart,
    Or.inl (programmedHart_loaded .debug .rv64 (by decide)),
    Run.iterate (by decide +kernel) fun _ _ => trivial⟩, ?_⟩
  intro h
  have hreturned : ((stepped .debug)^[5] partlyDelegatingHart).pendingInterrupt =
      some Interrupt.SUPERVISOR_SOFTWARE := by decide +kernel
  obtain ⟨entry, hentry, hcause, -, hhighest, -⟩ := h.preferred _ hreturned
  obtain rfl := priorityOrder_causes entry hentry
    (IntBit.SSIP, Interrupt.SUPERVISOR_SOFTWARE) (by decide) hcause
  have htimer := hhighest (IntBit.STIP, Interrupt.SUPERVISOR_TIMER)
    (by decide) (by decide +kernel)
  revert htimer
  decide +kernel

end Cpu

end Nanoemu
