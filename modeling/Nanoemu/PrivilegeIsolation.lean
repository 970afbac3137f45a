import Nanoemu.PreciseException

/-!
# Isolation of the privilege modes

Below machine mode no step reaches the machine's own registers, and the
privilege rises only by a trap.
-/

namespace Nanoemu

open CheckedProgram BitFields

namespace CsrFile

/-- A number whose lowest privilege is machine mode. -/
def MachineLevel (addr : BitVec 12) : Prop :=
  (addr >>> 8) &&& 0x3 = 0x3

instance (addr : BitVec 12) : Decidable (MachineLevel addr) :=
  inferInstanceAs (Decidable (_ = _))

theorem machineLevel_of_isPmp {addr : BitVec 12} (h : isPmp addr = true) :
    MachineLevel addr := by
  simp only [isPmp, Bool.or_eq_true, Bool.and_eq_true, decide_eq_true_eq,
    BitVec.le_def] at h
  change (0x3A0 ≤ addr.toNat ∧ addr.toNat ≤ 0x3AF) ∨
    (0x3B0 ≤ addr.toNat ∧ addr.toNat ≤ 0x3EF) at h
  apply BitVec.eq_of_toNat_eq
  change (addr >>> 8).toNat &&& (2 ^ 2 - 1) = 3
  rw [Nat.and_two_pow_sub_one_eq_mod, BitVec.toNat_ushiftRight,
    Nat.shiftRight_eq_div_pow]
  omega

theorem not_machineLevel_of_accessible {addr : BitVec 12} {mode : Priv}
    {writes : Bool} (h : accessible addr mode writes = true)
    (hmode : mode ≠ .machine) : ¬ MachineLevel addr := by
  intro hlevel
  rw [MachineLevel] at hlevel
  rw [accessible, hlevel] at h
  revert h
  cases mode with
  | machine => exact absurd rfl hmode
  | user => exact fun h => nomatch h
  | supervisor => exact fun h => nomatch h

/-- The machine registers that supervisor code shares through its views and
its counters. -/
def sharedCsrs : List (BitVec 12) :=
  [Csr.MSTATUS, Csr.MIE, Csr.MIP, Csr.MCYCLE, Csr.MINSTRET]

/-- The fields of `mstatus` that belong to machine mode. -/
def machineStatus : BitVec 64 :=
  Mstatus.MIE ||| Mstatus.MPIE ||| Mstatus.MPP ||| Mstatus.TVM |||
    Mstatus.TW ||| Mstatus.TSR

/-- The machine's registers are as they were, and MPRV is not raised. -/
structure Guarded (f f' : CsrFile) : Prop where
  xlen : f'.xlen = f.xlen
  regs : ∀ addr, MachineLevel addr → addr ∉ sharedCsrs →
    f'.regs addr = f.regs addr
  mie : Agree (~~~IntBit.S_VISIBLE) (f'.regs Csr.MIE) (f.regs Csr.MIE)
  mstatus : Agree machineStatus (f'.regs Csr.MSTATUS) (f.regs Csr.MSTATUS)
  mprv : BitFields.Disjoint (f.regs Csr.MSTATUS) Mstatus.MPRV →
    BitFields.Disjoint (f'.regs Csr.MSTATUS) Mstatus.MPRV

theorem Guarded.refl (f : CsrFile) : Guarded f f :=
  ⟨rfl, fun _ _ _ => rfl, Agree.refl _ _, Agree.refl _ _, id⟩

theorem Guarded.trans {f f' f'' : CsrFile} (hfirst : Guarded f f')
    (hsecond : Guarded f' f'') : Guarded f f'' :=
  ⟨hsecond.xlen.trans hfirst.xlen,
    fun addr hlevel hshared => (hsecond.regs addr hlevel hshared).trans
      (hfirst.regs addr hlevel hshared),
    hsecond.mie.trans hfirst.mie, hsecond.mstatus.trans hfirst.mstatus,
    fun h => hsecond.mprv (hfirst.mprv h)⟩

theorem Guarded.force {f : CsrFile} {addr : BitVec 12} {value : BitVec 64}
    (haddr : ¬ MachineLevel addr ∨ addr ∈ sharedCsrs)
    (hstatus : addr ≠ Csr.MSTATUS) (hmie : addr ≠ Csr.MIE) :
    Guarded f (f.force addr value) := by
  have hkept : (f.force addr value).regs Csr.MSTATUS = f.regs Csr.MSTATUS :=
    force_regs_other _ _ hstatus.symm
  refine ⟨rfl, fun other hlevel hshared => force_regs_other _ _ ?_, ?_, ?_, ?_⟩
  · rintro rfl
    exact haddr.elim (fun h => h hlevel) hshared
  · rw [force_regs_other _ _ hmie.symm]
    exact Agree.refl _ _
  · rw [hkept]
    exact Agree.refl _ _
  · rw [hkept]
    exact id

theorem Guarded.force_mie {f : CsrFile} {value : BitVec 64}
    (hvalue : Agree (~~~IntBit.S_VISIBLE) value (f.regs Csr.MIE)) :
    Guarded f (f.force Csr.MIE value) := by
  refine ⟨rfl, fun other _ hshared => force_regs_other _ _ ?_, ?_, ?_, ?_⟩
  · rintro rfl
    exact hshared (by decide)
  · rw [force_regs_same]
    exact hvalue
  · rw [force_regs_other _ _ (by decide)]
    exact Agree.refl _ _
  · rw [force_regs_other _ _ (by decide)]
    exact id

theorem Guarded.force_mstatus {f : CsrFile} {value : BitVec 64}
    (hvalue : Agree machineStatus value (f.regs Csr.MSTATUS))
    (hmprv : BitFields.Disjoint (f.regs Csr.MSTATUS) Mstatus.MPRV →
      BitFields.Disjoint value Mstatus.MPRV) :
    Guarded f (f.force Csr.MSTATUS value) := by
  refine ⟨rfl, fun other _ hshared => force_regs_other _ _ ?_, ?_, ?_, ?_⟩
  · rintro rfl
    exact hshared (by decide)
  · rw [force_regs_other _ _ (by decide)]
    exact Agree.refl _ _
  · rw [force_regs_same]
    exact hvalue
  · rw [force_regs_same]
    exact hmprv

theorem mprv_clear {a b : BitVec 64} (h : Agree Mstatus.MPRV a b)
    (hb : BitFields.Disjoint b Mstatus.MPRV) :
    BitFields.Disjoint a Mstatus.MPRV :=
  Eq.trans h hb

theorem FpTouched.guarded {f f' : CsrFile} (h : FpTouched f f') :
    Guarded f f' := by
  have hfield : ∀ field, Within field notFs →
      Agree field (f'.regs Csr.MSTATUS) (f.regs Csr.MSTATUS) :=
    fun field hwithin => h.status.mono hwithin
  refine ⟨h.xlen, fun addr hlevel hshared => h.others addr ?_ ?_, ?_,
    hfield _ (by decide), mprv_clear (hfield _ (by decide))⟩
  · rintro rfl
    exact hshared (by decide)
  · rintro rfl
    exact absurd hlevel (by decide)
  · rw [h.others _ (by decide) (by decide)]
    exact Agree.refl _ _

/-- Below machine mode a CSR write is guarded: `sstatus` and `sie` reach the
supervisor's part of `mstatus` and `mie`, and nothing else is shared but the
pending bits and the counters. -/
theorem write_guarded {addr : BitVec 12} (haddr : ¬ MachineLevel addr)
    (f : CsrFile) (value : BitVec 64) : Guarded f (f.write addr value) := by
  have hnot : ∀ machine, MachineLevel machine → addr ≠ machine := by
    rintro machine hlevel rfl
    exact haddr hlevel
  by_cases h₁ : addr = Csr.FCSR ∨ addr = Csr.FFLAGS ∨ addr = Csr.FRM
  · rcases h₁ with rfl | rfl | rfl <;>
      exact Guarded.force (Or.inl (by decide : ¬ MachineLevel Csr.FCSR))
        (by decide) (by decide)
  by_cases h₂ : addr = Csr.SSTATUS
  · subst h₂
    exact Guarded.force_mstatus (Agree.merge (by decide))
      (mprv_clear (Agree.merge (by decide)))
  by_cases h₃ : addr = Csr.SIE
  · subst h₃
    exact Guarded.force_mie (Agree.merge (by decide))
  by_cases h₄ : addr = Csr.SIP
  · subst h₄
    exact Guarded.force (Or.inr (by decide : Csr.MIP ∈ sharedCsrs))
      (by decide) (by decide)
  by_cases h₅ : addr = Csr.SEPC
  · subst h₅
    exact Guarded.force (Or.inl haddr) (by decide) (by decide)
  by_cases h₆ : addr = Csr.STVEC
  · subst h₆
    exact Guarded.force (Or.inl haddr) (by decide) (by decide)
  by_cases h₇ : addr = Csr.SATP
  · subst h₇
    change Guarded f (if satpSupported f.xlen value then
      f.force Csr.SATP value else f)
    split
    · exact Guarded.force (Or.inl haddr) (by decide) (by decide)
    · exact Guarded.refl f
  by_cases h₈ : addr = Csr.CYCLE
  · subst h₈
    exact Guarded.force (Or.inr (by decide : Csr.MCYCLE ∈ sharedCsrs))
      (by decide) (by decide)
  by_cases h₉ : addr = Csr.INSTRET
  · subst h₉
    exact Guarded.force (Or.inr (by decide : Csr.MINSTRET ∈ sharedCsrs))
      (by decide) (by decide)
  push Not at h₁
  simp only [write, h₁, h₂, h₃, h₄, h₅, h₆, h₇, h₈, h₉,
    hnot Csr.MSTATUS (by decide), hnot Csr.MIE (by decide),
    hnot Csr.MIP (by decide), hnot Csr.MEPC (by decide),
    hnot Csr.MTVEC (by decide), hnot Csr.MISA (by decide),
    hnot Csr.MCYCLEH (by decide), hnot Csr.MINSTRETH (by decide),
    hnot Csr.MSTATUSH (by decide), or_self, if_false]
  exact Guarded.force (Or.inl haddr) (hnot _ (by decide)) (hnot _ (by decide))

end CsrFile

namespace Cpu

theorem Ticked.guarded {c c' : Cpu} (h : Ticked c c') :
    CsrFile.Guarded c.csrs c'.csrs := by
  have hstatus := h.csrs Csr.MSTATUS (by decide)
  refine ⟨h.xlen, fun addr hlevel hshared => h.csrs addr ?_, ?_, ?_, ?_⟩
  · simp only [tickedCsrs, List.mem_cons, List.not_mem_nil, or_false, not_or]
    refine ⟨?_, ?_, ?_⟩ <;> rintro rfl
    · exact hshared (by decide)
    · exact absurd hlevel (by decide)
    · exact hshared (by decide)
  · rw [h.csrs _ (by decide)]
    exact Agree.refl _ _
  · rw [hstatus]
    exact Agree.refl _ _
  · rw [hstatus]
    exact id

theorem Answered.guarded {c c' : Cpu} (h : Answered c c') :
    CsrFile.Guarded c.csrs c'.csrs := by
  have hstatus := h.csrs Csr.MSTATUS (by decide)
  refine ⟨h.xlen, fun addr _ hshared => h.csrs addr ?_, ?_, ?_, ?_⟩
  · rintro rfl
    exact hshared (by decide)
  · rw [h.csrs _ (by decide)]
    exact Agree.refl _ _
  · rw [hstatus]
    exact Agree.refl _ _
  · rw [hstatus]
    exact id

theorem retire_guarded (c : Cpu) : CsrFile.Guarded c.csrs c.retire.csrs := by
  rw [retire]
  split
  · exact CsrFile.Guarded.refl _
  · exact CsrFile.Guarded.force
      (Or.inr (by decide : Csr.MINSTRET ∈ CsrFile.sharedCsrs)) (by decide)
      (by decide)

theorem statusAfterReturn_mprv {status : BitVec 64} {fromMachine : Bool}
    (htarget : returnTarget status fromMachine ≠ .machine) :
    BitFields.Disjoint (statusAfterReturn status fromMachine)
      Mstatus.MPRV := by
  rw [statusAfterReturn, if_pos htarget]
  change _ &&& ~~~Mstatus.MPRV &&& Mstatus.MPRV = 0
  rw [BitVec.and_assoc, show ~~~Mstatus.MPRV &&& Mstatus.MPRV = 0#64 from rfl,
    BitVec.and_zero]
  rfl

theorem returnTarget_supervisor (status : BitVec 64) :
    returnTarget status false ≠ .machine := by
  rw [returnTarget, if_neg Bool.false_ne_true]
  split <;> exact fun h => nomatch h

theorem sret_guarded (c : Cpu) :
    CsrFile.Guarded c.csrs (c.trapReturn false).csrs := by
  have hfield : Agree CsrFile.machineStatus
      (statusAfterReturn (c.csrs.read Csr.MSTATUS) false)
      (c.csrs.read Csr.MSTATUS) := by
    rw [statusAfterReturn, if_pos (returnTarget_supervisor _), if_neg Bool.false_ne_true,
      if_neg Bool.false_ne_true, if_neg Bool.false_ne_true]
    refine (Agree.and_not (by decide)).trans ?_
    refine (Agree.or_right (by decide)).trans ?_
    refine (Agree.ite_or (by decide)).trans ?_
    exact Agree.and_not (by decide)
  apply CsrFile.Guarded.force_mstatus
  · exact hfield.trans
      (CsrFile.read_mstatus_agree (by decide) (by decide) c.csrs)
  · exact fun _ => statusAfterReturn_mprv (returnTarget_supervisor _)

theorem trapCsrs_guarded (c : Cpu) (word tval epc : BitVec 64) :
    CsrFile.Guarded c.csrs (c.trapCsrs .supervisor word tval epc) := by
  have hepc : CsrFile.Guarded c.csrs (c.csrs.force Csr.SEPC epc) :=
    CsrFile.Guarded.force (Or.inl (by decide)) (by decide) (by decide)
  have hcause : CsrFile.Guarded c.csrs
      ((c.csrs.force Csr.SEPC epc).force Csr.SCAUSE word) :=
    hepc.trans
      (CsrFile.Guarded.force (Or.inl (by decide)) (by decide) (by decide))
  have htval : CsrFile.Guarded c.csrs
      (((c.csrs.force Csr.SEPC epc).force Csr.SCAUSE word).force Csr.STVAL
        tval) :=
    hcause.trans
      (CsrFile.Guarded.force (Or.inl (by decide)) (by decide) (by decide))
  have hstatus : ∀ field, BitFields.Disjoint field (trapFields .supervisor) →
      BitFields.Disjoint field Mstatus.SD → Within field 0xffffffff →
      Agree field (trapStatus .supervisor (c.csrs.read Csr.MSTATUS) c.privMode)
        ((((c.csrs.force Csr.SEPC epc).force Csr.SCAUSE word).force Csr.STVAL
          tval).regs Csr.MSTATUS) := by
    intro field htrap hsd hlow
    rw [CsrFile.force_regs_other _ _ (by decide),
      CsrFile.force_regs_other _ _ (by decide),
      CsrFile.force_regs_other _ _ (by decide)]
    exact (trapStatus_agree htrap _ _).trans
      (CsrFile.read_mstatus_agree hsd hlow c.csrs)
  refine htval.trans (CsrFile.Guarded.force_mstatus ?_ ?_)
  · exact hstatus _ (by decide) (by decide) (by decide)
  · exact CsrFile.mprv_clear
      (hstatus _ (by decide) (by decide) (by decide))

theorem accessible_of_csrPermitted {c : Cpu} {addr : BitVec 12} {writes : Bool}
    (h : c.csrPermitted addr writes = true) :
    CsrFile.accessible addr c.privMode writes = true := by
  simp only [csrPermitted, Bool.and_eq_true] at h
  exact h.1.1.1.2

theorem writeCsr_privMode (c : Cpu) (addr : BitVec 12) (value : BitVec 64) :
    (c.writeCsr addr value).privMode = c.privMode := by
  rw [writeCsr]
  dsimp only
  split <;> split <;> rfl

theorem writeCsr_guarded (c : Cpu) {addr : BitVec 12}
    (haddr : ¬ CsrFile.MachineLevel addr) (value : BitVec 64) :
    CsrFile.Guarded c.csrs (c.writeCsr addr value).csrs := by
  have hwritten := CsrFile.write_guarded haddr c.csrs (trunc value c.xbits)
  rw [writeCsr]
  dsimp only
  split
  · refine hwritten.trans ?_
    split
    · exact (dirtyFp_touched { c with
        csrs := c.csrs.write addr (trunc value c.xbits)
        wroteInstret := true }).guarded
    · exact (dirtyFp_touched { c with
        csrs := c.csrs.write addr (trunc value c.xbits) }).guarded
  · split <;> exact hwritten

theorem Control.guarded {c c' : Cpu} (h : Control c c')
    (hbelow : c.privMode ≠ .machine) : CsrFile.Guarded c.csrs c'.csrs := by
  cases h with
  | keep => exact CsrFile.Guarded.refl _
  | csr addr value hpermitted =>
      exact writeCsr_guarded c (CsrFile.not_machineLevel_of_accessible
        (accessible_of_csrPermitted hpermitted) hbelow) value
  | sret _ => exact sret_guarded c
  | mret hmachine => exact absurd hmachine hbelow
  | fence _ => exact CsrFile.Guarded.refl _

theorem Floats.privMode {c c' : Cpu} (h : Floats c c') :
    c'.privMode = c.privMode :=
  (congrArg Cpu.privMode h.frame :)

theorem Answered.privMode {c c' : Cpu} (h : Answered c c') :
    c'.privMode = c.privMode :=
  (congrArg Cpu.privMode h.frame :)

theorem retire_privMode (c : Cpu) : c.retire.privMode = c.privMode := by
  rw [retire]
  split <;> rfl

theorem Stepped.guarded {c c' : Cpu} {outcome : Except Exception Unit}
    (h : Stepped c outcome c') (hbelow : c.privMode ≠ .machine)
    (hbelow' : c'.privMode ≠ .machine) :
    CsrFile.Guarded c.csrs c'.csrs := by
  have hticked := (ticked_ticked c).guarded
  have htrapped : ∀ {c₁ cause tval epc isInterrupt},
      CsrFile.Guarded c.csrs c₁.csrs →
      TrapTaken c₁ cause tval epc isInterrupt c' →
      CsrFile.Guarded c.csrs c'.csrs := by
    intro c₁ cause tval epc isInterrupt hbefore htrap
    obtain ⟨entered, pc, ⟨rfl, -⟩ | ⟨rfl, -⟩, rfl⟩ := htrap.spec
    · exact hbefore.trans (trapCsrs_guarded c₁ _ _ _)
    · exact absurd rfl hbelow'
  cases h with
  | interrupt _ htrap => exact htrapped hticked htrap
  | @retired c₁ c₂ _ haccessed hcommitted =>
      obtain ⟨-, -, -, hmode, hcsrs⟩ := haccessed.registers
      obtain ⟨c₃, hcontrol, hfloats⟩ := hcommitted
      have hguarded := hcontrol.guarded (hmode ▸ hbelow)
      rw [hcsrs] at hguarded
      exact (hticked.trans hguarded).trans
        (hfloats.csrs.guarded.trans (retire_guarded c₂))
  | answered _ haccessed _ _ hanswered =>
      have hguarded := hanswered.guarded
      rw [haccessed.registers.2.2.2.2] at hguarded
      exact hticked.trans hguarded
  | exception _ haccessed _ htrap =>
      refine htrapped ?_ htrap
      rw [haccessed.registers.2.2.2.2]
      exact hticked

theorem Control.privMode_le {c c' : Cpu} (h : Control c c') :
    c'.privMode ≤ c.privMode := by
  cases h with
  | keep => exact Nat.le_refl _
  | csr addr value _ =>
      rw [writeCsr_privMode]
      exact Nat.le_refl _
  | sret hgate =>
      have hnotUser : ¬ c.privMode < .supervisor := by
        intro hlt
        rw [supervisorTraps, decide_eq_true hlt, Bool.true_or] at hgate
        cases hgate
      have htarget : (c.trapReturn false).privMode ≤ .supervisor := by
        change returnTarget (c.csrs.read Csr.MSTATUS) false ≤ .supervisor
        rw [returnTarget, if_neg Bool.false_ne_true]
        split <;> decide
      exact Nat.le_trans htarget (Nat.le_of_not_lt hnotUser)
  | mret hmachine =>
      rw [hmachine]
      cases (c.trapReturn true).privMode <;> decide
  | fence _ => exact Nat.le_refl _

/-- The trap a step takes, if any: its cause and whether it is an
interrupt. -/
def trapOf (c : Cpu) (outcome : Except Exception Unit) : Option (ℕ × Bool) :=
  match c.ticked.pendingInterrupt, outcome with
  | some cause, _ => some (cause, true)
  | none, .error e => some (e.cause c.privMode, false)
  | none, .ok () => none

theorem trapOf_interrupt {c : Cpu} {cause : ℕ}
    (hpending : c.ticked.pendingInterrupt = some cause)
    (outcome : Except Exception Unit) :
    c.trapOf outcome = some (cause, true) := by
  simp only [trapOf, hpending]

theorem trapOf_ok {c : Cpu} (hpending : c.ticked.pendingInterrupt = none) :
    c.trapOf (.ok ()) = none := by
  simp only [trapOf, hpending]

theorem trapOf_error {c : Cpu} (hpending : c.ticked.pendingInterrupt = none)
    (e : Exception) :
    c.trapOf (.error e) = some (e.cause c.privMode, false) := by
  simp only [trapOf, hpending]

def causeDelegated (c : Cpu) (cause : ℕ) (isInterrupt : Bool) : Bool :=
  ((if isInterrupt then c.csrs.read Csr.MIDELEG
    else c.csrs.read Csr.MEDELEG) >>> cause) &&& 1 == 1

theorem delegated_of_ticked {c c₁ : Cpu} (hcsrs : c₁.csrs = c.ticked.csrs)
    (hmode : c₁.privMode = c.privMode) (cause : ℕ) (isInterrupt : Bool) :
    c₁.Delegated cause isInterrupt =
      (decide (c.privMode ≤ .supervisor) &&
        c.causeDelegated cause isInterrupt) := by
  have hticked := ticked_ticked c
  have hread : ∀ addr, CsrFile.source addr ∉ tickedCsrs →
      c₁.csrs.read addr = c.csrs.read addr := by
    intro addr haddr
    rw [hcsrs]
    exact hticked.read haddr
  rw [Delegated, causeDelegated, hmode, hread _ (by decide),
    hread _ (by decide)]

/-- What a trap does to the privilege. -/
structure RaisesTo (c : Cpu) (cause : ℕ) (isInterrupt : Bool) (c' : Cpu) :
    Prop where
  le : c.privMode ≤ c'.privMode
  supervisor : c'.privMode = .supervisor ↔
    c.causeDelegated cause isInterrupt = true ∧ c.privMode ≠ .machine

theorem TrapTaken.raisesTo {c c₁ c' : Cpu} {cause : ℕ}
    {tval epc : BitVec 64} {isInterrupt : Bool}
    (h : TrapTaken c₁ cause tval epc isInterrupt c')
    (hcsrs : c₁.csrs = c.ticked.csrs) (hmode : c₁.privMode = c.privMode) :
    RaisesTo c cause isInterrupt c' := by
  have hdelegated := delegated_of_ticked hcsrs hmode cause isInterrupt
  have hbelow : c.privMode ≤ .supervisor ↔ c.privMode ≠ .machine := by
    cases c.privMode <;> decide
  obtain ⟨entered, pc, ⟨rfl, htaken⟩ | ⟨rfl, htaken⟩, rfl⟩ := h.spec
  · rw [hdelegated, Bool.and_eq_true, decide_eq_true_eq, hbelow] at htaken
    exact ⟨hbelow.mpr htaken.1, iff_of_true rfl htaken.symm⟩
  · rw [hdelegated, Bool.and_eq_false_iff, decide_eq_false_iff_not, hbelow,
      not_not] at htaken
    refine ⟨?_, iff_of_false (fun h => nomatch h) ?_⟩
    · change c.privMode ≤ .machine
      cases c.privMode <;> decide
    · rintro ⟨hcause, hmachine⟩
      rcases htaken with htaken | htaken
      · exact hmachine htaken
      · rw [hcause] at htaken
        cases htaken

theorem Stepped.privilege {c c' : Cpu} {outcome : Except Exception Unit}
    (h : Stepped c outcome c') :
    (c.trapOf outcome = none → c'.privMode ≤ c.privMode) ∧
      ∀ cause isInterrupt, c.trapOf outcome = some (cause, isInterrupt) →
        RaisesTo c cause isInterrupt c' := by
  cases h with
  | interrupt hpending htrap =>
      rw [trapOf_interrupt hpending]
      refine ⟨fun h => (nomatch h), fun _ _ h => ?_⟩
      cases h
      exact htrap.raisesTo rfl (ticked_ticked c).privMode
  | @retired c₁ c₂ hpending haccessed hcommitted =>
      rw [trapOf_ok hpending]
      refine ⟨fun _ => ?_, fun _ _ h => nomatch h⟩
      obtain ⟨c₃, hcontrol, hfloats⟩ := hcommitted
      rw [retire_privMode, hfloats.privMode,
        ← haccessed.registers.2.2.2.1]
      exact hcontrol.privMode_le
  | answered hpending haccessed _ _ hanswered =>
      rw [trapOf_ok hpending]
      refine ⟨fun _ => ?_, fun _ _ h => nomatch h⟩
      rw [hanswered.privMode, haccessed.registers.2.2.2.1]
      exact Nat.le_refl _
  | exception hpending haccessed _ htrap =>
      rw [trapOf_error hpending]
      refine ⟨fun h => (nomatch h), fun _ _ h => ?_⟩
      cases h
      rw [← haccessed.registers.2.2.2.1]
      exact htrap.raisesTo haccessed.registers.2.2.2.2
        haccessed.registers.2.2.2.1

/-! ## MPRV below machine mode -/

/-- Below machine mode loads and stores are made at the current privilege. -/
def Confined (c : Cpu) : Prop :=
  c.privMode ≠ .machine →
    BitFields.Disjoint (c.csrs.regs Csr.MSTATUS) Mstatus.MPRV

/-- The only way out of machine mode is a return, which clears MPRV. -/
theorem Control.confined {c c' : Cpu} (h : Control c c')
    (hmachine : c.privMode = .machine) : Confined c' := by
  intro hbelow
  cases h with
  | keep => exact absurd hmachine hbelow
  | csr addr value _ =>
      rw [writeCsr_privMode] at hbelow
      exact absurd hmachine hbelow
  | sret _ =>
      exact (CsrFile.force_regs_same _ _ _).symm ▸ statusAfterReturn_mprv hbelow
  | mret _ =>
      exact (CsrFile.force_regs_same _ _ _).symm ▸ statusAfterReturn_mprv hbelow
  | fence _ => exact absurd hmachine hbelow

theorem Stepped.confined {c c' : Cpu} {outcome : Except Exception Unit}
    (h : Stepped c outcome c') (hconfined : Confined c) : Confined c' := by
  intro hbelow'
  by_cases hmachine : c.privMode = .machine
  · have hstays : ∀ {c₁ cause tval epc isInterrupt},
        c₁.privMode = c.privMode → c₁.csrs = c.ticked.csrs →
        TrapTaken c₁ cause tval epc isInterrupt c' → False := by
      intro c₁ cause tval epc isInterrupt hmode hcsrs htrap
      have hle := (htrap.raisesTo hcsrs hmode).le
      rw [hmachine] at hle
      revert hbelow' hle
      cases c'.privMode <;> decide
    cases h with
    | interrupt _ htrap =>
        exact (hstays (ticked_ticked c).privMode rfl htrap).elim
    | @retired c₁ c₂ _ haccessed hcommitted =>
        obtain ⟨c₃, hcontrol, hfloats⟩ := hcommitted
        have hconfined₃ :=
          hcontrol.confined (haccessed.registers.2.2.2.1.trans hmachine)
        rw [retire_privMode, hfloats.privMode] at hbelow'
        exact (retire_guarded c₂).mprv
          (hfloats.csrs.guarded.mprv (hconfined₃ hbelow'))
    | answered _ haccessed _ hmode hanswered =>
        rw [haccessed.registers.2.2.2.1, hmachine] at hmode
        cases hmode
    | exception _ haccessed _ htrap =>
        exact (hstays haccessed.registers.2.2.2.1
          haccessed.registers.2.2.2.2 htrap).elim
  · exact (h.guarded hmachine hbelow').mprv (hconfined hmachine)

theorem Started.confined {profile : Profile} {c : Cpu}
    (h : Started profile c) : Confined c := by
  rcases h with hloaded | ⟨entry, hartid, dtb, hloaded⟩
  · exact fun hbelow => absurd hloaded.fresh.privMode hbelow
  · intro _
    rw [bootSupervisor_regs_other _ _ _ _ (by decide) (by decide) (by decide)
      (by decide)]
    exact hloaded.fresh.status_disjoint (by decide)

theorem Next.confined {profile : Profile} {c c' : Cpu}
    (h : Next profile c c') (hconfined : Confined c) : Confined c' := by
  cases h with
  | step hstep => exact (step_stepped hstep).confined hconfined
  | input bytes => exact hconfined

theorem Reachable.confined {profile : Profile} {c : Cpu}
    (h : Reachable profile (Started profile) c) : Confined c :=
  h.invariant (fun _ hstart => hstart.confined)
    (fun _ _ hconfined hnext => hnext.confined hconfined)

/-! ## Isolation -/

/-- The registers of the machine's own that a lower mode cannot move. -/
def machineCsrs : List (BitVec 12) :=
  [Csr.MEDELEG, Csr.MIDELEG, Csr.MTVEC, Csr.MSCRATCH, Csr.MEPC, Csr.MCAUSE,
    Csr.MTVAL, Csr.MCOUNTEREN]

theorem machineCsrs_level {addr : BitVec 12} (haddr : addr ∈ machineCsrs) :
    CsrFile.MachineLevel addr ∧ addr ∉ CsrFile.sharedCsrs := by
  have hall : machineCsrs.all (fun addr =>
      decide (CsrFile.MachineLevel addr) &&
        !CsrFile.sharedCsrs.contains addr) = true := by decide
  simpa using List.all_eq_true.mp hall addr haddr

/-- The isolation of the modes across a step from `c` to `c'`. -/
structure Isolated (c : Cpu) (outcome : Except Exception Unit) (c' : Cpu) :
    Prop where
  keeps : c.trapOf outcome = none → c'.privMode ≤ c.privMode
  raises : ∀ cause isInterrupt,
    c.trapOf outcome = some (cause, isInterrupt) →
      RaisesTo c cause isInterrupt c'
  mprv : c.privMode ≠ .machine → c.csrs.read Csr.MSTATUS &&& Mstatus.MPRV = 0
  csrs : c.privMode ≠ .machine → c'.privMode ≠ .machine →
    ∀ addr, addr ∈ machineCsrs ∨ CsrFile.isPmp addr = true →
      c'.csrs.regs addr = c.csrs.regs addr
  mie : c.privMode ≠ .machine → c'.privMode ≠ .machine →
    Agree (~~~IntBit.S_VISIBLE) (c'.csrs.regs Csr.MIE) (c.csrs.regs Csr.MIE)
  mstatus : c.privMode ≠ .machine → c'.privMode ≠ .machine →
    Agree (Mstatus.MIE ||| Mstatus.MPIE ||| Mstatus.MPP ||| Mstatus.TVM |||
        Mstatus.TW ||| Mstatus.TSR)
      (c'.csrs.regs Csr.MSTATUS) (c.csrs.regs Csr.MSTATUS)

/-- Every step of every run isolates the modes. -/
theorem step_isolated {profile : Profile} {c c' : Cpu}
    {outcome : Except Exception Unit}
    (hreach : Reachable profile (Started profile) c)
    (hstep : step profile c = some (outcome, c')) :
    Isolated c outcome c' := by
  have hstepped := step_stepped hstep
  refine ⟨hstepped.privilege.1, hstepped.privilege.2, ?_, ?_, ?_, ?_⟩
  · intro hbelow
    exact CsrFile.mprv_clear
      (CsrFile.read_mstatus_agree (by decide) (by decide) c.csrs)
      (hreach.confined hbelow)
  · intro hbelow hbelow' addr haddr
    apply (hstepped.guarded hbelow hbelow').regs
    · exact haddr.elim (fun h => (machineCsrs_level h).1)
        CsrFile.machineLevel_of_isPmp
    · rcases haddr with haddr | haddr
      · exact (machineCsrs_level haddr).2
      · rintro hshared
        have hnone : ∀ addr ∈ CsrFile.sharedCsrs,
            CsrFile.isPmp addr = false := by
          intro addr haddr
          have hall : CsrFile.sharedCsrs.all
              (fun addr => !CsrFile.isPmp addr) = true := by decide
          simpa using List.all_eq_true.mp hall addr haddr
        rw [hnone addr hshared] at haddr
        cases haddr
  · exact fun hbelow hbelow' => (hstepped.guarded hbelow hbelow').mie
  · exact fun hbelow hbelow' => (hstepped.guarded hbelow hbelow').mstatus

/-- A kernel's first step over zero bytes traps into the kernel. -/
theorem step_isolated_at_boot :
    ∃ c', step .debug bootedHart =
        some (.error (.illegalInstruction 0), c') ∧
      Isolated bootedHart (.error (.illegalInstruction 0)) c' := by
  have hfails : (step .debug bootedHart).map Prod.fst =
      some (.error (.illegalInstruction 0)) := by
    decide +kernel
  obtain ⟨⟨_, c'⟩, hstep, rfl⟩ := Option.map_eq_some_iff.mp hfails
  have hreach : Reachable .debug (Started .debug) bootedHart :=
    ⟨bootedHart, Or.inr (bootedHart_booted .debug), .refl trivial⟩
  exact ⟨c', hstep, step_isolated hreach hstep⟩

end Cpu

end Nanoemu
