import Nanoemu.EnableStack
import Nanoemu.StepCourse

/-!
# Into a trap and out again

Both levels of trap keep a stack of one in `mstatus`.  A return executed right
where a trap has arrived undoes it: the mode, the place and the enable are what
they were, and only what a return leaves behind by design is different.
-/

namespace Nanoemu

open CheckedProgram BitFields

namespace Cpu

def machineStack : EnableStack 64 where
  enable := Mstatus.MIE
  previous := Mstatus.MPIE
  mode := Mstatus.MPP
  enable_single word := and_bit word 3
  previous_ne_zero := by decide
  enable_previous := by decide
  enable_mode := by decide
  previous_mode := by decide

def supervisorStack : EnableStack 64 where
  enable := Mstatus.SIE
  previous := Mstatus.SPIE
  mode := Mstatus.SPP
  enable_single word := and_bit word 1
  previous_ne_zero := by decide
  enable_previous := by decide
  enable_mode := by decide
  previous_mode := by decide

def trapStack (entered : Priv) : EnableStack 64 :=
  if entered = .supervisor then supervisorStack else machineStack

def savedMode (entered mode : Priv) : BitVec 64 :=
  if entered = .supervisor then
    if mode = .supervisor then Mstatus.SPP else 0
  else mode.toBits <<< Mstatus.MPP_SHIFT

theorem savedMode_within (entered mode : Priv) :
    Within (savedMode entered mode) (trapStack entered).mode := by
  cases entered <;> cases mode <;> decide

theorem trapStatus_eq_push (entered : Priv) (status : BitVec 64)
    (mode : Priv) :
    trapStatus entered status mode =
      (trapStack entered).push status (savedMode entered mode) := by
  cases entered with
  | supervisor =>
      cases mode with
      | supervisor => rfl
      | machine => exact BitVec.or_zero.symm
      | user => exact BitVec.or_zero.symm
  | machine => rfl
  | user => rfl

def returnInst (entered : Priv) : BitVec 32 :=
  if entered = .supervisor then 0x10200073 else 0x30200073

theorem statusAfterReturn_eq_pop (entered : Priv) (status : BitVec 64) :
    statusAfterReturn status (decide (entered ≠ .supervisor)) =
      if returnTarget status (decide (entered ≠ .supervisor)) ≠ .machine then
        (trapStack entered).pop status &&& ~~~Mstatus.MPRV
      else (trapStack entered).pop status := by
  cases entered <;> rfl

theorem returnTarget_push {entered mode : Priv}
    (hentered : entered = .machine ∨ entered = .supervisor ∧ mode ≤ .supervisor)
    (status : BitVec 64) :
    returnTarget ((trapStack entered).push status (savedMode entered mode))
      (decide (entered ≠ .supervisor)) = mode := by
  have hsaved := (trapStack entered).push_mode (savedMode_within entered mode)
    status
  rcases hentered with rfl | ⟨rfl, hmode⟩
  · have hfield : (trapStack .machine).push status (savedMode .machine mode) &&&
        Mstatus.MPP = savedMode .machine mode := hsaved
    rw [returnTarget, if_pos (by decide), hfield]
    cases mode <;> decide
  · have hfield : (trapStack .supervisor).push status
        (savedMode .supervisor mode) &&& Mstatus.SPP =
          savedMode .supervisor mode := hsaved
    rw [returnTarget, if_neg (by decide), hfield]
    revert hmode
    cases mode <;> decide

/-- The bits that reading `mstatus` fills in or cuts off. -/
def derivedBits : BitVec 64 := CsrFile.extension ||| ~~~0xffffffff

theorem read_mstatus_word {f f' : CsrFile} {word : BitVec 64}
    (hxlen : f'.xlen = f.xlen) (hf' : f'.regs Csr.MSTATUS = word)
    (hkept : Agree derivedBits word (f.read Csr.MSTATUS)) :
    f'.read Csr.MSTATUS = word := by
  rw [CsrFile.read_mstatus] at hkept ⊢
  rw [hxlen]
  split
  · next hnarrow =>
      rw [if_pos hnarrow] at hkept
      have hhigh : word &&& ~~~0xffffffff = 0 := by
        have hcut : Agree (~~~0xffffffff) word (f.status &&& 0xffffffff) :=
          hkept.mono (by decide)
        rw [Agree, BitVec.and_assoc] at hcut
        exact hcut.trans BitVec.and_zero
      have hlow : word &&& 0xffffffff = word := by
        have hwhole := and_not_eq_self hhigh
        rwa [BitVec.not_not] at hwhole
      have hstatus : f'.status &&& 0xffffffff = f'.regs Csr.MSTATUS &&& 0xffffffff :=
        CsrFile.status_agree (by decide) f'
      rw [hstatus, hf', hlow]
  · next hwide =>
      rw [if_neg hwide] at hkept
      exact CsrFile.status_stored (hkept.mono (by decide)) f' hf'

theorem statusAfterReturn_other {entered : Priv} {field : BitVec 64}
    (hfields : BitFields.Disjoint field
      (trapFields entered ||| Mstatus.MPRV)) (status : BitVec 64) :
    Agree field
      (statusAfterReturn status (decide (entered ≠ .supervisor))) status := by
  have hpop : Agree field ((trapStack entered).pop status) status := by
    apply (trapStack entered).pop_other <;>
      exact hfields.mono (by cases entered <;> decide)
  rw [statusAfterReturn_eq_pop]
  split
  · exact (Agree.and_not (hfields.mono (by cases entered <;> decide))).trans hpop
  · exact hpop

/-- What a return leaves of the status before the trap. -/
structure StatusRestored (entered origin : Priv)
    (before after : BitVec 64) : Prop where
  enable : after &&& (trapStack entered).enable =
    before &&& (trapStack entered).enable
  previous : after &&& (trapStack entered).previous =
    (trapStack entered).previous
  mode : after &&& (trapStack entered).mode = 0
  mprv : after &&& Mstatus.MPRV =
    if origin < .machine then 0 else before &&& Mstatus.MPRV
  others : Agree
    (~~~((trapStack entered).previous ||| (trapStack entered).mode |||
      Mstatus.MPRV)) after before

theorem status_restored {entered origin : Priv}
    (hentered : entered = .machine ∨
      entered = .supervisor ∧ origin ≤ .supervisor)
    (status : BitVec 64) :
    StatusRestored entered origin status
      (statusAfterReturn (trapStatus entered status origin)
        (decide (entered ≠ .supervisor))) := by
  have hsaved := savedMode_within entered origin
  have hpopped : ∀ field, BitFields.Disjoint field (trapStack entered).previous →
      BitFields.Disjoint field (trapStack entered).mode →
      Agree field ((trapStack entered).pop
        ((trapStack entered).push status (savedMode entered origin))) status :=
    fun _ hprevious hmode =>
      (trapStack entered).pop_push hsaved hprevious hmode status
  have hprevious := (trapStack entered).pop_previous
    ((trapStack entered).push status (savedMode entered origin))
  have hmode := (trapStack entered).pop_mode
    ((trapStack entered).push status (savedMode entered origin))
  rw [trapStatus_eq_push, statusAfterReturn_eq_pop,
    returnTarget_push hentered]
  generalize (trapStack entered).pop
    ((trapStack entered).push status (savedMode entered origin)) = popped at *
  by_cases hbelow : origin = .machine
  · rw [if_neg (not_not.mpr hbelow)]
    exact
      { enable := hpopped _ (by cases entered <;> decide)
          (by cases entered <;> decide)
        previous := hprevious
        mode := hmode
        mprv := by
          rw [if_neg (by rw [hbelow]; decide)]
          exact hpopped _ (by cases entered <;> decide)
            (by cases entered <;> decide)
        others := hpopped _ (by cases entered <;> decide)
          (by cases entered <;> decide) }
  · rw [if_pos hbelow]
    have hkept : ∀ field, BitFields.Disjoint field Mstatus.MPRV →
        Agree field (popped &&& ~~~Mstatus.MPRV) popped :=
      fun _ => Agree.and_not
    have hlower : origin < .machine := by
      revert hbelow
      cases origin <;> decide
    exact
      { enable := (hkept _ (by cases entered <;> decide)).trans
          (hpopped _ (by cases entered <;> decide)
            (by cases entered <;> decide))
        previous := Eq.trans (hkept _ (by cases entered <;> decide)) hprevious
        mode := Eq.trans (hkept _ (by cases entered <;> decide)) hmode
        mprv := by
          rw [if_pos hlower, BitVec.and_assoc,
            show ~~~Mstatus.MPRV &&& Mstatus.MPRV = 0#64 by decide]
          exact BitVec.and_zero
        others := (hkept _ (by cases entered <;> decide)).trans
          (hpopped _ (by cases entered <;> decide)
            (by cases entered <;> decide)) }

variable {profile : Profile} {c c' : Cpu}

theorem trapCsrs_read_mstatus (c : Cpu) (entered : Priv)
    (word tval epc : BitVec 64) :
    (c.trapCsrs entered word tval epc).read Csr.MSTATUS =
      trapStatus entered (c.csrs.read Csr.MSTATUS) c.privMode :=
  @read_mstatus_word c.csrs _ _ rfl (CsrFile.force_regs_same _ _ _)
    (trapStatus_agree (by cases entered <;> decide) _ _)

theorem trapReturn_read_mstatus (c : Cpu) (entered : Priv) :
    (c.trapReturn (decide (entered ≠ .supervisor))).csrs.read Csr.MSTATUS =
      statusAfterReturn (c.csrs.read Csr.MSTATUS)
        (decide (entered ≠ .supervisor)) :=
  @read_mstatus_word c.csrs _ _ rfl (CsrFile.force_regs_same _ _ _)
    (statusAfterReturn_other (by cases entered <;> decide) _)

theorem executePriv_sret (hgate : c.supervisorTraps Mstatus.TSR = false) :
    executePriv 0x10200073 profile c =
      some (.ok (), c.trapReturn false) := by
  rw [executePriv, Program.bind_run_ok (Program.read_run _ _ _), id]
  rw [if_neg (by decide), if_neg (by decide), if_pos (by decide), hgate]
  rfl

theorem executePriv_mret (hmode : c.privMode = .machine) :
    executePriv 0x30200073 profile c = some (.ok (), c.trapReturn true) := by
  rw [executePriv, Program.bind_run_ok (Program.read_run _ _ _), id]
  rw [if_neg (by decide), if_neg (by decide), if_neg (by decide),
    if_pos (by decide), hmode]
  rfl

theorem execute_return {entered : Priv} (hmode : c.privMode = entered)
    (hentered : entered ≠ .user)
    (htsr : entered = .supervisor →
      c.csrs.read Csr.MSTATUS &&& Mstatus.TSR = 0)
    (instPc nextPc : BitVec 64) :
    execute (returnInst entered) instPc nextPc profile c =
      some (.ok (), ({ c with pc := nextPc } : Cpu).trapReturn
        (decide (entered ≠ .supervisor))) := by
  have hplace : setPc nextPc profile c =
      some (.ok (), { c with pc := nextPc }) := rfl
  rw [execute, Program.bind_run_ok hplace]
  cases entered with
  | user => exact absurd rfl hentered
  | supervisor =>
      have hgate : c.supervisorTraps Mstatus.TSR = false := by
        rw [supervisorTraps, hmode, htsr rfl]
        rfl
      exact executePriv_sret hgate
  | machine => exact executePriv_mret hmode

theorem read_epc_stored (mode : Priv) {f : CsrFile} {epc : BitVec 64}
    (hepc : f.regs (trapEpc mode) = epc)
    (hfits : epc.toNat < 2 ^ f.xlen.bits) : f.read (trapEpc mode) = epc := by
  have hview : f.view (trapEpc mode) = epc := by
    rw [← hepc]
    cases mode <;> rfl
  rw [CsrFile.read, hview]
  split
  · next hnarrow =>
      rw [hnarrow] at hfits
      apply BitVec.eq_of_toNat_eq
      rw [BitVec.toNat_and]
      change epc.toNat &&& (2 ^ 32 - 1) = epc.toNat
      rw [Nat.and_two_pow_sub_one_eq_mod]
      exact Nat.mod_eq_of_lt hfits
  · rfl

/-- The mode, the place and the status after a trap and its return. -/
structure RoundTrip (c : Cpu) (entered : Priv) (epc : BitVec 64) (c' : Cpu) :
    Prop where
  privMode : c'.privMode = c.privMode
  pc : c'.pc = epc
  status : StatusRestored entered c.privMode (c.csrs.read Csr.MSTATUS)
    (c'.csrs.read Csr.MSTATUS)

theorem takeTrap_return {cause : ℕ} {tval epc : BitVec 64} {isInterrupt : Bool}
    (hfits : epc.toNat < 2 ^ c.csrs.xlen.bits)
    (htrap : takeTrap cause tval epc isInterrupt profile c =
      some (.ok (), c'))
    (htsr : c'.privMode = .supervisor →
      c'.csrs.read Csr.MSTATUS &&& Mstatus.TSR = 0)
    (instPc nextPc : BitVec 64) :
    ∃ c'', execute (returnInst c'.privMode) instPc nextPc profile c' =
        some (.ok (), c'') ∧
      RoundTrip c c'.privMode epc c'' := by
  obtain ⟨entered, word, pc, hentered, -, rfl⟩ :=
    (takeTrap_enters cause tval epc isInterrupt profile c).ok htrap
  have hmode : entered ≠ .user := by
    rcases hentered with rfl | ⟨rfl, -⟩ <;> decide
  refine ⟨_, execute_return rfl hmode htsr instPc nextPc, ?_⟩
  have hstatus := trapCsrs_read_mstatus c entered word tval epc
  refine ⟨?_, ?_, ?_⟩
  · change returnTarget
      ((c.trapCsrs entered word tval epc).read Csr.MSTATUS) _ = c.privMode
    rw [hstatus, trapStatus_eq_push]
    exact returnTarget_push hentered _
  · have hkept : ∀ status, (((c.trapCsrs entered word tval epc).force
        Csr.MSTATUS status).regs (trapEpc entered)) = epc := by
      intro status
      rw [CsrFile.force_regs_other _ _ (by cases entered <;> decide)]
      exact (trapCsrs_regs c entered word tval epc).1
    rcases hentered with rfl | ⟨rfl, -⟩
    · exact read_epc_stored .machine (hkept _) hfits
    · exact read_epc_stored .supervisor (hkept _) hfits
  · rw [trapReturn_read_mstatus]
    change StatusRestored entered c.privMode _ (statusAfterReturn
      ((c.trapCsrs entered word tval epc).read Csr.MSTATUS) _)
    rw [hstatus]
    exact status_restored hentered _

/-! ## The traps of a run -/

/-- A trap out of `c` at its place in the program, at once or in the course of
a step. -/
def TrapsTo (profile : Profile) (c c' : Cpu) : Prop :=
  ∃ x cause tval isInterrupt, (x = c ∨ Reached c x) ∧
    takeTrap cause tval c.pc isInterrupt profile x = some (.ok (), c')

theorem ticked_pc (c : Cpu) : c.ticked.pc = c.pc :=
  (congrArg Cpu.pc (ticked_ticked c).frame :)

theorem Course.trapsTo {outcome : Except Exception Unit}
    (h : Course profile c outcome c')
    (htrapped : (∃ cause, c.ticked.pendingInterrupt = some cause) ∨
      ∃ e, outcome = .error e) : TrapsTo profile c c' := by
  cases h with
  | interrupt _ htrap =>
      rw [ticked_pc] at htrap
      exact ⟨c.ticked, _, _, true, Or.inr (Reached.refl c), htrap⟩
  | exception _ hfail _ htrap =>
      rw [ticked_pc] at htrap
      exact ⟨_, _, _, false, Or.inr (fetchExecute_reached hfail), htrap⟩
  | retired hnone _ _ =>
      rcases htrapped with ⟨cause, hsome⟩ | ⟨e, herror⟩
      · cases hnone.symm.trans hsome
      · cases herror
  | answered hnone _ _ _ =>
      rcases htrapped with ⟨cause, hsome⟩ | ⟨e, herror⟩
      · cases hnone.symm.trans hsome
      · cases herror

theorem Reached.context {x : Cpu} (h : Reached c x) :
    x.privMode = c.privMode ∧
      x.csrs.read Csr.MSTATUS = c.csrs.read Csr.MSTATUS := by
  have hticked := ticked_ticked c
  constructor
  · rw [(congrArg Cpu.privMode h.frame :)]
    exact (congrArg Cpu.privMode hticked.frame :)
  · rw [h.csrs]
    exact hticked.read (by decide)

/-- A trap from any reachable state, and the return executed in the state it
leaves, restore the mode, the place and the enable of the entered level; the
rest of `mstatus` is as before up to what a return leaves by design. -/
theorem trap_round_trip (hreach : Reachable profile (Started profile) c)
    (hpc : c.pc.toNat < 2 ^ c.xbits) (htrap : TrapsTo profile c c')
    (htsr : c'.privMode = .supervisor →
      c'.csrs.read Csr.MSTATUS &&& Mstatus.TSR = 0)
    (instPc nextPc : BitVec 64) :
    ∃ c'', execute (returnInst c'.privMode) instPc nextPc profile c' =
        some (.ok (), c'') ∧
      RoundTrip c c'.privMode c.pc c'' := by
  obtain ⟨x, cause, tval, isInterrupt, hx, htrap⟩ := htrap
  have hwidth : c.csrs.xlen = c.xlen := hreach.width
  have hcontext : x.privMode = c.privMode ∧
      x.csrs.read Csr.MSTATUS = c.csrs.read Csr.MSTATUS ∧
      x.csrs.xlen = c.csrs.xlen := by
    rcases hx with rfl | hreached
    · exact ⟨rfl, rfl, rfl⟩
    · exact ⟨hreached.context.1, hreached.context.2, hreached.sameWidth.csrs⟩
  obtain ⟨hmode, hstatus, hxlen⟩ := hcontext
  have hfits : c.pc.toNat < 2 ^ x.csrs.xlen.bits := by
    rw [hxlen, hwidth]
    exact hpc
  obtain ⟨c'', hreturn, htrip⟩ :=
    takeTrap_return hfits htrap htsr instPc nextPc
  have hrestored := htrip.status
  rw [hmode, hstatus] at hrestored
  exact ⟨c'', hreturn, htrip.privMode.trans hmode, htrip.pc, hrestored⟩

/-- The first trap of the smallest kernel is returned from. -/
theorem trap_round_trip_first_trap :
    ∃ c'', execute (returnInst (stepped .debug bootedHart).privMode) 0 4 .debug
        (stepped .debug bootedHart) = some (.ok (), c'') ∧
      RoundTrip bootedHart (stepped .debug bootedHart).privMode DRAM_BASE
        c'' := by
  have hstep : step .debug bootedHart =
      some (.error (.illegalInstruction 0), stepped .debug bootedHart) :=
    step_eq_stepped (by decide +kernel)
  have hstart : Started .debug bootedHart := Or.inr (bootedHart_booted .debug)
  exact trap_round_trip ⟨bootedHart, hstart, .refl trivial⟩ (by decide)
    ((step_course hstep).trapsTo (Or.inr ⟨_, rfl⟩))
    (fun _ => by decide +kernel) 0 4

end Cpu

end Nanoemu
