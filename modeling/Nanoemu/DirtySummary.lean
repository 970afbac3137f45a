import Nanoemu.CsrMoves
import Nanoemu.TrapReturn

/-!
# The summary of dirty state

SD sums up FS and XS.  It is derived when the status is read and belongs to the
top bit of the register, whose place depends on the width of the hart.
-/

namespace Nanoemu

open CheckedProgram BitFields

namespace CsrFile

/-- The bits in the low half of `mstatus` that software cannot write. -/
def lowReserved : BitVec 64 := 0xffffffff &&& ~~~Mstatus.WRITABLE

def ReservedClear (f : CsrFile) : Prop :=
  f.regs Csr.MSTATUS &&& lowReserved = 0

/-- The file with its extension state marked as saved. -/
def cleaned (f : CsrFile) : CsrFile :=
  f.clearBits Csr.MSTATUS (Mstatus.FS ||| Mstatus.XS)

def topBit (f : CsrFile) (addr : BitVec 12) : Bool :=
  (f.read addr).getLsbD (f.xlen.bits - 1)

/-- The top bit of the status says whether FS or XS is dirty, and that of no
other register depends on it. -/
structure SummaryShown (f : CsrFile) : Prop where
  mstatus : f.topBit Csr.MSTATUS = true ↔ Dirty (f.read Csr.MSTATUS)
  sstatus : f.topBit Csr.SSTATUS = true ↔ Dirty (f.read Csr.MSTATUS)
  others : ∀ addr, f.existsCsr addr = true → addr ≠ Csr.MSTATUS →
    addr ≠ Csr.SSTATUS → f.topBit addr = f.cleaned.topBit addr

theorem writeTarget_mstatus {addr : BitVec 12}
    (htarget : writeTarget addr = Csr.MSTATUS) :
    addr = Csr.MSTATUS ∨ addr = Csr.SSTATUS ∨ addr = Csr.MSTATUSH := by
  have hone := writeTarget_forall Csr.MSTATUS
    (fun addr => addr == Csr.MSTATUS || addr == Csr.SSTATUS ||
      addr == Csr.MSTATUSH) (by decide) htarget
  simpa [or_assoc] using hone

theorem write_high_half {field : BitVec 64} (hlow : Within field 0xffffffff)
    (f : CsrFile) (value : BitVec 64) :
    Agree field ((f.write Csr.MSTATUSH value).regs Csr.MSTATUS)
      (f.regs Csr.MSTATUS) := by
  have hwrite : (f.write Csr.MSTATUSH value).regs Csr.MSTATUS =
      (value <<< 32) ||| (f.regs Csr.MSTATUS &&& 0xffffffff) :=
    force_regs_same _ _ _
  have hhigh : BitFields.Disjoint field (value <<< 32) := by
    apply BitVec.eq_of_getLsbD_eq
    intro i _
    by_cases hi : i < 32
    · simp [hi]
    · have hmask : ∀ j < 64, 32 ≤ j → (0xffffffff : BitVec 64).getLsbD j =
          false := by decide
      cases hbit : field.getLsbD i with
      | false => simp [hbit]
      | true =>
          have hset := hlow.bit hbit
          rw [hmask i ‹_› (Nat.le_of_not_lt hi)] at hset
          cases hset
  rw [hwrite, BitVec.or_comm]
  exact (Agree.or_right hhigh).trans (Agree.and_mask hlow)

theorem write_mstatus_other {field : BitVec 64}
    (hlow : Within field 0xffffffff)
    (hvisible : BitFields.Disjoint field
      (Mstatus.WRITABLE &&& Mstatus.S_VISIBLE))
    (f : CsrFile) {addr : BitVec 12}
    (haddr : addr = Csr.MSTATUS → BitFields.Disjoint field Mstatus.WRITABLE)
    (value : BitVec 64) :
    Agree field ((f.write addr value).regs Csr.MSTATUS)
      (f.regs Csr.MSTATUS) := by
  by_cases htarget : writeTarget addr = Csr.MSTATUS
  · rcases writeTarget_mstatus htarget with rfl | rfl | rfl
    · have hwrite : (f.write Csr.MSTATUS value).regs Csr.MSTATUS =
          merge (f.regs Csr.MSTATUS) Mstatus.WRITABLE value :=
        force_regs_same _ _ _
      rw [hwrite]
      exact Agree.merge (haddr rfl)
    · have hwrite : (f.write Csr.SSTATUS value).regs Csr.MSTATUS =
          merge (f.regs Csr.MSTATUS)
            (Mstatus.WRITABLE &&& Mstatus.S_VISIBLE) value :=
        force_regs_same _ _ _
      rw [hwrite]
      exact Agree.merge hvisible
    · exact write_high_half hlow f value
  · rw [f.write_regs_other value (Ne.symm htarget)]
    exact Agree.refl _ _

theorem write_reserved (f : CsrFile) (addr : BitVec 12) (value : BitVec 64) :
    Agree lowReserved ((f.write addr value).regs Csr.MSTATUS)
      (f.regs Csr.MSTATUS) :=
  write_mstatus_other (by decide) (by decide) f (fun _ => by decide) value

end CsrFile

namespace Cpu

open CsrFile

variable {profile : Profile} {c c' : Cpu}
  {written : BitVec 12 → BitVec 64 → Prop} {f f' : CsrFile}

theorem statusAfterReturn_reserved (status : BitVec 64) (fromMachine : Bool) :
    Agree lowReserved (statusAfterReturn status fromMachine) status := by
  cases fromMachine with
  | false =>
      have hfree : BitFields.Disjoint lowReserved
          (trapFields .supervisor ||| Mstatus.MPRV) := by decide
      exact statusAfterReturn_other hfree status
  | true =>
      have hfree : BitFields.Disjoint lowReserved
          (trapFields .machine ||| Mstatus.MPRV) := by decide
      exact statusAfterReturn_other hfree status

theorem CsrMove.reserved (h : CsrMove written f f') :
    Agree lowReserved (f'.regs Csr.MSTATUS) (f.regs Csr.MSTATUS) := by
  have hread : Agree lowReserved (f.read Csr.MSTATUS) (f.regs Csr.MSTATUS) :=
    read_mstatus_agree (by decide) (by decide) f
  cases h with
  | own value howned =>
      rw [force_regs_other]
      · exact Agree.refl _ _
      · rintro rfl
        exact absurd howned (by decide)
  | trap entered mode =>
      have hfree : BitFields.Disjoint lowReserved (trapFields entered) := by
        cases entered <;> decide
      rw [force_regs_same]
      exact (trapStatus_agree hfree _ mode).trans hread
  | ret fromMachine =>
      rw [force_regs_same]
      exact (statusAfterReturn_reserved _ fromMachine).trans hread
  | dirty =>
      have hmarked : Agree lowReserved
          ((f.read Csr.MSTATUS &&& ~~~Mstatus.FS) ||| Mstatus.FS)
          (f.read Csr.MSTATUS) :=
        (Agree.or_right (by decide)).trans (Agree.and_not (by decide))
      rw [force_regs_same]
      exact hmarked.trans hread
  | write _ => exact f.write_reserved _ _

theorem Next.reserved (h : Next profile c c') (hclear : c.csrs.ReservedClear) :
    c'.csrs.ReservedClear := by
  cases h with
  | step hstep =>
      exact (step_moves hstep).invariant
        (fun hbefore hmove => Eq.trans hmove.reserved hbefore) hclear
  | input bytes => exact hclear

theorem Started.reserved (h : Started profile c) : c.csrs.ReservedClear := by
  have hfresh : ∀ {x : Cpu}, Fresh x → x.csrs.ReservedClear :=
    fun hfresh => hfresh.status_disjoint (by decide)
  rcases h with hloaded | ⟨entry, hartid, dtb, hloaded⟩
  · exact hfresh hloaded.fresh
  · unfold ReservedClear
    rw [bootSupervisor_regs_other _ _ _ _ (by decide) (by decide) (by decide)
      (by decide)]
    exact hfresh hloaded.fresh

theorem Reachable.reserved (h : Reachable profile (Started profile) c) :
    c.csrs.ReservedClear :=
  h.invariant (fun _ hstarted => hstarted.reserved)
    fun _ _ hclear hnext => hnext.reserved hclear

/-! ## The top bits -/

theorem dirty_read (f : CsrFile) :
    Dirty (f.read Csr.MSTATUS) ↔ Dirty (f.regs Csr.MSTATUS) :=
  Dirty.congr (read_mstatus_agree (by decide) (by decide) f)
    (read_mstatus_agree (by decide) (by decide) f)

/-- The derived bit is where RV64 has the top of the register. -/
theorem status_top (f : CsrFile) :
    f.status.getLsbD 63 = true ↔ Dirty (f.regs Csr.MSTATUS) := by
  have hsd : Mstatus.SD.getLsbD 63 = true := by decide
  by_cases hdirty : Dirty (f.regs Csr.MSTATUS)
  · rw [status_of_dirty hdirty, BitVec.getLsbD_or, hsd, Bool.or_true]
    simp [hdirty]
  · rw [status_of_not_dirty hdirty, BitVec.getLsbD_and, BitVec.getLsbD_not, hsd]
    simp [hdirty]

theorem topBit_sstatus (f : CsrFile) :
    f.topBit Csr.SSTATUS =
      (f.topBit Csr.MSTATUS && Mstatus.S_VISIBLE.getLsbD (f.xlen.bits - 1)) := by
  unfold topBit
  rw [read_sstatus, BitVec.getLsbD_and]

theorem cleaned_clean (f : CsrFile) : ¬ Dirty (f.cleaned.regs Csr.MSTATUS) := by
  have hregs : f.cleaned.regs Csr.MSTATUS =
      f.regs Csr.MSTATUS &&& ~~~(Mstatus.FS ||| Mstatus.XS) :=
    force_regs_same _ _ _
  have hnone : ∀ field, ~~~(Mstatus.FS ||| Mstatus.XS) &&& field = 0#64 →
      f.cleaned.regs Csr.MSTATUS &&& field = 0#64 := by
    intro field hfield
    rw [hregs, BitVec.and_assoc, hfield, BitVec.and_zero]
  rintro (hfs | hxs)
  · exact absurd (hfs.symm.trans (hnone _ (by decide))) (by decide)
  · exact absurd (hxs.symm.trans (hnone _ (by decide))) (by decide)

theorem source_mstatus {addr : BitVec 12} (h : source addr = Csr.MSTATUS) :
    addr = Csr.MSTATUS ∨ addr = Csr.SSTATUS ∨ addr = Csr.MSTATUSH := by
  by_cases halias : addr ∈ aliases
  · have hall : aliases.all (fun addr => source addr != Csr.MSTATUS ||
        (addr == Csr.SSTATUS || addr == Csr.MSTATUSH)) = true := by decide
    have hone := List.all_eq_true.mp hall addr halias
    right
    simpa [h] using hone
  · rw [source_of_not_alias halias] at h
    exact Or.inl h

theorem topBit_cleaned {addr : BitVec 12} (hmstatus : addr ≠ Csr.MSTATUS)
    (hsstatus : addr ≠ Csr.SSTATUS) (hhigh : addr ≠ Csr.MSTATUSH)
    (f : CsrFile) : f.topBit addr = f.cleaned.topBit addr := by
  have hsource : source addr ≠ Csr.MSTATUS := by
    intro h
    rcases source_mstatus h with rfl | rfl | rfl
    · exact hmstatus rfl
    · exact hsstatus rfl
    · exact hhigh rfl
  have hread : f.cleaned.read addr = f.read addr :=
    read_congr rfl (force_regs_other _ _ hsource)
  unfold topBit
  rw [hread]
  rfl

theorem topBit_high {f : CsrFile} (hnarrow : f.xlen = .rv32) :
    f.topBit Csr.MSTATUSH = f.status.getLsbD 63 := by
  have hread : f.read Csr.MSTATUSH = f.status >>> 32 &&& 0xffffffff :=
    if_pos hnarrow
  unfold topBit
  rw [hread, hnarrow, BitVec.getLsbD_and, BitVec.getLsbD_ushiftRight]
  exact Bool.and_true _

theorem topBit_wide {f : CsrFile} (hwide : f.xlen = .rv64) :
    f.topBit Csr.MSTATUS = f.status.getLsbD 63 := by
  unfold topBit
  rw [read_mstatus, if_neg (by rw [hwide]; decide), hwide]
  rfl

theorem topBit_narrow {f : CsrFile} (hnarrow : f.xlen = .rv32)
    (hclear : f.ReservedClear) : f.topBit Csr.MSTATUS = false := by
  have hagree : Agree (1#64 <<< 31) (f.read Csr.MSTATUS)
      (f.regs Csr.MSTATUS) := read_mstatus_agree (by decide) (by decide) f
  have hstored : (f.regs Csr.MSTATUS).getLsbD 31 = false := by
    have hbit := congrArg (fun word => word.getLsbD 31) hclear
    have hmask : lowReserved.getLsbD 31 = true := by decide
    rwa [BitVec.getLsbD_and, hmask, Bool.and_true] at hbit
  unfold topBit
  rw [hnarrow]
  exact (agree_iff.mp hagree 31 (by decide)).trans hstored

/-- On RV64 SD is always shown; on RV32 it is missing whenever it would be
set, and appears in `mstatush` instead. -/
theorem summary_shown {f : CsrFile} (hclear : f.ReservedClear) :
    f.SummaryShown ↔ f.xlen = .rv64 ∨ ¬ Dirty (f.read Csr.MSTATUS) := by
  cases hxlen : f.xlen with
  | rv64 =>
      have htop : f.topBit Csr.MSTATUS = true ↔ Dirty (f.read Csr.MSTATUS) := by
        rw [topBit_wide hxlen, status_top, dirty_read]
      have hvisible : f.topBit Csr.SSTATUS = f.topBit Csr.MSTATUS := by
        rw [topBit_sstatus, hxlen]
        exact Bool.and_true _
      refine iff_of_true ⟨htop, hvisible ▸ htop, ?_⟩ (Or.inl rfl)
      intro addr hexists hmstatus hsstatus
      apply topBit_cleaned hmstatus hsstatus
      rintro rfl
      have habsent : f.existsCsr Csr.MSTATUSH = false := by
        unfold existsCsr
        rw [hxlen]
        decide
      cases habsent.symm.trans hexists
  | rv32 =>
      have htop := topBit_narrow hxlen hclear
      have hvisible : f.topBit Csr.SSTATUS = false := by
        rw [topBit_sstatus, htop, Bool.false_and]
      constructor
      · intro hshown
        right
        intro hdirty
        exact absurd (hshown.mstatus.mpr hdirty) (by simp [htop])
      · rintro (hwide | hdirty)
        · cases hwide
        refine ⟨by simp [htop, hdirty], by simp [hvisible, hdirty], ?_⟩
        intro addr _ hmstatus hsstatus
        by_cases hhigh : addr = Csr.MSTATUSH
        · have hoff : ∀ g : CsrFile, ¬ Dirty (g.regs Csr.MSTATUS) →
              g.status.getLsbD 63 = false := by
            intro g hg
            simpa [hg] using (status_top g).not
          rw [hhigh, topBit_high hxlen, topBit_high (f := f.cleaned) hxlen,
            hoff f (by rwa [← dirty_read]), hoff _ (cleaned_clean f)]
        · exact topBit_cleaned hmstatus hsstatus hhigh f

/-- In every reachable state SD sums up FS and XS in the top bit of the status
registers, if the hart is RV64 or neither field is dirty, and only then. -/
theorem Reachable.summary_shown_iff
    (hreach : Reachable profile (Started profile) c) :
    c.csrs.SummaryShown ↔
      c.xlen = .rv64 ∨ ¬ Dirty (c.csrs.read Csr.MSTATUS) := by
  rw [← hreach.width]
  exact summary_shown hreach.reserved

/-- A program that marks the floating-point state dirty. -/
def dirtyHart (xlen : Xlen) : Cpu :=
  programmedHart xlen
    [ -- lui t0, 6; csrrw x0, mstatus, t0
      0x000062b7, 0x30029073]

theorem dirtyHart_run (xlen : Xlen) :
    Reachable .debug (Started .debug) ((stepped .debug)^[2] (dirtyHart xlen)) := by
  have hsteps : ∀ k < 2,
      (step .debug ((stepped .debug)^[k] (dirtyHart xlen))).isSome = true := by
    cases xlen <;> decide +kernel
  exact ⟨dirtyHart xlen,
    Or.inl (programmedHart_loaded .debug xlen (by cases xlen <;> decide)),
    Run.iterate hsteps fun _ _ => trivial⟩

/-- On RV32 it never sees SD. -/
theorem Reachable.summary_hidden :
    ∃ c, Reachable .debug (Started .debug) c ∧
      Dirty (c.csrs.read Csr.MSTATUS) ∧ ¬ c.csrs.SummaryShown := by
  have hdirty : Dirty (((stepped .debug)^[2] (dirtyHart .rv32)).csrs.read
      Csr.MSTATUS) := Or.inl (by decide +kernel)
  refine ⟨_, dirtyHart_run .rv32, hdirty, fun hshown => ?_⟩
  exact absurd (hshown.mstatus.mpr hdirty) (by decide +kernel)

/-- On RV64 it does. -/
theorem Reachable.summary_shown_dirty :
    Dirty (((stepped .debug)^[2] (dirtyHart .rv64)).csrs.read Csr.MSTATUS) ∧
      ((stepped .debug)^[2] (dirtyHart .rv64)).csrs.SummaryShown :=
  ⟨Or.inl (by decide +kernel),
    (dirtyHart_run .rv64).summary_shown_iff.mpr (Or.inl (by decide +kernel))⟩

end Cpu

end Nanoemu
