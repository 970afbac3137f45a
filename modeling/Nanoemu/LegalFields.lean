import Nanoemu.CsrAliases
import Nanoemu.DirtySummary

/-!
# Fields that hold legal values only

Three fields of the CSRs are kept to the values the hart implements: the saved
mode, the translation scheme and the layout of the handlers.  Two of them are
checked when they are written; the saved mode is not.
-/

namespace Nanoemu

open CheckedProgram BitFields

namespace CsrFile

def savedMpp (status : BitVec 64) : BitVec 64 :=
  (status &&& Mstatus.MPP) >>> Mstatus.MPP_SHIFT

def MppLegal (status : BitVec 64) : Prop :=
  ∃ mode : Priv, savedMpp status = mode.toBits

def satpMode (xlen : Xlen) (satp : BitVec 64) : BitVec 64 :=
  match xlen with
  | .rv32 => satp >>> 31
  | .rv64 => (satp >>> 60) &&& 0xf

/-- The encoding of a scheme, at the widths where the MMU walks it. -/
def schemeBits : Mmu.Mode → Xlen → Option (BitVec 64)
  | .bare, _ => some 0
  | .sv32, .rv32 => some 1
  | .sv39, .rv64 => some 8
  | _, _ => none

/-- The vector register lays its handlers out in one of the two ways. -/
def TvecLegal (tvec : BitVec 64) : Prop :=
  tvec &&& 0x3 = 0 ∨ tvec &&& 0x3 = 1

/-- The fields read as legal values; that of `satp` is the encoding of the
scheme the MMU walks. -/
structure Legal (f : CsrFile) : Prop where
  mpp : MppLegal (f.read Csr.MSTATUS)
  satp : schemeBits (Mmu.Mode.of (f.read Csr.SATP) f.xlen) f.xlen =
    some (satpMode f.xlen (f.read Csr.SATP))
  mtvec : TvecLegal (f.read Csr.MTVEC)
  stvec : TvecLegal (f.read Csr.STVEC)

/-- What is stored in the fields that are checked on writing. -/
structure WriteChecked (f : CsrFile) : Prop where
  satp : satpSupported f.xlen (f.regs Csr.SATP) = true
  mtvec : TvecLegal (f.regs Csr.MTVEC)
  stvec : TvecLegal (f.regs Csr.STVEC)

theorem MppLegal.congr {a b : BitVec 64} (h : Agree Mstatus.MPP a b) :
    MppLegal a ↔ MppLegal b := by
  unfold MppLegal savedMpp
  rw [show a &&& Mstatus.MPP = b &&& Mstatus.MPP from h]

theorem TvecLegal.congr {a b : BitVec 64} (h : Agree 0x3 a b) :
    TvecLegal a ↔ TvecLegal b := by
  unfold TvecLegal
  rw [show a &&& 0x3 = b &&& 0x3 from h]

theorem mppLegal_read (f : CsrFile) :
    MppLegal (f.read Csr.MSTATUS) ↔ MppLegal (f.regs Csr.MSTATUS) :=
  MppLegal.congr (read_mstatus_agree (by decide) (by decide) f)

theorem read_low_agree {field : BitVec 64} (hlow : Within field 0xffffffff)
    {f : CsrFile} {addr : BitVec 12} (hplain : f.view addr = f.regs addr) :
    Agree field (f.read addr) (f.regs addr) := by
  unfold read
  rw [hplain]
  split
  · exact Agree.and_mask hlow
  · exact Agree.refl _ _

theorem satp_mode_narrow (satp : BitVec 64) :
    (satp &&& 0xffffffff) >>> 31 = 0 ∨ (satp &&& 0xffffffff) >>> 31 = 1 := by
  have hcut : (satp &&& 0xffffffff).toNat ≤ 0xffffffff := by
    rw [BitVec.toNat_and]
    exact Nat.and_le_right
  have hmode : ((satp &&& 0xffffffff) >>> 31).toNat ≤ 1 := by
    rw [BitVec.toNat_ushiftRight, Nat.shiftRight_eq_div_pow]
    omega
  rcases Nat.le_one_iff_eq_zero_or_eq_one.mp hmode with hzero | hone
  · exact Or.inl (BitVec.eq_of_toNat_eq hzero)
  · exact Or.inr (BitVec.eq_of_toNat_eq hone)

theorem WriteChecked.scheme {f : CsrFile} (h : f.WriteChecked) :
    schemeBits (Mmu.Mode.of (f.read Csr.SATP) f.xlen) f.xlen =
      some (satpMode f.xlen (f.read Csr.SATP)) := by
  have hsatp := h.satp
  unfold Mmu.Mode.of satpMode
  cases hxlen : f.xlen with
  | rv32 =>
      have hread : f.read Csr.SATP = f.regs Csr.SATP &&& 0xffffffff :=
        if_pos hxlen
      rw [hread]
      dsimp only
      rcases satp_mode_narrow (f.regs Csr.SATP) with hmode | hmode
      · rw [hmode]
        rfl
      · rw [hmode]
        rfl
  | rv64 =>
      have hread : f.read Csr.SATP = f.regs Csr.SATP :=
        if_neg (by rw [hxlen]; decide)
      rw [hread]
      rw [hxlen] at hsatp
      unfold satpSupported at hsatp
      rw [Bool.or_eq_true, beq_iff_eq, beq_iff_eq] at hsatp
      dsimp only
      rcases hsatp with hmode | hmode
      · rw [hmode]
        rfl
      · rw [hmode]
        rfl

theorem WriteChecked.legal_fields {f : CsrFile} (h : f.WriteChecked) :
    f.Legal ↔ MppLegal (f.regs Csr.MSTATUS) := by
  constructor
  · exact fun hlegal => f.mppLegal_read.mp hlegal.mpp
  · intro hmpp
    constructor
    · exact f.mppLegal_read.mpr hmpp
    · exact h.scheme
    · exact (TvecLegal.congr (read_low_agree (by decide) rfl)).mpr h.mtvec
    · exact (TvecLegal.congr (read_low_agree (by decide) rfl)).mpr h.stvec

theorem tvec_legal (value : BitVec 64) :
    TvecLegal (if 1 < value &&& 0x3 then value &&& ~~~0x3 else value) := by
  split
  · left
    rw [BitVec.and_assoc]
    exact BitVec.and_zero
  · next hmode =>
      have hle : (value &&& 0x3).toNat ≤ 1 := by
        simpa [BitVec.lt_def] using hmode
      rcases Nat.le_one_iff_eq_zero_or_eq_one.mp hle with hzero | hone
      · exact Or.inl (BitVec.eq_of_toNat_eq hzero)
      · exact Or.inr (BitVec.eq_of_toNat_eq hone)

theorem writeTarget_only {target addr : BitVec 12}
    (hall : (target :: masked).all (fun addr =>
      writeTarget addr != target || addr == target) = true)
    (htarget : writeTarget addr = target) : addr = target :=
  beq_iff_eq.mp (writeTarget_forall target (fun addr => addr == target) hall
    htarget)

theorem write_tvec {which : BitVec 12}
    (hwhich : which = Csr.MTVEC ∨ which = Csr.STVEC) {f : CsrFile}
    (h : TvecLegal (f.regs which)) (addr : BitVec 12) (value : BitVec 64) :
    TvecLegal ((f.write addr value).regs which) := by
  by_cases htarget : writeTarget addr = which
  · rcases hwhich with rfl | rfl
    · obtain rfl := writeTarget_only (by decide) htarget
      have hwrite : (f.write Csr.MTVEC value).regs Csr.MTVEC = _ :=
        force_regs_same _ _ _
      rw [hwrite]
      exact tvec_legal value
    · obtain rfl := writeTarget_only (by decide) htarget
      have hwrite : (f.write Csr.STVEC value).regs Csr.STVEC = _ :=
        force_regs_same _ _ _
      rw [hwrite]
      exact tvec_legal value
  · rw [f.write_regs_other value (Ne.symm htarget)]
    exact h

theorem WriteChecked.write {f : CsrFile} (h : f.WriteChecked)
    (addr : BitVec 12) (value : BitVec 64) :
    (f.write addr value).WriteChecked := by
  constructor
  · rw [f.write_xlen]
    by_cases htarget : writeTarget addr = Csr.SATP
    · obtain rfl := writeTarget_only (by decide) htarget
      rw [write_satp]
      split
      · next hsupported =>
          rw [force_regs_same]
          exact hsupported
      · exact h.satp
    · rw [f.write_regs_other value (Ne.symm htarget)]
      exact h.satp
  · exact write_tvec (Or.inl rfl) h.mtvec addr value
  · exact write_tvec (Or.inr rfl) h.stvec addr value

theorem write_mstatus_mpp (f : CsrFile) (value : BitVec 64) :
    Agree Mstatus.MPP ((f.write Csr.MSTATUS value).regs Csr.MSTATUS) value := by
  have hwrite : (f.write Csr.MSTATUS value).regs Csr.MSTATUS =
      merge (f.regs Csr.MSTATUS) Mstatus.WRITABLE value :=
    force_regs_same _ _ _
  have hwithin : Within Mstatus.MPP Mstatus.WRITABLE := by decide
  rw [hwrite, agree_iff]
  intro i hi
  rw [merge_bit, if_pos (hwithin.bit hi)]

theorem write_other_mpp (f : CsrFile) {addr : BitVec 12}
    (haddr : addr ≠ Csr.MSTATUS) (value : BitVec 64) :
    Agree Mstatus.MPP ((f.write addr value).regs Csr.MSTATUS)
      (f.regs Csr.MSTATUS) :=
  write_mstatus_other (by decide) (by decide) f
    (fun hmstatus => absurd hmstatus haddr) value

end CsrFile

namespace Cpu

open CsrFile

variable {profile : Profile} {c c' : Cpu} {outcome : Except Exception Unit}
  {written : BitVec 12 → BitVec 64 → Prop} {f f' : CsrFile}

theorem CsrMove.checked (h : CsrMove written f f') (hchecked : f.WriteChecked) :
    f'.WriteChecked := by
  have hforce : ∀ {addr : BitVec 12} (value : BitVec 64), addr ≠ Csr.SATP →
      addr ≠ Csr.MTVEC → addr ≠ Csr.STVEC → (f.force addr value).WriteChecked := by
    intro addr value hsatp hmtvec hstvec
    constructor
    · rw [force_regs_other _ _ hsatp.symm]
      exact hchecked.satp
    · rw [force_regs_other _ _ hmtvec.symm]
      exact hchecked.mtvec
    · rw [force_regs_other _ _ hstvec.symm]
      exact hchecked.stvec
  cases h with
  | own value howned =>
      apply hforce
      · rintro rfl
        exact absurd howned (by decide)
      · rintro rfl
        exact absurd howned (by decide)
      · rintro rfl
        exact absurd howned (by decide)
  | trap entered mode => exact hforce _ (by decide) (by decide) (by decide)
  | ret fromMachine => exact hforce _ (by decide) (by decide) (by decide)
  | dirty => exact hforce _ (by decide) (by decide) (by decide)
  | write _ => exact hchecked.write _ _

theorem trapStatus_mpp (entered mode : Priv) {status : BitVec 64}
    (h : MppLegal status) : MppLegal (trapStatus entered status mode) := by
  by_cases hentered : entered = .supervisor
  · have hfree : BitFields.Disjoint Mstatus.MPP (trapFields entered) := by
      rw [hentered]
      decide
    exact (MppLegal.congr (trapStatus_agree hfree status mode)).mpr h
  · have hsaved := (trapStack entered).push_mode
      (savedMode_within entered mode) status
    rw [← trapStatus_eq_push, trapStack, if_neg hentered, savedMode,
      if_neg hentered] at hsaved
    have hfield : trapStatus entered status mode &&& Mstatus.MPP =
        mode.toBits <<< Mstatus.MPP_SHIFT := hsaved
    refine ⟨mode, ?_⟩
    unfold savedMpp
    rw [hfield]
    cases mode <;> rfl

theorem statusAfterReturn_mpp (fromMachine : Bool) {status : BitVec 64}
    (h : MppLegal status) : MppLegal (statusAfterReturn status fromMachine) := by
  cases fromMachine with
  | false =>
      have hfree : BitFields.Disjoint Mstatus.MPP
          (trapFields .supervisor ||| Mstatus.MPRV) := by decide
      exact (MppLegal.congr (statusAfterReturn_other hfree status)).mpr h
  | true =>
      -- The return leaves user mode behind, the least privileged.
      have hpopped : machineStack.pop status &&& Mstatus.MPP = 0 :=
        machineStack.pop_mode status
      have hfield : statusAfterReturn status true &&& Mstatus.MPP = 0 := by
        have hpop := statusAfterReturn_eq_pop .machine status
        rw [show decide (Priv.machine ≠ .supervisor) = true from rfl] at hpop
        rw [hpop]
        split
        · exact Eq.trans (Agree.and_not (by decide)) hpopped
        · exact hpopped
      refine ⟨.user, ?_⟩
      unfold savedMpp
      rw [hfield]
      rfl

theorem CsrMove.mpp (h : CsrMove written f f')
    (hwritten : ∀ value, written Csr.MSTATUS value → MppLegal value)
    (hlegal : MppLegal (f.regs Csr.MSTATUS)) :
    MppLegal (f'.regs Csr.MSTATUS) := by
  have hread : MppLegal (f.read Csr.MSTATUS) := f.mppLegal_read.mpr hlegal
  cases h with
  | own value howned =>
      rw [force_regs_other]
      · exact hlegal
      · rintro rfl
        exact absurd howned (by decide)
  | trap entered mode =>
      rw [force_regs_same]
      exact trapStatus_mpp entered mode hread
  | ret fromMachine =>
      rw [force_regs_same]
      exact statusAfterReturn_mpp fromMachine hread
  | dirty =>
      have hmarked : Agree Mstatus.MPP
          ((f.read Csr.MSTATUS &&& ~~~Mstatus.FS) ||| Mstatus.FS)
          (f.read Csr.MSTATUS) :=
        (Agree.or_right (by decide)).trans (Agree.and_not (by decide))
      rw [force_regs_same]
      exact (MppLegal.congr hmarked).mpr hread
  | @write addr value hnow =>
      by_cases haddr : addr = Csr.MSTATUS
      · subst haddr
        exact (MppLegal.congr (f.write_mstatus_mpp value)).mpr
          (hwritten value hnow)
      · exact (MppLegal.congr (f.write_other_mpp haddr value)).mpr hlegal

/-! ## Steps and runs -/

/-- The step retires a CSR instruction that writes `mstatus` with a saved mode
that no privilege mode has. -/
def WritesReservedMpp (profile : Profile) (c : Cpu) : Prop :=
  ∃ value, WritesNow profile c Csr.MSTATUS value ∧ ¬ MppLegal value

theorem step_checked (hstep : step profile c = some (outcome, c'))
    (hchecked : c.csrs.WriteChecked) : c'.csrs.WriteChecked :=
  (step_moves hstep).invariant (fun h hmove => hmove.checked h) hchecked

/-- The write of `mstatus` is the last thing a step does to it. -/
theorem WritesNow.mstatus (hstep : step profile c = some (outcome, c'))
    {value : BitVec 64} (hnow : WritesNow profile c Csr.MSTATUS value) :
    Agree Mstatus.MPP (c'.csrs.regs Csr.MSTATUS) value := by
  obtain ⟨inst, hretired, hwrites, haddr, rfl⟩ := hnow
  obtain ⟨len, c₁, c₂, hretires, rfl⟩ := step_retires hstep hretired
  obtain ⟨value, hvalue, -, hafter⟩ := execute_csr hwrites hretires.executed
  have hreached : Reached c c₁ :=
    ((fetch_ensures profile c.fetching).ok hretires.fetched).1.reached
  rw [hreached.csrWritten hvalue]
  have hretire : c₂.retire.csrs.regs Csr.MSTATUS = c₂.csrs.regs Csr.MSTATUS := by
    unfold retire
    split
    · rfl
    · exact force_regs_other _ _ (by decide)
  have hwritten : c₂.csrs = c₁.csrs.write Csr.MSTATUS (trunc value c₁.xbits) := by
    rw [hafter, setReg_csrs, haddr]
    rfl
  rw [hretire, hwritten]
  exact write_mstatus_mpp _ _

theorem step_mpp_iff (hstep : step profile c = some (outcome, c'))
    (hlegal : MppLegal (c.csrs.regs Csr.MSTATUS)) :
    MppLegal (c'.csrs.regs Csr.MSTATUS) ↔ ¬ WritesReservedMpp profile c := by
  constructor
  · rintro hafter ⟨value, hnow, hreserved⟩
    exact hreserved ((MppLegal.congr (hnow.mstatus hstep)).mp hafter)
  · intro hwrites
    refine (step_moves hstep).invariant (fun h hmove => hmove.mpp ?_ h) hlegal
    intro value hnow
    by_contra hreserved
    exact hwrites ⟨value, hnow, hreserved⟩

theorem Fresh.checked (h : Fresh c) : c.csrs.WriteChecked := by
  constructor
  · rw [h.csrs _ (by decide) (by decide)]
    cases c.csrs.xlen <;> rfl
  · rw [h.csrs _ (by decide) (by decide)]
    exact Or.inl rfl
  · rw [h.csrs _ (by decide) (by decide)]
    exact Or.inl rfl

theorem Fresh.mpp (h : Fresh c) : MppLegal (c.csrs.regs Csr.MSTATUS) := by
  have hnone : c.csrs.regs Csr.MSTATUS &&& Mstatus.MPP = 0 :=
    h.status_disjoint (by decide)
  refine ⟨.user, ?_⟩
  unfold savedMpp
  rw [hnone]
  rfl

theorem Started.legal (h : Started profile c) :
    c.csrs.WriteChecked ∧ MppLegal (c.csrs.regs Csr.MSTATUS) := by
  rcases h with hloaded | ⟨entry, hartid, dtb, hloaded⟩
  · exact ⟨hloaded.fresh.checked, hloaded.fresh.mpp⟩
  · have hchecked := hloaded.fresh.checked
    refine ⟨⟨?_, ?_, ?_⟩, ?_⟩ <;>
      rw [bootSupervisor_regs_other _ _ _ _ (by decide) (by decide) (by decide)
        (by decide)]
    · exact hchecked.satp
    · exact hchecked.mtvec
    · exact hchecked.stvec
    · exact hloaded.fresh.mpp

theorem History.checked {c₀ : Cpu} {past : List Cpu}
    (hstart : Started profile c₀) (hrun : History profile c₀ past c) :
    ∀ x ∈ c :: past, x.csrs.WriteChecked := by
  have hall := hrun.invariant hstart.legal.1
    (fun h (_ : True) hstep => step_checked hstep h) (fun _ h => h)
    fun _ _ => trivial
  exact List.forall_mem_cons.mpr hall

theorem History.mpp_iff {c₀ : Cpu} {past : List Cpu}
    (hstart : Started profile c₀) (hrun : History profile c₀ past c) :
    (∀ x ∈ c :: past, MppLegal (x.csrs.regs Csr.MSTATUS)) ↔
      ∀ x ∈ past, ¬ WritesReservedMpp profile x := by
  induction hrun with
  | start => simp [hstart.legal.2]
  | @step past x c' outcome hbefore hstep ih =>
      constructor
      · intro hlegal
        rw [List.forall_mem_cons] at hlegal ⊢
        have hlast := hlegal.2 x List.mem_cons_self
        exact ⟨(step_mpp_iff hstep hlast).mp hlegal.1, ih.mp hlegal.2⟩
      · intro hwrites
        rw [List.forall_mem_cons] at hwrites ⊢
        have hlegal := ih.mpr hwrites.2
        exact ⟨(step_mpp_iff hstep (hlegal x List.mem_cons_self)).mpr hwrites.1,
          hlegal⟩
  | @input past x bytes hbefore ih =>
      rw [← ih, List.forall_mem_cons, List.forall_mem_cons]
      rfl

/-- In every run the fields are legal in every state reached, if and only if no
step writes a saved mode that does not exist. -/
theorem History.legal_iff {c₀ : Cpu} {past : List Cpu}
    (hstart : Started profile c₀) (hrun : History profile c₀ past c) :
    (∀ x ∈ c :: past, x.csrs.Legal) ↔
      ∀ x ∈ past, ¬ WritesReservedMpp profile x := by
  have hchecked := hrun.checked hstart
  rw [← hrun.mpp_iff hstart]
  exact forall₂_congr fun x hx => (hchecked x hx).legal_fields

/-- A program that saves machine mode, whatever else it writes. -/
def savingHart : Cpu :=
  programmedHart .rv64
    [ -- addi t0, x0, -1; csrrw x0, mstatus, t0
      0xfff00293, 0x30029073]

/-- It finds the fields legal before and after. -/
theorem History.legal_saved :
    ((stepped .debug)^[2] savingHart).csrs.Legal ∧
      (stepped .debug savingHart).csrs.Legal ∧ savingHart.csrs.Legal := by
  have hfirst : Cpu.step .debug savingHart =
      some (.ok (), stepped .debug savingHart) :=
    step_eq_stepped (by decide +kernel)
  have hsecond : Cpu.step .debug (stepped .debug savingHart) =
      some (.ok (), (stepped .debug)^[2] savingHart) :=
    step_eq_stepped (by decide +kernel)
  have hlegal : MppLegal (savingHart.csrs.regs Csr.MSTATUS) ∧
      MppLegal ((stepped .debug savingHart).csrs.regs Csr.MSTATUS) ∧
      MppLegal (((stepped .debug)^[2] savingHart).csrs.regs Csr.MSTATUS) :=
    ⟨⟨.user, by decide +kernel⟩, ⟨.user, by decide +kernel⟩,
      ⟨.machine, by decide +kernel⟩⟩
  have hwrites : ∀ x ∈ [stepped .debug savingHart, savingHart],
      ¬ WritesReservedMpp .debug x := by
    intro x hx
    simp only [List.mem_cons, List.not_mem_nil, or_false] at hx
    rcases hx with rfl | rfl
    · exact (step_mpp_iff hsecond hlegal.2.1).mp hlegal.2.2
    · exact (step_mpp_iff hfirst hlegal.1).mp hlegal.2.1
  have hfields := (History.legal_iff (Or.inl (programmedHart_loaded .debug .rv64
    (by decide))) ((History.start.step hfirst).step hsecond)).mpr hwrites
  exact ⟨hfields _ (by simp), hfields _ (by simp), hfields _ (by simp)⟩

/-- A program that saves a mode with the reserved encoding. -/
def reservedHart : Cpu :=
  programmedHart .rv64
    [ -- lui t0, 1; csrrw x0, mstatus, t0
      0x000012b7, 0x30029073]

theorem History.illegal_mpp :
    ∃ c, Reachable .debug (Started .debug) c ∧ ¬ c.csrs.Legal := by
  have hrun : Run .debug (fun _ => True) reservedHart
      ((stepped .debug)^[2] reservedHart) := by
    refine Run.iterate ?_ fun _ _ => trivial
    decide +kernel
  refine ⟨_, ⟨reservedHart,
    Or.inl (programmedHart_loaded .debug .rv64 (by decide)), hrun⟩, ?_⟩
  rintro ⟨⟨mode, hmode⟩, -, -, -⟩
  revert hmode
  cases mode <;> decide +kernel

end Cpu

end Nanoemu
