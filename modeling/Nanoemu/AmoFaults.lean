import Nanoemu.FetchFaults
import Nanoemu.IllegalAccess

/-!
# Which faults an atomic raises

A load-reserved is a load, and every other atomic counts as a store, also where
it is the load of its operand that fails.  The code raises what the access at
hand raises, and checks the alignment of all atomics at one place.
-/

namespace Nanoemu

open CheckedProgram

/-- The access that a misaligned, access or page fault is raised for. -/
def Exception.access : Exception → Option Access
  | instructionAddressMisaligned _ | instructionAccessFault _
  | instructionPageFault _ => some .fetch
  | loadAddressMisaligned _ | loadAccessFault _ | loadPageFault _ => some .load
  | storeAddressMisaligned _ | storeAccessFault _ | storePageFault _ =>
      some .store
  | illegalInstruction _ | breakpoint | environmentCall => none

/-- What an atomic counts as; reserved words count as nothing. -/
def atomicAccess (inst : BitVec 32) : Option Access :=
  if funct7 inst >>> 2 = 0x02 then
    if rs2 inst = 0 then some .load else none
  else if (funct7 inst >>> 2).toNat ∈
      [0x03, 0x00, 0x01, 0x04, 0x08, 0x0c, 0x10, 0x14, 0x18, 0x1c] then
    some .store
  else none

namespace Cpu

variable {profile : Profile} {c c' : Cpu} {inst : BitVec 32}
  {addr : BitVec 64} {width : ℕ} {e : Exception}

theorem readMem_access {size : ℕ}
    (hrun : readMem addr size profile c = some (.error e, c')) :
    e.access = some .load := by
  have hraises : (readMem addr size).Raises (anyFrame Cpu)
      fun e => e.access = some .load := by
    apply anyFrame_carries.readMem
    · exact fun _ => rfl
    · rfl
  exact ((hraises profile c).error hrun).2

def IllegalOr (inst : BitVec 32) (access : Access) (e : Exception) : Prop :=
  e = .illegalInstruction inst ∨ e.access = some access

theorem executeLr_faults (inst : BitVec 32) (addr : BitVec 64) (width : ℕ) :
    (executeLr inst addr width).Raises (anyFrame Cpu)
      (IllegalOr inst .load) := by
  apply Program.Raises.ite
  · exact Program.Raises.fail (Or.inl rfl)
  · apply Program.Raises.bind
      (anyFrame_carries.readMem (fun _ => Or.inr rfl) (Or.inr rfl) _)
    intro v
    apply Program.Raises.bind (Program.Raises.check _)
    intro v
    exact Program.Raises.bind (raises_update _) fun _ => raises_update _

theorem executeSc_faults (inst : BitVec 32) (addr : BitVec 64) (width : ℕ) :
    (executeSc inst addr width).Raises (anyFrame Cpu)
      (IllegalOr inst .store) := by
  apply Program.Raises.bind (Program.Raises.read _)
  intro c
  have hrest : ∀ v : BitVec 64,
      (setReservation none >>= fun _ => wr (rd inst) v).Raises (anyFrame Cpu)
        (IllegalOr inst .store) :=
    fun v => Program.Raises.bind (raises_update _) fun _ => raises_update _
  apply Program.Raises.ite
  · exact Program.Raises.bind
      (anyFrame_carries.writeMem (fun _ => Or.inr rfl) (Or.inr rfl) _ _)
      fun _ => hrest _
  · exact hrest _

theorem executeRmw_error
    (hrun : executeRmw inst addr width profile c = some (.error e, c')) :
    readMem addr (width / 8) profile c = some (.error e, c') ∨
      IllegalOr inst .store e := by
  unfold executeRmw at hrun
  rcases Program.bind_cases hrun with ⟨e', hload, herror⟩ | ⟨v, x, -, hrest⟩
  · cases herror
    exact Or.inl hload
  · right
    have hraises : ∀ {prog : Hart Unit},
        prog.Raises (anyFrame Cpu) (IllegalOr inst .store) →
          prog profile x = some (.error e, c') → IllegalOr inst .store e :=
      fun hprog hrun => ((hprog profile x).error hrun).2
    refine hraises ?_ hrest
    apply Program.Raises.bind (Program.Raises.check _)
    intro a
    apply Program.Raises.bind (Program.Raises.read _)
    intro c₁
    apply Program.Raises.bind (Program.Raises.check _)
    intro new
    cases new with
    | none => exact Program.Raises.fail (Or.inl rfl)
    | some new =>
        exact Program.Raises.bind
          (anyFrame_carries.writeMem (fun _ => Or.inr rfl) (Or.inr rfl) _ _)
          fun _ => raises_update _

theorem executeRmw_load_error
    (hload : readMem addr (width / 8) profile c = some (.error e, c')) :
    executeRmw inst addr width profile c = some (.error e, c') := by
  unfold executeRmw
  rw [Program.bind_run_error hload]

/-! ## Where the kinds agree -/

/-- Every fault of an atomic is of the kind it counts as. -/
def FaultsAsCounted (profile : Profile) (inst : BitVec 32)
    (instPc nextPc : BitVec 64) (c : Cpu) : Prop :=
  ∀ access e c', atomicAccess inst = some access →
    execute inst instPc nextPc profile c = some (.error e, c') →
      (∀ word, e ≠ .illegalInstruction word) → e.access = some access

/-- A load-reserved is aligned, and the operand of an aligned read-modify-write
can be loaded. -/
def OperandReadable (profile : Profile) (inst : BitVec 32) (c : Cpu) : Prop :=
  ∀ width, amoWidth (funct3 inst) c.xlen = some width →
    (funct7 inst >>> 2 = 0x02 → rs2 inst = 0 →
      (c.rr (rs1 inst)).toNat % (width / 8) = 0) ∧
    (funct7 inst >>> 2 ≠ 0x02 → funct7 inst >>> 2 ≠ 0x03 →
      atomicAccess inst = some .store →
        (c.rr (rs1 inst)).toNat % (width / 8) = 0 →
          ∀ e x, readMem (c.rr (rs1 inst)) (width / 8) profile c ≠
            some (.error e, x))

theorem atomicAccess_cases {access : Access}
    (h : atomicAccess inst = some access) :
    funct7 inst >>> 2 = 0x02 ∧ rs2 inst = 0 ∧ access = .load ∨
      funct7 inst >>> 2 ≠ 0x02 ∧ atomicAccess inst = some .store ∧
        access = .store := by
  have hcases := h
  unfold atomicAccess at hcases
  split at hcases
  · next hlr =>
      split at hcases
      · next hrs2 =>
          obtain rfl := Option.some.inj hcases
          exact Or.inl ⟨hlr, hrs2, rfl⟩
      · cases hcases
  · next hlr =>
      split at hcases
      · obtain rfl := Option.some.inj hcases
        exact Or.inr ⟨hlr, h, rfl⟩
      · cases hcases

theorem executeAmo_misaligned
    (hwidth : amoWidth (funct3 inst) c.xlen = some width)
    (hmisaligned : (c.rr (rs1 inst)).toNat % (width / 8) ≠ 0) :
    executeAmo inst profile c =
      some (.error (.storeAddressMisaligned (c.rr (rs1 inst))), c) := by
  unfold executeAmo
  rw [Program.bind_run_ok (Program.read_run _ _ _)]
  simp only [id_eq, hwidth]
  rw [if_pos hmisaligned]
  rfl

theorem executeAmo_error
    (hrun : executeAmo inst profile c = some (.error e, c'))
    (hlegal : ∀ word, e ≠ .illegalInstruction word) :
    ∃ width, amoWidth (funct3 inst) c.xlen = some width ∧
      ((c.rr (rs1 inst)).toNat % (width / 8) ≠ 0 ∧ e.access = some .store ∨
        (c.rr (rs1 inst)).toNat % (width / 8) = 0 ∧
          atomicOperation inst (c.rr (rs1 inst)) width profile c =
            some (.error e, c')) := by
  cases hwidth : amoWidth (funct3 inst) c.xlen with
  | none =>
      unfold executeAmo at hrun
      rw [Program.bind_run_ok (Program.read_run _ _ _)] at hrun
      simp only [id_eq, hwidth] at hrun
      cases hrun
      exact absurd rfl (hlegal inst)
  | some width =>
      refine ⟨width, rfl, ?_⟩
      by_cases haligned : (c.rr (rs1 inst)).toNat % (width / 8) = 0
      · rw [executeAmo_run hwidth haligned] at hrun
        exact Or.inr ⟨haligned, hrun⟩
      · rw [executeAmo_misaligned hwidth haligned] at hrun
        cases hrun
        exact Or.inl ⟨haligned, rfl⟩

/-- The faults of an atomic are of the kind it counts as, loads for a
load-reserved and stores for all others, exactly where a load-reserved is
aligned and the operand of a read-modify-write can be loaded. -/
theorem faultsAsCounted_iff (profile : Profile) (inst : BitVec 32)
    (hop : (opcode inst).toNat = 0x2f) (instPc nextPc : BitVec 64) (c : Cpu) :
    FaultsAsCounted profile inst instPc nextPc c ↔
      OperandReadable profile inst { c with pc := nextPc } := by
  unfold FaultsAsCounted
  rw [execute_atomic ⟨hop, rfl⟩]
  generalize { c with pc := nextPc } = start
  constructor
  · intro hcounted width hwidth
    constructor
    · intro hlr hrs2
      by_contra hmisaligned
      have hload : atomicAccess inst = some .load := by
        rw [atomicAccess, if_pos hlr, if_pos hrs2]
      have hfault := hcounted .load _ _ hload
        (executeAmo_misaligned hwidth hmisaligned) (fun _ => by simp)
      cases hfault
    · intro hlr hsc hstore haligned e x hread
      have hrun : executeAmo inst profile start = some (.error e, x) := by
        rw [executeAmo_run hwidth haligned, atomicOperation, if_neg hlr,
          if_neg hsc, executeRmw_load_error hread]
      have hload := readMem_access hread
      have hlegal : ∀ word, e ≠ .illegalInstruction word := by
        rintro word rfl
        cases hload
      cases hload.symm.trans (hcounted .store e x hstore hrun hlegal)
  · intro hreadable access e c' haccess hrun hlegal
    obtain ⟨width, hwidth, hcases⟩ := executeAmo_error hrun hlegal
    obtain ⟨hload, hoperand⟩ := hreadable width hwidth
    rcases atomicAccess_cases haccess with
      ⟨hlr, hrs2, rfl⟩ | ⟨hlr, hstore, rfl⟩
    · rcases hcases with ⟨hmisaligned, -⟩ | ⟨-, hrun⟩
      · exact absurd (hload hlr hrs2) hmisaligned
      · rw [atomicOperation, if_pos hlr] at hrun
        exact ((executeLr_faults inst _ width profile start).error
          hrun).2.resolve_left (hlegal inst)
    · rcases hcases with ⟨-, hfault⟩ | ⟨haligned, hrun⟩
      · exact hfault
      rw [atomicOperation, if_neg hlr] at hrun
      by_cases hsc : funct7 inst >>> 2 = 0x03
      · rw [if_pos hsc] at hrun
        exact ((executeSc_faults inst _ width profile start).error
          hrun).2.resolve_left (hlegal inst)
      · rw [if_neg hsc] at hrun
        rcases executeRmw_error hrun with hread | hkind
        · exact absurd hread (hoperand hlr hsc hstore haligned e c')
        · exact hkind.resolve_left (hlegal inst)

/-- An AMOADD.W of an unmapped address is a load fault, and a misaligned LR.W a
store fault. -/
theorem not_faultsAsCounted :
    (execute 0x0000202f DRAM_BASE (DRAM_BASE + 4) .debug blankHart).map
        Prod.fst = some (.error (.loadAccessFault 0)) ∧
      ¬ FaultsAsCounted .debug 0x0000202f DRAM_BASE (DRAM_BASE + 4)
        blankHart ∧
      ¬ FaultsAsCounted .debug 0x1000a02f DRAM_BASE (DRAM_BASE + 4)
        { blankHart with regs := Function.update blankHart.regs 1 1 } := by
  refine ⟨rfl, fun h => ?_, fun h => ?_⟩
  · have hrun := h .store (.loadAccessFault 0) _ (by decide) rfl
      (fun _ => by simp)
    cases hrun
  · have hrun := h .load (.storeAddressMisaligned 1) _ (by decide) rfl
      (fun _ => by simp)
    cases hrun

/-- On the blank hart an SC.W faults as it counts, and an AMOADD.W, whose
operand cannot be loaded, does not. -/
theorem faultsAsCounted_sc :
    FaultsAsCounted .debug 0x1800202f DRAM_BASE (DRAM_BASE + 4) blankHart ∧
      ¬ FaultsAsCounted .debug 0x0000202f DRAM_BASE (DRAM_BASE + 4)
        blankHart := by
  constructor
  · refine (faultsAsCounted_iff .debug 0x1800202f (by decide) _ _ _).mpr ?_
    intro width _
    exact ⟨fun hlr => absurd hlr (by decide),
      fun _ hsc => absurd rfl hsc⟩
  · rw [faultsAsCounted_iff .debug 0x0000202f (by decide)]
    intro hreadable
    exact (hreadable 32 rfl).2 (by decide) (by decide) (by decide) (by decide)
      (.loadAccessFault 0) _ rfl

end Cpu

end Nanoemu
