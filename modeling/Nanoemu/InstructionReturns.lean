import Nanoemu.AccessReturns
import Nanoemu.AddressWidth
import Nanoemu.FloatOrder
import Nanoemu.FloatQuotient
import Nanoemu.FloatRoot
import Nanoemu.FloatToInteger
import Nanoemu.IntegerUnits
import Nanoemu.SelfInterrupt
import Nanoemu.StoreRequests

/-!
# Instructions under overflow checks

The units of the hart and the soft-float never panic.  What is left is the
memory of an instruction: it panics exactly where its load or its store does.
-/

namespace Nanoemu

open CheckedProgram

namespace Cpu

theorem sext_returns (v : BitVec 64) {width : ℕ} (hpos : 0 < width) :
    (sext v width .debug).isSome = true := by
  unfold sext
  split
  · rfl
  · rw [Checked.usub_eq_pure (by omega), pure_bind,
      Checked.shl_eq_pure (by omega), pure_bind,
      Checked.sshr_eq_pure (by omega)]
    rfl

theorem xbits_or (c : Cpu) : c.xbits = 32 ∨ c.xbits = 64 :=
  (xbits_cases c).imp And.right And.right

theorem alu_returns (f3 f7 : BitVec 32) (a b : BitVec 64) {width : ℕ}
    (hwidth : width = 32 ∨ width = 64) :
    (alu f3 f7 a b width .debug).isSome = true := by
  rcases hwidth with rfl | rfl
  · have heval := @alu_eval 32 (by decide) (by decide) .debug 5 rfl f3 f7 a b
    rw [heval]
    rfl
  · have heval := @alu_eval 64 (by decide) (by decide) .debug 6 rfl f3 f7 a b
    rw [heval]
    rfl

theorem muldiv_returns (f3 : BitVec 32) (a b : BitVec 64) {width : ℕ}
    (hwidth : width = 32 ∨ width = 64) :
    (muldiv f3 a b width .debug).isSome = true := by
  rw [muldiv_eval hwidth]
  rfl

section Units

variable {inst : BitVec 32}

theorem illegal_total {α : Type} : (illegal inst : Hart α).Total .debug :=
  Program.Total.fail _

theorem wr_total (r : Fin 32) (v : BitVec 64) : (wr r v).Total .debug :=
  Program.Total.update _

theorem fw_total (r : Fin 32) (v : BitVec 64) : (fw r v).Total .debug :=
  Program.Total.update _

theorem setPc_total (pc : BitVec 64) : (setPc pc).Total .debug :=
  Program.Total.update _

theorem writeUnit_total (v : Option (BitVec 64)) :
    (writeUnit inst v).Total .debug := by
  cases v with
  | none => exact illegal_total
  | some v => exact wr_total _ v

theorem executeOpImm_total : (executeOpImm inst).Total .debug := by
  apply Program.Total.bind (Program.Total.read _)
  intro c
  apply Program.Total.ite illegal_total
  apply Program.Total.ite illegal_total
  refine Program.Total.bind (Program.Total.check ?_) writeUnit_total
  apply alu_returns
  split
  · exact Or.inl rfl
  · exact xbits_or c

theorem executeOp_total : (executeOp inst).Total .debug := by
  apply Program.Total.bind (Program.Total.read _)
  intro c
  apply Program.Total.ite illegal_total
  refine Program.Total.bind (Program.Total.check ?_) writeUnit_total
  have hwidth : (if opcode inst = 0x3b then 32 else c.xbits) = 32 ∨
      (if opcode inst = 0x3b then 32 else c.xbits) = 64 := by
    split
    · exact Or.inl rfl
    · exact xbits_or c
  split
  · exact muldiv_returns _ _ _ hwidth
  · exact alu_returns _ _ _ _ hwidth

theorem rs_returns (c : Cpu) (r : Fin 32) : (c.rs r .debug).isSome = true := by
  apply sext_returns
  rcases xbits_or c with h | h <;> omega

theorem executeJalr_total (nextPc : BitVec 64) :
    (executeJalr inst nextPc).Total .debug := by
  apply Program.Total.bind (Program.Total.read _)
  intro c
  exact Program.Total.bind (wr_total _ _) fun _ => setPc_total _

theorem executeBranch_total (instPc : BitVec 64) :
    (executeBranch inst instPc).Total .debug := by
  apply Program.Total.bind (Program.Total.read _)
  intro c
  apply Program.Total.bind (Program.Total.check (rs_returns c _))
  intro sa
  apply Program.Total.bind (Program.Total.check (rs_returns c _))
  intro sb
  cases branchTaken (funct3 inst) (c.rr (rs1 inst)) (c.rr (rs2 inst)) sa sb with
  | none => exact illegal_total
  | some taken => exact Program.Total.ite (setPc_total _) (Program.Total.pure _)

end Units

/-! ## Floating point -/

section Float

open Fpu

theorem isSome_of_spec {α : Type} {value : Checked α} {P : α → Prop}
    (h : ∃ result, value .debug = some result ∧ P result) :
    (value .debug).isSome = true := by
  obtain ⟨result, hrun, -⟩ := h
  rw [hrun]
  rfl

theorem fpFmt_or {bits : ℕ} {fmt : Fmt} (h : fpFmt bits = some fmt) :
    fmt = S ∨ fmt = D := by
  unfold fpFmt at h
  split at h
  · exact Or.inl (Option.some.inj h).symm
  · exact Or.inr (Option.some.inj h).symm
  · cases h

variable {f : Fmt} (hf : f = S ∨ f = D)

include hf

theorem fpArith_returns (op a b : ℕ) (rm : Rm) :
    (fpArith op f a b rm .debug).isSome = true := by
  have hstandard := standard_of hf
  unfold fpArith
  split
  · exact isSome_of_spec (addOrSub_spec hstandard rm .debug a b false)
  · exact isSome_of_spec (addOrSub_spec hstandard rm .debug a b true)
  · exact isSome_of_spec (mul_spec hstandard rm .debug a b)
  · exact isSome_of_spec (div_spec hstandard rm .debug a b)

theorem sqrt_returns (a : ℕ) (rm : Rm) :
    (Fpu.sqrt f a rm .debug).isSome = true := by
  have hwide : f.sig < f.bias := by
    rcases hf with rfl | rfl <;> decide
  exact isSome_of_spec (sqrt_spec (standard_of hf) hwide rm .debug a)

theorem fpCompare_returns {f3 : BitVec 32} {a b : ℕ}
    {comparison : Checked (Bool × ℕ)}
    (h : fpCompare f3 f a b = some comparison) :
    (comparison .debug).isSome = true := by
  have hstandard := standard_of hf
  unfold fpCompare at h
  split at h
  · obtain rfl := Option.some.inj h
    exact isSome_of_spec (lt_spec hstandard a b .debug true)
  · obtain rfl := Option.some.inj h
    exact isSome_of_spec (lt_spec hstandard a b .debug false)
  · obtain rfl := Option.some.inj h
    exact isSome_of_spec (eq_spec hstandard a b .debug)
  · cases h

theorem classify_returns (a : ℕ) :
    (Fpu.classify f a .debug).isSome = true := by
  obtain ⟨cls, hrun, -⟩ := unpack_spec (standard_of hf) a .debug
  unfold Fpu.classify
  rw [Checked.bind_of_some hrun]
  rfl

omit hf in
theorem fcvtForm_width {r : Fin 32} {xlen : Xlen} {form : ℕ × Bool}
    (h : fcvtForm r xlen = some form) : form.1 = 32 ∨ form.1 = 64 := by
  unfold fcvtForm at h
  split at h
  · cases h
    exact Or.inl rfl
  · cases h
    exact Or.inl rfl
  · split at h
    · cases h
      exact Or.inr rfl
    · cases h
  · split at h
    · cases h
      exact Or.inr rfl
    · cases h
  · cases h

omit hf in
theorem fcvtSource_run (src : BitVec 64) {width : ℕ}
    (hwidth : width = 32 ∨ width = 64) (signed : Bool) :
    ∃ source, fcvtSource src width signed .debug = some source ∧
      source.2 < 2 ^ 64 := by
  unfold fcvtSource
  cases signed with
  | false => exact ⟨_, rfl, (trunc src width).isLt⟩
  | true =>
      obtain ⟨v, hv⟩ := Option.isSome_iff_exists.mp
        (sext_returns src (show 0 < width by omega))
      refine ⟨_, Checked.bind_of_some hv, ?_⟩
      have hlow := v.le_toInt
      have hhigh := v.toInt_lt
      change v.toInt.natAbs < 2 ^ 64
      omega

omit hf in
/-- A result that is written with its flags. -/
theorem writeFp_total {fmt : Fmt} (r : Fin 32) {result : Checked (ℕ × ℕ)}
    (hresult : (result .debug).isSome = true) :
    (Program.check result >>= writeFp fmt r : Hart Unit).Total .debug := by
  apply Program.Total.bind (Program.Total.check hresult)
  intro result
  exact Program.Total.bind (fw_total _ _) fun _ => Program.Total.update _

variable {inst : BitVec 32}

omit hf in
theorem executeFma_total : (executeFma inst).Total .debug := by
  apply Program.Total.bind (Program.Total.read _)
  intro c
  cases hfmt : fpFmt (funct7 inst &&& 0x3).toNat with
  | none => exact illegal_total
  | some fmt =>
      cases c.rounding (funct3 inst) with
      | none => exact illegal_total
      | some rm =>
          have hstandard := standard_of (fpFmt_or hfmt)
          refine Program.Total.ite (writeFp_total _ ?_) illegal_total
          exact isSome_of_spec (fma_spec hstandard rm .debug _ _ _ _ _)

theorem executeFmvX_total : (executeFmvX inst f).Total .debug := by
  apply Program.Total.bind (Program.Total.read _)
  intro c
  apply Program.Total.ite illegal_total
  apply Program.Total.ite
  · exact Program.Total.bind
      (Program.Total.check (sext_returns _ (by decide))) fun v => wr_total _ v
  apply Program.Total.ite (wr_total _ _)
  apply Program.Total.ite
  · exact Program.Total.bind (Program.Total.check (classify_returns hf _))
      fun v => wr_total _ _
  · exact illegal_total

omit hf in
theorem executeFmvF_total : (executeFmvF inst f).Total .debug := by
  apply Program.Total.bind (Program.Total.read _)
  intro c
  apply Program.Total.ite illegal_total
  apply Program.Total.ite (fw_total _ _)
  exact Program.Total.ite (fw_total _ _) illegal_total

theorem executeFpOp_total (rm : Option Rm) :
    (executeFpOp inst f rm).Total .debug := by
  have hstandard := standard_of hf
  apply Program.Total.bind (Program.Total.read _)
  intro c
  dsimp only
  split
  · exact writeFp_total _ (fpArith_returns hf _ _ _ _)
  · exact writeFp_total _ (fpArith_returns hf _ _ _ _)
  · exact writeFp_total _ (fpArith_returns hf _ _ _ _)
  · exact writeFp_total _ (fpArith_returns hf _ _ _ _)
  · exact Program.Total.ite illegal_total
      (writeFp_total _ (sqrt_returns hf _ _))
  · cases fpSign (funct3 inst) f (c.freg f (rs1 inst))
      (c.freg f (rs2 inst)) with
    | none => exact illegal_total
    | some sign => exact fw_total _ _
  · exact Program.Total.ite illegal_total (writeFp_total _
      (isSome_of_spec (minMax_spec hstandard _ _ .debug _)))
  · cases hsource : fpFmt (rs2 inst).val with
    | none => exact illegal_total
    | some source =>
        exact Program.Total.ite illegal_total (writeFp_total _ (isSome_of_spec
          (convert_spec (standard_of (fpFmt_or hsource)) hstandard _ .debug _)))
  · cases hcompare : fpCompare (funct3 inst) f (c.freg f (rs1 inst))
      (c.freg f (rs2 inst)) with
    | none => exact illegal_total
    | some comparison =>
        apply Program.Total.bind
          (Program.Total.check (fpCompare_returns hf hcompare))
        intro result
        exact Program.Total.bind (wr_total _ _) fun _ => Program.Total.update _
  · cases hform : fcvtForm (rs2 inst) c.xlen with
    | none => exact illegal_total
    | some form =>
        have hwidth := fcvtForm_width hform
        apply Program.Total.bind (Program.Total.check (isSome_of_spec
          (toInt_spec hstandard _ hwidth form.2 .debug _)))
        intro result
        apply Program.Total.bind
          (Program.Total.check (sext_returns _ (by omega)))
        intro v
        exact Program.Total.bind (wr_total _ v) fun _ => Program.Total.update _
  · cases hform : fcvtForm (rs2 inst) c.xlen with
    | none => exact illegal_total
    | some form =>
        obtain ⟨source, hrun, hword⟩ := fcvtSource_run (c.rr (rs1 inst))
          (fcvtForm_width hform) form.2
        intro x
        refine Program.returns_check_bind_iff.mpr ⟨source, hrun, ?_⟩
        exact writeFp_total _ (isSome_of_spec
          (fromInt_spec hstandard _ .debug _ hword)) x
  · exact executeFmvX_total hf
  · exact executeFmvF_total
  · exact illegal_total

omit hf in
theorem executeOpFp_total : (executeOpFp inst).Total .debug := by
  apply Program.Total.bind (Program.Total.read _)
  intro c
  apply Program.Total.ite illegal_total
  cases hfmt : fpFmt (funct7 inst &&& 0x3).toNat with
  | none => exact illegal_total
  | some fmt => exact executeFpOp_total (fpFmt_or hfmt) _

end Float

/-! ## Instructions -/

section Instructions

variable {inst : BitVec 32}

theorem executePriv_total : (executePriv inst).Total .debug := by
  apply Program.Total.bind (Program.Total.read _)
  intro c
  apply Program.Total.ite (Program.Total.fail _)
  apply Program.Total.ite (Program.Total.fail _)
  apply Program.Total.ite
  · exact Program.Total.ite illegal_total (Program.Total.update _)
  apply Program.Total.ite
  · exact Program.Total.ite illegal_total (Program.Total.update _)
  apply Program.Total.ite
  · exact Program.Total.ite illegal_total (Program.Total.pure _)
  apply Program.Total.ite
  · exact Program.Total.ite illegal_total (Program.Total.update _)
  · exact illegal_total

theorem executeCsr_total : (executeCsr inst).Total .debug := by
  apply Program.Total.bind (Program.Total.read _)
  intro c
  apply Program.Total.ite illegal_total
  dsimp only
  split
  · exact illegal_total
  · apply Program.Total.ite
    · exact Program.Total.bind (Program.Total.update _) fun _ => wr_total _ _
    · exact wr_total _ _

/-- An instruction that makes no access does not panic. -/
theorem execute_total (hother : ¬ IsAccess inst) (instPc nextPc : BitVec 64) :
    (execute inst instPc nextPc).Total .debug := by
  have hnot : ∀ {op : ℕ}, (opcode inst).toNat = op →
      op ∉ [0x03, 0x07, 0x23, 0x27, 0x2f] := by
    intro op hop hmem
    exact hother (by rwa [IsAccess, hop])
  apply Program.Total.bind (setPc_total nextPc)
  intro _
  split
  · exact wr_total _ _
  · exact wr_total _ _
  · exact Program.Total.bind (wr_total _ _) fun _ => setPc_total _
  · exact Program.Total.ite (executeJalr_total _) illegal_total
  · exact executeBranch_total instPc
  · next hop => exact absurd (by decide) (hnot hop)
  · next hop => exact absurd (by decide) (hnot hop)
  · exact executeOpImm_total
  · exact executeOpImm_total
  · exact executeOp_total
  · exact executeOp_total
  · next hop => exact absurd (by decide) (hnot hop)
  · next hop => exact absurd (by decide) (hnot hop)
  · next hop => exact absurd (by decide) (hnot hop)
  · exact executeFma_total
  · exact executeFma_total
  · exact executeFma_total
  · exact executeFma_total
  · exact executeOpFp_total
  · exact Program.Total.pure _
  · exact Program.Total.ite executePriv_total executeCsr_total
  · exact illegal_total

/-- The instruction loads: a load, a floating-point load, or an atomic other
than SC. -/
def Loads (inst : BitVec 32) : Prop :=
  (opcode inst).toNat = 0x03 ∨ (opcode inst).toNat = 0x07 ∨
    ((opcode inst).toNat = 0x2f ∧ funct7 inst >>> 2 ≠ 0x03)

/-- The load of the instruction is clear, and so is its store once the load is
done. -/
structure InstructionClear (c : Cpu) (inst : BitVec 32) : Prop where
  load : ∀ va size, Loads inst → c.dataAccess inst = some (va, size) →
    c.LoadClear va size
  store : ∀ s, storeRequest .debug inst c = some s →
    s.hart.StoreClear s.va s.size s.value

theorem load_returns_iff {c : Cpu} {va : BitVec 64} {size : ℕ}
    (hsize : Memory.validSize size = true) {rest : BitVec 64 → Hart Unit}
    (hrest : ∀ v, (rest v).Total .debug) :
    (readMem va size >>= rest).Returns .debug c ↔ c.LoadClear va size := by
  rw [Program.returns_bind_iff, readMem_returns_iff hsize]
  exact and_iff_left fun v c' _ => hrest v c'

theorem store_returns_iff {c : Cpu} {va value : BitVec 64} {size : ℕ}
    (hsize : Memory.validSize size = true) {rest : Unit → Hart Unit}
    (hrest : ∀ u, (rest u).Total .debug) :
    (writeMem va size value >>= rest).Returns .debug c ↔
      c.StoreClear va size value := by
  rw [Program.returns_bind_iff, writeMem_returns_iff hsize]
  exact and_iff_left fun u c' _ => hrest u c'

/-- An instruction that only loads. -/
theorem instructionClear_load {c : Cpu} {va : BitVec 64} {size : ℕ}
    (hloads : Loads inst) (haccess : c.dataAccess inst = some (va, size))
    (hstore : storeRequest .debug inst c = none) :
    c.InstructionClear inst ↔ c.LoadClear va size := by
  constructor
  · exact fun h => h.load va size hloads haccess
  · intro h
    refine ⟨fun va' size' _ haccess' => ?_, fun s hs => ?_⟩
    · cases haccess.symm.trans haccess'
      exact h
    · cases hstore.symm.trans hs

/-- An instruction that only stores. -/
theorem instructionClear_store {c : Cpu} {s : StoreRequest}
    (hloads : ¬ Loads inst) (hstore : storeRequest .debug inst c = some s) :
    c.InstructionClear inst ↔ s.hart.StoreClear s.va s.size s.value := by
  constructor
  · exact fun h => h.store s hstore
  · intro h
    refine ⟨fun _ _ h => absurd h hloads, fun s' hs => ?_⟩
    cases hstore.symm.trans hs
    exact h

/-- An instruction that does not get as far as an access. -/
theorem instructionClear_none {c : Cpu}
    (hload : Loads inst → c.dataAccess inst = none)
    (hstore : storeRequest .debug inst c = none) : c.InstructionClear inst := by
  refine ⟨fun _ _ hloads haccess => ?_, fun s hs => ?_⟩
  · cases (hload hloads).symm.trans haccess
  · cases hstore.symm.trans hs

section Access

variable {c : Cpu}

theorem executeLoad_returns_iff (hop : (opcode inst).toNat = 0x03) :
    (executeLoad inst).Returns .debug c ↔ c.InstructionClear inst := by
  have hstore : storeRequest .debug inst c = none := by
    simp [storeRequest, hop]
  rw [executeLoad, Program.returns_read_bind_iff]
  dsimp only [id]
  cases hform : loadForm (funct3 inst) c.xlen with
  | none =>
      refine iff_of_true rfl (instructionClear_none (fun _ => ?_) hstore)
      simp [dataAccess, hop, hform]
  | some form =>
      obtain ⟨hsize, hwidth⟩ := loadForm_valid hform
      rw [instructionClear_load (Or.inl hop) (by
        simp only [dataAccess, hop, hform, Option.map_some]; rfl) hstore]
      refine load_returns_iff hsize fun v => ?_
      exact Program.Total.bind (Program.Total.check (sext_returns v hwidth))
        fun v => wr_total _ v

theorem executeStore_returns_iff (hop : (opcode inst).toNat = 0x23) :
    (executeStore inst).Returns .debug c ↔ c.InstructionClear inst := by
  have hloads : ¬ Loads inst := by
    simp [Loads, hop]
  rw [executeStore, Program.returns_read_bind_iff]
  dsimp only [id]
  cases hsize : storeSize (funct3 inst) c.xlen with
  | none =>
      refine iff_of_true rfl (instructionClear_none (absurd · hloads) ?_)
      simp [storeRequest, hop, hsize]
  | some size =>
      have hstore : storeRequest .debug inst c =
          some ⟨c, c.storeAddr inst, size, c.rr (rs2 inst)⟩ := by
        simp [storeRequest, hop, hsize]
      rw [instructionClear_store hloads hstore]
      exact writeMem_returns_iff (storeSize_valid hsize) _

theorem executeFpLoad_returns_iff (hop : (opcode inst).toNat = 0x07) :
    (executeFpMem inst).Returns .debug c ↔ c.InstructionClear inst := by
  have hstore : storeRequest .debug inst c = none := by
    simp [storeRequest, hop]
  have hother : opcode inst ≠ 0x27 := by
    intro h
    rw [h] at hop
    cases hop
  have hclear : ∀ size, c.floatSize inst = some size →
      (c.InstructionClear inst ↔
        c.LoadClear (trunc (c.rr (rs1 inst) + widen (immI inst)) c.xbits)
          size) := by
    intro size hsize
    apply instructionClear_load (Or.inr (Or.inl hop)) ?_ hstore
    simp only [dataAccess, hop, hsize, Option.map_some]
  have hnone : c.floatSize inst = none → c.InstructionClear inst := by
    intro hsize
    apply instructionClear_none (fun _ => ?_) hstore
    simp only [dataAccess, hop, hsize, Option.map_none]
  rw [executeFpMem, Program.returns_read_bind_iff]
  simp only [id, hother, if_false]
  by_cases hoff : (!c.fpEnabled) = true
  · rw [if_pos hoff]
    exact iff_of_true rfl (hnone (by simp only [floatSize, if_pos hoff]))
  rw [if_neg hoff]
  by_cases hword : funct3 inst = 0x2
  · rw [if_pos hword, hclear 4 (by
      simp only [floatSize, if_neg hoff, if_pos hword])]
    exact load_returns_iff rfl fun v => fw_total _ _
  rw [if_neg hword]
  by_cases hdouble : funct3 inst = 0x3
  · rw [if_pos hdouble, hclear 8 (by
      simp only [floatSize, if_neg hoff, if_neg hword, if_pos hdouble])]
    exact load_returns_iff rfl fun v => fw_total _ _
  · rw [if_neg hdouble]
    exact iff_of_true rfl (hnone (by
      simp only [floatSize, if_neg hoff, if_neg hword, if_neg hdouble]))

theorem executeFpStore_returns_iff (hop : (opcode inst).toNat = 0x27) :
    (executeFpMem inst).Returns .debug c ↔ c.InstructionClear inst := by
  have hloads : ¬ Loads inst := by
    simp [Loads, hop]
  have hsame : opcode inst = 0x27 := BitVec.eq_of_toNat_eq hop
  have hclear : ∀ size, storeRequest .debug inst c =
      some ⟨c, c.storeAddr inst, size, c.fregs (rs2 inst)⟩ →
      (c.InstructionClear inst ↔
        c.StoreClear (c.storeAddr inst) size (c.fregs (rs2 inst))) :=
    fun size hstore => instructionClear_store hloads hstore
  have hnone : storeRequest .debug inst c = none → c.InstructionClear inst :=
    instructionClear_none (absurd · hloads)
  rw [executeFpMem, Program.returns_read_bind_iff]
  simp only [id, hsame, if_true]
  by_cases hoff : (!c.fpEnabled) = true
  · rw [if_pos hoff]
    exact iff_of_true rfl (hnone (by
      simp only [storeRequest, hop, if_pos hoff]))
  rw [if_neg hoff]
  by_cases hword : funct3 inst = 0x2
  · rw [if_pos hword, hclear 4 (by
      simp only [storeRequest, hop, if_neg hoff, if_pos hword])]
    exact writeMem_returns_iff rfl _
  rw [if_neg hword]
  by_cases hdouble : funct3 inst = 0x3
  · rw [if_pos hdouble, hclear 8 (by
      simp only [storeRequest, hop, if_neg hoff, if_neg hword,
        if_pos hdouble])]
    exact writeMem_returns_iff rfl _
  · rw [if_neg hdouble]
    exact iff_of_true rfl (hnone (by
      simp only [storeRequest, hop, if_neg hoff, if_neg hword,
        if_neg hdouble]))

theorem amoOp_returns (op : BitVec 32) (a b : BitVec 64) {width : ℕ}
    (hpos : 0 < width) : (amoOp op a b width .debug).isSome = true := by
  obtain ⟨sb, hsb⟩ := Option.isSome_iff_exists.mp (sext_returns b hpos)
  unfold amoOp
  rw [Checked.bind_of_some hsb]
  rfl

theorem executeRmw_returns_iff {addr : BitVec 64} {width : ℕ}
    (hsize : Memory.validSize (width / 8) = true) (hpos : 0 < width) :
    (executeRmw inst addr width).Returns .debug c ↔
      c.LoadClear addr (width / 8) ∧
        ∀ s, rmwRequest .debug inst addr width c = some s →
          s.hart.StoreClear s.va s.size s.value := by
  rw [← readMem_returns_iff hsize, executeRmw]
  unfold rmwRequest
  have hnothing : ∀ s, (none : Option StoreRequest) = some s →
      s.hart.StoreClear s.va s.size s.value := by
    intro s hs
    cases hs
  rcases hread : readMem addr (width / 8) .debug c with _ | ⟨e | old, y⟩
  · exact iff_of_false
      (Program.not_returns_of_run (Program.bind_run_none hread))
      fun h => Program.not_returns_of_run hread h.1
  · exact iff_of_true (Program.returns_of_run (Program.bind_run_error hread))
      ⟨Program.returns_of_run hread, hnothing⟩
  · obtain ⟨a, ha⟩ := Option.isSome_iff_exists.mp (sext_returns old hpos)
    obtain ⟨new, hnew⟩ := Option.isSome_iff_exists.mp
      (amoOp_returns (funct7 inst >>> 2) a (y.rr (rs2 inst)) hpos)
    rw [and_iff_right (Program.returns_of_run hread), Program.Returns,
      Program.bind_run_ok hread,
      Program.bind_run_ok (Program.check_run_some ha y),
      Program.bind_run_ok (Program.read_run _ _ _), id,
      Program.bind_run_ok (Program.check_run_some hnew y)]
    simp only [Checked.bind_of_some ha, hnew]
    cases new with
    | none => exact iff_of_true rfl hnothing
    | some new =>
        refine (store_returns_iff hsize fun _ => wr_total _ _).trans ?_
        constructor
        · intro h s hs
          cases hs
          exact h
        · exact fun h => h _ rfl

section Atomic

variable {width : ℕ} (h : AtomicAt inst c width)

include h

theorem AtomicAt.dataAccess : c.dataAccess inst =
    if AtomicAccess c inst width then some (c.rr (rs1 inst), width / 8)
    else none := by
  simp only [Cpu.dataAccess, h.atomic, h.legal, Option.bind_some]

theorem AtomicAt.loads_iff : Loads inst ↔ funct7 inst >>> 2 ≠ 0x03 := by
  simp [Loads, h.atomic]

theorem executeLr_returns_iff (hlr : funct7 inst >>> 2 = 0x02) :
    (executeLr inst (c.rr (rs1 inst)) width).Returns .debug c ↔
      c.InstructionClear inst := by
  have hstore : storeRequest .debug inst c = none := by
    rw [h.request, if_pos hlr]
  have hother : funct7 inst >>> 2 ≠ 0x03 := by
    rw [hlr]
    decide
  unfold executeLr
  by_cases hsource : rs2 inst ≠ 0
  · rw [if_pos hsource]
    refine iff_of_true rfl (instructionClear_none (fun _ => ?_) hstore)
    rw [h.dataAccess, if_neg]
    exact fun haccess => hsource (haccess.2.1 hlr)
  · rw [if_neg hsource]
    have haccess : AtomicAccess c inst width :=
      ⟨h.aligned, fun _ => not_not.mp hsource, fun hsc => absurd hsc hother⟩
    have hload : c.dataAccess inst = some (c.rr (rs1 inst), width / 8) := by
      rw [h.dataAccess, if_pos haccess]
    rw [instructionClear_load (h.loads_iff.mpr hother) hload hstore]
    refine load_returns_iff (amoWidth_valid h.legal) fun v => ?_
    have hpos : 0 < width := by
      rcases amoWidth_cases h.legal with rfl | rfl <;> decide
    apply Program.Total.bind (Program.Total.check (sext_returns v hpos))
    intro v
    exact Program.Total.bind (Program.Total.update _) fun _ => wr_total _ v

theorem executeSc_returns_iff (hsc : funct7 inst >>> 2 = 0x03) :
    (executeSc inst (c.rr (rs1 inst)) width).Returns .debug c ↔
      c.InstructionClear inst := by
  have hloads : ¬ Loads inst := fun hloads => h.loads_iff.mp hloads hsc
  have hfinish : ∀ v, (do
      setReservation none
      wr (rd inst) v : Hart Unit).Total .debug := fun v =>
    Program.Total.bind (Program.Total.update _) fun _ => wr_total _ v
  have hrequest := h.request .debug
  rw [if_neg (by rw [hsc]; decide), if_pos hsc] at hrequest
  rw [executeSc, Program.returns_read_bind_iff]
  dsimp only [id]
  by_cases hheld : (c.reservation == some (c.rr (rs1 inst))) = true
  · rw [if_pos hheld] at hrequest ⊢
    rw [instructionClear_store hloads hrequest]
    exact store_returns_iff (amoWidth_valid h.legal) fun _ => hfinish _
  · rw [if_neg hheld] at hrequest ⊢
    exact iff_of_true (hfinish _ c)
      (instructionClear_none (absurd · hloads) hrequest)

theorem executeRmw_clear_iff (hlr : funct7 inst >>> 2 ≠ 0x02)
    (hsc : funct7 inst >>> 2 ≠ 0x03) :
    (executeRmw inst (c.rr (rs1 inst)) width).Returns .debug c ↔
      c.InstructionClear inst := by
  have hpos : 0 < width := by
    rcases amoWidth_cases h.legal with rfl | rfl <;> decide
  have haccess : AtomicAccess c inst width :=
    ⟨h.aligned, fun h => absurd h hlr, fun h => absurd h hsc⟩
  have hload : c.dataAccess inst = some (c.rr (rs1 inst), width / 8) := by
    rw [h.dataAccess, if_pos haccess]
  have hrequest := h.request .debug
  rw [if_neg hlr, if_neg hsc] at hrequest
  rw [executeRmw_returns_iff (amoWidth_valid h.legal) hpos, ← hrequest]
  constructor
  · rintro ⟨hfirst, hthen⟩
    refine ⟨fun va size _ hva => ?_, hthen⟩
    cases hload.symm.trans hva
    exact hfirst
  · exact fun h' => ⟨h'.load _ _ (h.loads_iff.mpr hsc) hload, h'.store⟩

end Atomic

theorem executeAmo_returns_iff (hop : (opcode inst).toNat = 0x2f) :
    (executeAmo inst).Returns .debug c ↔ c.InstructionClear inst := by
  rw [executeAmo, Program.returns_read_bind_iff]
  dsimp only [id]
  cases hwidth : amoWidth (funct3 inst) c.xlen with
  | none =>
      refine iff_of_true rfl (instructionClear_none (fun _ => ?_) ?_)
      · simp [dataAccess, hop, hwidth]
      · simp [storeRequest, hop, atomicRequest, hwidth]
  | some width =>
      dsimp only
      by_cases hodd : (c.rr (rs1 inst)).toNat % (width / 8) ≠ 0
      · rw [if_pos hodd]
        refine iff_of_true rfl (instructionClear_none (fun _ => ?_) ?_)
        · simp [dataAccess, hop, hwidth, AtomicAccess, hodd]
        · simp [storeRequest, hop, atomicRequest, hwidth, hodd]
      have hatomic : AtomicAt inst c width := ⟨hop, hwidth, not_not.mp hodd⟩
      rw [if_neg hodd]
      by_cases hlr : funct7 inst >>> 2 = 0x02
      · rw [if_pos hlr]
        exact executeLr_returns_iff hatomic hlr
      rw [if_neg hlr]
      by_cases hsc : funct7 inst >>> 2 = 0x03
      · rw [if_pos hsc]
        exact executeSc_returns_iff hatomic hsc
      · rw [if_neg hsc]
        exact executeRmw_clear_iff hatomic hlr hsc

end Access

/-- An instruction panics exactly where its load or its store does. -/
theorem execute_returns_iff {c : Cpu} (instPc nextPc : BitVec 64) :
    (execute inst instPc nextPc).Returns .debug c ↔
      InstructionClear { c with pc := nextPc } inst := by
  by_cases haccess : IsAccess inst
  · have hplace : setPc nextPc .debug c =
        some (.ok (), { c with pc := nextPc }) := rfl
    have hmem := haccess
    unfold IsAccess at hmem
    simp only [List.mem_cons, List.not_mem_nil, or_false] at hmem
    rw [execute, Program.Returns, Program.bind_run_ok hplace]
    rcases hmem with hop | hop | hop | hop | hop
    · rw [hop]
      exact executeLoad_returns_iff hop
    · rw [hop]
      exact executeFpLoad_returns_iff hop
    · rw [hop]
      exact executeStore_returns_iff hop
    · rw [hop]
      exact executeFpStore_returns_iff hop
    · rw [hop]
      exact executeAmo_returns_iff hop
  · refine iff_of_true (execute_total haccess instPc nextPc c)
      (instructionClear_none (fun hloads => ?_) (storeRequest_other haccess))
    refine absurd ?_ haccess
    unfold IsAccess
    rcases hloads with hop | hop | ⟨hop, -⟩ <;> rw [hop] <;> decide

end Instructions

end Cpu

end Nanoemu
