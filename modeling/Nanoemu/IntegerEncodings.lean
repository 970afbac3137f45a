import Nanoemu.IllegalAccess

/-!
# Legal integer encodings

The full-width and the word instructions share one ALU and one multiplier,
which decide by `funct3` and `funct7` what is legal.  The table below gives
the encodings that RV32IM and RV64IM define under the four integer opcodes.
The shared tables accept all of them, and also the operations that have no
word form.
-/

namespace Nanoemu

open CheckedProgram

inductive IntegerOp where
  | addi | slti | sltiu | xori | ori | andi | slli | srli | srai
  | addiw | slliw | srliw | sraiw
  | add | sub | sll | slt | sltu | xor | srl | sra | or | and
  | mul | mulh | mulhsu | mulhu | div | divu | rem | remu
  | addw | subw | sllw | srlw | sraw
  | mulw | divw | divuw | remw | remuw
deriving DecidableEq, Repr

/-- What the bits above the register fields must be. -/
inductive Selector where
  | any
  | funct6 (value : BitVec 32)
  | funct7 (value : BitVec 32)

structure Encoding where
  opcode : BitVec 32
  funct3 : BitVec 32
  selector : Selector

def Selector.Matches (selector : Selector) (inst : BitVec 32) : Prop :=
  match selector with
  | .any => True
  | .funct6 value => Nanoemu.funct7 inst >>> 1 = value
  | .funct7 value => Nanoemu.funct7 inst = value

def Encoding.Matches (e : Encoding) (inst : BitVec 32) : Prop :=
  Nanoemu.opcode inst = e.opcode ∧ Nanoemu.funct3 inst = e.funct3 ∧
    e.selector.Matches inst

/-- A shift by an immediate has a sixth bit of it at the full width of
RV64. -/
def shiftSelector (xlen : Xlen) (value : BitVec 32) : Selector :=
  match xlen with
  | .rv32 => .funct7 (value <<< 1)
  | .rv64 => .funct6 value

def wordForm (xlen : Xlen) (e : Encoding) : Option Encoding :=
  match xlen with
  | .rv32 => none
  | .rv64 => some e

namespace IntegerOp

def encoding (xlen : Xlen) : IntegerOp → Option Encoding
  | .addi => some ⟨0x13, 0, .any⟩
  | .slti => some ⟨0x13, 2, .any⟩
  | .sltiu => some ⟨0x13, 3, .any⟩
  | .xori => some ⟨0x13, 4, .any⟩
  | .ori => some ⟨0x13, 6, .any⟩
  | .andi => some ⟨0x13, 7, .any⟩
  | .slli => some ⟨0x13, 1, shiftSelector xlen 0x00⟩
  | .srli => some ⟨0x13, 5, shiftSelector xlen 0x00⟩
  | .srai => some ⟨0x13, 5, shiftSelector xlen 0x10⟩
  | .addiw => wordForm xlen ⟨0x1b, 0, .any⟩
  | .slliw => wordForm xlen ⟨0x1b, 1, .funct7 0x00⟩
  | .srliw => wordForm xlen ⟨0x1b, 5, .funct7 0x00⟩
  | .sraiw => wordForm xlen ⟨0x1b, 5, .funct7 0x20⟩
  | .add => some ⟨0x33, 0, .funct7 0x00⟩
  | .sub => some ⟨0x33, 0, .funct7 0x20⟩
  | .sll => some ⟨0x33, 1, .funct7 0x00⟩
  | .slt => some ⟨0x33, 2, .funct7 0x00⟩
  | .sltu => some ⟨0x33, 3, .funct7 0x00⟩
  | .xor => some ⟨0x33, 4, .funct7 0x00⟩
  | .srl => some ⟨0x33, 5, .funct7 0x00⟩
  | .sra => some ⟨0x33, 5, .funct7 0x20⟩
  | .or => some ⟨0x33, 6, .funct7 0x00⟩
  | .and => some ⟨0x33, 7, .funct7 0x00⟩
  | .mul => some ⟨0x33, 0, .funct7 0x01⟩
  | .mulh => some ⟨0x33, 1, .funct7 0x01⟩
  | .mulhsu => some ⟨0x33, 2, .funct7 0x01⟩
  | .mulhu => some ⟨0x33, 3, .funct7 0x01⟩
  | .div => some ⟨0x33, 4, .funct7 0x01⟩
  | .divu => some ⟨0x33, 5, .funct7 0x01⟩
  | .rem => some ⟨0x33, 6, .funct7 0x01⟩
  | .remu => some ⟨0x33, 7, .funct7 0x01⟩
  | .addw => wordForm xlen ⟨0x3b, 0, .funct7 0x00⟩
  | .subw => wordForm xlen ⟨0x3b, 0, .funct7 0x20⟩
  | .sllw => wordForm xlen ⟨0x3b, 1, .funct7 0x00⟩
  | .srlw => wordForm xlen ⟨0x3b, 5, .funct7 0x00⟩
  | .sraw => wordForm xlen ⟨0x3b, 5, .funct7 0x20⟩
  | .mulw => wordForm xlen ⟨0x3b, 0, .funct7 0x01⟩
  | .divw => wordForm xlen ⟨0x3b, 4, .funct7 0x01⟩
  | .divuw => wordForm xlen ⟨0x3b, 5, .funct7 0x01⟩
  | .remw => wordForm xlen ⟨0x3b, 6, .funct7 0x01⟩
  | .remuw => wordForm xlen ⟨0x3b, 7, .funct7 0x01⟩

end IntegerOp

def Defined (xlen : Xlen) (inst : BitVec 32) : Prop :=
  ∃ op e, IntegerOp.encoding xlen op = some e ∧ e.Matches inst

def IsIntegerOpcode (inst : BitVec 32) : Prop :=
  opcode inst = 0x33 ∨ opcode inst = 0x3b ∨ opcode inst = 0x13 ∨
    opcode inst = 0x1b

/-- A comparison, a logical operation or a high half of a product, under an
opcode of the word instructions. -/
def LacksWordForm (inst : BitVec 32) : Prop :=
  opcode inst = 0x1b ∧ funct3 inst ∈ [2, 3, 4, 6, 7] ∨
    opcode inst = 0x3b ∧
      (funct7 inst = 0x00 ∧ funct3 inst ∈ [2, 3, 4, 6, 7] ∨
        funct7 inst = 0x01 ∧ funct3 inst ∈ [1, 2, 3])

namespace Cpu

section Operands

variable {width : ℕ} (hwidth : width = 32 ∨ width = 64) (v : BitVec 64)
  (profile : Profile)

include hwidth

theorem sext_range :
    ∃ word, sext v width profile = some word ∧
      -2 ^ (width - 1) ≤ word.toInt ∧ word.toInt < 2 ^ (width - 1) := by
  rcases hwidth with rfl | rfl
  · refine ⟨(v <<< 32).sshiftRight 32, rfl, ?_, ?_⟩
    · have hlow := BitVec.le_toInt (v <<< 32)
      rw [BitVec.toInt_sshiftRight, Int.shiftRight_eq_div_pow]
      omega
    · have hhigh := BitVec.toInt_lt (x := v <<< 32)
      rw [BitVec.toInt_sshiftRight, Int.shiftRight_eq_div_pow]
      omega
  · exact ⟨v, rfl, BitVec.le_toInt v, BitVec.toInt_lt⟩

omit profile in
theorem trunc_lt : (trunc v width).toNat < 2 ^ width := by
  rcases hwidth with rfl | rfl
  · have hmask : ((1#64 <<< 32) - 1).toNat = 2 ^ 32 - 1 := by decide
    have hand : (v &&& ((1#64 <<< 32) - 1)).toNat < 2 ^ 32 := by
      rw [BitVec.toNat_and, hmask, Nat.and_two_pow_sub_one_eq_mod]
      exact Nat.mod_lt _ (Nat.two_pow_pos 32)
    exact hand
  · exact v.isLt

end Operands

theorem mulHigh_run {wide width : ℕ} {a b : ℤ} (profile : Profile)
    (h : |a * b| < 2 ^ (wide - 1)) :
    ∃ v, mulHigh wide a b width profile = some v := by
  obtain ⟨hlow, hhigh⟩ := abs_lt.mp h
  unfold mulHigh
  rw [Checked.imul_eq_pure hlow.le hhigh, pure_bind]
  exact ⟨_, rfl⟩

theorem mulHighU_run {wide a b width : ℕ} (profile : Profile)
    (h : a * b < 2 ^ wide) : ∃ v, mulHighU wide a b width profile = some v := by
  unfold mulHighU
  rw [Checked.umul_eq_pure h, pure_bind]
  exact ⟨_, rfl⟩

theorem product_lt {a b : ℤ} {j k : ℕ} (ha : |a| ≤ 2 ^ j) (hb : |b| < 2 ^ k) :
    |a * b| < 2 ^ (j + k) := by
  rw [abs_mul, pow_add]
  exact mul_lt_mul_of_le_of_lt_of_nonneg_of_pos ha hb (abs_nonneg b)
    (pow_pos two_pos j)

def AluAccepts (f3 f7 : BitVec 32) : Prop :=
  f7 = 0x00 ∨ f7 = 0x20 ∧ (f3 = 0 ∨ f3 = 5)

theorem funct3_lt (inst : BitVec 32) : (funct3 inst).toNat < 8 := by
  unfold funct3
  rw [BitVec.toNat_and]
  exact lt_of_le_of_lt Nat.and_le_right (by decide)

theorem funct3_cases (inst : BitVec 32) :
    funct3 inst = 0 ∨ funct3 inst = 1 ∨ funct3 inst = 2 ∨ funct3 inst = 3 ∨
      funct3 inst = 4 ∨ funct3 inst = 5 ∨ funct3 inst = 6 ∨
      funct3 inst = 7 := by
  have hlt := funct3_lt inst
  generalize funct3 inst = f3 at hlt
  have hvalue : f3 = BitVec.ofNat 32 f3.toNat := by simp
  generalize f3.toNat = n at hlt hvalue
  subst hvalue
  interval_cases n <;> simp

section Units

variable {width : ℕ} (hwidth : width = 32 ∨ width = 64) (a b : BitVec 64)
  (profile : Profile)

omit profile in
theorem some_map_run {profile : Profile} {value : Checked (BitVec 64)}
    (h : ∃ v, value profile = some v) :
    ∃ v, (some <$> value : Checked (Option (BitVec 64))) profile =
      some (some v) := by
  obtain ⟨v, hv⟩ := h
  refine ⟨v, ?_⟩
  rw [map_eq_pure_bind, Checked.bind_of_some hv]
  rfl

include hwidth

theorem widened_run {value : Checked (Option (BitVec 64))}
    (h : ∃ v, value profile = some (some v)) :
    ∃ v, (value >>= fun v =>
      match v with
      | none => pure none
      | some v => some <$> sext v width) profile = some (some v) := by
  obtain ⟨v, hv⟩ := h
  obtain ⟨word, hword, -⟩ := sext_range hwidth v profile
  rw [Checked.bind_of_some hv]
  exact some_map_run ⟨word, hword⟩

theorem muldiv_run {f3 : BitVec 32} (hf3 : f3.toNat < 8) :
    ∃ v, muldiv f3 a b width profile = some (some v) := by
  obtain ⟨sa, hsa, hsaLow, hsaHigh⟩ := sext_range hwidth a profile
  obtain ⟨sb, hsb, hsbLow, hsbHigh⟩ := sext_range hwidth b profile
  have hua := trunc_lt hwidth a
  have hub := trunc_lt hwidth b
  unfold muldiv
  rw [Checked.bind_of_some hsa, Checked.bind_of_some hsb]
  dsimp only
  have hsaAbs : |sa.toInt| ≤ 2 ^ (width - 1) := abs_le.mpr ⟨hsaLow, hsaHigh.le⟩
  have hsbAbs : |sb.toInt| < 2 ^ width := by
    have hhalf : (2 : ℤ) ^ (width - 1) < 2 ^ width :=
      pow_lt_pow_right₀ one_lt_two (by omega)
    exact abs_lt.mpr ⟨by omega, by omega⟩
  have hubAbs : |((trunc b width).toNat : ℤ)| < 2 ^ width := by
    rw [Nat.abs_cast]
    exact_mod_cast hub
  have hunsigned : (trunc a width).toNat * (trunc b width).toNat <
      2 ^ (width + width) := by
    rw [pow_add]
    exact Nat.mul_lt_mul'' hua hub
  have hsigned := product_lt hsaAbs hsbAbs
  have hmixed := product_lt hsaAbs hubAbs
  have hfinish : ∀ {value : Checked (Option (BitVec 64))},
      (∃ v, value profile = some (some v)) →
      ∃ v, (value >>= fun v =>
        match v with
        | none => pure none
        | some v => some <$> sext v width) profile = some (some v) :=
    widened_run hwidth profile
  generalize f3.toNat = n at hf3
  rcases hwidth with rfl | rfl
  · have hub32 : (trunc b 32).toInt = (trunc b 32).toNat :=
      BitVec.toInt_eq_toNat_of_lt (by omega)
    interval_cases n
    · exact hfinish ⟨_, rfl⟩
    · exact hfinish (some_map_run (mulHigh_run profile
        (hsigned.trans_le (by decide))))
    · exact hfinish (some_map_run (mulHigh_run profile
        (hub32 ▸ hmixed.trans_le (by decide))))
    · exact hfinish (some_map_run (mulHighU_run profile hunsigned))
    · exact hfinish ⟨_, rfl⟩
    · exact hfinish ⟨_, rfl⟩
    · exact hfinish ⟨_, rfl⟩
    · exact hfinish ⟨_, rfl⟩
  · interval_cases n
    · exact hfinish ⟨_, rfl⟩
    · exact hfinish (some_map_run (mulHigh_run profile
        (hsigned.trans_le (by decide))))
    · exact hfinish (some_map_run (mulHigh_run profile
        (hmixed.trans_le (by decide))))
    · exact hfinish (some_map_run (mulHighU_run profile hunsigned))
    · exact hfinish ⟨_, rfl⟩
    · exact hfinish ⟨_, rfl⟩
    · exact hfinish ⟨_, rfl⟩
    · exact hfinish ⟨_, rfl⟩

theorem alu_run (f7 : BitVec 32) (inst : BitVec 32) :
    ∃ v, alu (funct3 inst) f7 a b width profile = some v ∧
      (v.isSome = true ↔ AluAccepts (funct3 inst) f7) := by
  obtain ⟨sa, hsa, -⟩ := sext_range hwidth a profile
  obtain ⟨sb, hsb, -⟩ := sext_range hwidth b profile
  have hshamt : (b &&& BitVec.ofNat 64 (width - 1)).toNat < 64 := by
    rw [BitVec.toNat_and]
    apply lt_of_le_of_lt Nat.and_le_right
    rcases hwidth with rfl | rfl <;> decide
  have hfinish : ∀ {value : Checked (Option (BitVec 64))} {accepts : Prop},
      accepts → (∃ v, value profile = some (some v)) →
      ∃ v, (value >>= fun v =>
        match v with
        | none => pure none
        | some v => some <$> sext v width) profile = some v ∧
          (v.isSome = true ↔ accepts) := by
    intro value accepts haccepts h
    obtain ⟨v, hv⟩ := widened_run hwidth profile h
    exact ⟨_, hv, iff_of_true rfl haccepts⟩
  have hreject : ∀ {accepts : Prop}, ¬ accepts →
      ∃ v, ((pure none : Checked (Option (BitVec 64))) >>= fun v =>
        match v with
        | none => pure none
        | some v => some <$> sext v width) profile = some v ∧
          (v.isSome = true ↔ accepts) :=
    fun hnot => ⟨none, rfl, iff_of_false Bool.false_ne_true hnot⟩
  have hshl := fun x : BitVec 64 => Checked.shl_eq_pure (a := x) hshamt
  have hshr := fun x : BitVec 64 => Checked.shr_eq_pure (a := x) hshamt
  have hsshr := fun x : BitVec 64 => Checked.sshr_eq_pure (a := x) hshamt
  unfold alu
  dsimp only
  rw [Checked.bind_of_some hsa, Checked.bind_of_some hsb]
  simp only [hshl, hshr, hsshr]
  by_cases hzero : f7 = 0x00
  · subst hzero
    rcases funct3_cases inst with h | h | h | h | h | h | h | h <;> rw [h] <;>
      exact hfinish (Or.inl rfl) ⟨_, rfl⟩
  by_cases hsub : f7 = 0x20
  · subst hsub
    have hother : ∀ {f3 : BitVec 32}, f3 ≠ 0 → f3 ≠ 5 →
        ¬ AluAccepts f3 0x20 := by
      intro f3 hadd hshift haccepts
      rcases haccepts with hzero | ⟨-, hadd' | hshift'⟩
      · exact absurd hzero (by decide)
      · exact hadd hadd'
      · exact hshift hshift'
    rcases funct3_cases inst with h | h | h | h | h | h | h | h <;> rw [h]
    · exact hfinish (Or.inr ⟨rfl, Or.inl rfl⟩) ⟨_, rfl⟩
    · exact hreject (hother (by decide) (by decide))
    · exact hreject (hother (by decide) (by decide))
    · exact hreject (hother (by decide) (by decide))
    · exact hreject (hother (by decide) (by decide))
    · exact hfinish (Or.inr ⟨rfl, Or.inr rfl⟩) ⟨_, rfl⟩
    · exact hreject (hother (by decide) (by decide))
    · exact hreject (hother (by decide) (by decide))
  · have hnone : ¬ AluAccepts (funct3 inst) f7 :=
      not_or.mpr ⟨hzero, fun h => hsub h.1⟩
    have hzero' : f7.toNat ≠ 0x00 := fun h => hzero (BitVec.eq_of_toNat_eq h)
    have hsub' : f7.toNat ≠ 0x20 := fun h => hsub (BitVec.eq_of_toNat_eq h)
    generalize f7.toNat = n at hzero' hsub'
    refine ⟨none, ?_, iff_of_false Bool.false_ne_true hnone⟩
    apply congrFun (g := (pure none : Checked (Option (BitVec 64))))
    split <;> first | contradiction | rfl

end Units

def IsShift (inst : BitVec 32) : Prop :=
  funct3 inst = 0x1 ∨ funct3 inst = 0x5

/-- What the shared tables accept under the four opcodes. -/
def Accepts (xlen : Xlen) (inst : BitVec 32) : Prop :=
  if opcode inst = 0x33 ∨ opcode inst = 0x3b then
    (opcode inst = 0x3b → xlen = .rv64) ∧
      (funct7 inst = 0x01 ∨ AluAccepts (funct3 inst) (funct7 inst))
  else
    (opcode inst = 0x1b → xlen = .rv64) ∧
      (IsShift inst →
        (opcode inst = 0x1b ∨ xlen = .rv32 → funct7 inst &&& 1 = 0) ∧
          AluAccepts (funct3 inst) (funct7 inst &&& ~~~1))

/-- The instruction is executed where it is accepted and rejected elsewhere,
before anything is written. -/
def Decides (accepts : Prop) (inst : BitVec 32) (prog : Hart Unit)
    (profile : Profile) (c : Cpu) : Prop :=
  (accepts → ∃ v, prog profile c = some (.ok (), c.setReg (rd inst) v)) ∧
    (¬ accepts →
      prog profile c = some (.error (.illegalInstruction inst), c))

theorem decides_illegal {accepts : Prop} (h : ¬ accepts) (inst : BitVec 32)
    (profile : Profile) (c : Cpu) :
    Decides accepts inst (illegal inst) profile c :=
  ⟨fun haccepts => absurd haccepts h, fun _ => rfl⟩

theorem decides_unit {accepts : Prop} {inst : BitVec 32}
    {unit : Checked (Option (BitVec 64))} {profile : Profile} {c : Cpu}
    (h : ∃ v, unit profile = some v ∧ (v.isSome = true ↔ accepts)) :
    Decides accepts inst
      (Program.check unit >>= fun v => writeUnit inst v) profile c := by
  obtain ⟨v, hv, hiff⟩ := h
  have hrun : (Program.check unit >>= fun v => writeUnit inst v) profile c =
      writeUnit inst v profile c :=
    Program.bind_run_ok (Program.check_run_some hv c)
  unfold Decides
  rw [hrun]
  cases v with
  | none =>
      refine ⟨fun haccepts => ?_, fun _ => rfl⟩
      exact absurd (hiff.mpr haccepts) Bool.false_ne_true
  | some v => exact ⟨fun _ => ⟨v, rfl⟩, fun h => absurd (hiff.mp rfl) h⟩

theorem decides_read {accepts : Prop} {inst : BitVec 32}
    {next : Cpu → Hart Unit} {profile : Profile} {c : Cpu}
    (h : Decides accepts inst (next c) profile c) :
    Decides accepts inst (Program.read id >>= next) profile c :=
  h

theorem xbits_cases (c : Cpu) :
    c.xlen = .rv32 ∧ c.xbits = 32 ∨ c.xlen = .rv64 ∧ c.xbits = 64 := by
  unfold xbits
  cases c.xlen with
  | rv32 => exact Or.inl ⟨rfl, rfl⟩
  | rv64 => exact Or.inr ⟨rfl, rfl⟩

/-- A word instruction is not refused for the width exactly where RV64 has
it. -/
theorem refused_iff (c : Cpu) (word : Prop) :
    ¬ (word ∧ c.xbits = 32) ↔ (word → c.xlen = .rv64) := by
  rcases c.xbits_cases with ⟨hxlen, hxbits⟩ | ⟨hxlen, hxbits⟩
  · simp [hxlen, hxbits]
  · simp [hxlen, hxbits]

theorem executeOp_decides {inst : BitVec 32}
    (hop : opcode inst = 0x33 ∨ opcode inst = 0x3b) (profile : Profile)
    (c : Cpu) :
    Decides (Accepts c.xlen inst) inst (executeOp inst) profile c := by
  have hunit : ∀ {width : ℕ}, width = 32 ∨ width = 64 → ∀ a b : BitVec 64,
      ∃ v, (if funct7 inst = 0x01 then muldiv (funct3 inst) a b width
          else alu (funct3 inst) (funct7 inst) a b width) profile = some v ∧
        (v.isSome = true ↔
          funct7 inst = 0x01 ∨ AluAccepts (funct3 inst) (funct7 inst)) := by
    intro width hwidth a b
    by_cases hmul : funct7 inst = 0x01
    · obtain ⟨v, hv⟩ := muldiv_run hwidth a b profile (funct3_lt inst)
      rw [if_pos hmul]
      exact ⟨_, hv, iff_of_true rfl (Or.inl hmul)⟩
    · rw [if_neg hmul]
      simp only [hmul, false_or]
      exact alu_run hwidth a b profile (funct7 inst) inst
  have hwidth : ∀ {word : Prop} [Decidable word],
      (if word then 32 else c.xbits) = 32 ∨ (if word then 32 else c.xbits) = 64 := by
    intro word _
    split
    · exact Or.inl rfl
    · exact c.xbits_cases.imp And.right And.right
  unfold Accepts
  rw [if_pos hop]
  apply decides_read
  dsimp only
  by_cases hnone : opcode inst = 0x3b ∧ c.xbits = 32
  · rw [if_pos hnone]
    refine decides_illegal (fun h => ?_) inst profile c
    exact (c.refused_iff _).mpr h.1 hnone
  · rw [if_neg hnone]
    simp only [and_iff_right ((c.refused_iff _).mp hnone)]
    exact decides_unit (hunit hwidth _ _)

theorem executeOpImm_decides {inst : BitVec 32}
    (hop : ¬ (opcode inst = 0x33 ∨ opcode inst = 0x3b)) (profile : Profile)
    (c : Cpu) :
    Decides (Accepts c.xlen inst) inst (executeOpImm inst) profile c := by
  unfold Accepts
  rw [if_neg hop]
  apply decides_read
  dsimp only
  by_cases hnone : opcode inst = 0x1b ∧ c.xbits = 32
  · rw [if_pos hnone]
    refine decides_illegal (fun h => ?_) inst profile c
    exact (c.refused_iff _).mpr h.1 hnone
  rw [if_neg hnone]
  simp only [and_iff_right ((c.refused_iff _).mp hnone)]
  have hnarrow : (if opcode inst = 0x1b then 32 else c.xbits) = 32 ↔
      opcode inst = 0x1b ∨ c.xlen = .rv32 := by
    split
    · next hword => simp [hword]
    · next hfull =>
        rcases c.xbits_cases with ⟨hxlen, hxbits⟩ | ⟨hxlen, hxbits⟩
        · simp [hxlen, hxbits]
        · simpa [hxlen, hxbits] using hfull
  have hwidth : (if opcode inst = 0x1b then 32 else c.xbits) = 32 ∨
      (if opcode inst = 0x1b then 32 else c.xbits) = 64 := by
    split
    · exact Or.inl rfl
    · exact c.xbits_cases.imp And.right And.right
  generalize (if opcode inst = 0x1b then 32 else c.xbits) = width at *
  rw [← hnarrow]
  by_cases hshift : IsShift inst
  · have hsel : ∀ {α : Type} (x y : α),
        (if funct3 inst = 0x1 ∨ funct3 inst = 0x5 then x else y) = x :=
      fun x y => if_pos hshift
    simp only [hsel]
    by_cases hbit : width = 32 ∧ funct7 inst &&& 1 ≠ 0
    · rw [if_pos ⟨hshift, hbit⟩]
      refine decides_illegal (fun h => ?_) inst profile c
      exact hbit.2 ((h hshift).1 hbit.1)
    · have hclear : width = 32 → funct7 inst &&& 1 = 0 :=
        fun hword => not_not.mp fun hset => hbit ⟨hword, hset⟩
      rw [if_neg (not_and_of_not_right _ hbit)]
      simp only [forall_prop_of_true hshift, and_iff_right hclear]
      exact decides_unit (alu_run hwidth _ _ profile _ inst)
  · have hsel : ∀ {α : Type} (x y : α),
        (if funct3 inst = 0x1 ∨ funct3 inst = 0x5 then x else y) = y :=
      fun x y => if_neg hshift
    have haccepts : AluAccepts (funct3 inst) 0 ↔ (IsShift inst →
        (width = 32 → funct7 inst &&& 1 = 0) ∧
          AluAccepts (funct3 inst) (funct7 inst &&& ~~~1)) :=
      iff_of_true (Or.inl rfl) fun h => absurd h hshift
    have hplain : ¬ (funct3 inst = 0x1 ∨ funct3 inst = 0x5) := hshift
    simp only [hsel]
    rw [if_neg (not_and_of_not_left _ hplain), ← haccepts]
    exact decides_unit (alu_run hwidth _ _ profile _ inst)

/-! ## Soundness and completeness of the tables -/

theorem and_not_one (x : BitVec 32) : x &&& ~~~1#32 = (x >>> 1) <<< 1 := by
  ext i hi
  rw [BitVec.getElem_and, BitVec.getElem_not]
  cases i with
  | zero => simp
  | succ i => simp [Nat.add_comm 1 i, hi]

theorem Accepts.of_defined {xlen : Xlen} {inst : BitVec 32}
    (h : Defined xlen inst) : Accepts xlen inst := by
  obtain ⟨op, e, hencoding, hop, hf3, hsel⟩ := h
  have hmask := and_not_one (funct7 inst)
  cases xlen <;> cases op <;>
    simp only [IntegerOp.encoding, wordForm, shiftSelector, reduceCtorEq,
      Option.some_inj] at hencoding <;>
    subst hencoding <;>
    simp_all [Accepts, AluAccepts, IsShift, Selector.Matches]

theorem defined_op {xlen : Xlen} {inst : BitVec 32} (hop : opcode inst = 0x33)
    (h : funct7 inst = 0x01 ∨ AluAccepts (funct3 inst) (funct7 inst)) :
    Defined xlen inst := by
  rcases h with h7 | h7 | ⟨h7, h3 | h3⟩
  · rcases funct3_cases inst with h | h | h | h | h | h | h | h
    · exact ⟨.mul, _, rfl, hop, h, h7⟩
    · exact ⟨.mulh, _, rfl, hop, h, h7⟩
    · exact ⟨.mulhsu, _, rfl, hop, h, h7⟩
    · exact ⟨.mulhu, _, rfl, hop, h, h7⟩
    · exact ⟨.div, _, rfl, hop, h, h7⟩
    · exact ⟨.divu, _, rfl, hop, h, h7⟩
    · exact ⟨.rem, _, rfl, hop, h, h7⟩
    · exact ⟨.remu, _, rfl, hop, h, h7⟩
  · rcases funct3_cases inst with h | h | h | h | h | h | h | h
    · exact ⟨.add, _, rfl, hop, h, h7⟩
    · exact ⟨.sll, _, rfl, hop, h, h7⟩
    · exact ⟨.slt, _, rfl, hop, h, h7⟩
    · exact ⟨.sltu, _, rfl, hop, h, h7⟩
    · exact ⟨.xor, _, rfl, hop, h, h7⟩
    · exact ⟨.srl, _, rfl, hop, h, h7⟩
    · exact ⟨.or, _, rfl, hop, h, h7⟩
    · exact ⟨.and, _, rfl, hop, h, h7⟩
  · exact ⟨.sub, _, rfl, hop, h3, h7⟩
  · exact ⟨.sra, _, rfl, hop, h3, h7⟩

theorem defined_opWord {inst : BitVec 32} (hop : opcode inst = 0x3b)
    (h : funct7 inst = 0x01 ∨ AluAccepts (funct3 inst) (funct7 inst)) :
    Defined .rv64 inst ∨ LacksWordForm inst := by
  rcases h with h7 | h7 | ⟨h7, h3 | h3⟩
  · rcases funct3_cases inst with h | h | h | h | h | h | h | h
    · exact Or.inl ⟨.mulw, _, rfl, hop, h, h7⟩
    · exact Or.inr (Or.inr ⟨hop, Or.inr ⟨h7, by simp [h]⟩⟩)
    · exact Or.inr (Or.inr ⟨hop, Or.inr ⟨h7, by simp [h]⟩⟩)
    · exact Or.inr (Or.inr ⟨hop, Or.inr ⟨h7, by simp [h]⟩⟩)
    · exact Or.inl ⟨.divw, _, rfl, hop, h, h7⟩
    · exact Or.inl ⟨.divuw, _, rfl, hop, h, h7⟩
    · exact Or.inl ⟨.remw, _, rfl, hop, h, h7⟩
    · exact Or.inl ⟨.remuw, _, rfl, hop, h, h7⟩
  · rcases funct3_cases inst with h | h | h | h | h | h | h | h
    · exact Or.inl ⟨.addw, _, rfl, hop, h, h7⟩
    · exact Or.inl ⟨.sllw, _, rfl, hop, h, h7⟩
    · exact Or.inr (Or.inr ⟨hop, Or.inl ⟨h7, by simp [h]⟩⟩)
    · exact Or.inr (Or.inr ⟨hop, Or.inl ⟨h7, by simp [h]⟩⟩)
    · exact Or.inr (Or.inr ⟨hop, Or.inl ⟨h7, by simp [h]⟩⟩)
    · exact Or.inl ⟨.srlw, _, rfl, hop, h, h7⟩
    · exact Or.inr (Or.inr ⟨hop, Or.inl ⟨h7, by simp [h]⟩⟩)
    · exact Or.inr (Or.inr ⟨hop, Or.inl ⟨h7, by simp [h]⟩⟩)
  · exact Or.inl ⟨.subw, _, rfl, hop, h3, h7⟩
  · exact Or.inl ⟨.sraw, _, rfl, hop, h3, h7⟩

theorem eq_of_low_clear {x v : BitVec 32} (hlow : x &&& 1 = 0)
    (h : x &&& ~~~1#32 = v) : x = v := by
  have hsplit : x &&& ~~~1#32 ||| x &&& 1#32 = x := by
    rw [← BitVec.and_or_distrib_left, BitVec.or_comm, BitVec.or_not_self,
      BitVec.and_allOnes]
  have hclear : x &&& 1#32 = 0#32 := hlow
  rwa [h, hclear, BitVec.or_zero, eq_comm] at hsplit

theorem shiftRight_of_high {x v : BitVec 32} (h : x &&& ~~~1#32 = v) :
    x >>> 1 = v >>> 1 := by
  rw [← h, and_not_one]
  ext i hi
  by_cases hlast : 1 + i < 32
  · simp [hlast]
  · simp [hlast, BitVec.getLsbD_of_ge x (1 + i) (by omega)]

theorem shift_selectors {inst : BitVec 32} (hshift : IsShift inst)
    (h : AluAccepts (funct3 inst) (funct7 inst &&& ~~~1)) :
    (funct7 inst &&& 1 = 0 →
        funct7 inst = 0x00 ∨ funct7 inst = 0x20 ∧ funct3 inst = 5) ∧
      (funct7 inst >>> 1 = 0x00 ∨
        funct7 inst >>> 1 = 0x10 ∧ funct3 inst = 5) := by
  have hkind : funct7 inst &&& ~~~1 = 0x00 ∨
      funct7 inst &&& ~~~1 = 0x20 ∧ funct3 inst = 5 := by
    rcases h with hzero | ⟨hsub, hzero | hfive⟩
    · exact Or.inl hzero
    · rcases hshift with hone | hfive
      · rw [hone] at hzero
        cases hzero
      · exact Or.inr ⟨hsub, hfive⟩
    · exact Or.inr ⟨hsub, hfive⟩
  constructor
  · exact fun hlow => hkind.imp (eq_of_low_clear hlow)
      (And.imp_left (eq_of_low_clear hlow))
  · exact hkind.imp shiftRight_of_high (And.imp_left shiftRight_of_high)

theorem defined_opImm {xlen : Xlen} {inst : BitVec 32}
    (hop : opcode inst = 0x13)
    (h : IsShift inst → (xlen = .rv32 → funct7 inst &&& 1 = 0) ∧
      AluAccepts (funct3 inst) (funct7 inst &&& ~~~1)) :
    Defined xlen inst := by
  have hselector : IsShift inst → (shiftSelector xlen 0x00).Matches inst ∨
      (shiftSelector xlen 0x10).Matches inst ∧ funct3 inst = 5 := by
    intro hshift
    obtain ⟨hlow, haccepts⟩ := h hshift
    obtain ⟨hnarrow, hfull⟩ := shift_selectors hshift haccepts
    cases xlen with
    | rv32 => exact hnarrow (hlow rfl)
    | rv64 => exact hfull
  rcases funct3_cases inst with h3 | h3 | h3 | h3 | h3 | h3 | h3 | h3
  · exact ⟨.addi, _, rfl, hop, h3, trivial⟩
  · rcases hselector (Or.inl h3) with hsel | ⟨-, hfive⟩
    · exact ⟨.slli, _, rfl, hop, h3, hsel⟩
    · rw [h3] at hfive
      cases hfive
  · exact ⟨.slti, _, rfl, hop, h3, trivial⟩
  · exact ⟨.sltiu, _, rfl, hop, h3, trivial⟩
  · exact ⟨.xori, _, rfl, hop, h3, trivial⟩
  · rcases hselector (Or.inr h3) with hsel | ⟨hsel, -⟩
    · exact ⟨.srli, _, rfl, hop, h3, hsel⟩
    · exact ⟨.srai, _, rfl, hop, h3, hsel⟩
  · exact ⟨.ori, _, rfl, hop, h3, trivial⟩
  · exact ⟨.andi, _, rfl, hop, h3, trivial⟩

theorem defined_opImmWord {inst : BitVec 32} (hop : opcode inst = 0x1b)
    (h : IsShift inst → funct7 inst &&& 1 = 0 ∧
      AluAccepts (funct3 inst) (funct7 inst &&& ~~~1)) :
    Defined .rv64 inst ∨ LacksWordForm inst := by
  have hselector : IsShift inst → funct7 inst = 0x00 ∨
      funct7 inst = 0x20 ∧ funct3 inst = 5 :=
    fun hshift => (shift_selectors hshift (h hshift).2).1 (h hshift).1
  rcases funct3_cases inst with h3 | h3 | h3 | h3 | h3 | h3 | h3 | h3
  · exact Or.inl ⟨.addiw, _, rfl, hop, h3, trivial⟩
  · rcases hselector (Or.inl h3) with hsel | ⟨-, hfive⟩
    · exact Or.inl ⟨.slliw, _, rfl, hop, h3, hsel⟩
    · rw [h3] at hfive
      cases hfive
  · exact Or.inr (Or.inl ⟨hop, by simp [h3]⟩)
  · exact Or.inr (Or.inl ⟨hop, by simp [h3]⟩)
  · exact Or.inr (Or.inl ⟨hop, by simp [h3]⟩)
  · rcases hselector (Or.inr h3) with hsel | ⟨hsel, -⟩
    · exact Or.inl ⟨.srliw, _, rfl, hop, h3, hsel⟩
    · exact Or.inl ⟨.sraiw, _, rfl, hop, h3, hsel⟩
  · exact Or.inr (Or.inl ⟨hop, by simp [h3]⟩)
  · exact Or.inr (Or.inl ⟨hop, by simp [h3]⟩)

theorem defined_of_accepts {xlen : Xlen} {inst : BitVec 32}
    (hop : IsIntegerOpcode inst) (h : Accepts xlen inst) :
    Defined xlen inst ∨ xlen = .rv64 ∧ LacksWordForm inst := by
  unfold Accepts at h
  rcases hop with hop | hop | hop | hop
  · rw [if_pos (Or.inl hop)] at h
    exact Or.inl (defined_op hop h.2)
  · rw [if_pos (Or.inr hop)] at h
    obtain rfl := h.1 hop
    exact (defined_opWord hop h.2).imp_right fun hlacks => ⟨rfl, hlacks⟩
  · simp only [hop, BitVec.reduceEq, or_self, if_false, false_or] at h
    exact Or.inl (defined_opImm hop h.2)
  · simp only [hop, BitVec.reduceEq, or_self, if_false, true_or,
      forall_const] at h
    obtain rfl := h.1
    exact (defined_opImmWord hop h.2).imp_right fun hlacks => ⟨rfl, hlacks⟩

theorem lacksWordForm_accepts {inst : BitVec 32} (h : LacksWordForm inst) :
    Accepts .rv64 inst ∧ ¬ Defined .rv64 inst := by
  constructor
  · rcases h with ⟨hop, h3⟩ | ⟨hop, ⟨h7, -⟩ | ⟨h7, -⟩⟩
    · have hplain : ¬ IsShift inst := by
        unfold IsShift
        rintro (heq | heq) <;> simp [heq] at h3
      simp [Accepts, hop, hplain]
    · simp [Accepts, AluAccepts, hop, h7]
    · simp [Accepts, hop, h7]
  · rintro ⟨op, e, hencoding, hop, hf3, hsel⟩
    cases op <;>
      simp only [IntegerOp.encoding, wordForm, shiftSelector, Option.some_inj]
        at hencoding <;>
      subst hencoding <;>
      simp_all [LacksWordForm, Selector.Matches]

/-! ## Execution -/

/-- What executing an integer instruction must do: the words that encode an
instruction retire, all others are illegal and change no register. -/
def ExecutesDefined (profile : Profile) (inst : BitVec 32)
    (instPc nextPc : BitVec 64) (c : Cpu) : Prop :=
  (Defined c.xlen inst →
    ∃ c', execute inst instPc nextPc profile c = some (.ok (), c')) ∧
  (¬ Defined c.xlen inst →
    execute inst instPc nextPc profile c =
      some (.error (.illegalInstruction inst), { c with pc := nextPc }))

theorem execute_decides {inst : BitVec 32} (hop : IsIntegerOpcode inst)
    (instPc nextPc : BitVec 64) (profile : Profile) (c : Cpu) :
    (Accepts c.xlen inst → ∃ c', execute inst instPc nextPc profile c =
        some (.ok (), c')) ∧
      (¬ Accepts c.xlen inst → execute inst instPc nextPc profile c =
        some (.error (.illegalInstruction inst), { c with pc := nextPc })) := by
  have hunit : ∃ prog : Hart Unit,
      execute inst instPc nextPc = (setPc nextPc >>= fun _ => prog) ∧
        ∀ c : Cpu, Decides (Accepts c.xlen inst) inst prog profile c := by
    unfold execute
    rcases hop with hop | hop | hop | hop
    · refine ⟨executeOp inst, ?_, executeOp_decides (Or.inl hop) profile⟩
      rw [hop]
      rfl
    · refine ⟨executeOp inst, ?_, executeOp_decides (Or.inr hop) profile⟩
      rw [hop]
      rfl
    · refine ⟨executeOpImm inst, ?_, executeOpImm_decides ?_ profile⟩
      · rw [hop]
        rfl
      · rw [hop]
        decide
    · refine ⟨executeOpImm inst, ?_, executeOpImm_decides ?_ profile⟩
      · rw [hop]
        rfl
      · rw [hop]
        decide
  obtain ⟨prog, hexecute, hdecides⟩ := hunit
  obtain ⟨hretires, hrejects⟩ := hdecides { c with pc := nextPc }
  rw [hexecute, setPc, Program.bind_run_ok (Program.update_run _ _ _)]
  refine ⟨fun h => ?_, hrejects⟩
  obtain ⟨v, hrun⟩ := hretires h
  exact ⟨_, hrun⟩

/-- The four integer opcodes are decoded as RV32IM and RV64IM define them,
except for the operations without a word form, which RV64 executes. -/
theorem executesDefined_iff (profile : Profile) (inst : BitVec 32)
    (hop : IsIntegerOpcode inst) (instPc nextPc : BitVec 64) (c : Cpu) :
    ExecutesDefined profile inst instPc nextPc c ↔
      ¬ (c.xlen = .rv64 ∧ LacksWordForm inst) := by
  obtain ⟨hretires, hrejects⟩ := execute_decides hop instPc nextPc profile c
  constructor
  · rintro ⟨-, hillegal⟩ ⟨hxlen, hlacks⟩
    obtain ⟨haccepts, hundefined⟩ := lacksWordForm_accepts hlacks
    rw [← hxlen] at haccepts hundefined
    obtain ⟨c', hrun⟩ := hretires haccepts
    rw [hillegal hundefined] at hrun
    cases hrun
  · intro hnone
    have hiff : Accepts c.xlen inst ↔ Defined c.xlen inst :=
      ⟨fun h => (defined_of_accepts hop h).resolve_right hnone,
        Accepts.of_defined⟩
    exact ⟨fun h => hretires (hiff.mpr h), fun h => hrejects (mt hiff.mp h)⟩

/-- An addition of registers retires at either width. -/
theorem executesDefined_add :
    IsIntegerOpcode 0x00b50533 ∧
      (ExecutesDefined .debug 0x00b50533 DRAM_BASE (DRAM_BASE + 4) blankHart ↔
        ¬ (blankHart.xlen = .rv64 ∧ LacksWordForm 0x00b50533)) :=
  ⟨Or.inl (by decide),
    executesDefined_iff .debug 0x00b50533 (Or.inl (by decide)) DRAM_BASE
      (DRAM_BASE + 4) blankHart⟩

/-- A comparison under the opcode of the word instructions. -/
theorem not_executesDefined_word :
    IsIntegerOpcode 0x0000201b ∧ ¬ ExecutesDefined .debug 0x0000201b DRAM_BASE
      (DRAM_BASE + 4) (programmedHart .rv64 [0x0000201b]) := by
  have hop : IsIntegerOpcode 0x0000201b :=
    Or.inr (Or.inr (Or.inr (by decide)))
  have hlacks : LacksWordForm 0x0000201b :=
    Or.inl ⟨by decide, by decide⟩
  refine ⟨hop, fun hexecutes => ?_⟩
  obtain ⟨haccepts, hundefined⟩ := lacksWordForm_accepts hlacks
  obtain ⟨c', hrun⟩ := (execute_decides hop DRAM_BASE (DRAM_BASE + 4) .debug
    (programmedHart .rv64 [0x0000201b])).1 haccepts
  rw [hexecutes.2 hundefined] at hrun
  cases hrun

end Cpu

end Nanoemu
