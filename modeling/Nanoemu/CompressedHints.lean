import Nanoemu.IntegerEncodings
import Nanoemu.Rvc

/-!
# Hints retire

The base instruction of a hint writes x0, or it writes a register with the
value it has.  On a 32-bit hart only the low half of a register counts, and
such a write clears the rest.
-/

namespace Nanoemu

open CheckedProgram

namespace Rvc

/-- The base instructions of the hints. -/
inductive IdleForm (xlen : Xlen) : Base → Prop where
  | addiZero (imm : BitVec 6) : IdleForm xlen (.addi 0 0 (imm.signExtend 12))
  | addiSame (rd : BitVec 5) : IdleForm xlen (.addi rd rd 0)
  | luiZero (imm : BitVec 6) : IdleForm xlen (.lui 0 (imm.signExtend 20))
  | addZero (rs2 : BitVec 5) : IdleForm xlen (.add 0 0 rs2)
  | shiftZero {base : BitVec 5 → BitVec 5 → BitVec 6 → Base}
      (hbase : base = .slli ∨ base = .srli ∨ base = .srai) (shamt : BitVec 6)
      (hnarrow : xlen = .rv32 → shamt.getLsbD 5 = false) :
      IdleForm xlen (base 0 0 shamt)
  | shiftSame {base : BitVec 5 → BitVec 5 → BitVec 6 → Base}
      (hbase : base = .slli ∨ base = .srli ∨ base = .srai) (rd : BitVec 5) :
      IdleForm xlen (base rd rd 0)

/-- If the encoding is a hint, its instruction has one of the forms. -/
def Meaning.HintsIdle (xlen : Xlen) : Meaning → Prop
  | .hint b => IdleForm xlen b
  | .reserved | .plain _ => True

section Table

variable (xlen : Xlen) (h : BitVec 16)

theorem byWidth_idle {narrow wide : Meaning} (hnarrow : narrow.HintsIdle xlen)
    (hwide : wide.HintsIdle xlen) :
    (byWidth xlen narrow wide).HintsIdle xlen := by
  cases xlen with
  | rv32 => exact hnarrow
  | rv64 => exact hwide

theorem shift_idle (rd : BitVec 5)
    {base : BitVec 5 → BitVec 5 → BitVec 6 → Base}
    (hbase : base = .slli ∨ base = .srli ∨ base = .srai) :
    (shift xlen h rd base).HintsIdle xlen := by
  unfold shift
  split
  · trivial
  · next hnarrow =>
      split
      · next hhint =>
          rcases hhint with rfl | hzero
          · apply IdleForm.shiftZero hbase
            intro hxlen
            exact Bool.eq_false_iff.mpr fun hbit => hnarrow ⟨hxlen, hbit⟩
          · rw [hzero]
            exact .shiftSame hbase rd
      · trivial

theorem meaning0_idle : (meaning0 xlen h).HintsIdle xlen := by
  unfold meaning0
  dsimp only
  split
  · split <;> trivial
  · trivial
  · trivial
  · exact byWidth_idle xlen trivial trivial
  · trivial
  · trivial
  · exact byWidth_idle xlen trivial trivial
  · trivial

theorem meaning1Alu_idle : (meaning1Alu xlen h).HintsIdle xlen := by
  unfold meaning1Alu
  dsimp only
  split
  · exact shift_idle xlen h _ (Or.inr (Or.inl rfl))
  · exact shift_idle xlen h _ (Or.inr (Or.inr rfl))
  · trivial
  · split
    · trivial
    · trivial
    · trivial
    · trivial
    · exact byWidth_idle xlen trivial trivial
    · exact byWidth_idle xlen trivial trivial
    · trivial

theorem meaning1_idle : (meaning1 xlen h).HintsIdle xlen := by
  unfold meaning1
  dsimp only
  split
  · split
    · trivial
    · next hone =>
        by_cases hrd : rd h = 0
        · rw [hrd]
          exact .addiZero (ciImm h)
        · have hzero : ciImm h = 0 := by tauto
          rw [hzero]
          exact .addiSame (rd h)
  · apply byWidth_idle
    · trivial
    · split <;> trivial
  · split
    · exact .addiZero (ciImm h)
    · trivial
  · split
    · split <;> trivial
    · split
      · trivial
      · split
        · exact .luiZero (ciImm h)
        · trivial
  · exact meaning1Alu_idle xlen h
  · trivial
  · trivial
  · trivial

theorem meaning2Move_idle : (meaning2Move h).HintsIdle xlen := by
  unfold meaning2Move
  split
  · split
    · split <;> trivial
    · split
      · exact .addZero (rs2 h)
      · trivial
  · split
    · split <;> trivial
    · split
      · exact .addZero (rs2 h)
      · trivial

theorem meaning2_idle : (meaning2 xlen h).HintsIdle xlen := by
  unfold meaning2
  split
  · exact shift_idle xlen h _ (Or.inl rfl)
  · trivial
  · split <;> trivial
  · apply byWidth_idle
    · trivial
    · split <;> trivial
  · exact meaning2Move_idle xlen h
  · trivial
  · trivial
  · exact byWidth_idle xlen trivial trivial

theorem meaning_idle : (meaning xlen h).HintsIdle xlen := by
  unfold meaning
  split
  · exact meaning0_idle xlen h
  · exact meaning1_idle xlen h
  · exact meaning2_idle xlen h
  · trivial

end Table

end Rvc

/-! ## Values of the low bits -/

section Values

theorem trunc_narrow (v : BitVec 64) :
    trunc v 32 = (v.setWidth 32).setWidth 64 :=
  FieldWords.and_ones (k := 32) v (by decide)

variable {width : ℕ} (hwidth : width = 32 ∨ width = 64) (v : BitVec 64)

include hwidth

theorem trunc_trunc : trunc (trunc v width) width = trunc v width := by
  rcases hwidth with rfl | rfl
  · rw [trunc_narrow, trunc_narrow,
      FieldWords.setWidth_setWidth_of_le (v.setWidth 32) (by decide),
      BitVec.setWidth_eq]
  · rfl

theorem trunc_sext {profile : Profile} {word : BitVec 64}
    (hsext : sext v width profile = some word) :
    trunc word width = trunc v width := by
  rcases hwidth with rfl | rfl
  · obtain rfl : (v <<< 32).sshiftRight 32 = word := Option.some.inj hsext
    have hback : ((v <<< 32).sshiftRight 32).setWidth 32 = v.setWidth 32 := by
      apply BitVec.eq_of_getLsbD_eq
      intro i hi
      have hlow : 32 + i < 64 := by omega
      have hinside : ¬ 64 ≤ i := by omega
      rw [BitVec.getLsbD_setWidth, BitVec.getLsbD_setWidth,
        BitVec.getLsbD_sshiftRight, BitVec.getLsbD_shiftLeft]
      simp [hi, hlow, hinside]
    rw [trunc_narrow, trunc_narrow, hback]
  · cases hsext
    rfl

end Values

namespace Cpu

def SameRegs (c : Cpu) (regs : Fin 32 → BitVec 64) : Prop :=
  ∀ r, trunc (regs r) c.xbits = trunc (c.regs r) c.xbits

theorem SameRegs.refl (c : Cpu) : c.SameRegs c.regs :=
  fun _ => rfl

theorem xbits_valid (c : Cpu) : c.xbits = 32 ∨ c.xbits = 64 :=
  c.xbits_cases.imp And.right And.right

theorem setReg_same (c : Cpu) {r : Fin 32} {v : BitVec 64}
    (hsame : r = 0 ∨ trunc v c.xbits = trunc (c.rr r) c.xbits) :
    ∃ regs, c.SameRegs regs ∧ c.setReg r v = { c with regs := regs } := by
  unfold setReg
  by_cases hr : r = 0
  · rw [if_pos hr]
    exact ⟨c.regs, SameRegs.refl c, rfl⟩
  · rw [if_neg hr]
    refine ⟨_, ?_, rfl⟩
    intro s
    by_cases hs : s = r
    · subst hs
      rw [Function.update_self, trunc_trunc c.xbits_valid,
        hsame.resolve_left hr, rr, if_neg hr]
    · rw [Function.update_of_ne hs]

/-- The hart goes to the next instruction and is otherwise as it was. -/
def Idles (prog : Hart Unit) (nextPc : BitVec 64) (profile : Profile)
    (c : Cpu) : Prop :=
  ∃ regs, c.SameRegs regs ∧
    prog profile c = some (.ok (), { c with pc := nextPc, regs := regs })

section Idle

variable {inst : BitVec 32} (instPc nextPc : BitVec 64) (profile : Profile)
  (c : Cpu)

theorem idles_unit {prog : Hart Unit} {r : Fin 32} {v : BitVec 64}
    (hexecute : execute inst instPc nextPc = (setPc nextPc >>= fun _ => prog))
    (hrun : prog profile { c with pc := nextPc } =
      some (.ok (), ({ c with pc := nextPc } : Cpu).setReg r v))
    (hsame : r = 0 ∨ trunc v c.xbits = trunc (c.rr r) c.xbits) :
    Idles (execute inst instPc nextPc) nextPc profile c := by
  obtain ⟨regs, hregs, hset⟩ :=
    setReg_same ({ c with pc := nextPc } : Cpu) hsame
  refine ⟨regs, hregs, ?_⟩
  rw [hexecute, setPc, Program.bind_run_ok (Program.update_run _ _ _), hrun,
    hset]

theorem idles_zero (hop : opcode inst = 0x13 ∨ opcode inst = 0x33)
    (hrd : rd inst = 0) (haccepts : Accepts c.xlen inst) :
    Idles (execute inst instPc nextPc) nextPc profile c := by
  rcases hop with hop | hop
  · have hother : ¬ (opcode inst = 0x33 ∨ opcode inst = 0x3b) := by
      rw [hop]
      decide
    obtain ⟨v, hrun⟩ := (executeOpImm_decides hother profile
      { c with pc := nextPc }).1 haccepts
    refine idles_unit instPc nextPc profile c ?_ hrun (Or.inl hrd)
    unfold execute
    rw [hop]
    rfl
  · obtain ⟨v, hrun⟩ := (executeOp_decides (Or.inl hop) profile
      { c with pc := nextPc }).1 haccepts
    refine idles_unit instPc nextPc profile c ?_ hrun (Or.inl hrd)
    unfold execute
    rw [hop]
    rfl

def IsZeroForm (f3 f7 : BitVec 32) : Prop :=
  f3 = 0 ∧ f7 = 0 ∨ f3 = 1 ∧ f7 = 0 ∨ f3 = 5 ∧ f7 = 0 ∨ f3 = 5 ∧ f7 = 0x20

theorem alu_zero {f3 f7 : BitVec 32} (hform : IsZeroForm f3 f7)
    {width : ℕ} (hwidth : width = 32 ∨ width = 64) (a : BitVec 64) :
    ∃ v, alu f3 f7 a 0#64 width profile = some (some v) ∧
      trunc v width = trunc a width := by
  obtain ⟨sa, hsa, -⟩ := sext_range hwidth a profile
  obtain ⟨sb, hsb, -⟩ := sext_range hwidth 0#64 profile
  -- Whatever the unit computes is sign-extended before it is returned.
  have hfinish : ∀ x : BitVec 64, trunc x width = trunc a width →
      ∃ v, (some <$> sext x width : Checked (Option (BitVec 64))) profile =
          some (some v) ∧ trunc v width = trunc a width := by
    intro x hx
    obtain ⟨word, hword, -⟩ := sext_range hwidth x profile
    refine ⟨word, ?_, (trunc_sext hwidth x hword).trans hx⟩
    rw [map_eq_pure_bind, Checked.bind_of_some hword]
    rfl
  have hshamt : (0#64 &&& BitVec.ofNat 64 (width - 1)).toNat = 0 := by
    rw [BitVec.zero_and]
    rfl
  unfold alu
  dsimp only
  rw [Checked.bind_of_some hsa, Checked.bind_of_some hsb]
  simp only [hshamt]
  rcases hform with ⟨rfl, rfl⟩ | ⟨rfl, rfl⟩ | ⟨rfl, rfl⟩ | ⟨rfl, rfl⟩
  · exact hfinish (a + 0#64) (by rw [BitVec.add_zero])
  · exact hfinish (a <<< 0) (by rw [BitVec.shiftLeft_zero])
  · exact hfinish (trunc a width >>> 0)
      (by rw [BitVec.ushiftRight_zero, trunc_trunc hwidth])
  · refine hfinish (sa.sshiftRight 0) ?_
    rw [BitVec.sshiftRight_zero]
    exact trunc_sext hwidth a hsa

/-- An instruction that adds zero to its own destination, or shifts it by
zero. -/
structure ZeroOperand (inst : BitVec 32) : Prop where
  opcode : opcode inst = 0x13
  source : rs1 inst = rd inst
  clear : funct7 inst &&& 1 = 0
  form : funct3 inst = 0 ∧ immI inst = 0 ∨
    (funct3 inst = 1 ∨ funct3 inst = 5) ∧ (inst >>> 20) &&& 0x3f = 0 ∧
      IsZeroForm (funct3 inst) (funct7 inst &&& ~~~1)

theorem idles_same (hzero : ZeroOperand inst) :
    Idles (execute inst instPc nextPc) nextPc profile c := by
  have hop := hzero.opcode
  have hexecute : execute inst instPc nextPc =
      (setPc nextPc >>= fun _ => executeOpImm inst) := by
    unfold execute
    rw [hop]
    rfl
  have hword : ¬ opcode inst = 0x1b := by
    rw [hop]
    decide
  obtain ⟨b, sel, hb, hsel, hform⟩ : ∃ b sel,
      (if funct3 inst = 0x1 ∨ funct3 inst = 0x5 then
        ((inst >>> 20) &&& 0x3f).setWidth 64 else widen (immI inst)) = b ∧
      (if funct3 inst = 0x1 ∨ funct3 inst = 0x5 then funct7 inst &&& ~~~1
        else 0) = sel ∧ b = 0 ∧ IsZeroForm (funct3 inst) sel := by
    refine ⟨_, _, rfl, rfl, ?_⟩
    rcases hzero.form with ⟨hf3, himm⟩ | ⟨hf3, hshamt, hform⟩
    · have hplain : ¬ (funct3 inst = 0x1 ∨ funct3 inst = 0x5) := by
        rw [hf3]
        decide
      rw [if_neg hplain, if_neg hplain, himm, hf3]
      exact ⟨rfl, Or.inl ⟨rfl, rfl⟩⟩
    · rw [if_pos hf3, if_pos hf3, hshamt]
      exact ⟨rfl, hform⟩
  obtain ⟨rfl, hform⟩ := hform
  obtain ⟨v, halu, hv⟩ := alu_zero profile hform c.xbits_valid (c.rr (rs1 inst))
  refine idles_unit instPc nextPc profile c (r := rd inst) (v := v) hexecute ?_
    (Or.inr ?_)
  · unfold executeOpImm
    rw [Program.bind_run_ok (Program.read_run _ _ _)]
    dsimp only
    rw [if_neg (not_and_of_not_left _ hword), if_neg fun h => h.2.2 hzero.clear,
      if_neg hword, hb, hsel]
    exact (Program.bind_run_ok (Program.check_run_some halu _)).trans rfl
  · rw [hv, hzero.source]

/-- The fields of the hints are few enough to be run through. -/
theorem addiZero_fields : ∀ imm : BitVec 6,
    let inst := (Rvc.Base.addi 0 0 (imm.signExtend 12)).encode
    opcode inst = 0x13 ∧ rd inst = 0 ∧ funct3 inst = 0 := by
  decide

theorem addiSame_fields : ∀ r : BitVec 5,
    let inst := (Rvc.Base.addi r r 0).encode
    opcode inst = 0x13 ∧ rs1 inst = rd inst ∧ funct7 inst &&& 1 = 0 ∧
      funct3 inst = 0 ∧ immI inst = 0 := by
  decide

theorem luiZero_fields : ∀ imm : BitVec 6,
    let inst := (Rvc.Base.lui 0 (imm.signExtend 20)).encode
    opcode inst = 0x37 ∧ rd inst = 0 := by
  decide

theorem addZero_fields : ∀ r : BitVec 5,
    let inst := (Rvc.Base.add 0 0 r).encode
    opcode inst = 0x33 ∧ rd inst = 0 ∧ funct7 inst = 0 := by
  decide

theorem shiftZero_fields {base : BitVec 5 → BitVec 5 → BitVec 6 → Rvc.Base}
    (hbase : base = .slli ∨ base = .srli ∨ base = .srai) :
    ∀ shamt : BitVec 6,
    let inst := (base 0 0 shamt).encode
    opcode inst = 0x13 ∧ rd inst = 0 ∧
      (shamt.getLsbD 5 = false → funct7 inst &&& 1 = 0) ∧
      (funct3 inst = 1 ∧ funct7 inst &&& ~~~1 = 0 ∨
        funct3 inst = 5 ∧ (funct7 inst &&& ~~~1 = 0 ∨
          funct7 inst &&& ~~~1 = 0x20)) := by
  rcases hbase with rfl | rfl | rfl <;> decide

theorem shiftSame_fields {base : BitVec 5 → BitVec 5 → BitVec 6 → Rvc.Base}
    (hbase : base = .slli ∨ base = .srli ∨ base = .srai) :
    ∀ r : BitVec 5,
    let inst := (base r r 0).encode
    opcode inst = 0x13 ∧ rs1 inst = rd inst ∧ funct7 inst &&& 1 = 0 ∧
      (inst >>> 20) &&& 0x3f = 0 ∧
      (funct3 inst = 1 ∧ funct7 inst &&& ~~~1 = 0 ∨
        funct3 inst = 5 ∧ (funct7 inst &&& ~~~1 = 0 ∨
          funct7 inst &&& ~~~1 = 0x20)) := by
  rcases hbase with rfl | rfl | rfl <;> decide

theorem idleForm_idles {b : Rvc.Base} (hform : Rvc.IdleForm c.xlen b) :
    Idles (execute b.encode instPc nextPc) nextPc profile c := by
  cases hform with
  | addiZero imm =>
      obtain ⟨hop, hrd, hf3⟩ := addiZero_fields imm
      apply idles_zero instPc nextPc profile c (Or.inl hop) hrd
      unfold Accepts IsShift
      rw [hop, hf3]
      simp
  | addiSame r =>
      obtain ⟨hop, hsource, hclear, hf3, himm⟩ := addiSame_fields r
      exact idles_same instPc nextPc profile c
        ⟨hop, hsource, hclear, Or.inl ⟨hf3, himm⟩⟩
  | luiZero imm =>
      obtain ⟨hop, hrd⟩ := luiZero_fields imm
      have hexecute : execute (Rvc.Base.lui 0 (imm.signExtend 20)).encode
          instPc nextPc = (setPc nextPc >>= fun _ =>
            wr (rd (Rvc.Base.lui 0 (imm.signExtend 20)).encode)
              (widen (immU (Rvc.Base.lui 0 (imm.signExtend 20)).encode))) := by
        unfold execute
        rw [hop]
        rfl
      exact idles_unit instPc nextPc profile c hexecute rfl (Or.inl hrd)
  | addZero r =>
      obtain ⟨hop, hrd, hf7⟩ := addZero_fields r
      apply idles_zero instPc nextPc profile c (Or.inr hop) hrd
      unfold Accepts
      rw [hop, hf7]
      simp [AluAccepts]
  | shiftZero hbase shamt hnarrow =>
      obtain ⟨hop, hrd, hclear, hf3⟩ := shiftZero_fields hbase shamt
      apply idles_zero instPc nextPc profile c (Or.inl hop) hrd
      have hword := ne_of_eq_of_ne hop (by decide : (0x13#32) ≠ 0x1b#32)
      unfold Accepts
      rw [if_neg (by rw [hop]; decide)]
      refine ⟨fun h => absurd h hword, fun _ => ⟨fun h => ?_, ?_⟩⟩
      · exact hclear (hnarrow (h.resolve_left hword))
      · rcases hf3 with ⟨-, hf7⟩ | ⟨hf3, hf7 | hf7⟩
        · exact Or.inl hf7
        · exact Or.inl hf7
        · exact Or.inr ⟨hf7, Or.inr hf3⟩
  | shiftSame hbase r =>
      obtain ⟨hop, hsource, hclear, hshamt, hf3⟩ := shiftSame_fields hbase r
      apply idles_same instPc nextPc profile c
      refine ⟨hop, hsource, hclear, Or.inr ⟨?_, hshamt, ?_⟩⟩
      · exact hf3.imp And.left And.left
      · unfold IsZeroForm
        tauto

theorem hint_idles {h : BitVec 16} {b : Rvc.Base}
    (hmeaning : Rvc.meaning c.xlen h = .hint b) :
    Idles (execute b.encode instPc nextPc) nextPc profile c := by
  have hform := Rvc.meaning_idle c.xlen h
  rw [hmeaning] at hform
  exact idleForm_idles instPc nextPc profile c hform

end Idle

end Cpu

end Nanoemu
