import Nanoemu.FloatInstructions

/-!
# The floating-point instructions that answer with an integer

Comparisons, conversions, the class of a pattern and the pattern itself go to
an integer register.  The floating-point registers stay as they are.
-/

namespace Nanoemu

open CheckedProgram

namespace Fpu

/-! ## Classes -/

/-- The bit that FCLASS sets for a pattern. -/
def classOf (f : Fmt) (x : ℕ) : ℕ :=
  match datum f x with
  | .inf => if f.signOf x then 0 else 7
  | .nan signalling => if signalling then 8 else 9
  | .finite y =>
      if y = 0 then if f.signOf x then 3 else 4
      else if y < f.leastNormal then if f.signOf x then 2 else 5
      else if f.signOf x then 1 else 6

end Fpu

inductive FloatTest where
  | less (orEqual : Bool)
  | equal
  | toInt (wide signed : Bool)
  | classify
  | moveOut
deriving DecidableEq, Repr

/-- An instruction of the unit that answers with an integer. -/
structure TestInstr where
  test : FloatTest
  double : Bool
  mode : BitVec 3
  rd : BitVec 5
  rs1 : BitVec 5
  rs2 : BitVec 5
deriving DecidableEq, Repr

namespace FloatTest

def funct5 : FloatTest → BitVec 5
  | .less _ | .equal => 0x14
  | .toInt .. => 0x18
  | .classify | .moveOut => 0x1c

def funct3 (mode : BitVec 3) : FloatTest → BitVec 3
  | .less orEqual => if orEqual then 0 else 1
  | .equal => 2
  | .toInt .. => mode
  | .classify => 1
  | .moveOut => 0

def second (rs2 : BitVec 5) : FloatTest → BitVec 5
  | .less _ | .equal => rs2
  | .toInt wide signed =>
      (if wide then 2 else 0) + (if signed then 0 else 1)
  | .classify | .moveOut => 0

end FloatTest

namespace TestInstr

open Fpu

variable (i : TestInstr)

def word : FloatWord where
  opcode := 0x53
  funct5 := i.test.funct5
  double := i.double
  funct3 := i.test.funct3 i.mode
  rd := i.rd
  rs1 := i.rs1
  rs2 := i.test.second i.rs2

abbrev fmt : Fmt :=
  i.word.fmt

def isWide : Bool :=
  match i.test with
  | .toInt wide _ => wide
  | .moveOut => i.double
  | _ => false

/-- What the instruction answers, and the flags it raises. -/
def Answers (c : Cpu) (rm : Rm) (answer : BitVec 64) (flags : ℕ) : Prop :=
  let a := c.freg i.fmt i.rs1.toFin
  let b := c.freg i.fmt i.rs2.toFin
  match i.test with
  | .less orEqual =>
      ∃ holds, IsOrder i.fmt orEqual a b (holds, flags) ∧
        answer = boolWord holds
  | .equal =>
      ∃ holds, IsEquality i.fmt a b (holds, flags) ∧ answer = boolWord holds
  | .toInt wide signed =>
      let width := if wide then 64 else 32
      ∃ n, IsInteger rm width signed (i.fmt.signOf a) (datum i.fmt a)
          (n, flags) ∧
        answer = (BitVec.ofNat width n).signExtend 64
  | .classify => answer = 1 <<< classOf i.fmt a ∧ flags = 0
  | .moveOut =>
      answer = ((c.fregs i.rs1.toFin).setWidth i.fmt.bits).signExtend 64 ∧
        flags = 0

/-- What the instruction asks of a hart. -/
structure Legal (c : Cpu) (rm : Rm) : Prop where
  enabled : c.fpEnabled = true
  mode : i.test.funct5 = 0x18 → c.rounding (i.mode.setWidth 32) = some rm
  wide : i.isWide = true → c.xlen = .rv64

theorem rd_eq : Nanoemu.rd i.word.encode = i.rd.toFin :=
  i.word.rd_eq

theorem rs1_eq : Nanoemu.rs1 i.word.encode = i.rs1.toFin :=
  i.word.rs1_eq

theorem rs2_eq :
    Nanoemu.rs2 i.word.encode = (i.test.second i.rs2).toFin :=
  i.word.rs2_eq

theorem funct3_eq :
    Nanoemu.funct3 i.word.encode = (i.test.funct3 i.mode).setWidth 32 :=
  i.word.funct3_eq

theorem funct5_eq :
    Nanoemu.funct7 i.word.encode >>> 2 = i.test.funct5.setWidth 32 :=
  i.word.funct5_eq

end TestInstr

namespace Cpu

open Fpu

/-- The answer is in the register, its flags are in `fcsr`, and nothing else
moves but the mark that the unit is dirty. -/
structure AnswerWritten (c : Cpu) (nextPc : BitVec 64) (r : Fin 32)
    (answer : BitVec 64) (flags : ℕ) (c' : Cpu) : Prop where
  answer : r ≠ 0 → c'.rr r = trunc answer c.xbits
  others : ∀ r', r' ≠ r → c'.rr r' = c.rr r'
  flags : c'.csrs.read Csr.FCSR =
    c.csrs.read Csr.FCSR ||| BitVec.ofNat 64 flags
  csrs : CsrFile.FpTouched c.csrs c'.csrs
  frame : c' = { c with pc := nextPc, regs := c'.regs, csrs := c'.csrs }

/-- The instruction does this to the hart. -/
def Resolves (i : TestInstr) (rm : Rm) (profile : Profile)
    (instPc nextPc : BitVec 64) (c : Cpu) : Prop :=
  ∃ answer flags c',
    execute i.word.encode instPc nextPc profile c = some (.ok (), c') ∧
    i.Answers c rm answer flags ∧
    AnswerWritten c nextPc i.rd.toFin answer flags c'

section Answer

variable {i : TestInstr} {c : Cpu} {rm : Rm} {profile : Profile}
  {instPc nextPc : BitVec 64}

theorem setReg_written (c : Cpu) (nextPc : BitVec 64) (r : Fin 32)
    (answer : BitVec 64) :
    AnswerWritten c nextPc r answer 0
      (setReg { c with pc := nextPc } r answer) := by
  have hcsrs : (setReg { c with pc := nextPc } r answer).csrs = c.csrs := by
    unfold setReg
    split <;> rfl
  refine ⟨fun hr => ?_, fun r' hr => ?_, ?_, ?_, ?_⟩
  · rw [setReg_rr, if_pos ⟨rfl, hr⟩]
    rfl
  · rw [setReg_rr, if_neg fun h => hr h.1]
    rfl
  · rw [hcsrs]
    exact BitVec.or_zero.symm
  · rw [hcsrs]
    exact .refl _
  · unfold setReg
    split <;> rfl

theorem AnswerWritten.accrue {c' : Cpu} {r : Fin 32} {answer : BitVec 64}
    (h : AnswerWritten c nextPc r answer 0 c') {flags : ℕ}
    (hflags : flags < 2 ^ 5) :
    AnswerWritten c nextPc r answer flags (c'.setFflags flags) := by
  have hframe := setFflags_frame c' flags
  have hrr : ∀ r', (c'.setFflags flags).rr r' = c'.rr r' := by
    intro r'
    rw [hframe]
    rfl
  refine ⟨fun hr => (hrr r).trans (h.answer hr),
    fun r' hr => (hrr r').trans (h.others r' hr), ?_,
    h.csrs.trans (setFflags_touched c' flags), ?_⟩
  · rw [setFflags_flags c' hflags, h.flags]
    exact congrArg (· ||| _) BitVec.or_zero
  · rw [hframe, h.frame]

/-- It is enough to compute the answer, to write it and to raise the flags. -/
theorem Resolves.of_run {answer : BitVec 64} {flags : ℕ}
    (hexec : execute i.word.encode instPc nextPc profile c =
      (do
        wr (rd i.word.encode) answer
        accrue flags : Hart Unit) profile { c with pc := nextPc })
    (hanswers : i.Answers c rm answer flags) (hflags : flags < 2 ^ 5) :
    Resolves i rm profile instPc nextPc c := by
  have hwrite : wr i.rd.toFin answer profile { c with pc := nextPc } =
      some (.ok (), setReg { c with pc := nextPc } i.rd.toFin answer) := rfl
  refine ⟨answer, flags, _, ?_, hanswers,
    (setReg_written c nextPc _ answer).accrue hflags⟩
  rw [hexec, i.rd_eq, Program.bind_run_ok hwrite, accrue,
    Program.update_run]

end Answer

end Cpu

end Nanoemu
