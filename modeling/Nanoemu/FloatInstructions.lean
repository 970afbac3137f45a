import Nanoemu.FlatInstructions
import Nanoemu.FloatOrder
import Nanoemu.FloatProduct
import Nanoemu.FloatQuotient
import Nanoemu.FloatRoot
import Nanoemu.FloatToInteger
import Nanoemu.FloatingContext

/-!
# The floating-point instructions

An instruction of the unit reads patterns from registers, takes its rounding
mode from its own field or from `fcsr`, and leaves the correctly rounded
pattern in a register and what rounding lost in `fcsr`.
-/

namespace Nanoemu

open CheckedProgram

namespace Fpu

/-- A pattern of the format, with flags that `fcsr` has. -/
structure InRange (f : Fmt) (result : ℕ × ℕ) : Prop where
  bits : result.1 < 2 ^ f.bits
  flags : result.2 < 2 ^ 5

section InRange

variable {f : Fmt} {rm : Rm} {result : ℕ × ℕ}

theorem Fmt.Gives.inRange {sign : Bool} {d : Datum} {raised : List Flag}
    (h : f.Gives sign d raised result) (hraised : flagWord raised < 2 ^ 5) :
    InRange f result :=
  ⟨h.1.lt, h.2 ▸ hraised⟩

theorem Fmt.GivesNan.inRange {raised : List Flag}
    (h : f.GivesNan raised result) (hraised : flagWord raised < 2 ^ 5) :
    InRange f result :=
  ⟨h.1.lt, h.2 ▸ hraised⟩

theorem invalidIf_lt (condition : Bool) :
    flagWord (invalidIf condition) < 2 ^ 5 := by
  cases condition <;> decide

theorem RaisesApart.lt {inexact : Bool} {flags : ℕ}
    (h : RaisesApart (inexactIf inexact) flags) : flags < 2 ^ 5 := by
  rcases h with rfl | rfl
  · cases inexact <;> decide
  · cases inexact <;> decide

theorem Encodes.inRange {sign inexact : Bool} {y : ℚ}
    (h : Encodes f rm sign inexact y result) : InRange f result := by
  rw [Encodes] at h
  split at h
  · exact h.inRange (by decide)
  · exact ⟨h.1.lt, h.2.lt⟩

theorem Correct.inRange {sign : Bool} {x : ℚ} (h : Correct f rm sign x result) :
    InRange f result := by
  obtain ⟨y, -, hencodes⟩ := h
  exact hencodes.inRange

theorem CorrectSum.inRange {sign : Bool} {x : ℚ}
    (h : CorrectSum f rm sign x result) : InRange f result := by
  rw [CorrectSum] at h
  split at h
  · exact h.inRange (by decide)
  · exact h.inRange

theorem CorrectValue.inRange {sign : Bool} {x : ℚ}
    (h : CorrectValue f rm sign x result) : InRange f result := by
  rw [CorrectValue] at h
  split at h
  · exact h.inRange (by decide)
  · exact h.1.inRange

theorem IsSum.inRange {sa sb : Bool} {a b : Datum}
    (h : IsSum f rm sa a sb b result) : InRange f result := by
  cases a with
  | finite x =>
      cases b with
      | finite y => exact CorrectSum.inRange h
      | inf => exact Fmt.Gives.inRange h (by decide)
      | nan signalling => exact Fmt.GivesNan.inRange h (invalidIf_lt _)
  | inf =>
      cases b with
      | finite y => exact Fmt.Gives.inRange h (by decide)
      | inf =>
          rw [IsSum] at h
          split at h
          · exact h.inRange (by decide)
          · exact h.inRange (by decide)
      | nan signalling => exact Fmt.GivesNan.inRange h (invalidIf_lt _)
  | nan signalling =>
      cases b <;> exact Fmt.GivesNan.inRange h (invalidIf_lt _)

theorem IsFma.inRange {sp sc : Bool} {a b c : Datum}
    (h : IsFma f rm sp a b sc c result) : InRange f result := by
  rw [IsFma] at h
  split at h
  · exact h.inRange (by decide)
  · exact h.inRange

theorem IsRounded.inRange {sign : Bool} {exact : Option Datum}
    (h : IsRounded f rm sign exact result) : InRange f result := by
  rcases exact with _ | x | _ | signalling
  · exact Fmt.GivesNan.inRange h (by decide)
  · exact CorrectValue.inRange h
  · exact Fmt.Gives.inRange h (by decide)
  · exact Fmt.GivesNan.inRange h (invalidIf_lt signalling)

theorem IsQuotient.inRange {sign : Bool} {a b : Datum}
    (h : IsQuotient f rm sign a b result) : InRange f result := by
  cases a with
  | finite x =>
      cases b with
      | finite y =>
          rw [IsQuotient] at h
          split at h
          · exact h.inRange
          split at h
          · exact h.inRange (by decide)
          · exact h.inRange (by decide)
      | inf => exact Fmt.Gives.inRange h (by decide)
      | nan signalling => exact Fmt.GivesNan.inRange h (invalidIf_lt _)
  | inf =>
      cases b with
      | finite y => exact Fmt.Gives.inRange h (by decide)
      | inf => exact Fmt.GivesNan.inRange h (by decide)
      | nan signalling => exact Fmt.GivesNan.inRange h (invalidIf_lt _)
  | nan signalling =>
      cases b <;> exact Fmt.GivesNan.inRange h (invalidIf_lt _)

theorem IsRoot.inRange {sign : Bool} {a : Datum}
    (h : IsRoot f rm sign a result) : InRange f result := by
  cases a with
  | finite x =>
      rw [IsRoot] at h
      split at h
      · exact h.inRange (by decide)
      split at h
      · exact h.inRange (by decide)
      · obtain ⟨y, -, hshows, hflags, -⟩ := h
        refine ⟨hshows.lt, ?_⟩
        rcases hflags with hflags | hflags <;> rw [hflags] <;> decide
  | inf =>
      rw [IsRoot] at h
      split at h
      · exact h.inRange (by decide)
      · exact h.inRange (by decide)
  | nan signalling => exact Fmt.GivesNan.inRange h (invalidIf_lt signalling)

theorem IsSelection.inRange (hf : f.Standard) {wantMax : Bool} {a b : ℕ}
    (h : IsSelection f wantMax a b result) : InRange f result := by
  obtain ⟨hflags, hvalue⟩ := h
  have hsmall : result.2 < 2 ^ 5 := by
    rw [hflags]
    exact invalidIf_lt _
  have hone : ∀ x, result.1 = x &&& f.mask → InRange f result := by
    intro x hx
    refine ⟨?_, hsmall⟩
    rw [hx]
    exact (hf.parts_masked x).lt
  cases hfirst : denoted f a <;> cases hsecond : denoted f b <;>
    rw [hfirst, hsecond] at hvalue
  · exact ⟨hvalue.lt, hsmall⟩
  · exact hone b hvalue
  · exact hone a hvalue
  · rcases hvalue with ⟨hvalue, -⟩ | ⟨hvalue, -⟩
    · exact hone a hvalue
    · exact hone b hvalue

end InRange

end Fpu

theorem CsrFile.read_fcsr (f : CsrFile) :
    f.read Csr.FCSR =
      if f.xlen = .rv32 then trunc (f.regs Csr.FCSR) 32
      else f.regs Csr.FCSR := rfl

/-- The flags of an operation join those in `fcsr`. -/
theorem CsrFile.read_fcsr_or {f f' : CsrFile} (hxlen : f'.xlen = f.xlen)
    {flags : ℕ} (hflags : flags < 2 ^ 5)
    (hregs : f'.regs Csr.FCSR = f.read Csr.FCSR ||| BitVec.ofNat 64 flags) :
    f'.read Csr.FCSR = f.read Csr.FCSR ||| BitVec.ofNat 64 flags := by
  rw [CsrFile.read_fcsr f', hregs, hxlen]
  split
  · next hnarrow =>
      have hold : trunc (f.read Csr.FCSR) 32 = f.read Csr.FCSR := by
        rw [CsrFile.read_fcsr, if_pos hnarrow]
        exact trunc_trunc (Or.inl rfl) _
      have hnew : trunc (BitVec.ofNat 64 flags) 32 = BitVec.ofNat 64 flags := by
        rw [trunc_narrow, BitVec.setWidth_ofNat_of_le (by decide)]
        apply BitVec.eq_of_toNat_eq
        rw [BitVec.toNat_setWidth, BitVec.toNat_ofNat, BitVec.toNat_ofNat]
        omega
      calc trunc (f.read Csr.FCSR ||| BitVec.ofNat 64 flags) 32
          = trunc (f.read Csr.FCSR) 32 ||| trunc (BitVec.ofNat 64 flags) 32 :=
            BitVec.and_or_distrib_right
        _ = f.read Csr.FCSR ||| BitVec.ofNat 64 flags := by rw [hold, hnew]
  · rfl

namespace Cpu

open Fpu

/-! ## Registers of the unit -/

theorem box32_high (v : BitVec 64) : box32 v >>> 32 = 0xffffffff := by
  have hlow : (0xffffffff : BitVec 64) >>> 32 = 0#64 := rfl
  rw [box32, BitVec.ushiftRight_or_distrib, BitVec.ushiftRight_and_distrib,
    hlow, BitVec.and_zero, BitVec.or_zero]
  rfl

theorem unbox_box32 (v : BitVec 64) : unbox (box32 v) = v &&& 0xffffffff := by
  have hhigh : (0xffffffff00000000 : BitVec 64) &&& 0xffffffff = 0#64 := rfl
  rw [unbox, if_pos (box32_high v), box32, BitVec.and_or_distrib_right, hhigh,
    BitVec.zero_or, BitVec.and_assoc, BitVec.and_self]

theorem unbox_box32_ofNat {v : ℕ} (hv : v < 2 ^ 32) :
    (unbox (box32 (BitVec.ofNat 64 v))).toNat = v := by
  rw [unbox_box32, BitVec.toNat_and, BitVec.toNat_ofNat,
    Nat.mod_eq_of_lt (hv.trans (by decide))]
  exact (Nat.and_two_pow_sub_one_eq_mod v 32).trans (Nat.mod_eq_of_lt hv)

/-- The pattern is in the register, its flags are in `fcsr`, and nothing else
moves but the mark that the unit is dirty. -/
structure FloatWritten (c : Cpu) (nextPc : BitVec 64) (f : Fmt) (r : Fin 32)
    (result : ℕ × ℕ) (c' : Cpu) : Prop where
  value : c'.freg f r = result.1
  boxed : f = S → c'.fregs r >>> 32 = 0xffffffff
  others : ∀ r', r' ≠ r → c'.fregs r' = c.fregs r'
  flags : c'.csrs.read Csr.FCSR =
    c.csrs.read Csr.FCSR ||| BitVec.ofNat 64 result.2
  dirty : FsDirty c'.csrs
  csrs : CsrFile.FpTouched c.csrs c'.csrs
  frame : c' = { c with pc := nextPc, fregs := c'.fregs, csrs := c'.csrs }

section Write

variable {f : Fmt} {r : Fin 32}

theorem setFflags_fregs (c : Cpu) (flags : ℕ) :
    (c.setFflags flags).fregs = c.fregs := by
  rw [setFflags]
  split <;> rfl

theorem setFflags_frame (c : Cpu) (flags : ℕ) :
    c.setFflags flags = { c with csrs := (c.setFflags flags).csrs } := by
  rw [setFflags]
  split <;> rfl

theorem setFflags_flags (c : Cpu) {flags : ℕ} (hflags : flags < 2 ^ 5) :
    (c.setFflags flags).csrs.read Csr.FCSR =
      c.csrs.read Csr.FCSR ||| BitVec.ofNat 64 flags := by
  by_cases hzero : flags = 0
  · have hregs : (c.setFflags flags).csrs.regs Csr.FCSR =
        c.csrs.regs Csr.FCSR := by
      rw [setFflags, if_neg (not_not_intro hzero)]
      exact CsrFile.force_regs_other _ _ (by decide)
    have hread : (c.setFflags flags).csrs.read Csr.FCSR =
        c.csrs.read Csr.FCSR :=
      CsrFile.read_congr (setFflags_touched c flags).xlen hregs
    rw [hread, hzero]
    exact BitVec.or_zero.symm
  · apply CsrFile.read_fcsr_or (setFflags_touched c flags).xlen hflags
    rw [setFflags, if_pos hzero]
    refine (CsrFile.force_regs_other _ _ (by decide)).trans ?_
    exact CsrFile.force_regs_same _ _ _

theorem setFreg_flags (c : Cpu) (r : Fin 32) (v : BitVec 64) :
    (c.setFreg r v).csrs.read Csr.FCSR = c.csrs.read Csr.FCSR :=
  CsrFile.read_congr rfl (CsrFile.force_regs_other _ _ (by decide))

/-- A pattern reads back from the register that it is written to. -/
theorem freg_written (hf : f = S ∨ f = D) {v : ℕ} (hv : v < 2 ^ f.bits)
    {c' : Cpu} (hregs : c'.fregs r =
      if f = S then box32 (BitVec.ofNat 64 v) else BitVec.ofNat 64 v) :
    c'.freg f r = v ∧ (f = S → c'.fregs r >>> 32 = 0xffffffff) := by
  rw [freg, hregs]
  rcases hf with rfl | rfl
  · exact ⟨unbox_box32_ofNat hv, fun _ => box32_high _⟩
  · have hother : D ≠ S := by decide
    rw [if_neg hother, if_neg hother, BitVec.toNat_ofNat]
    exact ⟨Nat.mod_eq_of_lt hv, fun h => absurd h hother⟩

theorem writeFreg_written (hf : f = S ∨ f = D) {v : ℕ} (hv : v < 2 ^ f.bits)
    (profile : Profile) (c : Cpu) (nextPc : BitVec 64) :
    ∃ c', writeFreg f r v profile { c with pc := nextPc } =
        some (.ok (), c') ∧ FloatWritten c nextPc f r (v, 0) c' := by
  let word := if f = S then box32 (BitVec.ofNat 64 v) else BitVec.ofNat 64 v
  have hregs : (setFreg { c with pc := nextPc } r word).fregs r = word :=
    Function.update_self ..
  obtain ⟨hvalue, hboxed⟩ := freg_written hf hv hregs
  refine ⟨_, rfl, ?_⟩
  refine ⟨hvalue, hboxed, fun r' hr => Function.update_of_ne hr .., ?_,
    dirtyFp_dirty _, dirtyFp_touched _, rfl⟩
  rw [setFreg_flags]
  exact BitVec.or_zero.symm

theorem writeFp_written (hf : f = S ∨ f = D) {result : ℕ × ℕ}
    (hrange : InRange f result) (profile : Profile) (c : Cpu)
    (nextPc : BitVec 64) :
    ∃ c', writeFp f r result profile { c with pc := nextPc } =
        some (.ok (), c') ∧ FloatWritten c nextPc f r result c' := by
  obtain ⟨x, hrun, hwritten⟩ :=
    writeFreg_written (r := r) hf hrange.bits profile c nextPc
  refine ⟨x.setFflags result.2, ?_, ?_⟩
  · rw [writeFp, Program.bind_run_ok hrun]
    rfl
  · have hfregs := setFflags_fregs x result.2
    have hread : (x.setFflags result.2).freg f r = x.freg f r := by
      rw [freg, freg, hfregs]
    refine ⟨hread.trans hwritten.value, fun his => hfregs ▸ hwritten.boxed his,
      fun r' hr => hfregs ▸ hwritten.others r' hr, ?_, setFflags_dirty x _,
      hwritten.csrs.trans (setFflags_touched x _), ?_⟩
    · rw [setFflags_flags x hrange.flags, hwritten.flags]
      exact congrArg (· ||| _) BitVec.or_zero
    · rw [setFflags_frame, hwritten.frame]

end Write

end Cpu

/-! ## Words -/

/-- The fields of an instruction of the unit. -/
structure FloatWord where
  opcode : BitVec 7
  funct5 : BitVec 5
  double : Bool
  funct3 : BitVec 3
  rd : BitVec 5
  rs1 : BitVec 5
  rs2 : BitVec 5
deriving DecidableEq, Repr

namespace FloatWord

open Fpu

variable (w : FloatWord)

def fmt : Fmt :=
  if w.double then D else S

def encode : BitVec 32 :=
  (Rvc.Base.r w.opcode w.funct3
    (w.funct5 ++ (if w.double then 1#2 else 0#2)) w.rd w.rs1 w.rs2).encode

theorem fmt_cases : w.fmt = S ∨ w.fmt = D := by
  unfold fmt
  cases w.double
  · exact Or.inl rfl
  · exact Or.inr rfl

theorem rd_eq : Nanoemu.rd w.encode = w.rd.toFin :=
  Fin.ext (Rvc.Base.rd_encode rfl)

theorem rs1_eq : Nanoemu.rs1 w.encode = w.rs1.toFin :=
  Fin.ext (Rvc.Base.rs1_encode rfl)

theorem rs2_eq : Nanoemu.rs2 w.encode = w.rs2.toFin :=
  Fin.ext (Rvc.Base.rs2_encode rfl)

theorem funct3_eq : Nanoemu.funct3 w.encode = w.funct3.setWidth 32 :=
  Rvc.Base.funct3_encode _ rfl

theorem funct5_eq :
    Nanoemu.funct7 w.encode >>> 2 = w.funct5.setWidth 32 := by
  rw [encode, Rvc.Base.funct7_register, Cpu.funct7_order]

end FloatWord

/-- Where a sign injection takes the sign from. -/
inductive SignRule where
  | copy
  | negate
  | xor
deriving DecidableEq, Repr

def SignRule.eval (rule : SignRule) (own other : Bool) : Bool :=
  match rule with
  | .copy => other
  | .negate => !other
  | .xor => own != other

inductive FloatOp where
  | add
  | sub
  | mul
  | div
  | sqrt
  | fused (negProduct negAddend : Bool)
  | inject (rule : SignRule)
  | minMax (wantMax : Bool)
  /-- From the other format. -/
  | convert
  | fromInt (wide signed : Bool)
  | moveIn
deriving DecidableEq, Repr

/-- An instruction of the unit.  Some operations leave out a source or the
rounding mode. -/
structure FloatInstr where
  op : FloatOp
  double : Bool
  mode : BitVec 3
  rd : BitVec 5
  rs1 : BitVec 5
  rs2 : BitVec 5
  rs3 : BitVec 5
deriving DecidableEq, Repr

namespace FloatOp

open Fpu

def opcode : FloatOp → BitVec 7
  | .fused false false => 0x43
  | .fused false true => 0x47
  | .fused true false => 0x4b
  | .fused true true => 0x4f
  | _ => 0x53

/-- The top five bits of `funct7`, which `fused` has for a register. -/
def funct5 (rs3 : BitVec 5) : FloatOp → BitVec 5
  | .add => 0x00
  | .sub => 0x01
  | .mul => 0x02
  | .div => 0x03
  | .inject _ => 0x04
  | .minMax _ => 0x05
  | .convert => 0x08
  | .sqrt => 0x0b
  | .fromInt .. => 0x1a
  | .moveIn => 0x1e
  | .fused .. => rs3

/-- Whether the result may have to be rounded. -/
def rounds : FloatOp → Bool
  | .inject _ | .minMax _ | .moveIn => false
  | _ => true

def funct3 (mode : BitVec 3) : FloatOp → BitVec 3
  | .inject .copy => 0
  | .inject .negate => 1
  | .inject .xor => 2
  | .minMax wantMax => if wantMax then 1 else 0
  | .moveIn => 0
  | _ => mode

/-- The place of `rs2` holds the source of a conversion instead. -/
def second (double : Bool) (rs2 : BitVec 5) : FloatOp → BitVec 5
  | .sqrt | .moveIn => 0
  | .convert => if double then 0 else 1
  | .fromInt wide signed =>
      (if wide then 2 else 0) + (if signed then 0 else 1)
  | _ => rs2

end FloatOp

/-- The number in the low word or in all of a register. -/
def integerIn (wide signed : Bool) (v : BitVec 64) : ℤ :=
  let word := v.setWidth (if wide then 64 else 32)
  if signed then word.toInt else word.toNat

namespace FloatInstr

open Fpu

variable (i : FloatInstr)

def sourceFmt : Fmt :=
  if i.double then S else D

def word : FloatWord where
  opcode := i.op.opcode
  funct5 := i.op.funct5 i.rs3
  double := i.double
  funct3 := i.op.funct3 i.mode
  rd := i.rd
  rs1 := i.rs1
  rs2 := i.op.second i.double i.rs2

abbrev fmt : Fmt :=
  i.word.fmt

/-- The operands in registers of 64 bits do not all exist on RV32. -/
def isWide : Bool :=
  match i.op with
  | .fromInt wide _ => wide
  | .moveIn => i.double
  | _ => false

/-- What the instruction computes: the correctly rounded value of the exact
result, or the pattern that stands for it. -/
def Yields (c : Cpu) (rm : Rm) (result : ℕ × ℕ) : Prop :=
  let a := c.freg i.fmt i.rs1.toFin
  let b := c.freg i.fmt i.rs2.toFin
  let sa := i.fmt.signOf a
  let sb := i.fmt.signOf b
  match i.op with
  | .add => RoundsSum i.fmt rm sa (datum i.fmt a) sb (datum i.fmt b) result
  | .sub => RoundsSum i.fmt rm sa (datum i.fmt a) (!sb) (datum i.fmt b) result
  | .mul =>
      RoundsExact i.fmt rm (sa != sb) ((datum i.fmt a).mul (datum i.fmt b))
        result
  | .div =>
      RoundsQuotient i.fmt rm (sa != sb) (datum i.fmt a) (datum i.fmt b) result
  | .sqrt => IsRoot i.fmt rm sa (datum i.fmt a) result
  | .fused negProduct negAddend =>
      let addend := c.freg i.fmt i.rs3.toFin
      RoundsFma i.fmt rm ((sa != sb) != negProduct) (datum i.fmt a)
        (datum i.fmt b) (i.fmt.signOf addend != negAddend)
        (datum i.fmt addend) result
  | .inject rule =>
      i.fmt.Parts result.1 (rule.eval sa sb) (i.fmt.fieldOf a)
        (i.fmt.fracOf a) ∧ result.2 = 0
  | .minMax wantMax => IsSelection i.fmt wantMax a b result
  | .convert =>
      let source := c.freg i.sourceFmt i.rs1.toFin
      RoundsExact i.fmt rm (i.sourceFmt.signOf source)
        (some (datum i.sourceFmt source)) result
  | .fromInt wide signed =>
      let n := integerIn wide signed (c.rr i.rs1.toFin)
      RoundsExact i.fmt rm (decide (n < 0)) (some (.finite n.natAbs)) result
  | .moveIn => result = ((c.rr i.rs1.toFin).toNat % 2 ^ i.fmt.bits, 0)

/-- What the instruction asks of a hart. -/
structure Legal (c : Cpu) (rm : Rm) : Prop where
  enabled : c.fpEnabled = true
  mode : i.op.rounds = true → c.rounding (i.mode.setWidth 32) = some rm
  wide : i.isWide = true → c.xlen = .rv64

theorem rd_eq : Nanoemu.rd i.word.encode = i.rd.toFin :=
  i.word.rd_eq

theorem rs1_eq : Nanoemu.rs1 i.word.encode = i.rs1.toFin :=
  i.word.rs1_eq

theorem rs2_eq :
    Nanoemu.rs2 i.word.encode = (i.op.second i.double i.rs2).toFin :=
  i.word.rs2_eq

theorem funct3_eq :
    Nanoemu.funct3 i.word.encode = (i.op.funct3 i.mode).setWidth 32 :=
  i.word.funct3_eq

theorem funct5_eq :
    Nanoemu.funct7 i.word.encode >>> 2 = (i.op.funct5 i.rs3).setWidth 32 :=
  i.word.funct5_eq

variable {i}

theorem Yields.inRange {c : Cpu} {rm : Rm} {result : ℕ × ℕ}
    (h : i.Yields c rm result) : InRange i.fmt result := by
  have hf := i.word.fmt_cases
  obtain ⟨op, double, mode, rd, rs1, rs2, rs3⟩ := i
  cases op with
  | add => exact IsSum.inRange h.sum
  | sub => exact IsSum.inRange h.sum
  | mul => exact IsRounded.inRange h.rounded
  | div => exact IsQuotient.inRange h.quotient
  | sqrt => exact IsRoot.inRange h
  | fused _ _ => exact IsFma.inRange h.fma
  | inject _ =>
      refine ⟨h.1.lt, ?_⟩
      rw [h.2]
      decide
  | minMax _ => exact IsSelection.inRange (standard_of hf) h
  | convert => exact IsRounded.inRange h.rounded
  | fromInt _ _ => exact IsRounded.inRange h.rounded
  | moveIn =>
      rw [show result = _ from h]
      exact ⟨Nat.mod_lt _ (Nat.two_pow_pos _), Nat.two_pow_pos 5⟩

end FloatInstr

namespace Cpu

open Fpu

section Execute

variable {i : FloatInstr} {c : Cpu} {rm : Rm} (profile : Profile)
  (instPc nextPc : BitVec 64)

/-- The instruction does this to the hart. -/
def Computes (i : FloatInstr) (rm : Rm) (profile : Profile)
    (instPc nextPc : BitVec 64) (c : Cpu) : Prop :=
  ∃ result c',
    execute i.word.encode instPc nextPc profile c = some (.ok (), c') ∧
    i.Yields c rm result ∧ FloatWritten c nextPc i.fmt i.rd.toFin result c'

variable {profile} {instPc nextPc}

/-- It is enough to compute the pattern and to write it. -/
theorem Computes.of_run {prog : Checked (ℕ × ℕ)}
    (hexec : execute i.word.encode instPc nextPc profile c =
      (do
        let result ← Program.check prog
        writeFp i.fmt (rd i.word.encode) result : Hart Unit) profile
          { c with pc := nextPc })
    (hspec : ∃ result, prog profile = some result ∧ i.Yields c rm result) :
    Computes i rm profile instPc nextPc c := by
  obtain ⟨result, hrun, hyields⟩ := hspec
  obtain ⟨c', hwrite, hwritten⟩ := writeFp_written (r := i.rd.toFin)
    i.word.fmt_cases hyields.inRange profile c nextPc
  refine ⟨result, c', ?_, hyields, hwritten⟩
  rw [hexec, Program.bind_run_ok (Program.check_run_some hrun _), i.rd_eq,
    hwrite]

end Execute

end Cpu

end Nanoemu
