import Nanoemu.AmoEffects
import Nanoemu.IntegerUnits
import Nanoemu.Rvc

/-!
# The flat machine

RV32IMAC and RV64IMAC as the manual has them: a pc, thirty-two registers, one
block of memory and a reservation in it, without privilege, translation or
devices.  An instruction is given by what it names and is found in memory by
its encoding, in a word or in a halfword.  The machine is stuck where there is
no memory for what it does, and at what it does not know.
-/

namespace Nanoemu

namespace Flat

/-- The condition of a branch. -/
inductive Cond where
  | eq | ne | lt | ge | ltu | geu
deriving DecidableEq, Repr

def Cond.funct3 : Cond → BitVec 3
  | .eq => 0
  | .ne => 1
  | .lt => 4
  | .ge => 5
  | .ltu => 6
  | .geu => 7

def Cond.holds {w : ℕ} (cond : Cond) (a b : BitVec w) : Bool :=
  match cond with
  | .eq => a == b
  | .ne => a != b
  | .lt => decide (a.toInt < b.toInt)
  | .ge => decide (b.toInt ≤ a.toInt)
  | .ltu => decide (a.toNat < b.toNat)
  | .geu => decide (b.toNat ≤ a.toNat)

inductive Load where
  | lb | lh | lw | ld | lbu | lhu | lwu
deriving DecidableEq, Repr

namespace Load

def funct3 : Load → BitVec 3
  | lb => 0
  | lh => 1
  | lw => 2
  | ld => 3
  | lbu => 4
  | lhu => 5
  | lwu => 6

/-- In bytes. -/
def size : Load → ℕ
  | lb | lbu => 1
  | lh | lhu => 2
  | lw | lwu => 4
  | ld => 8

/-- Where the sign of the value is, in bits; an unsigned value has none. -/
def width : Load → ℕ
  | lb => 8
  | lh => 16
  | lw => 32
  | ld | lbu | lhu | lwu => 64

/-- The register value of the bytes that were read. -/
def extend (form : Load) (w : ℕ) (v : BitVec 64) : BitVec w :=
  match form with
  | lb => (v.setWidth 8).signExtend w
  | lh => (v.setWidth 16).signExtend w
  | lw => (v.setWidth 32).signExtend w
  | ld | lbu | lhu | lwu => v.setWidth w

/-- The two forms that RV32 does not have. -/
def IsWide (form : Load) : Prop := form = ld ∨ form = lwu

end Load

inductive Store where
  | sb | sh | sw | sd
deriving DecidableEq, Repr

namespace Store

def funct3 : Store → BitVec 3
  | sb => 0
  | sh => 1
  | sw => 2
  | sd => 3

def size : Store → ℕ
  | sb => 1
  | sh => 2
  | sw => 4
  | sd => 8

end Store

/-- The two forms of an atomic access. -/
inductive Atom where
  | word | double
deriving DecidableEq, Repr

namespace Atom

def funct3 : Atom → BitVec 3
  | word => 2
  | double => 3

/-- In bits. -/
def width : Atom → ℕ
  | word => 32
  | double => 64

/-- In bytes. -/
def size (form : Atom) : ℕ := form.width / 8

end Atom

end Flat

/-! The selectors of the units. -/

def AmoOp.funct5 : AmoOp → BitVec 5
  | .add => 0x00
  | .swap => 0x01
  | .xor => 0x04
  | .or => 0x08
  | .and => 0x0c
  | .min => 0x10
  | .max => 0x14
  | .minu => 0x18
  | .maxu => 0x1c

namespace AluOp

def funct3 : AluOp → BitVec 3
  | .add | .sub => 0
  | .sll => 1
  | .slt => 2
  | .sltu => 3
  | .xor => 4
  | .srl | .sra => 5
  | .or => 6
  | .and => 7

def funct7 : AluOp → BitVec 7
  | .sub | .sra => 0x20
  | _ => 0x00

def IsShift (op : AluOp) : Prop := op = .sll ∨ op = .srl ∨ op = .sra

instance (op : AluOp) : Decidable op.IsShift :=
  inferInstanceAs (Decidable (_ ∨ _))

end AluOp

def MulOp.funct3 : MulOp → BitVec 3
  | .mul => 0
  | .mulh => 1
  | .mulhsu => 2
  | .mulhu => 3
  | .div => 4
  | .divu => 5
  | .rem => 6
  | .remu => 7

namespace Flat

/-- The word forms work on the low 32 bits and extend the sign. -/
inductive Instr where
  | lui (rd : BitVec 5) (imm : BitVec 20)
  | auipc (rd : BitVec 5) (imm : BitVec 20)
  | jal (rd : BitVec 5) (offset : BitVec 21)
  | jalr (rd rs1 : BitVec 5) (imm : BitVec 12)
  | branch (cond : Cond) (rs1 rs2 : BitVec 5) (offset : BitVec 13)
  | load (form : Load) (rd rs1 : BitVec 5) (imm : BitVec 12)
  | store (form : Store) (rs1 rs2 : BitVec 5) (imm : BitVec 12)
  | opImm (op : AluOp) (rd rs1 : BitVec 5) (imm : BitVec 12)
  | shiftImm (op : AluOp) (rd rs1 : BitVec 5) (shamt : BitVec 6)
  | opReg (op : AluOp) (rd rs1 rs2 : BitVec 5)
  | mulDiv (op : MulOp) (rd rs1 rs2 : BitVec 5)
  | addiw (rd rs1 : BitVec 5) (imm : BitVec 12)
  | shiftImmWord (op : AluOp) (rd rs1 : BitVec 5) (shamt : BitVec 6)
  | opWord (op : AluOp) (rd rs1 rs2 : BitVec 5)
  | mulDivWord (op : MulOp) (rd rs1 rs2 : BitVec 5)
  | lr (form : Atom) (rd rs1 : BitVec 5) (order : BitVec 2)
  | sc (form : Atom) (rd rs1 rs2 : BitVec 5) (order : BitVec 2)
  | amo (op : AmoOp) (form : Atom) (rd rs1 rs2 : BitVec 5) (order : BitVec 2)
  | fence (funct3 : BitVec 3) (rd rs1 : BitVec 5) (imm : BitVec 12)
deriving DecidableEq, Repr

namespace Instr

def base : Instr → Rvc.Base
  | .lui rd imm => .u 0x37 rd imm
  | .auipc rd imm => .u 0x17 rd imm
  | .jal rd offset => .j rd offset
  | .jalr rd rs1 imm => .i 0x67 0 rd rs1 imm
  | .branch cond rs1 rs2 offset => .b cond.funct3 rs1 rs2 offset
  | .load form rd rs1 imm => .i 0x03 form.funct3 rd rs1 imm
  | .store form rs1 rs2 imm => .s 0x23 form.funct3 rs1 rs2 imm
  | .opImm op rd rs1 imm => .i 0x13 op.funct3 rd rs1 imm
  | .shiftImm op rd rs1 shamt =>
      .i 0x13 op.funct3 rd rs1 (op.funct7.extractLsb' 1 6 ++ shamt)
  | .opReg op rd rs1 rs2 => .r 0x33 op.funct3 op.funct7 rd rs1 rs2
  | .mulDiv op rd rs1 rs2 => .r 0x33 op.funct3 0x01 rd rs1 rs2
  | .addiw rd rs1 imm => .i 0x1b 0 rd rs1 imm
  | .shiftImmWord op rd rs1 shamt =>
      .i 0x1b op.funct3 rd rs1 (op.funct7.extractLsb' 1 6 ++ shamt)
  | .opWord op rd rs1 rs2 => .r 0x3b op.funct3 op.funct7 rd rs1 rs2
  | .mulDivWord op rd rs1 rs2 => .r 0x3b op.funct3 0x01 rd rs1 rs2
  | .lr form rd rs1 order => .r 0x2f form.funct3 (0x02#5 ++ order) rd rs1 0
  | .sc form rd rs1 rs2 order =>
      .r 0x2f form.funct3 (0x03#5 ++ order) rd rs1 rs2
  | .amo op form rd rs1 rs2 order =>
      .r 0x2f form.funct3 (op.funct5 ++ order) rd rs1 rs2
  | .fence funct3 rd rs1 imm => .i 0x0f funct3 rd rs1 imm

def encode (i : Instr) : BitVec 32 := i.base.encode

/-- What an instruction must keep to be one of the width. -/
def Legal (w : ℕ) : Instr → Prop
  | .jal _ offset => offset.getLsbD 0 = false
  | .branch _ _ _ offset => offset.getLsbD 0 = false
  | .load form _ _ _ => form.IsWide → w = 64
  | .store form _ _ _ => form = .sd → w = 64
  | .opImm op _ _ _ => op ≠ .sub ∧ ¬ op.IsShift
  | .shiftImm op _ _ shamt => op.IsShift ∧ shamt.toNat < w
  | .addiw .. => w = 64
  | .shiftImmWord op _ _ shamt => w = 64 ∧ op.IsShift ∧ shamt.toNat < 32
  | .opWord op _ _ _ => w = 64 ∧ (op = .add ∨ op = .sub ∨ op.IsShift)
  | .mulDivWord op _ _ _ =>
      w = 64 ∧ op ∉ [MulOp.mulh, MulOp.mulhsu, MulOp.mulhu]
  | .lr form _ _ _ | .sc form _ _ _ _ | .amo _ form _ _ _ _ =>
      form = .double → w = 64
  | _ => True

end Instr

/-! ## The machine -/

variable {w : ℕ}

/-- Where the block of memory begins, and what each byte of it is for. -/
structure Layout where
  base : ℕ
  allows : Access → ℕ → Bool

structure State (w : ℕ) where
  layout : Layout
  pc : BitVec w
  regs : BitVec 5 → BitVec w
  ram : Dram
  /-- The address of the last load-reserved that no store used up. -/
  reserved : Option (BitVec w)

namespace State

variable (s : State w)

def reg (r : BitVec 5) : BitVec w :=
  if r = 0 then 0 else s.regs r

def set (r : BitVec 5) (v : BitVec w) : State w :=
  { s with regs := Function.update s.regs r v }

def goto (pc : BitVec w) : State w :=
  { s with pc := pc }

def reserve (addr : Option (BitVec w)) : State w :=
  { s with reserved := addr }

/-- Writes a result and goes on. -/
def result (r : BitVec 5) (v next : BitVec w) : State w :=
  (s.set r v).goto next

theorem set_reg (r q : BitVec 5) (v : BitVec w) :
    (s.set r v).reg q = if q = r ∧ q ≠ 0 then v else s.reg q := by
  unfold reg set
  dsimp only
  by_cases hzero : q = 0
  · rw [if_pos hzero, if_pos hzero, if_neg fun h => h.2 hzero]
  · by_cases hsame : q = r
    · rw [if_neg hzero, if_pos ⟨hsame, hzero⟩, hsame, Function.update_self]
    · rw [if_neg hzero, if_neg hzero, if_neg fun h => hsame h.1,
        Function.update_of_ne hsame]

/-- Where an address lies in memory. -/
def index (addr : BitVec w) : ℕ := addr.toNat - s.layout.base

/-- All bytes of an access lie in memory that is for it, and below the end of
the address space. -/
def Holds (access : Access) (addr : BitVec w) (size : ℕ) : Prop :=
  s.layout.base ≤ addr.toNat ∧
    addr.toNat + size ≤ s.layout.base + s.ram.len ∧
    addr.toNat + size ≤ 2 ^ w ∧
    ∀ k < size, s.layout.allows access (s.index addr + k) = true

instance (access : Access) (addr : BitVec w) (size : ℕ) :
    Decidable (s.Holds access addr size) :=
  inferInstanceAs (Decidable (_ ∧ _ ∧ _ ∧ _))

/-- The address lies in memory. -/
def Spans (addr : BitVec w) : Prop :=
  s.layout.base ≤ addr.toNat ∧ addr.toNat < s.layout.base + s.ram.len

/-- Memory leaves room at one end of a narrow address space, so that a jump
out through the other end does not come back to it. -/
def Clear : Prop :=
  w = 32 → 2 ^ 20 ≤ s.layout.base ∨
    s.layout.base + s.ram.len ≤ 2 ^ 32 - 2 ^ 20

def load (addr : BitVec w) (size : ℕ) : BitVec 64 :=
  s.ram.loadLe (s.index addr) size

def store (addr : BitVec w) (size : ℕ) (v : BitVec w) : State w :=
  { s with ram := s.ram.storeLe (s.index addr) size (v.setWidth 64) }

@[simp] theorem goto_reg (pc : BitVec w) (r : BitVec 5) :
    (s.goto pc).reg r = s.reg r := rfl

@[simp] theorem goto_pc (pc : BitVec w) : (s.goto pc).pc = pc := rfl

@[simp] theorem goto_ram (pc : BitVec w) : (s.goto pc).ram = s.ram := rfl

@[simp] theorem store_pc (addr : BitVec w) (size : ℕ) (v : BitVec w) :
    (s.store addr size v).pc = s.pc := by
  unfold store
  rfl

@[simp] theorem store_ram (addr : BitVec w) (size : ℕ) (v : BitVec w) :
    (s.store addr size v).ram =
      s.ram.storeLe (s.index addr) size (v.setWidth 64) := by
  unfold store
  rfl

@[simp] theorem store_layout (addr : BitVec w) (size : ℕ) (v : BitVec w) :
    (s.store addr size v).layout = s.layout := by
  unfold store
  rfl

@[simp] theorem store_reserved (addr : BitVec w) (size : ℕ) (v : BitVec w) :
    (s.store addr size v).reserved = s.reserved := by
  unfold store
  rfl

theorem store_goto (pc addr : BitVec w) (size : ℕ) (v : BitVec w) :
    (s.goto pc).store addr size v = (s.store addr size v).goto pc := by
  unfold store goto
  rfl

@[simp] theorem store_reg (addr : BitVec w) (size : ℕ) (v : BitVec w)
    (r : BitVec 5) : (s.store addr size v).reg r = s.reg r := by
  unfold reg store
  rfl

@[simp] theorem reserve_reg (addr : Option (BitVec w)) (r : BitVec 5) :
    (s.reserve addr).reg r = s.reg r := rfl

/-- The word that an atomic access finds. -/
def word (addr : BitVec w) (form : Atom) : BitVec form.width :=
  (s.load addr form.size).setWidth form.width

/-- A store that succeeds where the address is the one reserved. -/
def storeConditional (form : Atom) (rd : BitVec 5) (addr v next : BitVec w) :
    Option (State w) :=
  if s.reserved = some addr then
    if s.Holds .store addr form.size then
      some (((s.store addr form.size v).reserve none).result rd 0 next)
    else none
  else some ((s.reserve none).result rd 1 next)

/-- What an instruction does, where `next` is the address after it; none where
it leaves memory. -/
def exec (s : State w) (next : BitVec w) : Instr → Option (State w)
  | .lui rd imm => some (s.result rd ((imm ++ 0#12).signExtend w) next)
  | .auipc rd imm =>
      some (s.result rd (s.pc + (imm ++ 0#12).signExtend w) next)
  | .jal rd offset => some (s.result rd next (s.pc + offset.signExtend w))
  | .jalr rd rs1 imm =>
      some (s.result rd next ((s.reg rs1 + imm.signExtend w) &&& ~~~1))
  | .branch cond rs1 rs2 offset =>
      some (s.goto
        (if cond.holds (s.reg rs1) (s.reg rs2) then s.pc + offset.signExtend w
          else next))
  | .load form rd rs1 imm =>
      let addr := s.reg rs1 + imm.signExtend w
      if s.Holds .load addr form.size then
        some (s.result rd (form.extend w (s.load addr form.size)) next)
      else none
  | .store form rs1 rs2 imm =>
      let addr := s.reg rs1 + imm.signExtend w
      if s.Holds .store addr form.size then
        some ((s.store addr form.size (s.reg rs2)).goto next)
      else none
  | .opImm op rd rs1 imm =>
      some (s.result rd (op.eval (s.reg rs1) (imm.signExtend w)) next)
  | .shiftImm op rd rs1 shamt =>
      some (s.result rd (op.eval (s.reg rs1) (shamt.setWidth w)) next)
  | .opReg op rd rs1 rs2 =>
      some (s.result rd (op.eval (s.reg rs1) (s.reg rs2)) next)
  | .mulDiv op rd rs1 rs2 =>
      some (s.result rd (op.eval (s.reg rs1) (s.reg rs2)) next)
  | .addiw rd rs1 imm =>
      let v := (s.reg rs1).setWidth 32 + imm.signExtend 32
      some (s.result rd (v.signExtend w) next)
  | .shiftImmWord op rd rs1 shamt =>
      let v := op.eval ((s.reg rs1).setWidth 32) (shamt.setWidth 32)
      some (s.result rd (v.signExtend w) next)
  | .opWord op rd rs1 rs2 =>
      let v := op.eval ((s.reg rs1).setWidth 32) ((s.reg rs2).setWidth 32)
      some (s.result rd (v.signExtend w) next)
  | .mulDivWord op rd rs1 rs2 =>
      let v := op.eval ((s.reg rs1).setWidth 32) ((s.reg rs2).setWidth 32)
      some (s.result rd (v.signExtend w) next)
  | .lr form rd rs1 _ =>
      let addr := s.reg rs1
      if addr.toNat % form.size = 0 ∧ s.Holds .load addr form.size then
        some ((s.reserve (some addr)).result rd
          ((s.word addr form).signExtend w) next)
      else none
  | .sc form rd rs1 rs2 _ =>
      let addr := s.reg rs1
      if addr.toNat % form.size = 0 then
        s.storeConditional form rd addr (s.reg rs2) next
      else none
  | .amo op form rd rs1 rs2 _ =>
      let addr := s.reg rs1
      if addr.toNat % form.size = 0 ∧ s.Holds .load addr form.size ∧
          s.Holds .store addr form.size then
        let old := s.word addr form
        let new := op.eval old ((s.reg rs2).setWidth form.width)
        some ((s.store addr form.size (new.setWidth w)).result rd
          (old.signExtend w) next)
      else none
  | .fence .. => some (s.goto next)

/-- An instruction leaves memory where it is, and as long. -/
theorem exec_extent {s s' : State w} {next : BitVec w} {i : Instr}
    (hexec : s.exec next i = some s') :
    s'.layout = s.layout ∧ s'.ram.len = s.ram.len := by
  have hstored : ∀ addr size v,
      (s.ram.storeLe (s.index addr) size v).len = s.ram.len :=
    fun addr size v => Dram.storeLe_len s.ram (s.index addr) size v
  cases i with
  | load form r r₁ imm =>
      rw [exec] at hexec
      split at hexec
      · cases hexec
        exact ⟨rfl, rfl⟩
      · cases hexec
  | store form r₁ r₂ imm =>
      rw [exec] at hexec
      split at hexec
      · cases hexec
        exact ⟨rfl, hstored _ _ _⟩
      · cases hexec
  | lr form r r₁ order =>
      rw [exec] at hexec
      split at hexec
      · cases hexec
        exact ⟨rfl, rfl⟩
      · cases hexec
  | sc form r r₁ r₂ order =>
      rw [exec] at hexec
      split at hexec
      · rw [storeConditional] at hexec
        split at hexec
        · split at hexec
          · cases hexec
            exact ⟨rfl, hstored _ _ _⟩
          · cases hexec
        · cases hexec
          exact ⟨rfl, rfl⟩
      · cases hexec
  | amo op form r r₁ r₂ order =>
      rw [exec] at hexec
      split at hexec
      · cases hexec
        exact ⟨rfl, hstored _ _ _⟩
      · cases hexec
  | _ =>
      cases hexec
      exact ⟨rfl, rfl⟩

/-- The instruction at the pc, and the address after it. -/
inductive Fetches (s : State w) (i : Instr) : BitVec w → Prop where
  | word : s.load s.pc 4 = i.encode.setWidth 64 →
      Fetches s i (s.pc + 4)
  | half {xlen : Xlen} {h : BitVec 16} : xlen.bits = w →
      s.load s.pc 2 = h.setWidth 64 →
      Rvc.meaning xlen h = .plain i.base → Fetches s i (s.pc + 2)

/-- The word at the pc lies in memory, also where the instruction is a
halfword. -/
structure Runs (s : State w) (i : Instr) (next : BitVec w) : Prop where
  aligned : s.pc.toNat % 2 = 0
  holds : s.Holds .fetch s.pc 4
  fetches : s.Fetches i next
  legal : i.Legal w

def Step (s s' : State w) : Prop :=
  ∃ i next, s.Runs i next ∧ s.exec next i = some s'

end State

end Flat

end Nanoemu
