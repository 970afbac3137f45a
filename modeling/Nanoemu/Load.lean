import Nanoemu.Step

/-!
# Loading a program and running it

A hart starts from `Cpu.new` with images placed in its memory, either in
machine mode or handed to a kernel in supervisor mode, and then steps.  Input
typed at the console may arrive between any two steps.
-/

namespace Nanoemu

open CheckedProgram

namespace Dram

def copyFrom (dram : Dram) (i : ℕ) (data : List (BitVec 8)) : Dram :=
  { dram with
    byte := fun j =>
      if i ≤ j then (data[j - i]?).getD (dram.byte j) else dram.byte j }

def fill (dram : Dram) (i len : ℕ) : Dram :=
  { dram with
    byte := fun j => if i ≤ j ∧ j < i + len then 0 else dram.byte j }

end Dram

namespace Memory

/-- Copies `image` to `DRAM_BASE`; one that does not fit panics. -/
def load (image : List (BitVec 8)) : Program Memory Unmapped Unit := do
  let mem ← Program.read id
  let dram ← Program.check
    (if image.length ≤ mem.dram.len then pure (mem.dram.copyFrom 0 image)
      else Checked.panic)
  Program.update fun mem => { mem with dram := dram }

/-- Places `data` at an arbitrary physical address. -/
def loadAt (addr : BitVec 64) (data : List (BitVec 8)) :
    Program Memory Unmapped Unit := do
  let mem ← Program.read id
  match mem.index addr data.length with
  | none => Program.fail .unmapped
  | some i =>
      Program.update fun mem => { mem with dram := mem.dram.copyFrom i data }

def zero (addr len : BitVec 64) : Program Memory Unmapped Unit := do
  let mem ← Program.read id
  match mem.index addr len.toNat with
  | none => Program.fail .unmapped
  | some i =>
      Program.update fun mem => { mem with dram := mem.dram.fill i len.toNat }

end Memory

/-- A piece of an executable: its bytes, and how many zeroes follow them. -/
structure Segment where
  addr : BitVec 64
  data : List (BitVec 8)
  zeroLen : BitVec 64

structure Elf where
  segments : List Segment
  entry : BitVec 64
  symbols : String → Option (BitVec 64)
  is64 : Bool

def CsrFile.setXlen (f : CsrFile) (xlen : Xlen) : CsrFile :=
  let f := { f with xlen := xlen }
  let f := f.force Csr.MISA (CsrFile.misa xlen)
  let status := f.regs Csr.MSTATUS &&& ~~~(Mstatus.UXL ||| Mstatus.SXL)
  f.force Csr.MSTATUS
    (match xlen with
      | .rv32 => status
      | .rv64 => status ||| (2#64 <<< 32) ||| (2#64 <<< 34))

namespace Cpu

def loadSegment (seg : Segment) : Hart Unit := do
  let fault := Exception.storeAccessFault seg.addr
  onMemory (Program.mapError (fun _ => fault)
    (Memory.loadAt seg.addr seg.data))
  if 0 < seg.zeroLen then do
    let tail ← Program.check
      (Checked.add seg.addr (BitVec.ofNat 64 seg.data.length))
    onMemory (Program.mapError (fun _ => fault)
      (Memory.zero tail seg.zeroLen))
  else pure ()

def loadSegments : List Segment → Hart Unit
  | [] => pure ()
  | seg :: rest => do
      loadSegment seg
      loadSegments rest

/-- Loads an executable: its width, its segments, its entry point and the
`tohost` symbol if it exports one. -/
def loadElf (elf : Elf) : Hart Unit := do
  let xlen : Xlen := if elf.is64 then .rv64 else .rv32
  Program.update fun c =>
    { c with
      xlen := xlen
      csrs := c.csrs.setXlen xlen
      -- The stack pointer was set for the constructor's width.
      regs := Function.update c.regs 2 (trunc (c.regs 2) xlen.bits) }
  loadSegments elf.segments
  Program.update fun c =>
    { c with
      pc := elf.entry
      mem := { c.mem with tohost := elf.symbols "tohost" } }

/-! ## Runs -/

/-- A freshly constructed hart with any images loaded into its memory. -/
inductive Loaded (profile : Profile) : Cpu → Prop where
  | new {memSize : ℕ} {xlen : Xlen} {c : Cpu} :
      Cpu.new memSize xlen = some c → Loaded profile c
  | load {image : List (BitVec 8)} {c c' : Cpu} : Loaded profile c →
      onMemory (Memory.load image) profile c = some (.ok (), c') →
      Loaded profile c'
  | loadAt {addr : BitVec 64} {data : List (BitVec 8)} {c c' : Cpu} :
      Loaded profile c →
      onMemory (Memory.loadAt addr data) profile c = some (.ok (), c') →
      Loaded profile c'
  | loadElf {elf : Elf} {c c' : Cpu} : Loaded profile c →
      Cpu.loadElf elf profile c = some (.ok (), c') → Loaded profile c'

/-- A loaded hart handed to a kernel. -/
inductive Booted (profile : Profile) : Cpu → Prop where
  | boot {c : Cpu} (entry hartid dtb : BitVec 64) : Loaded profile c →
      Booted profile (c.bootSupervisor entry hartid dtb)

/-- A hart about to take its first step. -/
def Started (profile : Profile) (c : Cpu) : Prop :=
  Loaded profile c ∨ Booted profile c

def pushInput (c : Cpu) (bytes : List (BitVec 8)) : Cpu :=
  { c with mem := { c.mem with uart := c.mem.uart.pushInput bytes } }

/-- What happens to a hart between two states of a run: a step, which may end
in a trap, or input arriving. -/
inductive Next (profile : Profile) : Cpu → Cpu → Prop where
  | step {c c' : Cpu} {outcome : Except Exception Unit} :
      Cpu.step profile c = some (outcome, c') → Next profile c c'
  | input {c : Cpu} (bytes : List (BitVec 8)) : Next profile c (c.pushInput bytes)

/-- A run, all of whose states satisfy `P`. -/
inductive Run (profile : Profile) (P : Cpu → Prop) (c : Cpu) : Cpu → Prop where
  | refl : P c → Run profile P c c
  | tail {c' c'' : Cpu} : Run profile P c c' → Next profile c' c'' → P c'' →
      Run profile P c c''

def Reachable (profile : Profile) (start : Cpu → Prop) (c : Cpu) : Prop :=
  ∃ c₀, start c₀ ∧ Run profile (fun _ => True) c₀ c

section Runs

variable {profile : Profile} {P Q : Cpu → Prop} {c c' : Cpu}

/-- An invariant of the starts and of every step holds in every state of
every run. -/
theorem Reachable.invariant {start : Cpu → Prop}
    (hstart : ∀ c, start c → Q c)
    (hnext : ∀ c c', Q c → Next profile c c' → Q c')
    (hreach : Reachable profile start c) : Q c := by
  obtain ⟨c₀, hc₀, hrun⟩ := hreach
  induction hrun with
  | refl => exact hstart c₀ hc₀
  | tail _ hstep _ ih => exact hnext _ _ ih hstep

theorem Reachable.next {start : Cpu → Prop}
    (hreach : Reachable profile start c) (hnext : Next profile c c') :
    Reachable profile start c' := by
  obtain ⟨c₀, hc₀, hrun⟩ := hreach
  exact ⟨c₀, hc₀, hrun.tail hnext trivial⟩

theorem Run.last (hrun : Run profile P c c') : P c' := by
  cases hrun with
  | refl h => exact h
  | tail _ _ h => exact h

theorem Run.trans {c'' : Cpu} (hfirst : Run profile P c c')
    (hsecond : Run profile P c' c'') : Run profile P c c'' := by
  induction hsecond with
  | refl _ => exact hfirst
  | tail _ hnext hlast ih => exact ih.tail hnext hlast

end Runs

end Cpu

end Nanoemu
