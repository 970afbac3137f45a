import Nanoemu.Compress
import Nanoemu.Mmu
import Nanoemu.SoftFloat

/-!
# The hart: state, registers and the paths to memory

Loads, stores and fetches all go through the translation cache.  An access
that stays inside one page needs a single translation; one that straddles a
page boundary is split byte by byte.
-/

namespace Nanoemu

open CheckedProgram

def TLB_ENTRIES : ℕ := 1024

def DEVICE_POLL_INTERVAL : BitVec 64 := 256

/-- The `mstatus` bits a cached translation is tagged with. -/
def TLB_STATUS_BITS : BitVec 64 := Mstatus.SUM ||| Mstatus.MXR ||| Mstatus.MPRV

/-- One cached translation, tagged with the root pointer and the context it
was made in. -/
structure TlbEntry where
  valid : Bool
  vpn : BitVec 64
  ppn : BitVec 64
  satp : BitVec 64
  ctx : BitVec 64
deriving DecidableEq, Repr

def TlbEntry.default : TlbEntry :=
  { valid := false, vpn := 0, ppn := 0, satp := 0, ctx := 0 }

/-- Direct-mapped by page number, with one way for each kind of access. -/
abbrev Tlb := Fin TLB_ENTRIES → Access → TlbEntry

structure Cpu where
  /-- The zero-extended XLEN-bit values; x0 is stored but reads as zero. -/
  regs : Fin 32 → BitVec 64
  fregs : Fin 32 → BitVec 64
  pc : BitVec 64
  xlen : Xlen
  csrs : CsrFile
  mem : Memory
  cycle : BitVec 64
  /-- The address reserved by the most recent LR, if any. -/
  reservation : Option (BitVec 64)
  privMode : Priv
  /-- Whether the emulator answers supervisor calls itself. -/
  sbi : Bool
  timerArmed : Bool
  shutdown : Bool
  /-- Set when the instruction being executed wrote `minstret` itself. -/
  wroteInstret : Bool
  tlb : Tlb

abbrev Hart (α : Type) := Program Cpu Exception α

namespace Cpu

/-- The hart at reset.  A `Vec` holds at most `isize::MAX` bytes, so asking
for more panics. -/
def new (memSize : ℕ) (xlen : Xlen) : Option Cpu :=
  if 2 ^ 63 ≤ memSize then none
  else some
    { regs := Function.update (fun _ => 0) 2
        (DRAM_BASE + BitVec.ofNat 64 memSize)
      fregs := fun _ => 0
      pc := DRAM_BASE
      xlen := xlen
      csrs := CsrFile.new xlen
      mem := Memory.new memSize
      cycle := 0
      reservation := none
      privMode := .machine
      sbi := false
      timerArmed := false
      shutdown := false
      wroteInstret := false
      tlb := fun _ _ => TlbEntry.default }

def xbits (c : Cpu) : ℕ := c.xlen.bits

def rr (c : Cpu) (r : Fin 32) : BitVec 64 :=
  if r = 0 then 0 else c.regs r

/-- Writes a register, normalising to the XLEN-bit canonical form. -/
def setReg (c : Cpu) (r : Fin 32) (v : BitVec 64) : Cpu :=
  if r = 0 then c
  else { c with regs := Function.update c.regs r (trunc v c.xbits) }

def wr (r : Fin 32) (v : BitVec 64) : Hart Unit :=
  Program.update fun c => c.setReg r v

def rs (c : Cpu) (r : Fin 32) : Checked (BitVec 64) :=
  sext (c.rr r) c.xbits

/-- `mstatus.FS` of zero means the context owns no floating-point state. -/
def fpEnabled (c : Cpu) : Bool :=
  c.csrs.read Csr.MSTATUS &&& Mstatus.FS != 0

def dirtyFp (c : Cpu) : Cpu :=
  let status := c.csrs.read Csr.MSTATUS
  { c with
    csrs := c.csrs.force Csr.MSTATUS
      ((status &&& ~~~Mstatus.FS) ||| Mstatus.FS) }

def setFflags (c : Cpu) (flags : ℕ) : Cpu :=
  let old := c.csrs.read Csr.FCSR
  dirtyFp <|
    if flags ≠ 0 then
      { c with csrs := c.csrs.force Csr.FCSR (old ||| BitVec.ofNat 64 flags) }
    else c

def setFreg (c : Cpu) (r : Fin 32) (v : BitVec 64) : Cpu :=
  dirtyFp { c with fregs := Function.update c.fregs r v }

/-- A single-precision operand must be NaN-boxed; anything else reads as the
canonical NaN. -/
def unbox (v : BitVec 64) : BitVec 64 :=
  if v >>> 32 = 0xffffffff then v &&& 0xffffffff
  else BitVec.ofNat 64 Fpu.S.nan

def box32 (v : BitVec 64) : BitVec 64 :=
  0xffffffff00000000 ||| (v &&& 0xffffffff)

/-- Resolves an instruction's rounding mode, following it to `frm` when it
asks for the dynamic mode. -/
def rounding (c : Cpu) (f3 : BitVec 32) : Option Fpu.Rm :=
  let bits : ℕ :=
    if f3 = 0x7 then
      ((c.csrs.read Csr.FCSR &&& Fcsr.RM) >>> Fcsr.RM_SHIFT).toNat
    else f3.toNat
  Fpu.Rm.fromBits bits

def onMemory {ε α : Type} (body : Program Memory ε α) : Program Cpu ε α :=
  Program.zoom Cpu.mem (fun mem c => { c with mem := mem }) body

def tlbSlot (va : BitVec 64) : Fin TLB_ENTRIES :=
  ⟨(va >>> 12).toNat &&& (TLB_ENTRIES - 1),
    lt_of_le_of_lt Nat.and_le_right (by decide)⟩

/-- What a cached translation depends on besides the root pointer. -/
def tlbCtx (c : Cpu) : BitVec 64 :=
  (c.csrs.read Csr.MSTATUS &&& TLB_STATUS_BITS) ||| c.privMode.toBits

def tlbHit (c : Cpu) (va : BitVec 64) (access : Access) : Bool :=
  let e := c.tlb (tlbSlot va) access
  e.valid && e.vpn == va >>> 12 && e.satp == c.csrs.read Csr.SATP &&
    e.ctx == c.tlbCtx

def setTlb (c : Cpu) (va : BitVec 64) (access : Access) (e : TlbEntry) : Cpu :=
  { c with
    tlb := Function.update c.tlb (tlbSlot va)
      (Function.update (c.tlb (tlbSlot va)) access e) }

/-- Translates a virtual address through the cache.  Only successful walks
are cached. -/
def translate (va : BitVec 64) (access : Access) : Hart (BitVec 64) := do
  let c ← Program.read id
  if c.tlbHit va access then
    pure ((c.tlb (tlbSlot va) access).ppn ||| (va &&& 0xfff))
  else do
    let pa ← onMemory
      (Mmu.translate c.xlen (c.csrs.read Csr.SATP) (c.csrs.read Csr.MSTATUS)
        c.privMode va access)
    Program.update fun c' => c'.setTlb va access
      { valid := true
        vpn := va >>> 12
        ppn := pa &&& ~~~0xfff
        satp := c.csrs.read Csr.SATP
        ctx := c.tlbCtx }
    pure pa

def flushTlb (c : Cpu) : Cpu :=
  { c with tlb := fun slot way => { c.tlb slot way with valid := false } }

/-! ## Loads, stores and fetches -/

/-- A physical read whose failure becomes `fault`. -/
def physRead (fault : Exception) (pa : BitVec 64) (size : ℕ) :
    Hart (BitVec 64) :=
  onMemory (Program.mapError (fun _ => fault) (Memory.read pa size))

def physWrite (fault : Exception) (pa : BitVec 64) (size : ℕ)
    (value : BitVec 64) : Hart Unit :=
  onMemory (Program.mapError (fun _ => fault) (Memory.write pa size value))

def fitsPage (va : BitVec 64) (size : ℕ) : Checked Bool := do
  let last ← Checked.add (va &&& 0xfff) (BitVec.ofNat 64 size)
  pure (last ≤ 0x1000)

/-- The bytewise part of a page-crossing load: bytes `k` on are still to come
and `v` holds those already read. -/
def readBytes (va : BitVec 64) :
    (remaining k : ℕ) → (v : BitVec 64) → Hart (BitVec 64)
  | 0, _, v => pure v
  | remaining + 1, k, v => do
      let addr ← Program.check (Checked.add va (BitVec.ofNat 64 k))
      let pa ← translate addr .load
      let b ← physRead (.loadAccessFault va) pa 1
      let shift ← Program.check (Checked.umul 64 8 k)
      let piece ← Program.check (Checked.shl b shift)
      readBytes va remaining (k + 1) (v ||| piece)

def readMem (va : BitVec 64) (size : ℕ) : Hart (BitVec 64) := do
  if ← Program.check (fitsPage va size) then do
    let pa ← translate va .load
    physRead (.loadAccessFault va) pa size
  else readBytes va size 0 0

/-- The first pass of a page-crossing store: every byte is translated. -/
def translateBytes (va : BitVec 64) : (remaining k : ℕ) → Hart Unit
  | 0, _ => pure ()
  | remaining + 1, k => do
      let addr ← Program.check (Checked.add va (BitVec.ofNat 64 k))
      let _ ← translate addr .store
      translateBytes va remaining (k + 1)

/-- The second pass of a page-crossing store: every byte is written. -/
def writeBytes (va value : BitVec 64) : (remaining k : ℕ) → Hart Unit
  | 0, _ => pure ()
  | remaining + 1, k => do
      let addr ← Program.check (Checked.add va (BitVec.ofNat 64 k))
      let pa ← translate addr .store
      let shift ← Program.check (Checked.umul 64 8 k)
      let byte ← Program.check (Checked.shr value shift)
      physWrite (.storeAccessFault va) pa 1 byte
      writeBytes va value remaining (k + 1)

def writeMem (va : BitVec 64) (size : ℕ) (value : BitVec 64) : Hart Unit := do
  if ← Program.check (fitsPage va size) then do
    let pa ← translate va .store
    physWrite (.storeAccessFault va) pa size value
  else do
    translateBytes va size 0
    writeBytes va value size 0

def fetchHalf (va : BitVec 64) : Hart (BitVec 64) := do
  let pa ← translate va .fetch
  physRead (.instructionAccessFault va) pa 2

def expand (lo : BitVec 32) : Hart (BitVec 32 × BitVec 64) := do
  let c ← Program.read id
  match decompress lo c.xlen with
  | none => Program.fail (.illegalInstruction lo)
  | some inst => pure (inst, 2)

def fetch : Hart (BitVec 32 × BitVec 64) := do
  let pc ← Program.read Cpu.pc
  if pc &&& 0x1 ≠ 0 then Program.fail (.instructionAddressMisaligned pc)
  else if pc &&& 0xfff ≤ 0xffc then do
    -- All four bytes lie on one page.
    let pa ← translate pc .fetch
    let word ← physRead (.instructionAccessFault pc) pa 4
    let word : BitVec 32 := word.setWidth 32
    if word &&& 0x3 ≠ 0x3 then expand (word &&& 0xffff) else pure (word, 4)
  else do
    let lo ← fetchHalf pc
    let lo : BitVec 32 := lo.setWidth 32
    if lo &&& 0x3 ≠ 0x3 then expand lo
    else do
      let next ← Program.check (Checked.add pc 2)
      let hi ← fetchHalf next
      let hi : BitVec 32 := hi.setWidth 32
      pure ((hi <<< 16) ||| lo, 4)

end Cpu

end Nanoemu
