import Nanoemu.Csr
import Nanoemu.Memory

/-!
# Virtual memory: Sv32 on RV32, Sv39 on RV64

The walk reads one entry a level, checks permissions at the leaf and sets the
A and D bits in place.
-/

namespace Nanoemu

open CheckedProgram

namespace Mmu

def PAGE_SIZE : BitVec 64 := 4096

def V : BitVec 64 := 1#64 <<< 0
def R : BitVec 64 := 1#64 <<< 1
def W : BitVec 64 := 1#64 <<< 2
def X : BitVec 64 := 1#64 <<< 3
def U : BitVec 64 := 1#64 <<< 4
def A : BitVec 64 := 1#64 <<< 6
def D : BitVec 64 := 1#64 <<< 7

example : [V, R, W, X, U, A, D] = [1, 2, 4, 8, 16, 64, 128] := by decide

/-- The physical page number starts here in every entry format. -/
def PPN_SHIFT : ℕ := 10

/-- The translation scheme selected by `satp`. -/
inductive Mode where
  | bare
  | sv32
  | sv39
deriving DecidableEq, Repr

namespace Mode

def of (satp : BitVec 64) (xlen : Xlen) : Mode :=
  match xlen with
  | .rv32 => if satp >>> 31 = 1 then sv32 else bare
  | .rv64 => if (satp >>> 60) &&& 0xf = 8 then sv39 else bare

/-! The shape of a scheme: levels, bits of page number a level, and bytes an
entry. -/

def levels : Mode → ℕ
  | sv32 => 2
  | sv39 => 3
  | bare => 0

def vpnBits : Mode → ℕ
  | sv32 => 10
  | sv39 => 9
  | bare => 0

def pteSize : Mode → ℕ
  | sv32 => 4
  | sv39 => 8
  | bare => 0

def ppnMask (scheme : Mode) : BitVec 64 :=
  if scheme = sv32 then 0x3fffff else 0xfffffffffff

end Mode

/-- The privilege an access is performed at: MPRV redirects loads and stores,
never fetches, to the mode MPP names. -/
def effectivePriv (status : BitVec 64) (mode : Priv) (access : Access) : Priv :=
  if access ≠ .fetch ∧ status &&& Mstatus.MPRV ≠ 0 then
    Priv.fromBits ((status &&& Mstatus.MPP) >>> Mstatus.MPP_SHIFT)
  else mode

/-- Sv39 defines 39 address bits; the rest extend bit 38. -/
def canonical (va : BitVec 64) : Bool :=
  va.sshiftRight 38 == 0 || va.sshiftRight 38 == BitVec.allOnes 64

/-- The low `vpnBits * level` bits, which a superpage takes from the virtual
address. -/
def splitMask (scheme : Mode) (level : ℕ) : Checked (BitVec 64) := do
  let split ← Checked.umul 32 scheme.vpnBits level
  let top ← Checked.shl 1#64 split
  Checked.sub top 1

/-- Where the entry of `va` at `level` lies in `table`. -/
def pteAddr (scheme : Mode) (va table : BitVec 64) (level : ℕ) :
    Checked (BitVec 64) := do
  let split ← Checked.umul 32 scheme.vpnBits level
  let shift ← Checked.uadd 32 12 split
  let high ← Checked.shr va shift
  let top ← Checked.shl 1#64 scheme.vpnBits
  let mask ← Checked.sub top 1
  let offset ← Checked.mul (high &&& mask) (BitVec.ofNat 64 scheme.pteSize)
  Checked.add table offset

def valid (pte : BitVec 64) : Bool :=
  !(pte &&& V == 0 || (pte &&& R == 0 && pte &&& W != 0))

def isPointer (pte : BitVec 64) : Bool :=
  pte &&& (R ||| X) == 0

/-- Whether the privilege may touch the page at all.  SUM never lets a
supervisor execute a user page. -/
def reachable (pte status : BitVec 64) (effective : Priv) (access : Access) :
    Bool :=
  match effective with
  | .user => pte &&& U != 0
  | .supervisor =>
      !(pte &&& U != 0 && (access == .fetch || status &&& Mstatus.SUM == 0))
  | .machine => true

/-- Whether the page permits the access.  MXR makes execute-only pages
readable. -/
def permitted (pte status : BitVec 64) (access : Access) : Bool :=
  match access with
  | .fetch => pte &&& X != 0
  | .load => pte &&& R != 0 || (status &&& Mstatus.MXR != 0 && pte &&& X != 0)
  | .store => pte &&& W != 0

def need (access : Access) : BitVec 64 :=
  A ||| (if access = .store then D else 0)

def ppn (scheme : Mode) (pte : BitVec 64) : BitVec 64 :=
  (pte >>> PPN_SHIFT) &&& scheme.ppnMask

/-- The physical address a leaf gives: the high page-number bits come from the
entry, the low ones from the virtual address. -/
def splice (scheme : Mode) (pte va : BitVec 64) (level : ℕ) :
    Checked (BitVec 64) := do
  let mask ← splitMask scheme level
  let paPpn := (ppn scheme pte &&& ~~~mask) ||| ((va >>> 12) &&& mask)
  let base ← Checked.mul paPpn PAGE_SIZE
  Checked.add base (va &&& (PAGE_SIZE - 1))

/-- The end of the walk at a leaf entry. -/
def leaf (scheme : Mode) (effective : Priv) (status va : BitVec 64)
    (access : Access) (level : ℕ) (addr pte : BitVec 64) :
    Program Memory Exception (BitVec 64) := do
  let fault := Exception.pageFault access va
  if !reachable pte status effective access then Program.fail fault
  else if !permitted pte status access then Program.fail fault
  else do
    let mask ← Program.check (splitMask scheme level)
    if 0 < level ∧ ppn scheme pte &&& mask ≠ 0 then Program.fail fault
    else do
      if pte &&& need access ≠ need access then
        Program.mapError (fun _ => fault)
          (Memory.write addr scheme.pteSize (pte ||| need access))
      else pure ()
      Program.check (splice scheme pte va level)

/-- The loop over the levels, highest first: `remaining` levels are left and
the next one is `remaining - 1`. -/
def walk (scheme : Mode) (effective : Priv) (status va : BitVec 64)
    (access : Access) :
    (remaining : ℕ) → (table : BitVec 64) →
      Program Memory Exception (BitVec 64)
  | 0, _ => Program.fail (Exception.pageFault access va)
  | level + 1, table => do
      let fault := Exception.pageFault access va
      let addr ← Program.check (pteAddr scheme va table level)
      let pte ← Program.mapError (fun _ => fault)
        (Memory.read addr scheme.pteSize)
      if !valid pte then Program.fail fault
      else if isPointer pte then
        if level = 0 then Program.fail fault
        else do
          let table ← Program.check (Checked.mul (ppn scheme pte) PAGE_SIZE)
          walk scheme effective status va access level table
      else leaf scheme effective status va access level addr pte

/-- Translates a virtual address, updating the A and D bits as it goes. -/
def translate (xlen : Xlen) (satp status : BitVec 64) (mode : Priv)
    (va : BitVec 64) (access : Access) :
    Program Memory Exception (BitVec 64) := do
  let effective := effectivePriv status mode access
  let scheme := Mode.of satp xlen
  if scheme = .bare ∨ effective = .machine then pure va
  else if scheme = .sv39 ∧ !canonical va then
    Program.fail (Exception.pageFault access va)
  else do
    let table ← Program.check (Checked.mul (satp &&& scheme.ppnMask) PAGE_SIZE)
    walk scheme effective status va access scheme.levels table

end Mmu

end Nanoemu
