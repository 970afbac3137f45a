import Nanoemu.CheckedProgram

/-!
# Privilege modes, accesses and exceptions

The numbering is the privileged specification's cause encoding.
-/

namespace Nanoemu

/-- Privilege modes, least privileged first. -/
inductive Priv where
  | user
  | supervisor
  | machine
deriving DecidableEq, Repr

namespace Priv

/-- The value the specification uses in `MPP` and `SPP`. -/
def toNat : Priv → ℕ
  | user => 0
  | supervisor => 1
  | machine => 3

def toBits (mode : Priv) : BitVec 64 :=
  BitVec.ofNat 64 mode.toNat

def fromBits (v : BitVec 64) : Priv :=
  if v &&& 0x3 = 0 then user
  else if v &&& 0x3 = 1 then supervisor
  else machine

instance : LE Priv := ⟨fun a b => a.toNat ≤ b.toNat⟩

instance : LT Priv := ⟨fun a b => a.toNat < b.toNat⟩

instance (a b : Priv) : Decidable (a ≤ b) :=
  inferInstanceAs (Decidable (a.toNat ≤ b.toNat))

instance (a b : Priv) : Decidable (a < b) :=
  inferInstanceAs (Decidable (a.toNat < b.toNat))

end Priv

/-- What a memory access is for. -/
inductive Access where
  | fetch
  | load
  | store
deriving DecidableEq, Repr

/-- A failed physical access; whether it becomes a load, store or
instruction fault is for the caller to say. -/
inductive Unmapped where
  | unmapped
deriving DecidableEq, Repr

inductive Exception where
  | instructionAddressMisaligned (addr : BitVec 64)
  | instructionAccessFault (addr : BitVec 64)
  | illegalInstruction (inst : BitVec 32)
  | breakpoint
  | loadAddressMisaligned (addr : BitVec 64)
  | loadAccessFault (addr : BitVec 64)
  | storeAddressMisaligned (addr : BitVec 64)
  | storeAccessFault (addr : BitVec 64)
  /-- The cause depends on the mode the call was executed in. -/
  | environmentCall
  | instructionPageFault (addr : BitVec 64)
  | loadPageFault (addr : BitVec 64)
  | storePageFault (addr : BitVec 64)
deriving DecidableEq, Repr

namespace Exception

def cause (e : Exception) (mode : Priv) : ℕ :=
  match e with
  | instructionAddressMisaligned _ => 0
  | instructionAccessFault _ => 1
  | illegalInstruction _ => 2
  | breakpoint => 3
  | loadAddressMisaligned _ => 4
  | loadAccessFault _ => 5
  | storeAddressMisaligned _ => 6
  | storeAccessFault _ => 7
  | environmentCall =>
      match mode with
      | .user => 8
      | .supervisor => 9
      | .machine => 11
  | instructionPageFault _ => 12
  | loadPageFault _ => 13
  | storePageFault _ => 15

def tval : Exception → BitVec 64
  | instructionAddressMisaligned a => a
  | instructionAccessFault a => a
  | illegalInstruction i => i.setWidth 64
  | breakpoint => 0
  | loadAddressMisaligned a => a
  | loadAccessFault a => a
  | storeAddressMisaligned a => a
  | storeAccessFault a => a
  | environmentCall => 0
  | instructionPageFault a => a
  | loadPageFault a => a
  | storePageFault a => a

/-- The access fault appropriate to what the access was for. -/
def accessFault (access : Access) (addr : BitVec 64) : Exception :=
  match access with
  | .fetch => instructionAccessFault addr
  | .load => loadAccessFault addr
  | .store => storeAccessFault addr

/-- The page fault appropriate to what the access was for. -/
def pageFault (access : Access) (addr : BitVec 64) : Exception :=
  match access with
  | .fetch => instructionPageFault addr
  | .load => loadPageFault addr
  | .store => storePageFault addr

end Exception

namespace Interrupt

def SUPERVISOR_SOFTWARE : ℕ := 1
def MACHINE_SOFTWARE : ℕ := 3
def SUPERVISOR_TIMER : ℕ := 5
def MACHINE_TIMER : ℕ := 7
def SUPERVISOR_EXTERNAL : ℕ := 9
def MACHINE_EXTERNAL : ℕ := 11

end Interrupt

end Nanoemu
