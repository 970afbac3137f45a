import Nanoemu.BitFields
import Nanoemu.CsrWrite

/-!
# Several numbers for one register

Nine register numbers share four words of storage.  Each number shows some of
the bits of its word, lets some of them be written, and places them as the word
does or shifted down.  What a fresh file has been sent through these numbers is
enough to say what each of them shows and replaces.
-/

namespace Nanoemu

open BitFields

/-- The numbers that stand for `mstatus`, `mie`, `mip` and `fcsr`. -/
inductive CsrAlias where
  | mstatus | sstatus | mie | sie | mip | sip | fcsr | fflags | frm
deriving DecidableEq, Repr

namespace CsrAlias

def addr : CsrAlias → BitVec 12
  | mstatus => Csr.MSTATUS
  | sstatus => Csr.SSTATUS
  | mie => Csr.MIE
  | sie => Csr.SIE
  | mip => Csr.MIP
  | sip => Csr.SIP
  | fcsr => Csr.FCSR
  | fflags => Csr.FFLAGS
  | frm => Csr.FRM

/-- The register the number is a window onto; it has a number itself. -/
def wide : CsrAlias → BitVec 12
  | mstatus | sstatus => Csr.MSTATUS
  | mie | sie => Csr.MIE
  | mip | sip => Csr.MIP
  | fcsr | fflags | frm => Csr.FCSR

/-- The bits of the register that the number shows. -/
def visible : CsrAlias → BitVec 64
  | sstatus => Mstatus.S_VISIBLE
  | sie | sip => IntBit.S_VISIBLE
  | fflags => Fcsr.FLAGS
  | frm => Fcsr.RM
  | mstatus | mie | mip | fcsr => BitVec.allOnes 64

/-- The bits of the register that a write through the number replaces. -/
def writable : CsrAlias → BitVec 64
  | mstatus => Mstatus.WRITABLE
  | sstatus =>
      Mstatus.SIE ||| Mstatus.SPIE ||| Mstatus.SPP ||| Mstatus.FS |||
        Mstatus.SUM ||| Mstatus.MXR
  | mie => IntBit.ALL
  | sie => IntBit.SSIP ||| IntBit.STIP ||| IntBit.SEIP
  | mip => IntBit.SSIP ||| IntBit.MSIP ||| IntBit.STIP
  | sip => IntBit.SSIP
  | fcsr => Fcsr.WRITABLE
  | fflags => Fcsr.FLAGS
  | frm => Fcsr.RM

def shift : CsrAlias → ℕ
  | frm => Fcsr.RM_SHIFT
  | _ => 0

/-- The bits of the register that are stored; SD is derived from the others. -/
def stored : CsrAlias → BitVec 64
  | mstatus | sstatus => ~~~Mstatus.SD
  | _ => BitVec.allOnes 64

end CsrAlias

namespace CsrFile

/-- What a number shows and what a write through it does. -/
structure Aliases (f : CsrFile) (a : CsrAlias) : Prop where
  shows : f.read a.addr = (f.read a.wide &&& a.visible) >>> a.shift
  puts : ∀ value, (f.write a.addr value).regs a.wide =
    merge (f.regs a.wide) a.writable (value <<< a.shift)
  frame : ∀ value, ∀ other ≠ a.wide,
    (f.write a.addr value).regs other = f.regs other
  reads : ∀ value, (f.write a.addr value).read a.wide &&& a.stored =
    merge (f.read a.wide &&& a.stored) a.writable (value <<< a.shift)
  restores : f.write a.addr (f.read a.addr) = f

/-- The registers that are stored whole hold no bits the hart does not
implement. -/
structure Implemented (f : CsrFile) : Prop where
  mie : Within (f.regs Csr.MIE) IntBit.ALL
  fcsr : Within (f.regs Csr.FCSR) Fcsr.WRITABLE

def widthMask : Xlen → BitVec 64
  | .rv32 => 0xffffffff
  | .rv64 => BitVec.allOnes 64

theorem read_eq (f : CsrFile) (addr : BitVec 12) :
    f.read addr = f.view addr &&& widthMask f.xlen := by
  unfold read
  cases f.xlen with
  | rv32 => rfl
  | rv64 =>
      unfold widthMask
      rw [BitVec.and_allOnes, if_neg (by decide)]

theorem merge_bit (old mask value : BitVec 64) (i : ℕ) :
    (merge old mask value).getLsbD i =
      if mask.getLsbD i then value.getLsbD i else old.getLsbD i := by
  unfold merge
  by_cases hi : i < 64
  · rw [BitVec.getLsbD_or, BitVec.getLsbD_and, BitVec.getLsbD_and,
      BitVec.getLsbD_not, decide_eq_true hi]
    cases mask.getLsbD i <;> simp
  · simp [BitVec.getLsbD_of_ge _ i (Nat.le_of_not_lt hi)]

theorem merge_of_within {old mask : BitVec 64} (hold : Within old mask)
    (value : BitVec 64) : merge old mask value = value &&& mask := by
  apply BitVec.eq_of_getLsbD_eq
  intro i _
  rw [merge_bit, BitVec.getLsbD_and]
  cases hmask : mask.getLsbD i with
  | true => simp
  | false =>
      cases hbit : old.getLsbD i with
      | false => simp
      | true => simp [hold.bit hbit] at hmask

theorem merge_and {mask kept : BitVec 64} (hmask : Within mask kept)
    (old value : BitVec 64) :
    merge old mask value &&& kept = merge (old &&& kept) mask value := by
  apply BitVec.eq_of_getLsbD_eq
  intro i _
  rw [BitVec.getLsbD_and, merge_bit, merge_bit, BitVec.getLsbD_and]
  cases hbit : mask.getLsbD i with
  | true => simp [hmask.bit hbit]
  | false => simp

theorem merge_agree {old mask value : BitVec 64} (h : Agree mask value old) :
    merge old mask value = old := by
  rw [agree_iff] at h
  apply BitVec.eq_of_getLsbD_eq
  intro i _
  rw [merge_bit]
  cases hbit : mask.getLsbD i with
  | true => simp [h i hbit]
  | false => simp

theorem force_self (f : CsrFile) (addr : BitVec 12) :
    f.force addr (f.regs addr) = f := by
  unfold force
  rw [Function.update_eq_self]

variable {f : CsrFile}

theorem write_alias (h : f.Implemented) (a : CsrAlias) (value : BitVec 64) :
    f.write a.addr value = f.force a.wide
      (merge (f.regs a.wide) a.writable (value <<< a.shift)) := by
  cases a with
  | frm => rfl
  | mie =>
      unfold CsrAlias.shift
      rw [BitVec.shiftLeft_zero]
      exact congrArg (f.force Csr.MIE) (merge_of_within h.mie value).symm
  | fcsr =>
      unfold CsrAlias.shift
      rw [BitVec.shiftLeft_zero]
      exact congrArg (f.force Csr.FCSR) (merge_of_within h.fcsr value).symm
  | _ =>
      unfold CsrAlias.shift
      rw [BitVec.shiftLeft_zero]
      rfl

theorem view_wide (f : CsrFile) (a : CsrAlias) :
    Agree a.stored (f.view a.wide) (f.regs a.wide) := by
  cases a with
  | mstatus | sstatus => exact status_agree (by decide) f
  | _ => rfl

theorem read_wide (f : CsrFile) (a : CsrAlias) :
    f.read a.wide &&& a.stored =
      f.regs a.wide &&& (widthMask f.xlen &&& a.stored) := by
  have hview := (f.view_wide a).and (widthMask f.xlen)
  rw [read_eq]
  rw [Agree] at hview
  rw [hview, BitVec.and_assoc]

theorem read_shows (f : CsrFile) (a : CsrAlias) :
    f.read a.addr = (f.read a.wide &&& a.visible) >>> a.shift := by
  have hshown : f.view a.addr = (f.view a.wide &&& a.visible) >>> a.shift := by
    cases a with
    | frm | sstatus | sie | sip | fflags => rfl
    | mstatus | mie | mip | fcsr => exact (BitVec.and_allOnes).symm
  have hfits : a.visible >>> a.shift &&& widthMask f.xlen =
      (a.visible &&& widthMask f.xlen) >>> a.shift := by
    cases f.xlen <;> cases a <;> rfl
  rw [read_eq, read_eq, hshown, BitVec.ushiftRight_and_distrib,
    BitVec.and_assoc, hfits, ← BitVec.ushiftRight_and_distrib, BitVec.and_assoc,
    BitVec.and_comm a.visible]

theorem read_agree (f : CsrFile) (a : CsrAlias) :
    Agree a.writable (f.read a.addr <<< a.shift) (f.regs a.wide) := by
  have hplace : Within a.writable (BitVec.allOnes 64 <<< a.shift) := by
    cases a <;> decide
  have hvisible : Within a.writable a.visible := by
    cases a <;> decide
  have hstored : Within a.writable a.stored := by
    cases a <;> decide
  have hwidth : Within a.writable (widthMask f.xlen) := by
    cases f.xlen <;> cases a <;> decide
  rw [read_shows, BitVec.shiftLeft_ushiftRight, read_eq]
  have hcut : Agree a.writable
      (f.view a.wide &&& widthMask f.xlen &&& a.visible) (f.view a.wide) :=
    (Agree.and_mask hvisible).trans (Agree.and_mask hwidth)
  exact ((Agree.and_mask hplace).trans hcut).trans
    ((f.view_wide a).mono hstored)

theorem aliases_of_implemented (h : f.Implemented) (a : CsrAlias) :
    f.Aliases a where
  shows := f.read_shows a
  puts value := by
    rw [write_alias h, force_regs_same]
  frame value other hother := by
    rw [write_alias h, force_regs_other _ _ hother]
  reads value := by
    have hwithin : Within a.writable (widthMask f.xlen &&& a.stored) := by
      cases f.xlen <;> cases a <;> decide
    rw [read_wide, read_wide, write_xlen, write_alias h, force_regs_same,
      merge_and hwithin]
  restores := by
    rw [write_alias h, merge_agree (f.read_agree a), force_self]

/-! ## Any number of writes -/

def writeAll (f : CsrFile) (writes : List (CsrAlias × BitVec 64)) : CsrFile :=
  writes.foldl (fun f entry => f.write entry.1.addr entry.2) f

theorem Implemented.write (h : f.Implemented) (a : CsrAlias)
    (value : BitVec 64) : (f.write a.addr value).Implemented := by
  have hmerge : ∀ {target mask : BitVec 64}, Within target mask →
      Within a.writable mask →
      Within (merge target a.writable (value <<< a.shift)) mask := by
    intro target mask htarget hmask
    unfold Within
    rw [merge_and hmask, htarget]
  rw [write_alias h]
  cases a with
  | mie | sie =>
      constructor
      · rw [CsrAlias.wide, force_regs_same]
        exact hmerge h.mie (by decide)
      · rw [CsrAlias.wide, force_regs_other _ _ (by decide)]
        exact h.fcsr
  | fcsr | fflags | frm =>
      constructor
      · rw [CsrAlias.wide, force_regs_other _ _ (by decide)]
        exact h.mie
      · rw [CsrAlias.wide, force_regs_same]
        exact hmerge h.fcsr (by decide)
  | mstatus | sstatus | mip | sip =>
      constructor
      · rw [CsrAlias.wide, force_regs_other _ _ (by decide)]
        exact h.mie
      · rw [CsrAlias.wide, force_regs_other _ _ (by decide)]
        exact h.fcsr

theorem Implemented.writeAll (h : f.Implemented)
    (writes : List (CsrAlias × BitVec 64)) : (f.writeAll writes).Implemented := by
  induction writes generalizing f with
  | nil => exact h
  | cons entry rest ih => exact ih (h.write entry.1 entry.2)

theorem new_implemented (xlen : Xlen) : (new xlen).Implemented := by
  cases xlen <;> constructor <;> decide

/-- However a fresh file has been written through these numbers, each shows its
part of the register, replaces its own bits and no others, and gives back what
it has shown. -/
theorem writeAll_aliases (xlen : Xlen) (writes : List (CsrAlias × BitVec 64))
    (a : CsrAlias) : ((new xlen).writeAll writes).Aliases a :=
  aliases_of_implemented ((new_implemented xlen).writeAll writes) a

end CsrFile

end Nanoemu
