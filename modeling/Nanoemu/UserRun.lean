import Nanoemu.FlatRun
import Nanoemu.PagedAccess
import Nanoemu.UserIsolation

/-!
# User programs

A user program under paging is a program of the flat machine: as long as the
flat machine runs on in the region that the tables map, the hart does the same
in the pages, and leaves the rest of memory alone.
-/

namespace Nanoemu

open CheckedProgram BitFields Mmu

namespace Cpu

open Flat

/-- What the pages of a region hold at first. -/
def Region.ram {b : Cpu} (region : Region b) : Dram where
  len := region.len
  byte i := b.mem.dram.byte (region.frame i)

theorem Inside.paged {b : Cpu} (h : Inside b b) (region : Region b) :
    Paged region b region.ram :=
  ⟨h, rfl, rfl, fun _ => rfl⟩

/-- From its entry on, a user runs as the flat machine does that has its
registers and the memory of its pages.  On RV32 its region leaves room at one
end of the address space, out of reach of a jump that leaves at the other. -/
theorem user_runs_flat {profile : Profile} {f b : Cpu} {n : ℕ}
    (hreach : Reachable profile (Started profile) f) (hempty : EmptyTlb f)
    (hkernel : Run profile (TablesKept b) f b) (hguard : Guarded b)
    (huser : b.privMode = .user) (hmie : b.csrs.read Csr.MIE = 0)
    (hcanonical : Canonical b) (hroom : b.cycle.toNat + n < 2 ^ 64)
    (region : Region b)
    (hclear : b.xlen = .rv32 → 2 ^ 20 ≤ region.layout.base ∨
      region.layout.base + region.len ≤ 2 ^ 32 - 2 ^ 20)
    {s' : State b.xlen.bits}
    (hrun : ForwardSimulation.Steps State.Step n
      (b.held region.layout region.ram) s') :
    ∃ c', ForwardSimulation.Steps (StepsTo profile) n b c' ∧
      Hosts (pagedView hguard region) c' s' ∧ Spared b c'.mem := by
  have hinside := hkernel.inside hreach hempty huser
  have hshows : (pagedView hguard region).Shows b region.ram :=
    hinside.paged region
  have hroomy : (b.held region.layout region.ram).Clear := by
    intro hbits
    apply hclear
    cases hxlen : b.xlen with
    | rv32 => rfl
    | rv64 =>
        rw [hxlen] at hbits
        cases hbits
  have hstart : Simulating (pagedView hguard region) n b
      (b.held region.layout region.ram) :=
    ⟨hcanonical.hosts hshows, hroomy, Or.inl hmie, hroom⟩
  obtain ⟨c', hsteps, hlast⟩ := runs_flat hstart hrun
  have hpaged : Paged region c' s'.ram := hlast.shows
  exact ⟨c', hsteps, hlast, hpaged.inside.spared⟩

def userLeaf : Leaf :=
  { level := 1
    addr := 0x80000020
    pte := 0x201000df }

theorem isolatedUser_leaf (access : Access) :
    isolatedUser.UserLeaf 0x2000000 access userLeaf := by
  have hentry : entryAt .sv32 isolatedUser.mem.dram
      (entryAddr .sv32 0x2000000 0x80000000 1) = userLeaf.pte := by
    decide +kernel
  have hvalid : ValidEntry userLeaf.pte := (valid_iff _).mp (by decide)
  have hleaf : ¬ PointerEntry userLeaf.pte := by
    rw [← isPointer_iff]
    decide
  have hreaches : Reaches .sv32 isolatedUser.mem.dram 0x2000000 2 0x80000000
      userLeaf := by
    rw [← hentry] at hvalid hleaf
    have hreaches := Reaches.leaf hvalid hleaf
    rw [hentry] at hreaches
    exact hreaches
  have hpermits : Permits userLeaf.pte (isolatedUser.csrs.read Csr.MSTATUS)
      access := by
    cases access with
    | fetch => exact (by decide : userLeaf.pte.getLsbD 3 = true)
    | load => exact Or.inl (by decide)
    | store => exact (by decide : userLeaf.pte.getLsbD 2 = true)
  rw [← isolatedUser_onePage.root] at hreaches
  unfold UserLeaf
  rw [isolatedUser_onePage.scheme]
  exact ⟨fun hsv39 => (by cases hsv39), hreaches,
    ⟨hpermits, (by decide : userLeaf.pte.getLsbD 4 = true), by decide⟩⟩

/-- The start of the page. -/
def userRegion : Region isolatedUser where
  layout := { base := 0x2000000, allows := fun _ _ => true }
  len := 16
  frame i := 0x400000 + i
  granted := by
    intro access i va hi _ hva
    have hpage : (0x2000000 : BitVec 64).toNat % 4096 + i < 4096 := by
      change 0 + i < 4096
      omega
    obtain ⟨hnat, hsame⟩ := page_add hpage
    obtain rfl : 0x2000000 + BitVec.ofNat 64 i = va :=
      BitVec.eq_of_toNat_eq (hnat.trans hva.symm)
    have htarget : (userLeaf.target .sv32 (0x2000000 + BitVec.ofNat 64 i)).toNat
        = 0x80400000 + i :=
      Leaf.target_add (by decide) hpage
    refine ⟨userLeaf, (isolatedUser_leaf access).page hsame, ?_⟩
    rw [isolatedUser_onePage.scheme]
    unfold Memory.offset
    rw [BitVec.le_def, htarget]
    change 0x80000000 ≤ _ ∧ _ - 0x80000000 = _
    omega
  inDram := by
    rintro i ⟨hi, -⟩
    have hlen : isolatedUser.mem.dram.len = 0x480000 := by decide +kernel
    omega
  injective := by
    rintro i j - - hsame
    omega
  apart := by
    rintro i - hword
    have hlow := isolatedUser_onePage.tableByte hword
    omega

def enteredUser : State isolatedUser.xlen.bits :=
  isolatedUser.held userRegion.layout userRegion.ram

/-- The user has stored its own address on its page. -/
def storedUser : State isolatedUser.xlen.bits :=
  (enteredUser.store 0x2000008 4 0x2000000).goto 0x2000004

theorem enteredUser_stores : State.Step enteredUser storedUser := by
  have hreg : enteredUser.reg 5 = 0x2000000 := by decide +kernel
  have hnext : enteredUser.pc + 4 = 0x2000004 := by decide +kernel
  have haddr : (0x2000000 + (8 : BitVec 12).signExtend isolatedUser.xlen.bits) =
      0x2000008 := by decide +kernel
  have hholds : enteredUser.Holds .store 0x2000008 4 := by decide +kernel
  refine ⟨.store .sw 5 5 8, enteredUser.pc + 4, ⟨by decide +kernel,
    by decide +kernel, .word (by decide +kernel), fun h => nomatch h⟩, ?_⟩
  simp only [State.exec, hreg, hnext, haddr]
  exact if_pos hholds

theorem user_runs_flat_storing :
    ∃ c', ForwardSimulation.Steps (StepsTo .debug) 1 isolatedUser c' ∧
      Hosts (pagedView isolatedUser_onePage.guarded userRegion) c' storedUser ∧
      Spared isolatedUser c'.mem := by
  have hreach : Reachable .debug (Started .debug) isolatingHart :=
    ⟨isolatingHart, isolatingHart_started, .refl trivial⟩
  have hcanonical : Canonical isolatedUser := by
    refine ⟨by decide +kernel, by decide +kernel, fun addr hreserved => ?_⟩
    have hnone : isolatedUser.reservation = none := by decide +kernel
    rw [hnone] at hreserved
    cases hreserved
  exact user_runs_flat hreach isolatingHart_started.emptyTlb
    isolatedUser_entered isolatedUser_onePage.guarded (by decide +kernel)
    (by decide +kernel) hcanonical (by decide +kernel) userRegion
    (fun _ => Or.inl (by decide)) (.single enteredUser_stores)

end Cpu

end Nanoemu
