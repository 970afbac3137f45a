import Nanoemu.MemoryView

/-!
# Direct access to memory

Without a translation scheme, or in machine mode, the hart reads and writes
memory at the addresses it is given.
-/

namespace Nanoemu

open CheckedProgram

namespace Cpu

/-- No access is translated, and what is cached for the context of the hart
agrees. -/
structure Direct (c : Cpu) : Prop where
  bare : ∀ access,
    Mmu.Mode.of (c.csrs.read Csr.SATP) c.xlen = .bare ∨
      Mmu.effectivePriv (c.csrs.read Csr.MSTATUS) c.privMode access = .machine
  cached : ∀ va access, c.tlbHit va access = true →
    (c.tlb (tlbSlot va) access).ppn ||| (va &&& 0xfff) = va

section Translation

variable {c x : Cpu} {va : BitVec 64} {access : Access}

theorem page_or_offset (va : BitVec 64) :
    (va &&& ~~~0xfff#64) ||| (va &&& 0xfff) = va := by
  have hall : ~~~0xfff#64 ||| 0xfff = BitVec.allOnes 64 := by decide
  rw [← BitVec.and_or_distrib_left, hall, BitVec.and_allOnes]

theorem page_eq_shift (va : BitVec 64) :
    va &&& ~~~0xfff#64 = va >>> 12 <<< 12 := by
  rw [BitVec.shiftLeft_ushiftRight]
  rfl

/-- A hart with the context and the cache of a direct one is direct. -/
theorem Direct.congr (h : c.Direct) (htlb : x.tlb = c.tlb)
    (hxlen : x.xlen = c.xlen) (hmode : x.privMode = c.privMode)
    (hsatp : x.csrs.read Csr.SATP = c.csrs.read Csr.SATP)
    (hstatus : x.csrs.read Csr.MSTATUS = c.csrs.read Csr.MSTATUS) :
    x.Direct := by
  refine ⟨fun access => ?_, fun va access hhit => ?_⟩
  · rw [hsatp, hstatus, hxlen, hmode]
    exact h.bare access
  · rw [htlb]
    apply h.cached
    unfold tlbHit tlbCtx at hhit ⊢
    rwa [htlb, hsatp, hstatus, hmode] at hhit

theorem Direct.walker (h : c.Direct) (va : BitVec 64) (access : Access)
    (profile : Profile) (mem : Memory) :
    c.walker va access profile mem = some (.ok va, mem) := by
  unfold Cpu.walker Mmu.translate
  rw [if_pos (h.bare access)]
  exact Program.pure_run _ _ _

theorem Direct.setTlb (h : c.Direct) (va : BitVec 64) (access : Access) :
    (c.setTlb va access (c.cachedEntry va va)).Direct := by
  refine ⟨h.bare, fun va' access' hhit => ?_⟩
  by_cases hsame : tlbSlot va' = tlbSlot va ∧ access' = access
  · have hentry : (c.setTlb va access (c.cachedEntry va va)).tlb (tlbSlot va')
        access' = c.cachedEntry va va := by
      rw [setTlb_tlb, if_pos hsame]
    have hpage : va >>> 12 = va' >>> 12 := by
      have hvpn := (tlbHit_eq_true hhit).2.1
      rwa [hentry] at hvpn
    rw [hentry]
    change (va &&& ~~~0xfff#64) ||| (va' &&& 0xfff) = va'
    rw [page_eq_shift, hpage, ← page_eq_shift, page_or_offset]
  · have hentry : (c.setTlb va access (c.cachedEntry va va)).tlb (tlbSlot va')
        access' = c.tlb (tlbSlot va') access' := by
      rw [setTlb_tlb, if_neg hsame]
    have hctx : (c.setTlb va access (c.cachedEntry va va)).tlbCtx = c.tlbCtx :=
      rfl
    rw [hentry]
    apply h.cached
    rw [tlbHit, hentry, hctx] at hhit
    exact hhit

/-- Only the cache moves. -/
theorem Direct.translate (h : c.Direct) (va : BitVec 64) (access : Access)
    (profile : Profile) :
    ∃ x, Cpu.translate va access profile c = some (.ok va, x) ∧
      x = { c with tlb := x.tlb } ∧ x.Direct := by
  cases hhit : c.tlbHit va access with
  | true =>
      refine ⟨c, ?_, rfl, h⟩
      rw [translate_hit hhit, h.cached va access hhit]
  | false =>
      refine ⟨c.setTlb va access (c.cachedEntry va va), ?_, rfl,
        h.setTlb va access⟩
      rw [translate_miss hhit, h.walker]

/-- The bytes of an access lie in DRAM. -/
theorem Covers.inDram {allows : Access → ℕ → Bool} {ram : Dram} {size : ℕ}
    (h : Covers ⟨DRAM_BASE.toNat, allows⟩ ram access va size)
    (hram : c.mem.dram = ram) : c.mem.InDram va size := by
  have hbase : DRAM_BASE.toNat ≤ va.toNat := h.base
  have hend : va.toNat + size ≤ DRAM_BASE.toNat + ram.len := h.inside
  have hfits := h.fits
  have hpos : 0 < DRAM_BASE.toNat := by decide
  unfold Memory.InDram
  rw [BitVec.le_def, hram]
  omega

end Translation

/-- The memory is the DRAM of a hart that accesses it directly. -/
def directView : View where
  layout := { base := DRAM_BASE.toNat, allows := fun _ _ => true }
  Shows c ram := c.mem.dram = ram ∧ c.Direct
  congr := by
    rintro c x ram ⟨hram, hdirect⟩ hsame
    exact ⟨hsame.dram.trans hram, hdirect.congr hsame.tlb hsame.xlen
      hsame.privMode hsame.satp hsame.status⟩
  translates := by
    rintro c ram access va size profile ⟨rfl, hdirect⟩ hcovers - -
    obtain ⟨x, htranslate, hx, hmoved⟩ := hdirect.translate va access profile
    have hmem : x.mem = c.mem := (congrArg Cpu.mem hx :)
    have hbeside : Beside c x := by
      refine ⟨?_, fun _ => by rw [hmem]⟩
      rw [hmem]
      exact hx
    refine ⟨va, x, htranslate, hbeside, ⟨⟨by rw [hmem], hmoved⟩,
      hcovers.inDram (by rw [hmem]), fun k _ => by rw [hmem]; rfl,
      fun _ value => ⟨?_, hmoved.congr rfl rfl rfl rfl rfl⟩⟩⟩
    rw [Memory.stored_dram, hmem]
    rfl

end Cpu

end Nanoemu
