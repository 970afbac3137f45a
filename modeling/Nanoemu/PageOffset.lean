import Nanoemu.MemoryPath

/-!
# Offsets within a page

Whatever the tables hold, an address is translated to one with its own offset
in a page, and so is an address that the cache answers.
-/

namespace Nanoemu

open CheckedProgram Mmu

namespace Mmu

theorem offset_toNat (va : BitVec 64) :
    (va &&& 0xfff).toNat = va.toNat % 4096 := by
  have hmask : (0xfff : BitVec 64).toNat = 2 ^ 12 - 1 := by decide
  rw [BitVec.toNat_and, hmask, Nat.and_two_pow_sub_one_eq_mod]

theorem page_or_toNat {page : BitVec 64} (hpage : page &&& 0xfff = 0)
    (va : BitVec 64) :
    (page ||| (va &&& 0xfff)).toNat = page.toNat + va.toNat % 4096 ∧
      page.toNat % 4096 = 0 := by
  have hzero : page.toNat % 4096 = 0 := by
    rw [← offset_toNat, hpage]
    rfl
  have hlt : va.toNat % 4096 < 2 ^ 12 := Nat.mod_lt _ (by decide)
  have hbase : page.toNat = 2 ^ 12 * (page.toNat / 4096) := by omega
  refine ⟨?_, hzero⟩
  rw [BitVec.toNat_or, offset_toNat, hbase,
    ← Nat.two_pow_add_eq_or_of_lt hlt, ← hbase]

theorem splice_offset {scheme : Mode} {pte va pa : BitVec 64} {level : ℕ}
    {profile : Profile} (h : splice scheme pte va level profile = some pa) :
    pa &&& 0xfff = va &&& 0xfff := by
  obtain ⟨mask, -, hrest⟩ := Checked.bind_eq_some h
  obtain ⟨base, hbase, hsum⟩ := Checked.bind_eq_some hrest
  rw [Checked.add_eq_some hsum, Checked.mul_eq_some hbase]
  have hconst : PAGE_SIZE - 1 = 0xfff := by decide
  have hsize : PAGE_SIZE.toNat = 4096 := by decide
  apply BitVec.eq_of_toNat_eq
  rw [hconst, offset_toNat, offset_toNat, BitVec.toNat_add, BitVec.toNat_mul,
    offset_toNat, hsize]
  omega

theorem leaf_offset (scheme : Mode) (effective : Priv) (status va : BitVec 64)
    (access : Access) (level : ℕ) (addr pte : BitVec 64) (profile : Profile)
    (mem : Memory) :
    (leaf scheme effective status va access level addr pte).Ensures profile mem
      (fun pa _ => pa &&& 0xfff = va &&& 0xfff) (fun _ _ => True) := by
  apply Program.Ensures.ite (fun _ => Program.Ensures.fail trivial)
  intro _
  apply Program.Ensures.ite (fun _ => Program.Ensures.fail trivial)
  intro _
  apply Program.Ensures.bind
  apply Program.Ensures.check
  intro mask _
  apply Program.Ensures.ite (fun _ => Program.Ensures.fail trivial)
  intro _
  have hsplice : ∀ mem', (Program.check (splice scheme pte va level) :
      Program Memory Exception (BitVec 64)).Ensures profile mem'
        (fun pa _ => pa &&& 0xfff = va &&& 0xfff) (fun _ _ => True) :=
    fun mem' => Program.Ensures.check fun pa hpa => splice_offset hpa
  apply Program.Ensures.ite
  · intro _
    apply Program.Ensures.bind
    intro outcome mem' _
    cases outcome with
    | error e => trivial
    | ok value => exact hsplice mem'
  · exact fun _ => hsplice mem

theorem walk_offset (scheme : Mode) (effective : Priv) (status va : BitVec 64)
    (access : Access) (remaining : ℕ) (table : BitVec 64) (profile : Profile)
    (mem : Memory) :
    (walk scheme effective status va access remaining table).Ensures profile mem
      (fun pa _ => pa &&& 0xfff = va &&& 0xfff) (fun _ _ => True) := by
  induction remaining generalizing table mem with
  | zero => exact Program.Ensures.fail trivial
  | succ level ih =>
      apply Program.Ensures.bind
      apply Program.Ensures.check
      intro addr _
      apply Program.Ensures.bind
      intro outcome mem' _
      cases outcome with
      | error e => trivial
      | ok pte =>
          apply Program.Ensures.ite (fun _ => Program.Ensures.fail trivial)
          intro _
          apply Program.Ensures.ite
          · intro _
            apply Program.Ensures.ite (fun _ => Program.Ensures.fail trivial)
            intro _
            apply Program.Ensures.bind
            exact Program.Ensures.check fun table _ => ih table mem'
          · intro _
            exact leaf_offset scheme effective status va access level addr pte
              profile mem'

theorem translate_offset (xlen : Xlen) (satp status : BitVec 64) (mode : Priv)
    (va : BitVec 64) (access : Access) (profile : Profile) (mem : Memory) :
    (translate xlen satp status mode va access).Ensures profile mem
      (fun pa _ => pa &&& 0xfff = va &&& 0xfff) (fun _ _ => True) := by
  apply Program.Ensures.ite
  · exact fun _ => Program.Ensures.pure rfl
  intro _
  apply Program.Ensures.ite (fun _ => Program.Ensures.fail trivial)
  intro _
  apply Program.Ensures.bind
  exact Program.Ensures.check fun table _ =>
    walk_offset _ _ _ _ _ _ table profile mem

end Mmu

namespace Cpu

/-- The cached page numbers are addresses of pages. -/
def AlignedTlb (c : Cpu) : Prop :=
  ∀ slot way, (c.tlb slot way).valid = true →
    (c.tlb slot way).ppn &&& 0xfff = 0

theorem cachedEntry_aligned (c : Cpu) (va pa : BitVec 64) :
    (c.cachedEntry va pa).ppn &&& 0xfff = 0 := by
  change (pa &&& ~~~0xfff) &&& 0xfff = 0
  rw [BitVec.and_assoc]
  exact BitVec.and_zero

theorem Filled.aligned {c : Cpu} {slot : Fin TLB_ENTRIES} {way : Access}
    {e : TlbEntry} (h : Filled c slot way e) : e.ppn &&& 0xfff = 0 := by
  obtain ⟨-, va, -, -, pa, -, -, -, rfl⟩ := h
  exact cachedEntry_aligned c va pa

theorem translate_entry (va : BitVec 64) (access : Access)
    (profile : Profile) (c : Cpu) :
    (translate va access).Ensures profile c
      (fun pa c' => c'.tlbHit va access = true ∧
        pa = (c'.tlb (tlbSlot va) access).ppn ||| (va &&& 0xfff) ∧
        (AlignedTlb c → AlignedTlb c'))
      (fun _ _ => True) := by
  intro outcome c' hrun
  cases outcome with
  | error e => trivial
  | ok pa =>
      have hhit' := ((translate_ensures va access profile c).ok hrun).2.1
      refine ⟨hhit', ?_⟩
      cases hhit : c.tlbHit va access with
      | true =>
          rw [translate_hit hhit] at hrun
          cases hrun
          exact ⟨rfl, id⟩
      | false =>
          rw [translate_miss hhit] at hrun
          rcases hwalk : c.walker va access profile c.mem with
            _ | ⟨error | pa', mem⟩
          · simp [hwalk] at hrun
          · simp [hwalk] at hrun
          · rw [hwalk] at hrun
            cases hrun
            have hoffset := (Mmu.translate_offset _ _ _ _ va access profile
              c.mem).ok hwalk
            constructor
            · rw [setTlb_tlb, if_pos ⟨rfl, rfl⟩]
              exact eq_of_page_and_offset rfl hoffset
            · intro haligned slot way hvalid
              rw [setTlb_tlb] at hvalid ⊢
              split
              · exact cachedEntry_aligned c va pa
              · next hother =>
                  rw [if_neg hother] at hvalid
                  exact haligned slot way hvalid

/-- A translation keeps the offset within the page. -/
theorem translate_offset (va : BitVec 64) (access : Access)
    (profile : Profile) (c : Cpu) :
    (translate va access).Ensures profile c
      (fun pa _ => ∃ page, pa = page ||| (va &&& 0xfff))
      (fun _ _ => True) :=
  (translate_entry va access profile c).mono
    (fun _ _ h => ⟨_, h.2.1⟩) fun _ _ _ => trivial

theorem fitsPage_eq {size : ℕ} (hsize : size ≤ 8) (va : BitVec 64) :
    fitsPage va size = pure (decide (va.toNat % 4096 + size ≤ 4096)) := by
  have hoffset := Mmu.offset_toNat va
  have hcount : (BitVec.ofNat 64 size).toNat = size := by
    rw [BitVec.toNat_ofNat, Nat.mod_eq_of_lt (by omega)]
  have hpage : (0x1000 : BitVec 64).toNat = 4096 := by decide
  have hlt := Nat.mod_lt va.toNat (show 0 < 4096 by decide)
  have hsum : (va &&& 0xfff).toNat + (BitVec.ofNat 64 size).toNat < 2 ^ 64 := by
    rw [hoffset, hcount]
    omega
  have hfits : (va &&& 0xfff) + BitVec.ofNat 64 size ≤ 0x1000 ↔
      va.toNat % 4096 + size ≤ 4096 := by
    rw [BitVec.le_def, BitVec.toNat_add_of_lt hsum, hoffset, hcount, hpage]
  unfold fitsPage
  rw [Checked.add_eq_pure hsum, pure_bind, decide_eq_decide.mpr hfits]

theorem translate_same_page {c : Cpu} {va va' : BitVec 64} {access : Access}
    (hhit : c.tlbHit va access = true) (hpage : va' >>> 12 = va >>> 12)
    (profile : Profile) :
    translate va' access profile c =
      some (.ok ((c.tlb (tlbSlot va) access).ppn ||| (va' &&& 0xfff)), c) := by
  have hhit' : c.tlbHit va' access = true := by
    unfold tlbHit at hhit ⊢
    rwa [tlbSlot_congr hpage, hpage]
  rw [translate_hit hhit', tlbSlot_congr hpage]

end Cpu

end Nanoemu
