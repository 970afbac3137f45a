import Nanoemu.AddressSpace
import Nanoemu.MemoryView

/-!
# Memory in pages

A user holds the memory of the flat machine in the pages that its tables map:
consecutive addresses may lie anywhere in DRAM, as long as no two of them lie
on one byte and none on a table.  As the user goes on, the tables stay where
they are and the accesses they grant stay granted.
-/

namespace Nanoemu

open CheckedProgram BitFields Mmu

/-- The bytes that are for something. -/
def Flat.Layout.Uses (layout : Flat.Layout) (len i : ℕ) : Prop :=
  i < len ∧ ∃ access, layout.allows access i = true

namespace Cpu

/-- The leaf by which user mode reaches `va`, as the tables of `b` are. -/
def UserLeaf (b : Cpu) (va : BitVec 64) (access : Access) (reached : Leaf) :
    Prop :=
  Answers b.scheme (b.csrs.read Csr.SATP) (b.csrs.read Csr.MSTATUS) .user
    b.mem.dram va access reached

theorem marked_beside (scheme : Mode) (access : Access) (c : Cpu)
    (reached : Leaf) :
    Beside c { c with mem := marked scheme access c.mem reached } := by
  unfold marked
  split
  · exact Beside.refl c
  · exact Beside.stored c _ _ _

theorem Beside.setTlb (c : Cpu) (va : BitVec 64) (access : Access)
    (entry : TlbEntry) : Beside c (c.setTlb va access entry) :=
  ⟨rfl, fun _ => rfl⟩

section Granted

variable {b y : Cpu} {va : BitVec 64} {access : Access} {reached : Leaf}

/-- The tables still grant what those of `b` do, at the same place. -/
theorem Inside.answers (h : Inside b y)
    (hstatus : y.csrs.read Csr.MSTATUS = b.csrs.read Csr.MSTATUS)
    (hleaf : b.UserLeaf va access reached) :
    ∃ reached', Answers y.scheme (y.csrs.read Csr.SATP)
        (y.csrs.read Csr.MSTATUS) .user y.mem.dram va access reached' ∧
      reached'.target y.scheme va = reached.target b.scheme va := by
  have hwords := h.tableWords va
  have hentries := h.spared.entries va
  rw [← hwords] at hentries
  unfold Cpu.tableWords at hentries
  rw [h.scheme, h.satp] at hentries ⊢
  rw [translationReads_eq hleaf.canonical] at hentries
  obtain ⟨reached', hreaches, hlevel, hpte⟩ := hleaf.reaches.congr rfl
    fun addr haddr => (hentries addr haddr).symm
  refine ⟨reached', ⟨hleaf.canonical, hreaches, ?_⟩,
    Leaf.target_of_agree hlevel hpte va⟩
  exact hleaf.grants.congr hlevel hpte (by rw [hstatus]) (by rw [hstatus])

/-- The walker goes where the tables of `b` say. -/
theorem Inside.walks (h : Inside b y) (hguard : Guarded b)
    (hstatus : y.csrs.read Csr.MSTATUS = b.csrs.read Csr.MSTATUS)
    (hleaf : b.UserLeaf va access reached) (profile : Profile) :
    ∃ reached', reached'.addr ∈ b.tableWords va ∧
      reached'.pte = entryAt y.scheme y.mem.dram reached'.addr ∧
      y.walker va access profile y.mem =
        some (.ok (reached.target b.scheme va),
          marked y.scheme access y.mem reached') := by
  obtain ⟨expected, hexpected, htarget⟩ := h.answers hstatus hleaf
  have hpaged : y.scheme ≠ .bare := by
    rw [h.scheme]
    exact hguard.paged
  have huser := h.effective access
  have heffective : y.effective access ≠ .machine := by
    rw [huser]
    decide
  rw [← huser] at hexpected
  rcases translate_spec hpaged heffective (h.tablesInDram hguard va)
    profile with ⟨reached', hanswers, -, hrun⟩ | ⟨hnone, -⟩
  · have hsame := hanswers.reaches.unique hexpected.reaches
    refine ⟨reached', ?_, hanswers.reaches.pte_eq, ?_⟩
    · rw [← h.tableWords]
      exact hanswers.addr_mem
    · rw [← htarget, ← hsame]
      exact hrun
  · exact absurd hexpected (hnone expected)

/-- A granted access is translated, and moves nothing but the cache and the
tables. -/
theorem Inside.granted (h : Inside b y) (hguard : Guarded b)
    (hstatus : y.csrs.read Csr.MSTATUS = b.csrs.read Csr.MSTATUS)
    (hleaf : b.UserLeaf va access reached) (profile : Profile) :
    ∃ x, translate va access profile y =
        some (.ok (reached.target b.scheme va), x) ∧
      Inside b x ∧ Beside y x ∧
      ∀ j, ¬ b.TableByte j → x.mem.dram.byte j = y.mem.dram.byte j := by
  have htranslated :=
    h.translated hguard (sheltered_all b) va access profile
  cases hhit : y.tlbHit va access with
  | true =>
      obtain ⟨mem, hcached⟩ := h.cached hguard hhit
      obtain ⟨_, -, -, hwalk⟩ := h.walks hguard hstatus hleaf .debug
      have hpair := hcached.symm.trans hwalk
      simp only [Option.some.injEq, Prod.mk.injEq, Except.ok.injEq] at hpair
      refine ⟨y, ?_, h, Beside.refl y, fun _ _ => rfl⟩
      rw [translate_hit hhit, hpair.1]
  | false =>
      obtain ⟨reached', hread, hentry, hwalk⟩ :=
        h.walks hguard hstatus hleaf profile
      have hrun := translate_miss hhit profile
      rw [hwalk] at hrun
      refine ⟨_, hrun, (htranslated.ok hrun).1.1, ?_, fun j hword => ?_⟩
      · exact (marked_beside y.scheme access y reached').trans
          (Beside.setTlb _ _ _ _)
      · have hpaged : y.scheme ≠ .bare := by
          rw [h.scheme]
          exact hguard.paged
        obtain ⟨-, hframe, -⟩ := marked_spec hpaged access y.mem hentry
        apply hframe
        intro hin
        rw [h.scheme] at hin
        exact hword ⟨va, reached'.addr, hread, hin⟩

end Granted

/-! ## Regions -/

/-- A stretch of the user's addresses and the byte of DRAM behind each.  Where
no access is allowed there need be none. -/
structure Region (b : Cpu) where
  layout : Flat.Layout
  len : ℕ
  frame : ℕ → ℕ
  granted : ∀ {access i} {va : BitVec 64}, i < len →
    layout.allows access i = true → va.toNat = layout.base + i →
    ∃ reached, b.UserLeaf va access reached ∧
      DRAM_BASE ≤ reached.target b.scheme va ∧
      Memory.offset (reached.target b.scheme va) = frame i
  inDram : ∀ {i}, layout.Uses len i → frame i < b.mem.dram.len
  injective : ∀ {i j}, layout.Uses len i → layout.Uses len j →
    frame i = frame j → i = j
  apart : ∀ {i}, layout.Uses len i → ¬ b.TableByte (frame i)

/-- The hart is in the address space of `b` and its pages hold the memory. -/
structure Paged {b : Cpu} (region : Region b) (c : Cpu) (ram : Dram) :
    Prop where
  inside : Inside b c
  status : c.csrs.read Csr.MSTATUS = b.csrs.read Csr.MSTATUS
  len : ram.len = region.len
  bytes : ∀ {i}, region.layout.Uses region.len i →
    c.mem.dram.byte (region.frame i) = ram.byte i

section Regions

variable {b : Cpu} {region : Region b} {c x : Cpu} {ram : Dram}
  {access : Access} {va : BitVec 64} {size : ℕ}

/-- Within a page the bytes of a region follow each other in DRAM. -/
theorem Region.place (region : Region b)
    (hcovers : Covers region.layout ram access va size)
    (hlen : ram.len = region.len) (hpos : 0 < size)
    (hpage : va.toNat % 4096 + size ≤ 4096) :
    ∃ reached, b.UserLeaf va access reached ∧
      DRAM_BASE ≤ reached.target b.scheme va ∧
      ∀ k < size,
        region.layout.Uses region.len (va.toNat - region.layout.base + k) ∧
        region.frame (va.toNat - region.layout.base + k) =
          Memory.offset (reached.target b.scheme va) + k ∧
        (reached.target b.scheme va).toNat + k < 2 ^ 64 := by
  obtain ⟨hbase, hinside, -, hallowed⟩ := hcovers
  rw [hlen] at hinside
  have hstart : va.toNat = region.layout.base +
      (va.toNat - region.layout.base + 0) := by omega
  obtain ⟨reached, hleaf, hdram, -⟩ :=
    region.granted (by omega) (hallowed 0 hpos) hstart
  refine ⟨reached, hleaf, hdram, fun k hk => ?_⟩
  have hadd : va.toNat % 4096 + k < 4096 := by omega
  have hnat := (page_add hadd).1
  have hallows := hallowed k hk
  obtain ⟨reached', hleaf', -, hframe⟩ := region.granted (by omega) hallows
    (hnat.trans (by omega))
  have hsame : reached' = reached :=
    hleaf'.reaches.unique (Answers.page hleaf (page_add hadd).2).reaches
  have htarget := Leaf.target_add hleaf.reaches.level_lt hadd
  have hlt := (reached.target b.scheme (va + BitVec.ofNat 64 k)).isLt
  rw [BitVec.le_def] at hdram
  refine ⟨⟨by omega, access, hallows⟩, ?_, htarget ▸ hlt⟩
  rw [← hframe, hsame]
  unfold Memory.offset
  rw [htarget]
  omega

theorem Paged.congr (h : Paged region c ram) (hsame : SameAccess c x) :
    Paged region x ram := by
  refine ⟨h.inside.congr hsame.privMode ?_ hsame.satp hsame.xlen hsame.dram
    hsame.tlb, hsame.status.trans h.status, h.len, fun huses => ?_⟩
  · rw [hsame.status]
  · rw [hsame.dram]
    exact h.bytes huses

/-- A store within a page stores in the memory, and leaves the rest of it
alone. -/
theorem Paged.stored (h : Paged region c ram) (hguard : Guarded b)
    {pa : BitVec 64} (hto : b.StoresTo va pa)
    (hpage : va.toNat % 4096 + size ≤ 4096) (hbase : DRAM_BASE ≤ pa) {i : ℕ}
    (hplace : ∀ k < size, region.layout.Uses region.len (i + k) ∧
      region.frame (i + k) = Memory.offset pa + k) (value : BitVec 64) :
    Paged region { c with mem := c.mem.stored pa size value }
      (ram.storeLe i size value) := by
  refine ⟨h.inside.of_spared (hto.stored hguard h.inside.spared hpage hbase
    value), h.status, h.len, fun {j} huses => ?_⟩
  have hbyte := h.bytes huses
  change (c.mem.stored pa size value).dram.byte _ = _
  rw [Memory.stored_dram]
  simp only [Dram.storeLe]
  by_cases hin : i ≤ j ∧ j < i + size
  · have hindex : i + (j - i) = j := by omega
    have hframe := (hplace (j - i) (by omega)).2
    rw [hindex] at hframe
    rw [hframe, if_pos (by omega), if_pos hin, Nat.add_sub_cancel_left]
  · rw [if_neg hin, if_neg, hbyte]
    rintro ⟨hlow, hhigh⟩
    obtain ⟨huses', hframe⟩ :=
      hplace (region.frame j - Memory.offset pa) (by omega)
    have hsame := region.injective huses huses' (by omega)
    omega

theorem Paged.translates (h : Paged region c ram) (hguard : Guarded b)
    (profile : Profile) (hcovers : Covers region.layout ram access va size)
    (hpos : 0 < size) (hpage : va.toNat % 4096 + size ≤ 4096) :
    ∃ pa x, translate va access profile c = some (.ok pa, x) ∧ Beside c x ∧
      Found (Paged region) ram access (va.toNat - region.layout.base) size pa
        x := by
  obtain ⟨reached, hleaf, hbase, hplace⟩ :=
    region.place hcovers h.len hpos hpage
  obtain ⟨x, htranslate, hinside, hx, hkept⟩ :=
    h.inside.granted hguard h.status hleaf profile
  have hlast := hplace (size - 1) (by omega)
  have hend := region.inDram hlast.1
  have hshows : Paged region x ram := by
    refine ⟨hinside, ?_, h.len, fun huses => ?_⟩
    · rw [← h.status]
      exact (congrArg (fun c => c.csrs.read Csr.MSTATUS) hx.frame :)
    · rw [hkept _ (region.apart huses)]
      exact h.bytes huses
  refine ⟨_, x, htranslate, hx, ⟨hshows, ⟨hbase, ?_, ?_⟩, fun k hk => ?_,
    fun hstore value => ?_⟩⟩
  · rw [hinside.spared.len]
    have hframe := hlast.2.1
    unfold Memory.offset at hframe
    omega
  · have hpos : 0 < DRAM_BASE.toNat := by decide
    omega
  · rw [← (hplace k hk).2.1]
    exact hshows.bytes (hplace k hk).1
  · subst hstore
    exact hshows.stored hguard ⟨reached, hleaf, rfl⟩ hpage hbase
      (fun k hk => ⟨(hplace k hk).1, (hplace k hk).2.1⟩) value

/-- The memory is in the pages of a user. -/
def pagedView (hguard : Guarded b) (region : Region b) : View where
  layout := region.layout
  Shows := Paged region
  congr := Paged.congr
  translates profile h hcovers hpos hpage :=
    h.translates hguard profile hcovers hpos hpage

end Regions

end Cpu

end Nanoemu
