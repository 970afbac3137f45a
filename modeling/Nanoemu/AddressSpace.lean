import Nanoemu.StoreRequests
import Nanoemu.TlbCoherence

/-!
# The address space of a user

The tables of a kernel name the bytes a user may write.  As long as no table
word is among them, what user mode does leaves all other bytes alone, up to the
accessed and dirty bits of the tables, and the tables go on naming the same
bytes.
-/

namespace Nanoemu

open CheckedProgram BitFields Mmu

theorem Mmu.Reaches.page {scheme : Mode} {dram : Dram} {va va' : BitVec 64}
    {remaining : ℕ} {table : BitVec 64} {reached : Leaf}
    (hpage : va >>> 12 = va' >>> 12)
    (h : Reaches scheme dram va remaining table reached) :
    Reaches scheme dram va' remaining table reached := by
  induction h with
  | leaf hvalid hleaf =>
      rw [entryAddr_congr hpage] at hvalid hleaf ⊢
      exact .leaf hvalid hleaf
  | pointer hvalid hpointer _ ih =>
      rw [entryAddr_congr hpage] at hvalid hpointer ih
      exact .pointer hvalid hpointer ih

theorem Mmu.Leaf.target_of_agree {scheme : Mode} {reached reached' : Leaf}
    (hlevel : reached'.level = reached.level)
    (hpte : Agree stableBits reached.pte reached'.pte) (va : BitVec 64) :
    reached'.target scheme va = reached.target scheme va := by
  unfold Leaf.target
  rw [hlevel, ppn_congr hpte]

/-- Addresses of one page. -/
theorem Mmu.page_add {va : BitVec 64} {k : ℕ}
    (hk : va.toNat % 4096 + k < 4096) :
    (va + BitVec.ofNat 64 k).toNat = va.toNat + k ∧
      va >>> 12 = (va + BitVec.ofNat 64 k) >>> 12 := by
  have hlt := va.isLt
  have hsum : (va + BitVec.ofNat 64 k).toNat = va.toNat + k := by
    rw [BitVec.toNat_add, BitVec.toNat_ofNat]
    omega
  refine ⟨hsum, ?_⟩
  apply BitVec.eq_of_toNat_eq
  rw [BitVec.toNat_ushiftRight, BitVec.toNat_ushiftRight, hsum,
    Nat.shiftRight_eq_div_pow, Nat.shiftRight_eq_div_pow]
  omega

theorem Mmu.Leaf.target_add {scheme : Mode} {reached : Leaf} {va : BitVec 64}
    {k : ℕ} (hlevel : reached.level < scheme.levels)
    (hk : va.toNat % 4096 + k < 4096) :
    (reached.target scheme (va + BitVec.ofNat 64 k)).toNat =
      (reached.target scheme va).toNat + k := by
  rw [Leaf.target_toNat _ hlevel, Leaf.target_toNat _ hlevel, (page_add hk).1,
    Nat.pow_add, Nat.mod_mul, Nat.mod_mul]
  have hdiv : (va.toNat + k) / 4096 = va.toNat / 4096 := by omega
  change _ + ((va.toNat + k) % 4096 + 4096 * ((va.toNat + k) / 4096 % _)) =
    _ + (va.toNat % 4096 + 4096 * (va.toNat / 4096 % _)) + k
  rw [hdiv]
  omega

/-- A walk reads the entry at which it ends. -/
theorem Mmu.Reaches.addr_mem {scheme : Mode} {dram : Dram} {va : BitVec 64}
    {remaining : ℕ} {table : BitVec 64} {reached : Leaf}
    (h : Reaches scheme dram va remaining table reached) :
    reached.addr ∈ entriesRead scheme dram va remaining table := by
  induction h with
  | leaf hvalid hleaf => simp [entriesRead]
  | pointer hvalid hpointer _ ih =>
      rw [entriesRead, (valid_iff _).mpr hvalid,
        (isPointer_iff _).mpr hpointer]
      exact List.mem_cons_of_mem _ ih

theorem Mmu.translationReads_eq {scheme : Mode} {satp va : BitVec 64}
    {dram : Dram} (hcanonical : scheme = .sv39 → Canonical va) :
    translationReads scheme satp dram va =
      entriesRead scheme dram va scheme.levels (rootTable scheme satp) := by
  rw [translationReads, if_neg]
  rintro ⟨hsv39, hbad⟩
  rw [(canonical_iff va).mpr (hcanonical hsv39)] at hbad
  exact absurd hbad (by decide)

theorem Mmu.Answers.addr_mem {scheme : Mode} {satp status : BitVec 64}
    {effective : Priv} {dram : Dram} {va : BitVec 64} {access : Access}
    {reached : Leaf}
    (h : Answers scheme satp status effective dram va access reached) :
    reached.addr ∈ translationReads scheme satp dram va := by
  rw [translationReads_eq h.canonical]
  exact h.reaches.addr_mem

/-- The bytes of a page have one leaf. -/
theorem Mmu.Answers.page {scheme : Mode} {satp status : BitVec 64}
    {effective : Priv} {dram : Dram} {va va' : BitVec 64} {access : Access}
    {reached : Leaf}
    (h : Answers scheme satp status effective dram va access reached)
    (hpage : va >>> 12 = va' >>> 12) :
    Answers scheme satp status effective dram va' access reached := by
  refine ⟨fun hsv39 => ?_, h.reaches.page hpage, h.grants⟩
  rw [← canonical_iff, ← canonical_congr hpage, canonical_iff]
  exact h.canonical hsv39

namespace Cpu

/-- The leaf by which user mode stores to `va`, as the tables of `b` are. -/
def StoreLeaf (b : Cpu) (va : BitVec 64) (reached : Leaf) : Prop :=
  Answers b.scheme (b.csrs.read Csr.SATP) (b.csrs.read Csr.MSTATUS) .user
    b.mem.dram va .store reached

/-- A user store to some address lands on byte `j` of DRAM. -/
def UserWritable (b : Cpu) (j : ℕ) : Prop :=
  ∃ va reached, b.StoreLeaf va reached ∧
    DRAM_BASE ≤ reached.target b.scheme va ∧
    Memory.offset (reached.target b.scheme va) = j

/-- Byte `j` belongs to a word that the walk of some address reads. -/
def TableByte (b : Cpu) (j : ℕ) : Prop :=
  ∃ va, ∃ addr ∈ b.tableWords va, Memory.offset addr ≤ j ∧
    j < Memory.offset addr + b.scheme.pteSize

/-- Translation is on, the tables lie in DRAM, and no user may write them. -/
structure Guarded (b : Cpu) : Prop where
  paged : b.scheme ≠ .bare
  tables : ∀ va, b.TablesInDram va
  apart : ∀ j, b.TableByte j → ¬ b.UserWritable j

/-- The memory differs from that of `b` where a user may write, and in accessed
and dirty bits of the tables. -/
structure Spared (b : Cpu) (mem : Memory) : Prop where
  len : mem.dram.len = b.mem.dram.len
  entries : ∀ va, ∀ addr ∈ b.tableWords va,
    Agree stableBits (entryAt b.scheme mem.dram addr)
      (entryAt b.scheme b.mem.dram addr)
  bytes : ∀ j, ¬ b.UserWritable j → ¬ b.TableByte j →
    mem.dram.byte j = b.mem.dram.byte j

section Tables

variable {b : Cpu}

theorem Spared.refl (b : Cpu) : Spared b b.mem :=
  ⟨rfl, fun _ _ _ => Agree.refl _ _, fun _ _ _ => rfl⟩

theorem Spared.of_dram {mem mem' : Memory} (h : Spared b mem)
    (hdram : mem'.dram = mem.dram) : Spared b mem' := by
  refine ⟨?_, ?_, ?_⟩ <;> rw [hdram]
  · exact h.len
  · exact h.entries
  · exact h.bytes

theorem tableWords_dvd (hpaged : b.scheme ≠ .bare) {va addr : BitVec 64}
    (haddr : addr ∈ b.tableWords va) :
    b.scheme.pteSize ∣ Memory.offset addr :=
  translationReads_dvd hpaged haddr

/-- The whole of the page that a user may store to is writable. -/
theorem StoreLeaf.writable {va : BitVec 64} {reached : Leaf}
    (h : b.StoreLeaf va reached) {k : ℕ}
    (hk : va.toNat % 4096 + k < 4096)
    (hbase : DRAM_BASE ≤ reached.target b.scheme va) :
    b.UserWritable (Memory.offset (reached.target b.scheme va) + k) := by
  have htarget := Leaf.target_add h.reaches.level_lt hk
  rw [BitVec.le_def] at hbase
  refine ⟨va + BitVec.ofNat 64 k, reached, Answers.page h (page_add hk).2, ?_,
    ?_⟩
  · rw [BitVec.le_def, htarget]
    omega
  · unfold Memory.offset
    rw [htarget]
    omega

end Tables

/-- A hart with the tables of `b`, accessed and dirty bits apart. -/
structure SharesTables (b x : Cpu) : Prop where
  xlen : x.xlen = b.xlen
  len : x.mem.dram.len = b.mem.dram.len
  kept : ∀ va, Kept b va x

/-- Every cached translation was made over the tables of `b`. -/
def Traced (b y : Cpu) : Prop :=
  ∀ slot way, (y.tlb slot way).valid = true →
    ∃ x, SharesTables b x ∧ Filled x slot way (y.tlb slot way)

/-- User mode in the address space of `b`. -/
structure Inside (b y : Cpu) : Prop where
  user : y.privMode = .user
  mprv : y.csrs.read Csr.MSTATUS &&& Mstatus.MPRV = 0
  satp : y.csrs.read Csr.SATP = b.csrs.read Csr.SATP
  xlen : y.xlen = b.xlen
  spared : Spared b y.mem
  traced : Traced b y

section Inside

variable {b y : Cpu}

theorem Inside.scheme (h : Inside b y) : y.scheme = b.scheme := by
  unfold Cpu.scheme
  rw [h.satp, h.xlen]

theorem Inside.shares (h : Inside b y) : SharesTables b y :=
  ⟨h.xlen, h.spared.len, h.spared.entries⟩

theorem Inside.tableWords (h : Inside b y) (va : BitVec 64) :
    y.tableWords va = b.tableWords va := by
  have hentries := h.spared.entries va
  unfold Cpu.tableWords at hentries ⊢
  rw [h.scheme, h.satp]
  unfold translationReads at hentries ⊢
  split
  · rfl
  · next hcanonical =>
      rw [if_neg hcanonical] at hentries
      exact entriesRead_congr rfl hentries

theorem Inside.tablesInDram (h : Inside b y) (hguard : Guarded b)
    (va : BitVec 64) : y.TablesInDram va := by
  intro addr haddr
  rw [h.tableWords] at haddr
  have hin := hguard.tables va addr haddr
  unfold Memory.InDram at hin ⊢
  rw [h.scheme, h.spared.len]
  exact hin

/-- The tables have kept their words from one hart to another. -/
theorem Inside.kept (h : Inside b y) {x : Cpu} (hx : SharesTables b x)
    (va : BitVec 64) : Kept y va x := by
  intro addr haddr
  rw [h.tableWords] at haddr
  rw [h.scheme]
  exact (hx.kept va addr haddr).trans (h.spared.entries va addr haddr).symm

theorem Inside.effective (h : Inside b y) (access : Access) :
    y.effective access = .user :=
  (effective_of_mprv_clear h.mprv access).trans h.user

/-- User mode stores to `pa` by way of `va`. -/
def StoresTo (b : Cpu) (va pa : BitVec 64) : Prop :=
  ∃ reached, b.StoreLeaf va reached ∧ pa = reached.target b.scheme va

/-- A frame of the memory that user mode stays in: it leaves out DRAM, and the
devices behind the pages that a user may store to. -/
structure Sheltered (b : Cpu) (inner : Frame Memory) : Prop where
  read : ∀ addr size, (Memory.read addr size).Keeps inner
  stored : ∀ mem addr size value, inner.rel mem (mem.stored addr size value)
  write : ∀ va pa, b.StoresTo va pa → ∀ size value,
    (Memory.write pa size value).Keeps inner

theorem sheltered_all (b : Cpu) : Sheltered b Frame.all :=
  ⟨fun _ _ => Program.Keeps.intro fun _ _ _ _ _ => trivial,
    fun _ _ _ _ => trivial,
    fun _ _ _ _ _ => Program.Keeps.intro fun _ _ _ _ _ => trivial⟩

/-- The leaf of a store is the one that the tables of `b` name. -/
theorem Inside.storesTo (h : Inside b y) {va : BitVec 64} {reached : Leaf}
    (hanswers : Answers y.scheme (y.csrs.read Csr.SATP)
      (y.csrs.read Csr.MSTATUS) .user y.mem.dram va .store reached) :
    b.StoresTo va (reached.target y.scheme va) := by
  rw [h.scheme, h.satp] at hanswers
  have hentries := h.spared.entries va
  rw [Cpu.tableWords, translationReads_eq hanswers.canonical] at hentries
  obtain ⟨reached', hreaches, hlevel, hpte⟩ :=
    hanswers.reaches.congr rfl hentries
  have hgrants := hanswers.grants.congr hlevel hpte rfl rfl
  refine ⟨reached', ⟨hanswers.canonical, hreaches, hgrants.permits,
    hgrants.respects_user, hgrants.aligned⟩, ?_⟩
  rw [h.scheme, Leaf.target_of_agree hlevel hpte]

/-- The words of the tables are spared by what spares all entries. -/
theorem Inside.entries (h : Inside b y) (hguard : Guarded b) {mem : Memory}
    (hsame : SameTables (entrySize y.xlen) y.mem.dram mem.dram) :
    ∀ va, ∀ addr ∈ b.tableWords va,
      Agree stableBits (entryAt b.scheme mem.dram addr)
        (entryAt b.scheme b.mem.dram addr) := by
  intro va addr haddr
  have hsize : b.scheme.pteSize = entrySize y.xlen := by
    rw [h.xlen]
    exact pteSize_eq_entrySize hguard.paged
  have hin := (hguard.tables va addr haddr).2.1
  rw [hsize, ← h.spared.len] at hin
  have hdvd := tableWords_dvd hguard.paged haddr
  rw [hsize] at hdvd
  have hkept := hsame.entries _ hdvd hin
  rw [← hsize] at hkept
  exact hkept.trans (h.spared.entries va addr haddr)

/-- What the walker translates, the tables of `b` translate, and it sets
accessed and dirty bits only. -/
theorem Inside.walked (h : Inside b y) (hguard : Guarded b)
    {inner : Frame Memory} (hinner : Sheltered b inner) (va : BitVec 64)
    (access : Access) (profile : Profile) :
    (y.walker va access).Ensures profile y.mem
      (fun pa mem => (Spared b mem ∧ inner.rel y.mem mem) ∧
        (access = .store → b.StoresTo va pa))
      (fun _ mem => mem = y.mem) := by
  have hpaged : y.scheme ≠ .bare := by
    rw [h.scheme]
    exact hguard.paged
  have huser := h.effective access
  have heffective : y.effective access ≠ .machine := by
    rw [huser]
    decide
  intro outcome mem hwalk
  have hsame := translate_sameTables y.xlen (y.csrs.read Csr.SATP)
    (y.csrs.read Csr.MSTATUS) y.privMode va access profile y.mem
  rcases translate_spec hpaged heffective (h.tablesInDram hguard va)
    profile with ⟨reached, hanswers, -, hrun⟩ | ⟨-, hrun⟩
  · have hpair := hwalk.symm.trans hrun
    cases hpair
    have hentries := h.entries hguard (hsame.ok hwalk)
    obtain ⟨hlen, hframe, -⟩ :=
      marked_spec hpaged access y.mem hanswers.reaches.pte_eq
    have hread : reached.addr ∈ b.tableWords va := by
      rw [← h.tableWords]
      exact hanswers.addr_mem
    refine ⟨⟨?_, ?_⟩, ?_⟩
    · refine ⟨hlen.trans h.spared.len, hentries, fun j hwritable hword => ?_⟩
      have hother : ¬ (Memory.offset reached.addr ≤ j ∧
          j < Memory.offset reached.addr + y.scheme.pteSize) := by
        intro hentry
        rw [h.scheme] at hentry
        exact hword ⟨va, reached.addr, hread, hentry⟩
      exact (hframe j hother).trans (h.spared.bytes j hwritable hword)
    · unfold marked
      split
      · exact inner.refl _
      · exact hinner.stored _ _ _ _
    · rintro rfl
      apply h.storesTo
      rw [← huser]
      exact hanswers
  · have hpair := hwalk.symm.trans hrun
    cases hpair
    rfl

/-! ## Accesses -/

theorem Inside.of_spared (h : Inside b y) {mem : Memory}
    (hspared : Spared b mem) : Inside b { y with mem := mem } :=
  ⟨h.user, h.mprv, h.satp, h.xlen, hspared, h.traced⟩

/-- What is neither in memory nor in the cache stays inside, as long as the
mode, `satp` and MPRV are as they were. -/
theorem Inside.congr (h : Inside b y) {y' : Cpu}
    (hmode : y'.privMode = y.privMode)
    (hmprv : y'.csrs.read Csr.MSTATUS &&& Mstatus.MPRV =
      y.csrs.read Csr.MSTATUS &&& Mstatus.MPRV)
    (hsatp : y'.csrs.read Csr.SATP = y.csrs.read Csr.SATP)
    (hxlen : y'.xlen = y.xlen) (hdram : y'.mem.dram = y.mem.dram)
    (htlb : y'.tlb = y.tlb) : Inside b y' := by
  refine ⟨hmode.trans h.user, hmprv.trans h.mprv, hsatp.trans h.satp,
    hxlen.trans h.xlen, h.spared.of_dram hdram, ?_⟩
  intro slot way
  rw [htlb]
  exact h.traced slot way

/-- A cached translation is one that the tables of `b` make. -/
theorem Inside.cached (h : Inside b y) (hguard : Guarded b) {va : BitVec 64}
    {access : Access} (hhit : y.tlbHit va access = true) :
    ∃ mem, y.walker va access .debug y.mem =
      some (.ok ((y.tlb (tlbSlot va) access).ppn ||| (va &&& 0xfff)), mem) := by
  obtain ⟨x, hshares, hfilled⟩ := h.traced _ _ (tlbHit_eq_true hhit).1
  apply walker_of_hit hhit hfilled (hshares.xlen.trans h.xlen.symm)
    (hshares.len.trans h.spared.len.symm) (h.kept hshares va)
    (h.tablesInDram hguard va)
  intro hctx
  have hclear : x.csrs.read Csr.MSTATUS &&& Mstatus.MPRV = 0 := by
    rw [← h.mprv]
    exact status_of_tlbCtx_eq hctx (by decide)
      (by intro mode; cases mode <;> decide)
  rw [effective_of_mprv_clear hclear, effective_of_mprv_clear h.mprv]
  exact privMode_of_tlbCtx_eq hctx

/-- A store within a page changes bytes that a user may write. -/
theorem StoresTo.stored {va pa : BitVec 64} (h : b.StoresTo va pa)
    (hguard : Guarded b) {mem : Memory} (hspared : Spared b mem) {size : ℕ}
    (hfits : va.toNat % 4096 + size ≤ 4096) (hbase : DRAM_BASE ≤ pa)
    (value : BitVec 64) : Spared b (mem.stored pa size value) := by
  obtain ⟨reached, hleaf, rfl⟩ := h
  have hwritable : ∀ j, Memory.offset (reached.target b.scheme va) ≤ j →
      j < Memory.offset (reached.target b.scheme va) + size →
      b.UserWritable j := by
    intro j hlow hhigh
    rw [← Nat.add_sub_cancel' hlow]
    exact hleaf.writable (by omega) hbase
  have hkept : ∀ j, ¬ b.UserWritable j →
      (mem.stored (reached.target b.scheme va) size value).dram.byte j =
        mem.dram.byte j := by
    intro j hnot
    rw [Memory.stored_dram]
    apply Dram.storeLe_byte_outside
    exact fun hin => hnot (hwritable j hin.1 hin.2)
  constructor
  · rw [Memory.stored_dram, Dram.storeLe_len]
    exact hspared.len
  · intro va' addr haddr
    have hsame : entryAt b.scheme
        (mem.stored (reached.target b.scheme va) size value).dram addr =
          entryAt b.scheme mem.dram addr := by
      apply Dram.loadLe_congr
      intro j hlow hhigh
      exact hkept j (hguard.apart j ⟨va', addr, haddr, hlow, hhigh⟩)
    rw [hsame]
    exact hspared.entries va' addr haddr
  · intro j hnot hword
    exact (hkept j hnot).trans (hspared.bytes j hnot hword)

/-- What user mode does to the hart and, within such a frame, to memory. -/
def insideFrame (b : Cpu) (inner : Frame Memory) : Frame Cpu where
  rel y y' := Inside b y → Inside b y' ∧ inner.rel y.mem y'.mem
  refl y h := ⟨h, inner.refl y.mem⟩
  trans hfirst hsecond h :=
    ⟨(hsecond (hfirst h).1).1,
      inner.trans (hfirst h).2 (hsecond (hfirst h).1).2⟩

section Sheltered

variable (hguard : Guarded b) {inner : Frame Memory}
  (hinner : Sheltered b inner)

include hguard hinner

theorem Inside.translated (h : Inside b y) (va : BitVec 64) (access : Access)
    (profile : Profile) :
    (Cpu.translate va access).Ensures profile y
      (fun pa y' => (Inside b y' ∧ inner.rel y.mem y'.mem) ∧
        (access = .store → b.StoresTo va pa))
      (fun _ y' => Inside b y' ∧ inner.rel y.mem y'.mem) := by
  have hwalked := h.walked hguard hinner va access
  intro outcome y' hrun
  cases hhit : y.tlbHit va access with
  | true =>
      obtain ⟨mem, hwalk⟩ := h.cached hguard hhit
      rw [translate_hit hhit] at hrun
      cases hrun
      exact ⟨⟨h, inner.refl _⟩, ((hwalked .debug).ok hwalk).2⟩
  | false =>
      rw [translate_miss hhit] at hrun
      rcases hwalk : y.walker va access profile y.mem with
        _ | ⟨e | pa, mem⟩ <;> rw [hwalk] at hrun <;> cases hrun
      · obtain rfl := (hwalked profile).error hwalk
        exact ⟨h, inner.refl _⟩
      · obtain ⟨⟨hspared, hkept⟩, hstores⟩ := (hwalked profile).ok hwalk
        refine ⟨⟨⟨h.user, h.mprv, h.satp, h.xlen, hspared, ?_⟩, hkept⟩, hstores⟩
        intro slot way hvalid
        rw [setTlb_tlb] at hvalid ⊢
        by_cases hentry : slot = tlbSlot va ∧ way = access
        · rw [if_pos hentry]
          exact ⟨y, h.shares, profile, va, y.mem, mem, pa, hentry.1,
            SameTables.refl _ _, hentry.2 ▸ hwalk, rfl⟩
        · rw [if_neg hentry] at hvalid ⊢
          exact h.traced slot way hvalid

theorem Inside.physWritten (h : Inside b y) {va pa : BitVec 64}
    (hto : b.StoresTo va pa) {size : ℕ}
    (hsize : Memory.validSize size = true)
    (hfits : va.toNat % 4096 + size ≤ 4096) (fault : Exception)
    (value : BitVec 64) (profile : Profile) :
    (physWrite fault pa size value).Ensures profile y
      (fun _ y' => Inside b y' ∧ inner.rel y.mem y'.mem)
      (fun _ y' => Inside b y' ∧ inner.rel y.mem y'.mem) := by
  have hkept : (physWrite fault pa size value).Keeps (memFrame inner) :=
    Program.Keeps.zoom (Program.Keeps.mapError (hinner.write va pa hto _ _))
      fun _ _ h => h
  have hcases := physWrite_cases fault pa hsize value profile y
  intro outcome y' hrun
  cases outcome with
  | ok _ =>
      refine ⟨?_, (hkept profile y).ok hrun⟩
      obtain ⟨mem, rfl, ⟨hin, rfl⟩ | ⟨-, hdevice⟩⟩ := hcases.ok hrun
      · exact h.of_spared (hto.stored hguard h.spared hfits hin.1 value)
      · exact h.of_spared (h.spared.of_dram hdevice.dram)
  | error e =>
      refine ⟨?_, (hkept profile y).error hrun⟩
      obtain ⟨mem, rfl, -, hdevice⟩ := hcases.error hrun
      exact h.of_spared (h.spared.of_dram hdevice.dram)

end Sheltered

end Inside

end Cpu

end Nanoemu
