import Nanoemu.CompressedStep
import Nanoemu.EntryWalk

/-!
# A load after a store

Where a store reaches memory and none of its bytes is a word of the tables
that send it there, a load of the same address finds what was stored: within a
page in one access, and across a page boundary byte by byte.
-/

namespace Nanoemu

open CheckedProgram BitFields Mmu

namespace Mmu

section Keeping

variable {profile : Profile} {size : ℕ} {mem mem' mem'' : Memory}
  {addr : BitVec 64}

theorem KeptAt.refl (profile : Profile) (size : ℕ) (mem : Memory)
    (addr : BitVec 64) : KeptAt profile size mem mem addr :=
  fun v hword _ => ⟨v, hword, Agree.refl _ _⟩

theorem KeptAt.trans (hfirst : KeptAt profile size mem mem' addr)
    (hsecond : KeptAt profile size mem' mem'' addr) :
    KeptAt profile size mem mem'' addr := by
  intro v hword hnumber
  obtain ⟨v', hword', hagree⟩ := hfirst v hword hnumber
  obtain ⟨v'', hword'', hagree'⟩ :=
    hsecond v' hword' ((numbered_congr hagree).mpr hnumber)
  exact ⟨v'', hword'', hagree'.trans hagree⟩

theorem KeptAt.of_alike (hsize : size = 4 ∨ size = 8)
    (hdvd : size ∣ addr.toNat) (halike : Memory.Alike size mem mem') :
    KeptAt profile size mem mem' addr :=
  fun _ hword hnumber => halike.word hsize hdvd hword hnumber

theorem KeptAt.of_stored {pa value : BitVec 64} {count : ℕ}
    (hapart : ∀ k < count,
      ¬ Memory.Covers addr size (Memory.offset pa + k)) :
    KeptAt profile size mem (mem.stored pa count value) addr := by
  have hdevices : (mem.stored pa count value).clint = mem.clint ∧
      (mem.stored pa count value).plic = mem.plic := by
    unfold Memory.stored Memory.noteTohost
    split <;> exact ⟨rfl, rfl⟩
  intro v hword hnumber
  refine ⟨v, ?_, Agree.refl _ _⟩
  cases hword with
  | dram hentry =>
      have hsame : mem.dram.loadLe (Memory.offset addr) size =
          (mem.stored pa count value).dram.loadLe (Memory.offset addr)
            size := by
        rw [Memory.stored_dram]
        apply Dram.loadLe_congr
        intro j hle hlt
        refine (Dram.storeLe_byte_outside _ _ ?_).symm
        rintro ⟨hlow, hhigh⟩
        have hbase : DRAM_BASE.toNat ≤ addr.toNat := hentry.1
        apply hapart (j - Memory.offset pa) (by omega)
        unfold Memory.offset at hle hlt hlow hhigh ⊢
        exact ⟨by omega, by omega⟩
      rw [hsame]
      apply Memory.Word.dram
      rw [Memory.InDram, Memory.stored_dram, Dram.storeLe_len]
      exact hentry
  | clint hentry hcount =>
      rw [← hdevices.1]
      exact .clint hentry hcount
  | plic hentry =>
      rw [← hdevices.2]
      exact .plic hentry

end Keeping

theorem entriesMet_dvd {scheme : Mode} (hscheme : scheme ≠ .bare)
    {profile : Profile} {mem : Memory} {va : BitVec 64} {remaining : ℕ}
    {table : BitVec 64} (htable : TableBase table) {addr : BitVec 64}
    (haddr : addr ∈ entriesMet scheme profile mem va remaining table) :
    scheme.pteSize ∣ addr.toNat := by
  induction remaining generalizing table with
  | zero => cases haddr
  | succ level ih =>
      rw [entriesMet] at haddr
      rcases List.mem_cons.mp haddr with rfl | hrest
      · exact entryAddr_dvd hscheme htable va level
      · split at hrest
        · split at hrest
          · exact ih (nextTable_tableBase _ _) hrest
          · cases hrest
        · cases hrest

theorem tableEntries_dvd {xlen : Xlen} {satp status : BitVec 64} {mode : Priv}
    {va : BitVec 64} {access : Access} {profile : Profile} {mem : Memory}
    {addr : BitVec 64}
    (haddr : addr ∈ tableEntries xlen satp status mode va access profile mem) :
    entrySize xlen ∣ addr.toNat := by
  unfold tableEntries at haddr
  dsimp only at haddr
  split at haddr
  · cases haddr
  · next hdirect =>
      have hpaged := (not_or.mp hdirect).1
      split at haddr
      · cases haddr
      · rw [← pteSize_eq_entrySize hpaged]
        exact entriesMet_dvd hpaged (rootTable_tableBase _ _) haddr

theorem entrySize_cases (xlen : Xlen) :
    entrySize xlen = 4 ∨ entrySize xlen = 8 := by
  cases xlen
  · exact Or.inl rfl
  · exact Or.inr rfl

end Mmu

namespace Cpu

/-! ## The range of a store -/

def Maps (profile : Profile) (c : Cpu) (va : BitVec 64) (access : Access)
    (pa : BitVec 64) : Prop :=
  ∃ mem, c.walker va access profile c.mem = some (.ok pa, mem)

/-- What is cached for an access is what the tables say. -/
def CacheAgrees (profile : Profile) (c : Cpu) (va : BitVec 64)
    (access : Access) : Prop :=
  c.tlbHit va access = true → Maps profile c va access
    ((c.tlb (tlbSlot va) access).ppn ||| (va &&& 0xfff))

def entriesOf (profile : Profile) (c : Cpu) (va : BitVec 64)
    (access : Access) : List (BitVec 64) :=
  Mmu.tableEntries c.xlen (c.csrs.read Csr.SATP) (c.csrs.read Csr.MSTATUS)
    c.privMode va access profile c.mem

/-- The bytes of an access, and where a store to each goes: all of them into
DRAM, and none into an entry that one of them is translated by. -/
structure StoreRange (profile : Profile) (c : Cpu) (va : BitVec 64)
    (size : ℕ) (target : ℕ → BitVec 64) : Prop where
  fits : va.toNat + size ≤ 2 ^ 64
  sound : c.mem.Sound
  cached : ∀ k < size, ∀ access, Weaker access .store →
    CacheAgrees profile c (va + BitVec.ofNat 64 k) access
  maps : ∀ k < size,
    Maps profile c (va + BitVec.ofNat 64 k) .store (target k)
  inDram : ∀ k < size, c.mem.InDram (target k) 1
  apart : ∀ j < size, ∀ k < size,
    ∀ addr ∈ c.entriesOf profile (va + BitVec.ofNat 64 j) .store,
      ¬ Memory.Covers addr (entrySize c.xlen) (Memory.offset (target k))

/-- From `c` to `x` memory and the cache have moved; in DRAM the bytes that
were stored to and those of the entries, and the entries in their accessed and
dirty bits only. -/
structure OnlyStored (profile : Profile) (c : Cpu) (va : BitVec 64)
    (size : ℕ) (target : ℕ → BitVec 64) (x : Cpu) : Prop where
  frame : x = { c with mem := x.mem, tlb := x.tlb }
  len : x.mem.dram.len = c.mem.dram.len
  bytes : ∀ i, (∀ k < size, i ≠ Memory.offset (target k)) →
    (∀ k < size, ∀ addr ∈ c.entriesOf profile (va + BitVec.ofNat 64 k) .store,
      ¬ Memory.Covers addr (entrySize c.xlen) i) →
    x.mem.dram.byte i = c.mem.dram.byte i
  entries : ∀ k < size,
    ∀ addr ∈ c.entriesOf profile (va + BitVec.ofNat 64 k) .store,
      KeptAt profile (entrySize c.xlen) c.mem x.mem addr

/-- The tables still send the range where they did, and so does the cache. -/
structure Serves (profile : Profile) (c : Cpu) (va : BitVec 64)
    (size : ℕ) (target : ℕ → BitVec 64) (x : Cpu) : Prop
    extends OnlyStored profile c va size target x where
  sound : x.mem.Sound
  cached : ∀ k < size, ∀ access, Weaker access .store →
    x.tlbHit (va + BitVec.ofNat 64 k) access = true →
      (x.tlb (tlbSlot (va + BitVec.ofNat 64 k)) access).ppn |||
        ((va + BitVec.ofNat 64 k) &&& 0xfff) = target k

section Range

variable {profile : Profile} {c x : Cpu} {va : BitVec 64} {size : ℕ}
  {target : ℕ → BitVec 64}

theorem Maps.unique {access : Access} {pa pa' : BitVec 64}
    (h : Maps profile c va access pa) (h' : Maps profile c va access pa') :
    pa' = pa := by
  obtain ⟨mem, hrun⟩ := h
  obtain ⟨mem', hrun'⟩ := h'
  rw [hrun] at hrun'
  cases hrun'
  rfl

theorem StoreRange.same_page (hrange : StoreRange profile c va size target)
    {j k : ℕ} (hj : j < size) (hk : k < size)
    (hpage : (va + BitVec.ofNat 64 j) >>> 12 =
      (va + BitVec.ofNat 64 k) >>> 12) :
    target j = (target k &&& ~~~0xfff) |||
      ((va + BitVec.ofNat 64 j) &&& 0xfff) := by
  obtain ⟨mem, hrun⟩ := hrange.maps k hk
  obtain ⟨after, hagain⟩ := (translate_kept (hrange.inDram k hk).1 hrun hpage
    (.same .store) hrange.sound fun addr _ => KeptAt.refl _ _ _ addr).1
  exact Maps.unique ⟨after, hagain⟩ (hrange.maps j hj)

theorem OnlyStored.after (h : OnlyStored profile c va size target x) {y : Cpu}
    (hframe : y = { x with mem := y.mem, tlb := y.tlb })
    (hlen : y.mem.dram.len = x.mem.dram.len)
    (hbytes : ∀ i, (∀ k < size, i ≠ Memory.offset (target k)) →
      (∀ k < size,
        ∀ addr ∈ c.entriesOf profile (va + BitVec.ofNat 64 k) .store,
          ¬ Memory.Covers addr (entrySize c.xlen) i) →
      y.mem.dram.byte i = x.mem.dram.byte i)
    (hentries : ∀ k < size,
      ∀ addr ∈ c.entriesOf profile (va + BitVec.ofNat 64 k) .store,
        KeptAt profile (entrySize c.xlen) x.mem y.mem addr) :
    OnlyStored profile c va size target y := by
  refine ⟨?_, hlen.trans h.len, fun i htargets hwords => ?_,
    fun k hk addr haddr => ?_⟩
  · rw [hframe, h.frame]
  · exact (hbytes i htargets hwords).trans (h.bytes i htargets hwords)
  · exact (h.entries k hk addr haddr).trans (hentries k hk addr haddr)

theorem Serves.xlen (h : Serves profile c va size target x) :
    x.xlen = c.xlen :=
  (congrArg Cpu.xlen h.frame :)

theorem Serves.walker (h : Serves profile c va size target x)
    (va' : BitVec 64) (access : Access) :
    x.walker va' access = c.walker va' access := by
  rw [h.frame]
  rfl

theorem Serves.maps (h : Serves profile c va size target x)
    (hrange : StoreRange profile c va size target) {k : ℕ} (hk : k < size)
    {access : Access} (hweaker : Weaker access .store) :
    Maps profile x (va + BitVec.ofNat 64 k) access (target k) ∧
      x.entriesOf profile (va + BitVec.ofNat 64 k) access =
        c.entriesOf profile (va + BitVec.ofNat 64 k) .store := by
  obtain ⟨mem, hrun⟩ := hrange.maps k hk
  have hpa := (hrange.inDram k hk).1
  obtain ⟨⟨after, hagain⟩, hentries⟩ := translate_kept hpa hrun rfl hweaker
    h.sound (h.entries k hk)
  have hoffset := (Mmu.translate_offset _ _ _ _ _ _ profile c.mem).ok hrun
  rw [← eq_of_page_and_offset rfl hoffset] at hagain
  constructor
  · refine ⟨after, ?_⟩
    rw [h.walker]
    exact hagain
  · unfold entriesOf
    rw [h.frame]
    exact hentries

/-- A byte of the range is translated to its target, and the range is served
as before. -/
theorem Serves.translate (h : Serves profile c va size target x)
    (hrange : StoreRange profile c va size target) (hsize : size ≤ 8) {k : ℕ}
    (hk : k < size) {access : Access} (hweaker : Weaker access .store) :
    ∃ y, Cpu.translate (va + BitVec.ofNat 64 k) access profile x =
        some (.ok (target k), y) ∧
      Serves profile c va size target y ∧
      ∀ j < size, y.mem.dram.byte (Memory.offset (target j)) =
        x.mem.dram.byte (Memory.offset (target j)) := by
  cases hhit : x.tlbHit (va + BitVec.ofNat 64 k) access with
  | true =>
      refine ⟨x, ?_, h, fun _ _ => rfl⟩
      rw [translate_hit hhit, h.cached k hk access hweaker hhit]
  | false =>
      obtain ⟨⟨mem, hrun⟩, hentries⟩ := h.maps hrange hk hweaker
      have hpa := (hrange.inDram k hk).1
      obtain ⟨halike, hsound, hbytes⟩ := translate_marks h.sound hpa hrun
      have hkept : ∀ i,
          (∀ addr ∈ c.entriesOf profile (va + BitVec.ofNat 64 k) .store,
            ¬ Memory.Covers addr (entrySize c.xlen) i) →
          mem.dram.byte i = x.mem.dram.byte i := by
        intro i hi
        apply hbytes
        intro addr haddr
        rw [h.xlen]
        apply hi
        rw [← hentries]
        exact haddr
      rw [h.xlen] at halike
      rw [translate_miss hhit, hrun]
      refine ⟨_, rfl, ⟨h.toOnlyStored.after rfl halike.dram.len
        (fun i _ hi => hkept i (hi k hk)) ?_, hsound, ?_⟩, fun j hj =>
          hkept _ (hrange.apart k hk j hj)⟩
      · intro j _ addr haddr
        exact KeptAt.of_alike (entrySize_cases _) (tableEntries_dvd haddr)
          halike
      · intro j hj access' hweaker' hhit'
        by_cases hentry : tlbSlot (va + BitVec.ofNat 64 j) =
            tlbSlot (va + BitVec.ofNat 64 k) ∧ access' = access
        · have hpage := page_eq_of_slot_eq va (by omega) (by omega) hentry.1
          rw [setTlb_tlb, if_pos hentry]
          exact (hrange.same_page hj hk hpage).symm
        · unfold tlbHit at hhit'
          rw [setTlb_tlb, if_neg hentry] at hhit' ⊢
          exact h.cached j hj access' hweaker' hhit'

theorem StoreRange.maps_weaker (hrange : StoreRange profile c va size target)
    {k : ℕ} (hk : k < size) {access : Access} (hweaker : Weaker access .store) :
    Maps profile c (va + BitVec.ofNat 64 k) access (target k) := by
  obtain ⟨mem, hrun⟩ := hrange.maps k hk
  obtain ⟨after, hagain⟩ := (translate_kept (hrange.inDram k hk).1 hrun rfl
    hweaker hrange.sound fun addr _ => KeptAt.refl _ _ _ addr).1
  have hoffset := (Mmu.translate_offset _ _ _ _ _ _ profile c.mem).ok hrun
  rw [← eq_of_page_and_offset rfl hoffset] at hagain
  exact ⟨after, hagain⟩

theorem StoreRange.serves (hrange : StoreRange profile c va size target) :
    Serves profile c va size target c := by
  refine ⟨⟨rfl, rfl, fun _ _ _ => rfl, fun _ _ addr _ => KeptAt.refl _ _ _ addr⟩,
    hrange.sound, fun k hk access hweaker hhit => ?_⟩
  exact (hrange.maps_weaker hk hweaker).unique
    (hrange.cached k hk access hweaker hhit)

theorem stored_sound {mem : Memory} (hsound : mem.Sound) (pa : BitVec 64)
    (count : ℕ) (value : BitVec 64) : (mem.stored pa count value).Sound := by
  unfold Memory.stored Memory.noteTohost
  split <;> exact ⟨hsound.clint, hsound.plic⟩

theorem Serves.stored (h : Serves profile c va size target x)
    (hrange : StoreRange profile c va size target) {pa : BitVec 64} {count : ℕ}
    (hplaces : ∀ j < count,
      ∃ k < size, Memory.offset pa + j = Memory.offset (target k))
    (value : BitVec 64) :
    Serves profile c va size target
      { x with mem := x.mem.stored pa count value } := by
  refine ⟨h.toOnlyStored.after rfl ?_ ?_ ?_, stored_sound h.sound _ _ _,
    h.cached⟩
  · change (x.mem.stored pa count value).dram.len = _
    rw [Memory.stored_dram, Dram.storeLe_len]
  · intro i htargets _
    change (x.mem.stored pa count value).dram.byte i = _
    rw [Memory.stored_dram]
    apply Dram.storeLe_byte_outside
    rintro ⟨hlow, hhigh⟩
    obtain ⟨k, hk, hplace⟩ := hplaces (i - Memory.offset pa) (by omega)
    exact htargets k hk (by omega)
  · intro k hk addr haddr
    apply KeptAt.of_stored
    intro j hj
    obtain ⟨k', hk', hplace⟩ := hplaces j hj
    rw [hplace]
    exact hrange.apart k hk k' hk' addr haddr

theorem Serves.inDram (h : Serves profile c va size target x)
    (hrange : StoreRange profile c va size target) {k : ℕ} (hk : k < size) :
    x.mem.InDram (target k) 1 := by
  rw [Memory.InDram, h.len]
  exact hrange.inDram k hk

theorem page_and_offset (pa : BitVec 64) : (pa &&& ~~~0xfff) &&& 0xfff = 0 := by
  rw [BitVec.and_assoc]
  exact BitVec.and_zero

theorem StoreRange.byte_toNat (hrange : StoreRange profile c va size target)
    {k : ℕ} (hk : k < size) :
    (va + BitVec.ofNat 64 k).toNat = va.toNat + k := by
  have hfits := hrange.fits
  rw [BitVec.toNat_add, BitVec.toNat_ofNat]
  omega

theorem StoreRange.offset_add (hrange : StoreRange profile c va size target)
    (hfits : va.toNat % 4096 + size ≤ 4096) {k : ℕ} (hk : k < size) :
    Memory.offset (target k) = Memory.offset (target 0) + k := by
  have hzero : 0 < size := Nat.zero_lt_of_lt hk
  have hpage : (va + BitVec.ofNat 64 k) >>> 12 =
      (va + BitVec.ofNat 64 0) >>> 12 := by
    apply BitVec.eq_of_toNat_eq
    rw [BitVec.toNat_ushiftRight, BitVec.toNat_ushiftRight,
      hrange.byte_toNat hk, hrange.byte_toNat hzero,
      Nat.shiftRight_eq_div_pow, Nat.shiftRight_eq_div_pow]
    omega
  have hk' := congrArg BitVec.toNat (hrange.same_page hk hzero hpage)
  have hzero' := congrArg BitVec.toNat (hrange.same_page hzero hzero rfl)
  rw [(page_or_toNat (page_and_offset _) _).1, hrange.byte_toNat hk] at hk'
  rw [(page_or_toNat (page_and_offset _) _).1, hrange.byte_toNat hzero]
    at hzero'
  have hbase : DRAM_BASE.toNat ≤ (target 0).toNat :=
    (hrange.inDram 0 hzero).1
  unfold Memory.offset
  omega

theorem physWrite_inDram {pa : BitVec 64}
    (hin : x.mem.InDram pa size) (hvalid : Memory.validSize size = true)
    (fault : Exception) (value : BitVec 64) :
    physWrite fault pa size value profile x =
      some (.ok (), { x with mem := x.mem.stored pa size value }) := by
  unfold physWrite onMemory Program.zoom Program.mapError
  rw [Memory.write_inDram hin hvalid]

theorem add_zero_offset (va : BitVec 64) : va + BitVec.ofNat 64 0 = va :=
  BitVec.add_zero va

theorem StoreRange.inDram_whole (hrange : StoreRange profile c va size target)
    (hpos : 0 < size) (hfits : va.toNat % 4096 + size ≤ 4096) :
    c.mem.InDram (target 0) size := by
  obtain ⟨hbase, -, -⟩ := hrange.inDram 0 hpos
  obtain ⟨-, hlen, hword⟩ := hrange.inDram (size - 1) (by omega)
  have hlast := hrange.offset_add hfits (k := size - 1) (by omega)
  unfold Memory.offset at hlast
  exact ⟨hbase, by omega, by omega⟩

/-- The bytes of the range hold those of a value. -/
def HoldsBytes (size : ℕ) (target : ℕ → BitVec 64) (value : BitVec 64)
    (x : Cpu) : Prop :=
  ∀ k < size, x.mem.dram.byte (Memory.offset (target k)) = Dram.leByte value k

theorem Serves.write_within (h : Serves profile c va size target x)
    (hrange : StoreRange profile c va size target)
    (hvalid : Memory.validSize size = true)
    (hfits : va.toNat % 4096 + size ≤ 4096) (value : BitVec 64) :
    ∃ y, writeMem va size value profile x = some (.ok (), y) ∧
      Serves profile c va size target y ∧ HoldsBytes size target value y := by
  obtain ⟨hpos, hsize⟩ := Clint.validSize_range hvalid
  obtain ⟨y, htranslate, hy, -⟩ := h.translate hrange hsize hpos (.same .store)
  rw [add_zero_offset] at htranslate
  have hin : y.mem.InDram (target 0) size := by
    rw [Memory.InDram, hy.len]
    exact hrange.inDram_whole hpos hfits
  unfold writeMem
  rw [fitsPage_eq hsize, decide_eq_true hfits, Program.check_pure, pure_bind,
    if_pos rfl, Program.bind_run_ok htranslate, physWrite_inDram hin hvalid]
  refine ⟨_, rfl, hy.stored hrange (fun j hj =>
    ⟨j, hj, (hrange.offset_add hfits hj).symm⟩) value, fun k hk => ?_⟩
  change (y.mem.stored (target 0) size value).dram.byte _ = _
  rw [Memory.stored_dram, hrange.offset_add hfits hk]
  simp [Dram.storeLe, hk]

theorem StoreRange.add_eq (hrange : StoreRange profile c va size target)
    {k : ℕ} (hk : k < size) :
    Checked.add va (BitVec.ofNat 64 k) = pure (va + BitVec.ofNat 64 k) := by
  have hfits := hrange.fits
  apply Checked.add_eq_pure
  rw [BitVec.toNat_ofNat]
  omega

/-- No two bytes share a target: their places in their pages differ. -/
theorem StoreRange.offset_ne (hrange : StoreRange profile c va size target)
    (hsize : size ≤ 8) {j k : ℕ} (hj : j < size) (hk : k < size)
    (hne : j ≠ k) :
    Memory.offset (target j) ≠ Memory.offset (target k) := by
  intro hsame
  have hplace : ∀ i < size, (target i).toNat % 4096 = (va.toNat + i) % 4096 ∧
      DRAM_BASE.toNat ≤ (target i).toNat := by
    intro i hi
    have hnat := congrArg BitVec.toNat (hrange.same_page hi hi rfl)
    obtain ⟨hsum, hzero⟩ := page_or_toNat (page_and_offset (target i))
      (va + BitVec.ofNat 64 i)
    rw [hsum, hrange.byte_toNat hi] at hnat
    refine ⟨by omega, (hrange.inDram i hi).1⟩
  have hplaceJ := hplace j hj
  have hplaceK := hplace k hk
  unfold Memory.offset at hsame
  omega

theorem Serves.translateBytes (h : Serves profile c va size target x)
    (hrange : StoreRange profile c va size target) (hsize : size ≤ 8)
    {remaining k : ℕ} (hk : k + remaining = size) :
    ∃ y, Cpu.translateBytes va remaining k profile x = some (.ok (), y) ∧
      Serves profile c va size target y := by
  induction remaining generalizing k x with
  | zero => exact ⟨x, rfl, h⟩
  | succ remaining ih =>
      obtain ⟨y, htranslate, hy, -⟩ :=
        h.translate hrange hsize (show k < size by omega) (.same .store)
      obtain ⟨z, hrest, hz⟩ := ih hy (k := k + 1) (by omega)
      refine ⟨z, ?_, hz⟩
      rw [Cpu.translateBytes, hrange.add_eq (by omega), Program.check_pure,
        pure_bind, Program.bind_run_ok htranslate]
      exact hrest

theorem Serves.writeBytes (h : Serves profile c va size target x)
    (hrange : StoreRange profile c va size target) (hsize : size ≤ 8)
    (value : BitVec 64) {remaining k : ℕ} (hk : k + remaining = size)
    (hdone : ∀ j < k, x.mem.dram.byte (Memory.offset (target j)) =
      Dram.leByte value j) :
    ∃ y, Cpu.writeBytes va value remaining k profile x = some (.ok (), y) ∧
      Serves profile c va size target y ∧ HoldsBytes size target value y := by
  induction remaining generalizing k x with
  | zero =>
      obtain rfl : k = size := hk
      exact ⟨x, rfl, h, hdone⟩
  | succ remaining ih =>
      have hlt : k < size := by omega
      obtain ⟨y, htranslate, hy, hbytes⟩ :=
        h.translate hrange hsize hlt (.same .store)
      have hstored : Serves profile c va size target
          { y with mem := y.mem.stored (target k) 1 (value >>> (8 * k)) } :=
        hy.stored hrange (fun j hj => ⟨k, hlt, by omega⟩) _
      obtain ⟨z, hrest, hz⟩ := ih hstored (k := k + 1) (by omega) (by
        intro j hj
        change (y.mem.stored (target k) 1 (value >>> (8 * k))).dram.byte _ = _
        rw [Memory.stored_dram]
        by_cases hsame : j = k
        · subst hsame
          simp [Dram.storeLe, Dram.leByte]
        · rw [Dram.storeLe_byte_outside, hbytes j (by omega),
            hdone j (by omega)]
          have hne := hrange.offset_ne hsize (show j < size by omega) hlt hsame
          omega)
      have hshift : Checked.umul 64 8 k = pure (8 * k) :=
        Checked.umul_eq_pure (by omega)
      have hbyte : Checked.shr value (8 * k) = pure (value >>> (8 * k)) :=
        Checked.shr_eq_pure (by omega)
      refine ⟨z, ?_, hz⟩
      rw [Cpu.writeBytes, hrange.add_eq hlt, Program.check_pure, pure_bind,
        Program.bind_run_ok htranslate, hshift, Program.check_pure, pure_bind,
        hbyte, Program.check_pure, pure_bind, Program.bind_run_ok
          (physWrite_inDram (hy.inDram hrange hlt) rfl _ _)]
      exact hrest

/-! ## The store and the load -/

theorem Serves.writeMem (h : Serves profile c va size target x)
    (hrange : StoreRange profile c va size target)
    (hvalid : Memory.validSize size = true) (value : BitVec 64) :
    ∃ y, Cpu.writeMem va size value profile x = some (.ok (), y) ∧
      Serves profile c va size target y ∧ HoldsBytes size target value y := by
  obtain ⟨-, hsize⟩ := Clint.validSize_range hvalid
  by_cases hfits : va.toNat % 4096 + size ≤ 4096
  · exact h.write_within hrange hvalid hfits value
  · obtain ⟨y, htranslate, hy⟩ :=
      h.translateBytes hrange hsize (Nat.zero_add size)
    obtain ⟨z, hwrite, hz⟩ := hy.writeBytes hrange hsize value
      (Nat.zero_add size) fun j hj => absurd hj (Nat.not_lt_zero j)
    refine ⟨z, ?_, hz⟩
    unfold Cpu.writeMem
    rw [fitsPage_eq hsize, decide_eq_false hfits, Program.check_pure, pure_bind,
      if_neg Bool.false_ne_true, Program.bind_run_ok htranslate]
    exact hwrite

theorem loadLe_of_bytes {dram : Dram} {i count : ℕ} {value : BitVec 64}
    (hcount : count ≤ 8)
    (hbytes : ∀ k < count, dram.byte (i + k) = Dram.leByte value k) :
    dram.loadLe i count = (value.setWidth (8 * count)).setWidth 64 := by
  apply BitVec.eq_of_getLsbD_eq
  intro j hj
  rw [Dram.getLsbD_loadLe _ _ _ _ hcount, BitVec.getLsbD_setWidth,
    BitVec.getLsbD_setWidth]
  by_cases hin : j < 8 * count
  · have hbit : j % 8 < 8 := Nat.mod_lt _ (by decide)
    have hindex : 8 * (j / 8) + j % 8 = j := Nat.div_add_mod j 8
    rw [hbytes _ (by omega), Dram.getLsbD_leByte _ _ _ hbit, hindex]
    simp [hin, hj]
  · simp [hin]

theorem join_byte (value : BitVec 64) (k : ℕ) :
    (value.setWidth (8 * k)).setWidth 64 |||
        ((Dram.leByte value k).setWidth 64) <<< (8 * k) =
      (value.setWidth (8 * (k + 1))).setWidth 64 := by
  apply BitVec.eq_of_getLsbD_eq
  intro j hj
  rw [BitVec.getLsbD_or, BitVec.getLsbD_shiftLeft]
  simp only [BitVec.getLsbD_setWidth]
  by_cases hlow : j < 8 * k
  · simp [hlow, hj, show j < 8 * (k + 1) by omega]
  · by_cases hin : j < 8 * (k + 1)
    · rw [Dram.getLsbD_leByte _ _ _ (by omega)]
      have hindex : 8 * k + (j - 8 * k) = j := by omega
      simp [hlow, hj, hin, hindex]
      omega
    · have hbyte : (Dram.leByte value k).getLsbD (j - 8 * k) = false :=
        BitVec.getLsbD_of_ge _ _ (by omega)
      simp [hlow, hin, hbyte]

theorem Serves.readBytes (h : Serves profile c va size target x)
    (hrange : StoreRange profile c va size target) (hsize : size ≤ 8)
    {value : BitVec 64} (hbytes : HoldsBytes size target value x)
    {remaining k : ℕ} (hk : k + remaining = size) :
    ∃ y, Cpu.readBytes va remaining k
        ((value.setWidth (8 * k)).setWidth 64) profile x =
        some (.ok ((value.setWidth (8 * size)).setWidth 64), y) ∧
      Serves profile c va size target y := by
  induction remaining generalizing k x with
  | zero =>
      obtain rfl : k = size := hk
      exact ⟨x, rfl, h⟩
  | succ remaining ih =>
      have hlt : k < size := by omega
      obtain ⟨y, htranslate, hy, hsame⟩ :=
        h.translate hrange hsize hlt .load
      obtain ⟨z, hrest, hz⟩ := ih hy (fun j hj => (hsame j hj).trans
        (hbytes j hj)) (k := k + 1) (by omega)
      have hload : y.mem.dram.loadLe (Memory.offset (target k)) 1 =
          (Dram.leByte value k).setWidth 64 := by
        simp [Dram.loadLe, hsame k hlt, hbytes k hlt]
      refine ⟨z, ?_, hz⟩
      rw [Cpu.readBytes, hrange.add_eq hlt, Program.check_pure, pure_bind,
        Program.bind_run_ok htranslate, Program.bind_run_ok
          (physRead_inDram (hy.inDram hrange hlt) rfl), hload,
        Checked.umul_eq_pure (by omega), Program.check_pure, pure_bind,
        Checked.shl_eq_pure (by omega), Program.check_pure, pure_bind,
        join_byte value]
      exact hrest

theorem Serves.readMem (h : Serves profile c va size target x)
    (hrange : StoreRange profile c va size target)
    (hvalid : Memory.validSize size = true) {value : BitVec 64}
    (hbytes : HoldsBytes size target value x) :
    ∃ y, Cpu.readMem va size profile x =
        some (.ok ((value.setWidth (8 * size)).setWidth 64), y) ∧
      Serves profile c va size target y := by
  obtain ⟨hpos, hsize⟩ := Clint.validSize_range hvalid
  unfold Cpu.readMem
  by_cases hfits : va.toNat % 4096 + size ≤ 4096
  · obtain ⟨y, htranslate, hy, hsame⟩ := h.translate hrange hsize hpos .load
    rw [add_zero_offset] at htranslate
    have hin : y.mem.InDram (target 0) size := by
      rw [Memory.InDram, hy.len]
      exact hrange.inDram_whole hpos hfits
    have hload : y.mem.dram.loadLe (Memory.offset (target 0)) size =
        (value.setWidth (8 * size)).setWidth 64 := by
      apply loadLe_of_bytes hsize
      intro k hk
      rw [← hrange.offset_add hfits hk, hsame k hk, hbytes k hk]
    refine ⟨y, ?_, hy⟩
    rw [fitsPage_eq hsize, decide_eq_true hfits, Program.check_pure, pure_bind,
      if_pos rfl, Program.bind_run_ok htranslate, physRead_inDram hin hvalid,
      hload]
  · obtain ⟨y, hread, hy⟩ :=
      h.readBytes hrange hsize hbytes (Nat.zero_add size)
    have hnone : (value.setWidth (8 * 0)).setWidth 64 = 0 := by
      apply BitVec.eq_of_getLsbD_eq
      intro i _
      simp
    rw [hnone] at hread
    refine ⟨y, ?_, hy⟩
    rw [fitsPage_eq hsize, decide_eq_false hfits, Program.check_pure, pure_bind,
      if_neg Bool.false_ne_true]
    exact hread

/-- What was stored is loaded again, and no other byte of memory moves, the
accessed and dirty bits of the entries apart. -/
theorem readMem_writeMem {c' : Cpu} {value : BitVec 64}
    (hvalid : Memory.validSize size = true)
    (hrange : StoreRange profile c va size target)
    (hwrite : writeMem va size value profile c = some (.ok (), c')) :
    OnlyStored profile c va size target c' ∧
      ∃ c'', Cpu.readMem va size profile c' =
          some (.ok ((value.setWidth (8 * size)).setWidth 64), c'') ∧
        OnlyStored profile c va size target c'' := by
  obtain ⟨y, hrun, hy, hbytes⟩ := hrange.serves.writeMem hrange hvalid value
  rw [hwrite] at hrun
  cases hrun
  obtain ⟨z, hread, hz⟩ := hy.readMem hrange hvalid hbytes
  exact ⟨hy.toOnlyStored, z, hread, hz.toOnlyStored⟩

end Range

/-- A supervisor whose first two megapages are both the start of DRAM. -/
def twiceMapped : Cpu :=
  let c := ((Cpu.new 0x400000 .rv32).get rfl).placed 0x1000
    (wordBytes 0x20000007 ++ wordBytes 0x20000007)
  { c with
    privMode := .supervisor
    csrs := c.csrs.force Csr.SATP 0x80080001 }

/-- Where the bytes from `0x3ffffe` on are: two at the end of the first
megapage and two at the start of DRAM again. -/
def twiceTarget (k : ℕ) : BitVec 64 :=
  if k < 2 then 0x803ffffe + BitVec.ofNat 64 k
  else 0x7ffffffe + BitVec.ofNat 64 k

theorem maps_of_walker {profile : Profile} {c : Cpu} {va pa : BitVec 64}
    {access : Access}
    (hwalk : (c.walker va access profile c.mem).map Prod.fst =
      some (.ok pa)) : Maps profile c va access pa := by
  obtain ⟨⟨outcome, mem⟩, hrun, hok⟩ := Option.map_eq_some_iff.mp hwalk
  refine ⟨mem, hrun.trans ?_⟩
  rw [← hok]

theorem twiceMapped_entries : ∀ k < 4,
    twiceMapped.entriesOf .debug (0x3ffffe + BitVec.ofNat 64 k) .store =
      [0x80001000 + if k < 2 then 0 else 4] := by
  decide +kernel

theorem twiceMapped_range :
    StoreRange .debug twiceMapped 0x3ffffe 4 twiceTarget where
  fits := by decide
  sound := ⟨Clint.default_sound, fun _ => BitVec.zero_and⟩
  cached k _ access _ hhit := by
    unfold tlbHit at hhit
    exact absurd hhit Bool.false_ne_true
  maps := by
    intro k hk
    apply maps_of_walker
    revert k
    decide +kernel
  inDram := by
    unfold Memory.InDram
    decide +kernel
  apart := by
    intro j hj k hk addr haddr
    have hapart : ∀ j < 4, ∀ k < 4,
        ¬ Memory.Covers (0x80001000 + if j < 2 then 0 else 4) 4
          (Memory.offset (twiceTarget k)) := by
      unfold Memory.Covers
      decide +kernel
    rw [twiceMapped_entries j hj, List.mem_singleton] at haddr
    rw [haddr]
    exact hapart j hj k hk

/-- What is stored across their boundary is loaded again. -/
theorem readMem_writeMem_twice :
    ∃ c', writeMem 0x3ffffe 4 0x11223344 .debug twiceMapped =
        some (.ok (), c') ∧
      OnlyStored .debug twiceMapped 0x3ffffe 4 twiceTarget c' ∧
      ∃ c'', readMem 0x3ffffe 4 .debug c' = some (.ok 0x11223344, c'') := by
  have hstored : (writeMem 0x3ffffe 4 0x11223344 .debug twiceMapped).map
      Prod.fst = some (.ok ()) := by decide +kernel
  obtain ⟨⟨outcome, c'⟩, hrun, rfl⟩ := Option.map_eq_some_iff.mp hstored
  obtain ⟨honly, c'', hread, -⟩ :=
    readMem_writeMem rfl twiceMapped_range hrun
  exact ⟨c', hrun, honly, c'', hread⟩

end Cpu

end Nanoemu
