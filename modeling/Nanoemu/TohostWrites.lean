import Nanoemu.StoreAtomicity
import Nanoemu.StoreThenLoad
import Nanoemu.TlbCoherence

/-!
# Writes to `tohost`

A write at the `tohost` address is recorded with the whole word that is handed
over, however few of its bytes are stored.  The walker's own writes hand over
an entry that fits; a store is recorded as memory has it where the word fits
the bytes that reach `tohost`.
-/

namespace Nanoemu

open CheckedProgram Mmu

namespace Memory

/-- DRAM holds the word at `tohost`, in some number of bytes. -/
def Holds (mem : Memory) (v : BitVec 64) : Prop :=
  ∃ t count, mem.tohost = some t ∧ count ≤ 8 ∧ mem.InDram t count ∧
    mem.dram.loadLe (offset t) count = v

/-- What was recorded, if anything, DRAM holds. -/
def Honest (mem : Memory) : Prop :=
  ∀ v, mem.tohostValue = some v → mem.Holds v

/-- What was recorded, if anything, is an entry that is there. -/
def EntryHeld (size : ℕ) (mem : Memory) : Prop :=
  ∀ v, mem.tohostValue = some v → ∃ t, mem.tohost = some t ∧
    size ∣ offset t ∧ mem.InDram t size ∧ mem.dram.loadLe (offset t) size = v

variable {mem mem' : Memory} {addr value : BitVec 64} {size : ℕ}

theorem NoStore.inDram (h : NoStore mem mem') (addr : BitVec 64) (size : ℕ) :
    mem'.InDram addr size ↔ mem.InDram addr size := by
  unfold InDram
  rw [h.dram]

theorem NoStore.holds (h : NoStore mem mem') {v : BitVec 64}
    (hholds : mem.Holds v) : mem'.Holds v := by
  obtain ⟨t, count, htohost, hcount, hin, hword⟩ := hholds
  refine ⟨t, count, h.tohost.trans htohost, hcount, (h.inDram t count).mpr hin, ?_⟩
  rw [h.dram]
  exact hword

theorem NoStore.entryHeld (h : NoStore mem mem') (hheld : mem.EntryHeld size) :
    mem'.EntryHeld size := by
  intro v hv
  rw [h.value] at hv
  obtain ⟨t, htohost, hdvd, hin, hword⟩ := hheld v hv
  refine ⟨t, h.tohost.trans htohost, hdvd, (h.inDram t size).mpr hin, ?_⟩
  rw [h.dram]
  exact hword

theorem NoStore.honest (h : NoStore mem mem') (hhonest : mem.Honest) :
    mem'.Honest := by
  intro v hv
  rw [h.value] at hv
  exact h.holds (hhonest v hv)

theorem honest_of_none (hnone : mem.tohostValue = none) : mem.Honest := by
  intro v hv
  rw [hnone] at hv
  cases hv

theorem EntryHeld.honest (h : mem.EntryHeld size) (hsize : size ≤ 8) :
    mem.Honest := by
  intro v hv
  obtain ⟨t, htohost, -, hin, hword⟩ := h v hv
  exact ⟨t, size, htohost, hsize, hin, hword⟩

@[simp] theorem stored_tohost (mem : Memory) (addr : BitVec 64) (size : ℕ)
    (value : BitVec 64) : (mem.stored addr size value).tohost = mem.tohost := by
  unfold stored noteTohost
  split <;> rfl

theorem stored_recorded (htohost : mem.tohost = some addr) (hvalue : value ≠ 0)
    (size : ℕ) : (mem.stored addr size value).tohostValue = some value := by
  unfold stored noteTohost
  rw [if_pos ⟨htohost, hvalue⟩]

theorem stored_unrecorded (hother : mem.tohost = some addr → value = 0)
    (size : ℕ) :
    (mem.stored addr size value).tohostValue = mem.tohostValue := by
  unfold stored noteTohost
  rw [if_neg fun h => h.2 (hother h.1)]

theorem stored_inDram (mem : Memory) (addr : BitVec 64) (size : ℕ)
    (value t : BitVec 64) (count : ℕ) :
    (mem.stored addr size value).InDram t count ↔ mem.InDram t count := by
  unfold InDram
  rw [stored_dram, Dram.storeLe_len]

theorem EntryHeld.stored (h : mem.EntryHeld size) (hsize : size ≤ 8)
    (hdvd : size ∣ offset addr) (hin : mem.InDram addr size)
    (hvalue : value ≠ 0)
    (hfits : ∀ j, 8 * size ≤ j → value.getLsbD j = false) :
    (mem.stored addr size value).EntryHeld size := by
  intro v hv
  by_cases htohost : mem.tohost = some addr
  · rw [stored_recorded htohost hvalue] at hv
    obtain rfl := Option.some.inj hv
    refine ⟨addr, (stored_tohost _ _ _ _).trans htohost, hdvd,
      (stored_inDram _ _ _ _ _ _).mpr hin, ?_⟩
    rw [stored_dram]
    exact Dram.loadLe_storeLe mem.dram hsize hfits
  · rw [stored_unrecorded fun h => absurd h htohost] at hv
    obtain ⟨t, ht, htdvd, htin, hword⟩ := h v hv
    have hne : offset addr ≠ offset t := by
      intro hsame
      obtain rfl := offset_inj hin.1 htin.1 hsame
      exact htohost ht
    refine ⟨t, (stored_tohost _ _ _ _).trans ht, htdvd,
      (stored_inDram _ _ _ _ _ _).mpr htin, ?_⟩
    rw [stored_dram, Dram.loadLe_storeLe_disjoint _ _
      (Mmu.apart_of_dvd hdvd htdvd hne)]
    exact hword

/-- What is recorded stays an entry that is there. -/
def entryFrame (size : ℕ) : Frame Memory where
  rel mem mem' := mem'.tohost = mem.tohost ∧
    (mem.EntryHeld size → mem'.EntryHeld size)
  refl _ := ⟨rfl, id⟩
  trans hfirst hsecond :=
    ⟨hsecond.1.trans hfirst.1, fun h => hsecond.2 (hfirst.2 h)⟩

theorem NoStore.entries (h : NoStore mem mem') (size : ℕ) :
    (entryFrame size).rel mem mem' :=
  ⟨h.tohost, h.entryHeld⟩

theorem need_ne_zero (access : Access) : need access ≠ 0 := by
  cases access <;> decide

theorem entryFrame_walks {size : ℕ} (hsize : size = 4 ∨ size = 8)
    (access : Access) : KeepsWalks (entryFrame size) size access := by
  have hvalid : validSize size = true := by
    rcases hsize with rfl | rfl <;> rfl
  have hbounds : 0 < size ∧ size ≤ 8 := by omega
  constructor
  case read =>
    intro addr profile mem
    apply (read_noStore addr size profile mem).mono
    · exact fun _ _ hkept => hkept.entries size
    · exact fun _ _ hkept => hkept.entries size
  case device =>
    intro addr value hlow profile mem
    apply (write_cases addr hvalid value profile mem).mono
    · rintro _ mem' (⟨hin, -⟩ | ⟨-, hkept⟩)
      · exact absurd hlow (BitVec.not_lt.mpr hin.1)
      · exact hkept.entries size
    · exact fun _ _ hfailed => hfailed.2.entries size
  case mark =>
    intro mem addr hdvd hin
    refine ⟨stored_tohost _ _ _ _, fun hheld => ?_⟩
    apply hheld.stored hbounds.2 hdvd hin
    · intro hzero
      exact need_ne_zero access (BitVec.or_eq_zero_iff.mp hzero).2
    · exact fun j => getLsbD_or_need_of_ge hbounds mem.dram access

end Memory

namespace Cpu

/-! ## Translations -/

/-- The cache is aligned, and only walks have recorded anything. -/
structure Walking (c : Cpu) : Prop where
  aligned : AlignedTlb c
  held : c.mem.EntryHeld (entrySize c.xlen)

def walkingFrame : Frame Cpu where
  rel c c' := c'.mem.tohost = c.mem.tohost ∧ (Walking c → Walking c')
  refl _ := ⟨rfl, id⟩
  trans hfirst hsecond :=
    ⟨hsecond.1.trans hfirst.1, fun h => hsecond.2 (hfirst.2 h)⟩

theorem translate_aligned {profile : Profile} {c c' : Cpu} {va : BitVec 64}
    {access : Access} {outcome : Except Exception (BitVec 64)}
    (hrun : translate va access profile c = some (outcome, c'))
    (haligned : AlignedTlb c) : AlignedTlb c' := by
  cases outcome with
  | ok pa =>
      exact ((translate_entry va access profile c).ok hrun).2.2 haligned
  | error e =>
      obtain ⟨mem, -, rfl⟩ := (translate_ensures va access profile c).error hrun
      exact haligned

theorem translate_walking (va : BitVec 64) (access : Access) :
    (translate va access).Keeps walkingFrame := by
  intro profile c
  have hentries : (translate va access).Ensures profile c
      (fun _ c' => (Memory.entryFrame (entrySize c.xlen)).rel c.mem c'.mem ∧
        c'.xlen = c.xlen)
      (fun _ c' => (Memory.entryFrame (entrySize c.xlen)).rel c.mem c'.mem ∧
        c'.xlen = c.xlen) := by
    have hwalk := translate_walks (Memory.entryFrame_walks
      (entrySize_cases c.xlen) access) (c.csrs.read Csr.SATP)
        (c.csrs.read Csr.MSTATUS) c.privMode va profile c.mem
    apply Program.Ensures.bind
    apply Program.Ensures.read
    apply Program.Ensures.ite
    · exact fun _ => Program.Ensures.pure ⟨Frame.refl _ _, rfl⟩
    · intro _
      apply Program.Ensures.bind
      apply onMemory_ensures
      apply hwalk.mono
      · intro pa mem hmem
        apply Program.Ensures.bind
        apply Program.Ensures.update
        exact Program.Ensures.pure ⟨hmem, rfl⟩
      · exact fun _ _ hmem => ⟨hmem, rfl⟩
  have hall : ∀ {outcome c'},
      translate va access profile c = some (outcome, c') →
      (Memory.entryFrame (entrySize c.xlen)).rel c.mem c'.mem ∧
        c'.xlen = c.xlen → walkingFrame.rel c c' := by
    intro outcome c' hrun hkept
    obtain ⟨⟨htohost, hheld⟩, hxlen⟩ := hkept
    refine ⟨htohost, fun hwalking => ⟨translate_aligned hrun hwalking.aligned, ?_⟩⟩
    rw [hxlen]
    exact hheld hwalking.held
  intro outcome c' hrun
  cases outcome with
  | ok pa => exact hall hrun (hentries.ok hrun)
  | error e => exact hall hrun (hentries.error hrun)

theorem physRead_walking (fault : Exception) (pa : BitVec 64) (size : ℕ) :
    (physRead fault pa size).Keeps walkingFrame := by
  apply Program.Keeps.zoom
    (Program.Keeps.mapError (Memory.read_noStore pa size))
  intro c mem hkept
  exact ⟨hkept.tohost, fun h => ⟨h.aligned, hkept.entryHeld h.held⟩⟩

theorem readMem_walking (va : BitVec 64) (size : ℕ) :
    (readMem va size).Keeps walkingFrame :=
  (readMem_raises (fun addr => (translate_walking addr .load).raises)
    (fun pa size => (physRead_walking _ pa size).raises) size).keeps

theorem fetch_walking : fetch.Keeps walkingFrame :=
  fetch_frame (fun va => translate_walking va .fetch) physRead_walking

theorem translateStore_walking (va : BitVec 64) (size : ℕ) :
    (translateStore va size).Keeps walkingFrame :=
  translateStore_frame (fun addr => translate_walking addr .store) va size

/-! ## Stores -/

def byteTarget (z : Cpu) (va : BitVec 64) (k : ℕ) : BitVec 64 :=
  z.storeTarget (va + BitVec.ofNat 64 k)

/-- What is left of the value from byte `k` on reaches memory in one piece. -/
def InOnePiece (z : Cpu) (va : BitVec 64) (size : ℕ) (value : BitVec 64)
    (k : ℕ) : Prop :=
  ∃ count, k + count ≤ size ∧ (value >>> (8 * k)).toNat < 2 ^ (8 * count) ∧
    z.mem.InDram (z.byteTarget va k) count ∧
    ∀ i < count, (z.byteTarget va (k + i)).toNat =
      (z.byteTarget va k).toNat + i

instance (z : Cpu) (va : BitVec 64) (size : ℕ) (value : BitVec 64) (k : ℕ) :
    Decidable (InOnePiece z va size value k) :=
  decidable_of_iff (∃ count < size + 1, k + count ≤ size ∧
    (value >>> (8 * k)).toNat < 2 ^ (8 * count) ∧
    z.mem.InDram (z.byteTarget va k) count ∧
    ∀ i < count, (z.byteTarget va (k + i)).toNat =
      (z.byteTarget va k).toNat + i)
    ⟨fun ⟨count, _, h⟩ => ⟨count, h⟩, fun ⟨count, h⟩ => ⟨count, by omega, h⟩⟩

/-- A store that is translated, with nothing recorded on the way, hands over
no more at `tohost` than it stores there.  Across a page boundary every byte is
handed over with the bytes above it. -/
structure StoreFits (z : Cpu) (va : BitVec 64) (size : ℕ) (value : BitVec 64) :
    Prop where
  silent : z.mem.tohostValue = none
  within : va.toNat % 4096 + size ≤ 4096 →
    z.mem.tohost = some (z.storeTarget va) → value ≠ 0 →
    DRAM_BASE ≤ z.storeTarget va ∧ value.toNat < 2 ^ (8 * size)
  across : 4096 < va.toNat % 4096 + size → ∀ k < size,
    z.mem.tohost = some (z.byteTarget va k) → value >>> (8 * k) ≠ 0 →
    InOnePiece z va size value k

instance (z : Cpu) (va : BitVec 64) (size : ℕ) (value : BitVec 64) :
    Decidable (StoreFits z va size value) :=
  decidable_of_iff (z.mem.tohostValue = none ∧
    (va.toNat % 4096 + size ≤ 4096 →
      z.mem.tohost = some (z.storeTarget va) → value ≠ 0 →
      DRAM_BASE ≤ z.storeTarget va ∧ value.toNat < 2 ^ (8 * size)) ∧
    (4096 < va.toNat % 4096 + size → ∀ k < size,
      z.mem.tohost = some (z.byteTarget va k) → value >>> (8 * k) ≠ 0 →
      InOnePiece z va size value k))
    ⟨fun ⟨hsilent, hwithin, hacross⟩ => ⟨hsilent, hwithin, hacross⟩,
      fun h => ⟨h.silent, h.within, h.across⟩⟩

/-- The first `m` bytes of a store were handed over. -/
structure Handed (z : Cpu) (va value : BitVec 64) (m : ℕ) (mem : Memory) :
    Prop where
  tohost : mem.tohost = z.mem.tohost
  len : mem.dram.len = z.mem.dram.len
  bytes : ∀ j < m, z.mem.InDram (z.byteTarget va j) 1 →
    mem.dram.byte (Memory.offset (z.byteTarget va j)) = Dram.leByte value j
  recorded : ∀ j < m, z.mem.tohost = some (z.byteTarget va j) →
    z.mem.InDram (z.byteTarget va j) 1 → value >>> (8 * j) ≠ 0 →
    mem.tohostValue = some (value >>> (8 * j))
  silent : (∀ j < m, z.mem.tohost = some (z.byteTarget va j) →
    z.mem.InDram (z.byteTarget va j) 1 → value >>> (8 * j) = 0) →
    mem.tohostValue = z.mem.tohostValue

section Across

variable {profile : Profile} {z : Cpu} {va value : BitVec 64} {size : ℕ}

theorem byteTarget_ne (haligned : AlignedTlb z)
    (htranslated : Translated profile va size z) (hsize : size ≤ 8) {j k : ℕ}
    (hj : j < size) (hk : k < size) (hne : j ≠ k) :
    z.byteTarget va j ≠ z.byteTarget va k := by
  have hplace : ∀ i < size, (z.byteTarget va i).toNat % 4096 =
      (va.toNat + i) % 4096 := by
    intro i hi
    have hpage := haligned _ _ (tlbHit_eq_true (htranslated.hit i hi)).1
    obtain ⟨hsum, hzero⟩ := page_or_toNat hpage (va + BitVec.ofNat 64 i)
    have hbyte : (va + BitVec.ofNat 64 i).toNat % 4096 =
        (va.toNat + i) % 4096 := by
      rw [BitVec.toNat_add, BitVec.toNat_ofNat]
      omega
    unfold byteTarget storeTarget
    rw [hsum, hbyte]
    omega
  intro hsame
  have hj' := hplace j hj
  have hk' := hplace k hk
  rw [hsame] at hj'
  omega

theorem Handed.inDram {m : ℕ} {mem : Memory} (h : Handed z va value m mem)
    (t : BitVec 64) (count : ℕ) : mem.InDram t count ↔ z.mem.InDram t count := by
  unfold Memory.InDram
  rw [h.len]

theorem Handed.start (z : Cpu) (va value : BitVec 64) :
    Handed z va value 0 z.mem :=
  ⟨rfl, rfl, fun _ hj => absurd hj (Nat.not_lt_zero _),
    fun _ hj => absurd hj (Nat.not_lt_zero _), fun _ => rfl⟩

theorem Handed.kept {m : ℕ} {mem mem' : Memory} (h : Handed z va value m mem)
    (hkept : Memory.NoStore mem mem') : Handed z va value m mem' := by
  constructor
  case tohost => exact hkept.tohost.trans h.tohost
  case len => rw [hkept.dram, h.len]
  case bytes =>
    intro j hj hin
    rw [hkept.dram]
    exact h.bytes j hj hin
  case recorded =>
    intro j hj htohost hin hvalue
    rw [hkept.value]
    exact h.recorded j hj htohost hin hvalue
  case silent =>
    intro hzero
    rw [hkept.value]
    exact h.silent hzero

theorem Handed.missed {k : ℕ} {mem : Memory} (h : Handed z va value k mem)
    (hout : ¬ z.mem.InDram (z.byteTarget va k) 1) :
    Handed z va value (k + 1) mem := by
  have hbefore : ∀ j < k + 1, z.mem.InDram (z.byteTarget va j) 1 → j < k := by
    intro j hj hin
    rcases Nat.lt_succ_iff_lt_or_eq.mp hj with hlt | rfl
    · exact hlt
    · exact absurd hin hout
  constructor
  case tohost => exact h.tohost
  case len => exact h.len
  case bytes => exact fun j hj hin => h.bytes j (hbefore j hj hin) hin
  case recorded =>
    exact fun j hj htohost hin => h.recorded j (hbefore j hj hin) htohost hin
  case silent => exact fun hzero => h.silent fun j hj => hzero j (by omega)

/-- A byte that reaches DRAM is the byte of the value, and is recorded with
the bytes above it. -/
theorem Handed.stored {k : ℕ} {mem : Memory} (h : Handed z va value k mem)
    (hdistinct : ∀ j < k, z.byteTarget va j ≠ z.byteTarget va k)
    (hin : z.mem.InDram (z.byteTarget va k) 1) :
    Handed z va value (k + 1)
      (mem.stored (z.byteTarget va k) 1 (value >>> (8 * k))) := by
  have hbyte : Dram.leByte (value >>> (8 * k)) 0 = Dram.leByte value k := by
    unfold Dram.leByte
    rfl
  constructor
  case tohost => rw [Memory.stored_tohost, h.tohost]
  case len => rw [Memory.stored_dram, Dram.storeLe_len, h.len]
  case bytes =>
    intro j hj hplace
    rw [Memory.stored_dram]
    rcases Nat.lt_succ_iff_lt_or_eq.mp hj with hlt | rfl
    · have hne : Memory.offset (z.byteTarget va j) ≠
          Memory.offset (z.byteTarget va k) := fun hsame =>
        hdistinct j hlt (Memory.offset_inj hplace.1 hin.1 hsame)
      rw [Dram.storeLe_byte_outside _ _ (by omega)]
      exact h.bytes j hlt hplace
    · unfold Dram.storeLe
      dsimp only
      rw [if_pos ⟨le_rfl, Nat.lt_succ_self _⟩, Nat.sub_self]
      exact hbyte
  case recorded =>
    intro j hj htohost hplace hvalue
    rcases Nat.lt_succ_iff_lt_or_eq.mp hj with hlt | rfl
    · rw [Memory.stored_unrecorded]
      · exact h.recorded j hlt htohost hplace hvalue
      · intro hagain
        rw [h.tohost, htohost] at hagain
        exact absurd (Option.some.inj hagain) (hdistinct j hlt)
    · exact Memory.stored_recorded (h.tohost.trans htohost) hvalue 1
  case silent =>
    intro hzero
    rw [Memory.stored_unrecorded]
    · exact h.silent fun j hj => hzero j (by omega)
    · intro htohost
      rw [h.tohost] at htohost
      exact hzero k (Nat.lt_succ_self k) htohost hin

theorem physWrite_cases (fault : Exception) (pa : BitVec 64) {count : ℕ}
    (hcount : Memory.validSize count = true) (word : BitVec 64)
    (profile : Profile) (c : Cpu) :
    (physWrite fault pa count word).Ensures profile c
      (fun _ c' => ∃ mem, c' = { c with mem := mem } ∧
        (c.mem.InDram pa count ∧ mem = c.mem.stored pa count word ∨
          pa < DRAM_BASE ∧ Memory.NoStore c.mem mem))
      (fun _ c' => ∃ mem, c' = { c with mem := mem } ∧
        ¬ c.mem.InDram pa count ∧ Memory.NoStore c.mem mem) := by
  apply onMemory_ensures
  apply Program.Ensures.mapError
  apply (Memory.write_cases pa hcount word profile c.mem).mono
  · exact fun _ mem hcases => ⟨mem, rfl, hcases⟩
  · exact fun _ mem hfailed => ⟨mem, rfl, hfailed⟩

theorem writeBytes_handed (haligned : AlignedTlb z)
    (htranslated : Translated profile va size z) (hsize : size ≤ 8)
    (remaining k : ℕ) (hremaining : k + remaining = size) (mem : Memory)
    (h : Handed z va value k mem) :
    (writeBytes va value remaining k).Ensures profile { z with mem := mem }
      (fun _ c' => Handed z va value size c'.mem)
      (fun _ c' => ∃ m < size, Handed z va value m c'.mem ∧
        ¬ z.mem.InDram (z.byteTarget va m) 1) := by
  induction remaining generalizing k mem with
  | zero =>
      obtain rfl : k = size := hremaining
      exact Program.Ensures.pure h
  | succ remaining ih =>
      have hk : k < size := by omega
      have hdistinct : ∀ j < k, z.byteTarget va j ≠ z.byteTarget va k :=
        fun j hj => byteTarget_ne haligned htranslated hsize (by omega) hk
          (by omega)
      rw [writeBytes_succ]
      apply Program.Ensures.bind
      intro outcome c' hbyte
      rw [writeByte_run (htranslated.withMem mem) hsize value hk] at hbyte
      have hone : Memory.validSize 1 = true := rfl
      have hcases := physWrite_cases (.storeAccessFault va) (z.byteTarget va k)
        hone (value >>> (8 * k)) profile { z with mem := mem }
      cases outcome with
      | error e =>
          obtain ⟨mem', rfl, hout, hkept⟩ := hcases.error hbyte
          exact ⟨k, hk, h.kept hkept, fun hin => hout ((h.inDram _ 1).mpr hin)⟩
      | ok result =>
          obtain ⟨mem', rfl, hwritten⟩ := hcases.ok hbyte
          apply ih (k + 1) (by omega) mem'
          rcases hwritten with ⟨hin, rfl⟩ | ⟨hlow, hkept⟩
          · exact h.stored hdistinct ((h.inDram _ 1).mp hin)
          · exact (h.kept hkept).missed fun hin =>
              absurd hlow (BitVec.not_lt.mpr hin.1)

/-- What the second pass has recorded is held, where the rest of the value was
handed over in one piece. -/
theorem Handed.honest {m : ℕ} {mem : Memory} (h : Handed z va value m mem)
    (hsize : size ≤ 8) (hm : m ≤ size)
    (hstop : m = size ∨ ¬ z.mem.InDram (z.byteTarget va m) 1)
    (hsilent : z.mem.tohostValue = none)
    (hfits : ∀ k < size, z.mem.tohost = some (z.byteTarget va k) →
      value >>> (8 * k) ≠ 0 → InOnePiece z va size value k) : mem.Honest := by
  intro v hv
  by_cases hzero : ∀ j < m, z.mem.tohost = some (z.byteTarget va j) →
      z.mem.InDram (z.byteTarget va j) 1 → value >>> (8 * j) = 0
  · rw [h.silent hzero, hsilent] at hv
    cases hv
  push Not at hzero
  obtain ⟨k, hk, htohost, hin, hvalue⟩ := hzero
  rw [h.recorded k hk htohost hin hvalue] at hv
  obtain rfl := Option.some.inj hv
  obtain ⟨count, hcount, hword, hplace, hnext⟩ :=
    hfits k (by omega) htohost hvalue
  have hplaced := hplace
  unfold Memory.InDram at hplaced
  -- Each byte of the piece is in DRAM, past the one before it.
  have hbyte : ∀ i < count, z.mem.InDram (z.byteTarget va (k + i)) 1 ∧
      Memory.offset (z.byteTarget va (k + i)) =
        Memory.offset (z.byteTarget va k) + i := by
    intro i hi
    have hbase : DRAM_BASE.toNat ≤ (z.byteTarget va k).toNat := hplace.1
    have hconst : DRAM_BASE.toNat = 0x80000000 := by decide
    unfold Memory.InDram Memory.offset
    rw [BitVec.le_def, hnext i hi]
    omega
  have hdone : k + count ≤ m := by
    rcases hstop with rfl | hout
    · exact hcount
    · by_contra hlater
      have hlast := (hbyte (m - k) (by omega)).1
      rw [show k + (m - k) = m by omega] at hlast
      exact hout hlast
  refine ⟨z.byteTarget va k, count, h.tohost.trans htohost, by omega,
    (h.inDram _ count).mpr hplace, ?_⟩
  have hbytes : ∀ i < count,
      mem.dram.byte (Memory.offset (z.byteTarget va k) + i) =
        Dram.leByte (value >>> (8 * k)) i := by
    intro i hi
    rw [← (hbyte i hi).2, h.bytes (k + i) (by omega) (hbyte i hi).1]
    unfold Dram.leByte
    rw [Nat.mul_add, BitVec.shiftRight_add]
  rw [loadLe_of_bytes (by omega) hbytes]
  apply BitVec.eq_of_toNat_eq
  rw [BitVec.toNat_setWidth, BitVec.toNat_setWidth]
  have hlt := (value >>> (8 * k)).isLt
  rw [Nat.mod_eq_of_lt hword, Nat.mod_eq_of_lt hlt]

end Across

/-- What a store of the value reports: its low bytes, unless they are zero. -/
def reported (size : ℕ) (value : BitVec 64) : Option (BitVec 64) :=
  if value.setWidth (8 * size) = 0 then none
  else some ((value.setWidth (8 * size)).setWidth 64)

theorem reported_zero (size : ℕ) : reported size 0 = none := by
  simp [reported]

theorem reported_of_lt {size : ℕ} {value : BitVec 64} (hvalue : value ≠ 0)
    (hlt : value.toNat < 2 ^ (8 * size)) : reported size value = some value := by
  have hnat : (value.setWidth (8 * size)).toNat = value.toNat := by
    rw [BitVec.toNat_setWidth, Nat.mod_eq_of_lt hlt]
  have hwhole : (value.setWidth (8 * size)).setWidth 64 = value := by
    apply BitVec.eq_of_toNat_eq
    rw [BitVec.toNat_setWidth, hnat, Nat.mod_eq_of_lt value.isLt]
  have hlow : value.setWidth (8 * size) ≠ 0 := by
    intro hzero
    rw [hzero] at hwhole
    apply hvalue
    rw [← hwhole]
    simp
  unfold reported
  rw [if_neg hlow, hwhole]

section Report

variable {profile : Profile} {y y' z : Cpu} {va value : BitVec 64} {size : ℕ}
  {outcome : Except Exception Unit}

theorem stored_reports (hfits : StoreFits z va size value)
    (hpage : va.toNat % 4096 + size ≤ 4096) (hsize : size ≤ 8)
    (hin : z.mem.InDram (z.storeTarget va) size) :
    let mem := z.mem.stored (z.storeTarget va) size value
    mem.Honest ∧
      (z.mem.tohost = some (z.storeTarget va) →
        mem.tohostValue = reported size value) := by
  by_cases hreport : z.mem.tohost = some (z.storeTarget va) ∧ value ≠ 0
  · obtain ⟨htohost, hvalue⟩ := hreport
    obtain ⟨-, hlt⟩ := hfits.within hpage htohost hvalue
    have hhigh : ∀ j, 8 * size ≤ j → value.getLsbD j = false := fun j hj =>
      Nat.testBit_lt_two_pow
        (hlt.trans_le (Nat.pow_le_pow_right (by decide) hj))
    dsimp only
    have hrecorded := Memory.stored_recorded htohost hvalue size
    constructor
    · intro v hv
      obtain rfl := Option.some.inj (hrecorded.symm.trans hv)
      refine ⟨z.storeTarget va, size, (Memory.stored_tohost _ _ _ _).trans
        htohost, hsize, (Memory.stored_inDram _ _ _ _ _ _).mpr hin, ?_⟩
      rw [Memory.stored_dram]
      exact Dram.loadLe_storeLe z.mem.dram hsize hhigh
    · exact fun _ => hrecorded.trans (reported_of_lt hvalue hlt).symm
  · have hother : z.mem.tohost = some (z.storeTarget va) → value = 0 := by
      intro htohost
      by_contra hvalue
      exact hreport ⟨htohost, hvalue⟩
    dsimp only
    have hnone := (Memory.stored_unrecorded hother size).trans hfits.silent
    refine ⟨Memory.honest_of_none hnone, fun htohost => ?_⟩
    rw [hnone, hother htohost, reported_zero]

theorem translateStore_across (hsize : size ≤ 8)
    (hpage : ¬ va.toNat % 4096 + size ≤ 4096) :
    translateStore va size = translateBytes va size 0 := by
  unfold translateStore
  rw [fitsPage_eq hsize, decide_eq_false hpage, Program.check_pure, pure_bind,
    if_neg Bool.false_ne_true]

/-- Across a page boundary the first byte reports the whole value. -/
theorem Handed.reports {mem : Memory} (h : Handed z va value size mem)
    (hpos : 0 < size) (hfits : StoreFits z va size value)
    (hpage : 4096 < va.toNat % 4096 + size)
    (htohost : z.mem.tohost = some (z.storeTarget va)) :
    mem.tohostValue = reported size value := by
  have hfirst : z.byteTarget va 0 = z.storeTarget va :=
    congrArg z.storeTarget (add_zero_offset va)
  rw [← hfirst] at htohost
  by_cases hvalue : value = 0
  · subst hvalue
    rw [reported_zero, h.silent, hfits.silent]
    intro j _ _ _
    exact BitVec.zero_ushiftRight
  · obtain ⟨count, hcount, hlt, hin, -⟩ :=
      hfits.across hpage 0 hpos htohost hvalue
    have hsome : 0 < count := by
      rcases Nat.eq_zero_or_pos count with rfl | hcount
      · have hzero : value.toNat = 0 := Nat.lt_one_iff.mp hlt
        exact absurd (BitVec.eq_of_toNat_eq hzero) hvalue
      · exact hcount
    have hone : z.mem.InDram (z.byteTarget va 0) 1 := by
      obtain ⟨hbase, hlen, hword⟩ := hin
      exact ⟨hbase, by omega, by omega⟩
    rw [h.recorded 0 hpos htohost hone hvalue]
    exact (reported_of_lt hvalue (hlt.trans_le
      (Nat.pow_le_pow_right (by decide) (by omega)))).symm

theorem placeStore_reports (haligned : AlignedTlb z)
    (hsize : Memory.validSize size = true)
    (htranslated : translateStore va size profile y = some (.ok (), z))
    (hfits : StoreFits z va size value) :
    (placeStore va size value).Ensures profile z
      (fun _ c' => c'.mem.Honest ∧
        (z.mem.tohost = some (z.storeTarget va) →
          c'.mem.tohostValue = reported size value))
      (fun _ c' => c'.mem.Honest) := by
  have hle := Memory.size_le_of_valid hsize
  apply Program.Ensures.bind
  apply Program.Ensures.read
  apply Program.Ensures.ite
  · intro hpage
    have hunmoved : ∀ {mem}, Memory.NoStore z.mem mem → mem.Honest :=
      fun hkept => hkept.honest (Memory.honest_of_none hfits.silent)
    apply (physWrite_cases _ (z.storeTarget va) hsize value profile z).mono
    · rintro _ _ ⟨mem, rfl, hwritten⟩
      rcases hwritten with ⟨hin, rfl⟩ | ⟨hlow, hkept⟩
      · exact stored_reports hfits hpage hle hin
      · refine ⟨hunmoved hkept, fun htohost => ?_⟩
        have hvalue : value = 0 := by
          by_contra hvalue
          exact absurd hlow
            (BitVec.not_lt.mpr (hfits.within hpage htohost hvalue).1)
        rw [hkept.value, hfits.silent, hvalue, reported_zero]
    · rintro _ _ ⟨mem, rfl, -, hkept⟩
      exact hunmoved hkept
  · intro hpage
    have hcross : 4096 < va.toNat % 4096 + size := not_le.mp hpage
    have hpos : 0 < size := by
      have hlt := Nat.mod_lt va.toNat (show 0 < 4096 by decide)
      omega
    rw [translateStore_across hle hpage] at htranslated
    have hdone := translated_of_translateBytes hle htranslated
    have hhanded := writeBytes_handed haligned hdone hle size 0
      (Nat.zero_add size) z.mem (Handed.start z va value)
    apply hhanded.mono
    · intro _ c' h
      refine ⟨?_, h.reports hpos hfits hcross⟩
      exact h.honest hle le_rfl (Or.inl rfl) hfits.silent
        (hfits.across hcross)
    · rintro _ c' ⟨m, hm, h, hout⟩
      exact h.honest hle hm.le (Or.inr hout) hfits.silent (hfits.across hcross)

theorem writeMem_reports (hwalking : Walking y)
    (hsize : Memory.validSize size = true)
    (hfits : ∀ z, translateStore va size profile y = some (.ok (), z) →
      StoreFits z va size value)
    (hrun : writeMem va size value profile y = some (outcome, y')) :
    y'.mem.Honest ∧
      (outcome = .ok () → ∀ z,
        translateStore va size profile y = some (.ok (), z) →
        z.mem.tohost = some (z.storeTarget va) →
        y'.mem.tohostValue = reported size value) := by
  have hle := Memory.size_le_of_valid hsize
  have hwalked := fun {outcome : Except Exception Unit} {x : Cpu}
      (h : translateStore va size profile y = some (outcome, x)) =>
    ((translateStore_walking va size).of_run h).2 hwalking
  rw [writeMem_eq hle] at hrun
  rcases Program.bind_cases hrun with
    ⟨e, hfailed, rfl⟩ | ⟨_, z, htranslated, hplace⟩
  · constructor
    · exact (hwalked hfailed).held.honest (entrySize_bounds _).2
    · exact fun h => absurd h (by simp)
  · have hplaced := placeStore_reports (hwalked htranslated).aligned hsize
      htranslated (hfits z htranslated)
    cases outcome with
    | error e =>
        exact ⟨hplaced.error hplace, fun h => absurd h (by simp)⟩
    | ok result =>
        obtain ⟨hheld, hreported⟩ := hplaced.ok hplace
        refine ⟨hheld, fun _ z' hz' htohost => ?_⟩
        rw [htranslated] at hz'
        cases hz'
        exact hreported htohost

end Report

end Cpu

end Nanoemu
