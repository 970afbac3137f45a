import Nanoemu.AmoEffects
import Nanoemu.ReservationHistory
import Nanoemu.SoundDevices

/-!
# What the stores of a run leave in memory

In every state of every run the device registers hold what a walk over them
relies on, so there what a store, a read-modify-write and a conditional store
leave in memory depends on the tables and the cache alone.
-/

namespace Nanoemu

open CheckedProgram Mmu

namespace Cpu

variable {profile : Profile} {c c₁ c' : Cpu} {va pa : BitVec 64}
  {size width : ℕ} {target : ℕ → BitVec 64}

/-- What is stored in a state of a run is loaded again, with nothing else
moved. -/
theorem Reachable.stored_then_loaded {value : BitVec 64}
    (hreach : Reachable profile (Started profile) c)
    (hvalid : Memory.validSize size = true)
    (hfits : va.toNat + size ≤ 2 ^ 64)
    (hcached : ∀ k < size, ∀ access, Weaker access .store →
      CacheAgrees profile c (va + BitVec.ofNat 64 k) access)
    (hmaps : ∀ k < size,
      Maps profile c (va + BitVec.ofNat 64 k) .store (target k))
    (hinDram : ∀ k < size, c.mem.InDram (target k) 1)
    (hapart : ∀ j < size, ∀ k < size,
      ∀ addr ∈ c.entriesOf profile (va + BitVec.ofNat 64 j) .store,
        ¬ Memory.Covers addr (entrySize c.xlen) (Memory.offset (target k)))
    (hwrite : writeMem va size value profile c = some (.ok (), c')) :
    OnlyStored profile c va size target c' ∧
      ∃ c'', readMem va size profile c' =
          some (.ok ((value.setWidth (8 * size)).setWidth 64), c'') ∧
        OnlyStored profile c va size target c'' := by
  have hrange : StoreRange profile c va size target :=
    ⟨hfits, hreach.sound, hcached, hmaps, hinDram, hapart⟩
  obtain ⟨y, hrun, hy, hbytes⟩ := hrange.serves.writeMem hrange hvalid value
  cases hwrite.symm.trans hrun
  obtain ⟨z, hread, hz⟩ := hy.readMem hrange hvalid hbytes
  exact ⟨hy.toOnlyStored, z, hread, hz.toOnlyStored⟩

/-- The tables and the cache alone say where the word of an atomic lies that is
fetched in a run. -/
theorem Reachable.wordPlace {outcome : Except Exception (BitVec 32 × BitVec 64)}
    (hreach : Reachable profile (Started profile) c)
    (hfetch : fetch profile c.fetching = some (outcome, c₁))
    (hcached : ∀ access, Weaker access .store →
      CacheAgrees profile c₁ va access)
    (hmaps : Maps profile c₁ va .store pa) (hinDram : c₁.mem.InDram pa size)
    (hapart : ∀ addr ∈ c₁.entriesOf profile va .store, ∀ k < size,
      ¬ Memory.Covers addr (entrySize c₁.xlen) (Memory.offset pa + k)) :
    WordPlace profile c₁ va size pa := by
  have hfetched : deviceFrame.rel c.fetching c₁ :=
    (fetch_within Memory.soundFrame_respects).of_run hfetch
  have hsound : c₁.mem.Sound := hfetched (ticked_devices c hreach.sound)
  exact ⟨hsound, hcached, hmaps, hinDram, hapart⟩

/-- The word that the store of an SC leaves; the rest of memory is as it was,
and so is the rest of the hart. -/
theorem Stores.word {inst : BitVec 32}
    (hwidth : amoWidth (funct3 inst) c.xlen = some width)
    (haligned : (c.rr (rs1 inst)).toNat % (width / 8) = 0)
    (hplace : WordPlace profile c (c.rr (rs1 inst)) (width / 8) pa)
    (hstores : Stores profile inst c c') :
    wordAt c'.mem pa width = (c.rr (rs2 inst)).setWidth width ∧
      OnlyStored profile c (c.rr (rs1 inst)) (width / 8)
        (fun k => pa + BitVec.ofNat 64 k)
        { c' with regs := c.regs, reservation := c.reservation } := by
  obtain ⟨width', x, hwidth', hwrite, rfl⟩ := hstores
  cases hwidth.symm.trans hwidth'
  have hcases := amoWidth_cases hwidth
  obtain ⟨hbits, -, hle, hvalid⟩ := width_bits hcases
  have hsize : width / 8 ≤ 8 := (Clint.validSize_range hvalid).2
  have hrange := hplace.range_word hcases haligned
  have hfits : (c.rr (rs1 inst)).toNat % 4096 + width / 8 ≤ 4096 := by
    rcases hcases with rfl | rfl <;> omega
  obtain ⟨y, hrun, hy, hbytes⟩ := hrange.serves.writeMem hrange hvalid _
  cases hwrite.symm.trans hrun
  constructor
  · have hload : x.mem.dram.loadLe (Memory.offset pa) (width / 8) =
        ((c.rr (rs2 inst)).setWidth (8 * (width / 8))).setWidth 64 := by
      apply loadLe_of_bytes hsize
      intro k hk
      have hplace := hrange.offset_add hfits hk
      rw [add_zero_offset] at hplace
      rw [← hplace]
      exact hbytes k hk
    rw [wordAt, setReg_mem]
    change (x.mem.dram.loadLe _ _).setWidth width = _
    rw [hload, hbits, FieldWords.setWidth_setWidth_of_le _ hle,
      BitVec.setWidth_eq]
  · have hframe : { ({ x with reservation := none } : Cpu).setReg (rd inst) 0
          with regs := c.regs, reservation := c.reservation } = x := by
      unfold setReg
      rw [hy.frame]
      split <;> rfl
    rw [hframe]
    exact hy.toOnlyStored

/-- A conditional store that retires in a run with its address reserved leaves
its word there. -/
theorem Reachable.conditional_word {inst : BitVec 32} {len : BitVec 64}
    {c₂ : Cpu} (hreach : Reachable profile (Started profile) c)
    (hop : IsAtomic 0x03 inst)
    (hfetch : fetch profile c.fetching = some (.ok (inst, len), c₁))
    (hexecute : execute inst c.ticked.pc (c₁.pc + len) profile c₁ =
      some (.ok (), c₂))
    (hreserved : c.reservation = some (c₁.rr (rs1 inst)))
    (hwidth : amoWidth (funct3 inst) c₁.xlen = some width)
    (hcached : ∀ access, Weaker access .store →
      CacheAgrees profile c₁ (c₁.rr (rs1 inst)) access)
    (hmaps : Maps profile c₁ (c₁.rr (rs1 inst)) .store pa)
    (hinDram : c₁.mem.InDram pa (width / 8))
    (hapart : ∀ addr ∈ c₁.entriesOf profile (c₁.rr (rs1 inst)) .store,
      ∀ k < width / 8,
        ¬ Memory.Covers addr (entrySize c₁.xlen) (Memory.offset pa + k)) :
    wordAt c₂.mem pa width = (c₁.rr (rs2 inst)).setWidth width := by
  have hreached : Reached c c₁ :=
    ((fetch_ensures profile c.fetching).ok hfetch).1.reached
  have hplace := hreach.wordPlace hfetch hcached hmaps hinDram hapart
  have hplaced : WordPlace profile { c₁ with pc := c₁.pc + len }
      (c₁.rr (rs1 inst)) (width / 8) pa :=
    ⟨hplace.sound, hplace.cached, hplace.maps, hplace.inDram, hplace.apart⟩
  have haligned : (c₁.rr (rs1 inst)).toNat % (width / 8) = 0 := by
    have hamo := hexecute
    rw [execute_atomic hop] at hamo
    rcases executeAmo_cases hamo with
      ⟨-, e, herror⟩ | ⟨width', hwidth', haligned, -⟩
    · cases herror
    · cases hwidth.symm.trans hwidth'
      exact haligned
  rcases execute_sc hop hexecute with ⟨-, hstores⟩ | ⟨hunreserved, -⟩
  · exact (Stores.word (c := { c₁ with pc := c₁.pc + len }) hwidth haligned
      hplaced hstores).1
  · exact absurd (hreached.reservation.trans hreserved) hunreserved

end Cpu

end Nanoemu
