import Nanoemu.Load
import Nanoemu.MemoryAccess

/-!
# Segments in memory

A segment is placed in two steps, its bytes and then its zeroes.  Together they
overlay the DRAM, and segments that lie apart from each other do so
independently.
-/

namespace Nanoemu

open CheckedProgram

namespace Segment

def memsz (seg : Segment) : ℕ :=
  seg.data.length + seg.zeroLen.toNat

def Covers (seg : Segment) (a : ℕ) : Prop :=
  Memory.offset seg.addr ≤ a ∧ a < Memory.offset seg.addr + seg.memsz

instance (seg : Segment) (a : ℕ) : Decidable (seg.Covers a) :=
  inferInstanceAs (Decidable (_ ∧ _))

def byteAt (seg : Segment) (a : ℕ) : BitVec 8 :=
  (seg.data[a - Memory.offset seg.addr]?).getD 0

end Segment

namespace Dram

def overlay (dram : Dram) (seg : Segment) : Dram :=
  { dram with byte := fun a =>
      if seg.Covers a then seg.byteAt a else dram.byte a }

@[simp] theorem overlay_len (dram : Dram) (seg : Segment) :
    (dram.overlay seg).len = dram.len := by
  unfold overlay
  rfl

theorem overlay_byte (dram : Dram) (seg : Segment) (a : ℕ) :
    (dram.overlay seg).byte a =
      if seg.Covers a then seg.byteAt a else dram.byte a := by
  unfold overlay
  dsimp only

@[simp] theorem copyFrom_len (dram : Dram) (i : ℕ) (data : List (BitVec 8)) :
    (dram.copyFrom i data).len = dram.len := by
  unfold copyFrom
  rfl

@[simp] theorem fill_len (dram : Dram) (i len : ℕ) :
    (dram.fill i len).len = dram.len := by
  unfold fill
  rfl

theorem fill_copyFrom_byte (dram : Dram) (data : List (BitVec 8))
    (i len a : ℕ) :
    ((dram.copyFrom i data).fill (i + data.length) len).byte a =
      if i ≤ a ∧ a < i + (data.length + len) then (data[a - i]?).getD 0
      else dram.byte a := by
  unfold fill copyFrom
  dsimp only
  by_cases hle : i ≤ a
  · by_cases hdata : a - i < data.length
    · have hcovers : a < i + (data.length + len) := by omega
      have hkept : ¬ i + data.length ≤ a := by omega
      simp [hle, hcovers, hkept, hdata]
    · have hnone : data[a - i]? = none :=
        List.getElem?_eq_none (not_lt.mp hdata)
      have hpast : i + data.length ≤ a := by omega
      simp only [hle, hpast, hnone, true_and, if_true, Option.getD_none,
        Nat.add_assoc]
  · have hbefore : ¬ i + data.length ≤ a := by omega
    simp [hle, hbefore]

theorem eq_of_byte {dram dram' : Dram} (hlen : dram.len = dram'.len)
    (hbyte : ∀ a, dram.byte a = dram'.byte a) : dram = dram' := by
  obtain ⟨len, byte⟩ := dram
  obtain ⟨len', byte'⟩ := dram'
  obtain rfl : len = len' := hlen
  obtain rfl : byte = byte' := funext hbyte
  rfl

/-- Copying the bytes and clearing what follows them is the overlay. -/
theorem copyFrom_fill (dram : Dram) (seg : Segment) :
    (dram.copyFrom (Memory.offset seg.addr) seg.data).fill
        (Memory.offset seg.addr + seg.data.length) seg.zeroLen.toNat =
      dram.overlay seg := by
  apply eq_of_byte
  · rw [overlay_len, fill_len, copyFrom_len]
  · intro a
    rw [fill_copyFrom_byte, overlay_byte]
    exact if_congr Iff.rfl rfl rfl

theorem fill_zero (dram : Dram) (i : ℕ) : dram.fill i 0 = dram :=
  eq_of_byte rfl fun _ => if_neg (by omega)

section Overlays

variable {segments : List Segment} {dram : Dram} {a : ℕ}

theorem overlays_len (segments : List Segment) (dram : Dram) :
    (segments.foldl overlay dram).len = dram.len := by
  induction segments generalizing dram with
  | nil => rfl
  | cons seg rest ih => rw [List.foldl_cons, ih, overlay_len]

theorem overlays_other (hout : ∀ seg ∈ segments, ¬ seg.Covers a) :
    (segments.foldl overlay dram).byte a = dram.byte a := by
  induction segments generalizing dram with
  | nil => rfl
  | cons seg rest ih =>
      rw [List.foldl_cons, ih fun s hs => hout s (List.mem_cons_of_mem seg hs)]
      rw [overlay_byte, if_neg (hout seg List.mem_cons_self)]

theorem overlays_covered
    (hapart : segments.Pairwise fun s t => ¬ (s.Covers a ∧ t.Covers a))
    {seg : Segment} (hseg : seg ∈ segments) (ha : seg.Covers a) :
    (segments.foldl overlay dram).byte a = seg.byteAt a := by
  induction segments generalizing dram with
  | nil => cases hseg
  | cons first rest ih =>
      rw [List.pairwise_cons] at hapart
      rw [List.foldl_cons]
      rcases List.mem_cons.mp hseg with rfl | hrest
      · rw [overlays_other fun s hs hcovers => hapart.1 s hs ⟨ha, hcovers⟩]
        rw [overlay_byte, if_pos ha]
      · exact ih hapart.2 hrest

end Overlays

end Dram

namespace Memory

variable {mem : Memory} {addr : BitVec 64}

theorem InDram.mono {m n : ℕ} (h : mem.InDram addr n) (hle : m ≤ n) :
    mem.InDram addr m :=
  ⟨h.1, by have := h.2.1; omega, by have := h.2.2; omega⟩

theorem InDram.congr {mem' : Memory} {n : ℕ} (h : mem.InDram addr n)
    (hlen : mem'.dram.len = mem.dram.len) : mem'.InDram addr n := by
  unfold InDram at h ⊢
  rw [hlen]
  exact h

theorem InDram.tail {k n : ℕ} (hlen : mem.dram.len < 2 ^ 63)
    (h : mem.InDram addr (k + n)) :
    addr.toNat + k < 2 ^ 64 ∧ mem.InDram (addr + BitVec.ofNat 64 k) n ∧
      offset (addr + BitVec.ofNat 64 k) = offset addr + k := by
  obtain ⟨hbase, hin, hword⟩ := h
  have hbase' : DRAM_BASE.toNat ≤ addr.toNat := hbase
  have hvalue : DRAM_BASE.toNat = 2 ^ 31 := rfl
  have hlt : addr.toNat + k < 2 ^ 64 := by omega
  have hsum : (addr + BitVec.ofNat 64 k).toNat = addr.toNat + k := by
    rw [BitVec.toNat_add, BitVec.toNat_ofNat, Nat.add_mod_mod,
      Nat.mod_eq_of_lt hlt]
  refine ⟨hlt, ⟨?_, ?_, ?_⟩, ?_⟩
  · change DRAM_BASE.toNat ≤ (addr + BitVec.ofNat 64 k).toNat
    omega
  · rw [hsum]
    omega
  · rw [hsum]
    omega
  · unfold offset
    rw [hsum]
    omega

theorem loadAt_run {data : List (BitVec 8)} (hin : mem.InDram addr data.length)
    (profile : Profile) :
    Memory.loadAt addr data profile mem =
      some (.ok (), { mem with dram := mem.dram.copyFrom (offset addr) data }) := by
  unfold loadAt
  rw [Program.bind_run_ok (Program.read_run _ _ _), id, index_of_inDram hin]
  rfl

theorem zero_run {len : BitVec 64} (hin : mem.InDram addr len.toNat)
    (profile : Profile) :
    Memory.zero addr len profile mem =
      some (.ok (), { mem with dram := mem.dram.fill (offset addr) len.toNat }) := by
  unfold zero
  rw [Program.bind_run_ok (Program.read_run _ _ _), id, index_of_inDram hin]
  rfl

end Memory

namespace Cpu

variable {profile : Profile} {c : Cpu}

def withDram (c : Cpu) (dram : Dram) : Cpu :=
  { c with mem := { c.mem with dram := dram } }

@[simp] theorem withDram_dram (c : Cpu) (dram : Dram) :
    (c.withDram dram).mem.dram = dram := rfl

@[simp] theorem withDram_withDram (c : Cpu) (dram dram' : Dram) :
    (c.withDram dram).withDram dram' = c.withDram dram' := rfl

theorem onMemory_run (fault : Exception) {body : Program Memory Unmapped Unit}
    {dram : Dram}
    (hbody : body profile c.mem = some (.ok (), { c.mem with dram := dram })) :
    onMemory (Program.mapError (fun _ => fault) body) profile c =
      some (.ok (), c.withDram dram) := by
  unfold onMemory Program.zoom Program.mapError
  rw [hbody]
  rfl

theorem loadSegment_run {seg : Segment} (hlen : c.mem.dram.len < 2 ^ 63)
    (hin : c.mem.InDram seg.addr seg.memsz) :
    loadSegment seg profile c =
      some (.ok (), c.withDram (c.mem.dram.overlay seg)) := by
  have hdata := hin.mono (Nat.le_add_right _ _)
  obtain ⟨hfits, htail, hoffset⟩ := hin.tail hlen
  have hlength : seg.data.length < 2 ^ 64 := by omega
  have hcopied := onMemory_run (.storeAccessFault seg.addr)
    (Memory.loadAt_run hdata profile)
  rw [← Dram.copyFrom_fill]
  unfold loadSegment
  rw [Program.bind_run_ok hcopied, Program.ite_run]
  by_cases hzero : 0 < seg.zeroLen
  · have hadd : Checked.add seg.addr (BitVec.ofNat 64 seg.data.length) =
        pure (seg.addr + BitVec.ofNat 64 seg.data.length) := by
      apply Checked.add_eq_pure
      rw [BitVec.toNat_ofNat, Nat.mod_eq_of_lt hlength]
      exact hfits
    have hcopy : (c.withDram (c.mem.dram.copyFrom (Memory.offset seg.addr)
        seg.data)).mem.InDram (seg.addr + BitVec.ofNat 64 seg.data.length)
          seg.zeroLen.toNat := htail.congr (by simp)
    have hcleared := onMemory_run (.storeAccessFault seg.addr)
      (Memory.zero_run hcopy profile)
    rw [if_pos hzero, hadd, Program.check_pure, pure_bind, hcleared, hoffset,
      withDram_dram, withDram_withDram]
  · have hnone : seg.zeroLen.toNat = 0 := by
      have hle := BitVec.not_lt.mp hzero
      exact Nat.le_zero.mp hle
    rw [if_neg hzero, hnone, Dram.fill_zero]
    rfl

theorem loadSegments_run {segments : List Segment}
    (hlen : c.mem.dram.len < 2 ^ 63)
    (hin : ∀ seg ∈ segments, c.mem.InDram seg.addr seg.memsz) :
    loadSegments segments profile c =
      some (.ok (), c.withDram (segments.foldl Dram.overlay c.mem.dram)) := by
  induction segments generalizing c with
  | nil => rfl
  | cons seg rest ih =>
      unfold loadSegments
      rw [Program.bind_run_ok
        (loadSegment_run hlen (hin seg List.mem_cons_self))]
      have hkept : (c.withDram (c.mem.dram.overlay seg)).mem.dram.len =
          c.mem.dram.len := by
        rw [withDram_dram, Dram.overlay_len]
      have hrest := ih (c := c.withDram (c.mem.dram.overlay seg))
        (by rw [hkept]; exact hlen) fun s hs =>
          (hin s (List.mem_cons_of_mem seg hs)).congr hkept
      rw [List.foldl_cons, hrest, withDram_dram, withDram_withDram]

end Cpu

end Nanoemu
