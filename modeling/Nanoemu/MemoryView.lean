import Nanoemu.FlatMachine
import Nanoemu.HalfwordFetch
import Nanoemu.SegmentLoading
import Nanoemu.StoreThenLoad

/-!
# Views of memory

A hart may hold the memory of the flat machine in more than one way: as its
DRAM, which it accesses directly, or in pages that its tables name.  Once
translation finds the bytes of an access within a page, loads, stores and
fetches read and write that memory, across pages too.
-/

namespace Nanoemu

open CheckedProgram

namespace Dram

theorem loadLe_succ (dram : Dram) (i count : ℕ) :
    dram.loadLe i (count + 1) =
      dram.loadLe i count |||
        (dram.byte (i + count)).setWidth 64 <<< (8 * count) := by
  induction count generalizing i with
  | zero => simp [loadLe]
  | succ count ih =>
      have hplace : i + 1 + count = i + (count + 1) := by omega
      have hshift : 8 * count + 8 = 8 * (count + 1) := by omega
      rw [loadLe, ih (i + 1), BitVec.shiftLeft_or_distrib, hplace,
        ← BitVec.shiftLeft_add, hshift, ← BitVec.or_assoc, ← loadLe]

theorem storeLe_zero (dram : Dram) (i : ℕ) (value : BitVec 64) :
    dram.storeLe i 0 value = dram := by
  have hbyte : (fun j => if i ≤ j ∧ j < i + 0 then leByte value (j - i)
      else dram.byte j) = dram.byte := by
    funext j
    exact if_neg (by omega)
  rw [storeLe, hbyte]

theorem storeLe_succ (dram : Dram) (i count : ℕ) (value : BitVec 64) :
    (dram.storeLe i count value).storeLe (i + count) 1
        (value >>> (8 * count)) = dram.storeLe i (count + 1) value := by
  simp only [storeLe, Dram.mk.injEq, true_and]
  funext j
  by_cases hlast : j = i + count
  · subst hlast
    have hsub : i + count - i = count := by omega
    simp [leByte, hsub]
  · have hother : ¬ (i + count ≤ j ∧ j < i + count + 1) := by omega
    have hrest : i ≤ j ∧ j < i + (count + 1) ↔ i ≤ j ∧ j < i + count := by
      omega
    simp only [if_neg hother, hrest]

/-- The same bytes make the same number, wherever they are. -/
theorem loadLe_moved {dram dram' : Dram} {i j count : ℕ}
    (hbytes : ∀ k < count, dram.byte (i + k) = dram'.byte (j + k)) :
    dram.loadLe i count = dram'.loadLe j count := by
  induction count with
  | zero => rfl
  | succ count ih =>
      rw [loadLe_succ, loadLe_succ, hbytes count (Nat.lt_succ_self count),
        ih fun k hk => hbytes k (Nat.lt_succ_of_lt hk)]

end Dram

namespace Cpu

/-- An access has moved the cache, DRAM, and what a payload has reported if it
can report. -/
structure Beside (c x : Cpu) : Prop where
  frame : x = { c with
    tlb := x.tlb
    mem := { c.mem with
      dram := x.mem.dram
      tohostValue := x.mem.tohostValue } }
  silent : c.mem.tohost = none → x.mem.tohostValue = c.mem.tohostValue

/-- Two harts find the same translations and the same bytes. -/
structure SameAccess (c x : Cpu) : Prop where
  tlb : x.tlb = c.tlb
  xlen : x.xlen = c.xlen
  privMode : x.privMode = c.privMode
  satp : x.csrs.read Csr.SATP = c.csrs.read Csr.SATP
  status : x.csrs.read Csr.MSTATUS = c.csrs.read Csr.MSTATUS
  dram : x.mem.dram = c.mem.dram

/-- All bytes of an access are in the memory of the flat machine, and for
it. -/
structure Covers (layout : Flat.Layout) (ram : Dram) (access : Access)
    (va : BitVec 64) (size : ℕ) : Prop where
  base : layout.base ≤ va.toNat
  inside : va.toNat + size ≤ layout.base + ram.len
  fits : va.toNat + size ≤ 2 ^ 64
  allowed : ∀ k < size,
    layout.allows access (va.toNat - layout.base + k) = true

/-- Translation has found the bytes of an access, which are in the memory of the
flat machine from `i` on. -/
structure Found (Shows : Cpu → Dram → Prop) (ram : Dram) (access : Access)
    (i size : ℕ) (pa : BitVec 64) (x : Cpu) : Prop where
  shows : Shows x ram
  inDram : x.mem.InDram pa size
  bytes : ∀ k < size,
    x.mem.dram.byte (Memory.offset pa + k) = ram.byte (i + k)
  stored : access = .store → ∀ value,
    Shows { x with mem := x.mem.stored pa size value }
      (ram.storeLe i size value)

/-- A way of holding the memory of the flat machine. -/
structure View where
  layout : Flat.Layout
  Shows : Cpu → Dram → Prop
  congr : ∀ {c x ram}, Shows c ram → SameAccess c x → Shows x ram
  translates : ∀ {c ram access va size} profile, Shows c ram →
    Covers layout ram access va size → 0 < size →
    va.toNat % 4096 + size ≤ 4096 →
    ∃ pa x, translate va access profile c = some (.ok pa, x) ∧ Beside c x ∧
      Found Shows ram access (va.toNat - layout.base) size pa x

theorem stored_frame (mem : Memory) (addr : BitVec 64) (count : ℕ)
    (value : BitVec 64) :
    mem.stored addr count value =
      { mem with
        dram := (mem.stored addr count value).dram
        tohostValue := (mem.stored addr count value).tohostValue } := by
  unfold Memory.stored Memory.noteTohost
  generalize mem.dram.storeLe (Memory.offset addr) count value = dram
  split <;> rfl

theorem stored_silent {mem : Memory} (hnone : mem.tohost = none)
    (addr : BitVec 64) (count : ℕ) (value : BitVec 64) :
    (mem.stored addr count value).tohostValue = mem.tohostValue := by
  unfold Memory.stored Memory.noteTohost
  generalize mem.dram.storeLe (Memory.offset addr) count value = dram
  rw [if_neg]
  rintro ⟨htohost, -⟩
  rw [hnone] at htohost
  cases htohost

section Beside

variable {c x y : Cpu}

theorem Beside.refl (c : Cpu) : Beside c c :=
  ⟨rfl, fun _ => rfl⟩

theorem Beside.trans (hfirst : Beside c x) (hsecond : Beside x y) :
    Beside c y := by
  have htohost : x.mem.tohost = c.mem.tohost :=
    (congrArg (fun c => c.mem.tohost) hfirst.frame :)
  refine ⟨?_, fun hnone => ?_⟩
  · rw [hsecond.frame, hfirst.frame]
  · rw [hsecond.silent (htohost.trans hnone), hfirst.silent hnone]

theorem Beside.stored (c : Cpu) (pa : BitVec 64) (size : ℕ)
    (value : BitVec 64) :
    Beside c { c with mem := c.mem.stored pa size value } := by
  refine ⟨?_, fun hnone => stored_silent hnone _ _ _⟩
  exact congrArg (fun mem => { c with mem := mem }) (stored_frame _ _ _ _)

end Beside

section Parts

variable {layout : Flat.Layout} {ram : Dram} {access : Access}
  {va : BitVec 64} {size : ℕ}

theorem add_offset_toNat {k : ℕ} (hk : va.toNat + k < 2 ^ 64) :
    (va + BitVec.ofNat 64 k).toNat = va.toNat + k := by
  have hcount : (BitVec.ofNat 64 k).toNat = k := by
    rw [BitVec.toNat_ofNat]
    exact Nat.mod_eq_of_lt (by omega)
  rw [BitVec.toNat_add_of_lt (by rw [hcount]; exact hk), hcount]

/-- Part of an access is an access. -/
theorem Covers.part (h : Covers layout ram access va size) {k count : ℕ}
    (hpos : 0 < count) (hpart : k + count ≤ size) :
    Covers layout ram access (va + BitVec.ofNat 64 k) count ∧
      (va + BitVec.ofNat 64 k).toNat - layout.base =
        va.toNat - layout.base + k := by
  obtain ⟨hbase, hinside, hfits, hallowed⟩ := h
  have hnat : (va + BitVec.ofNat 64 k).toNat = va.toNat + k :=
    add_offset_toNat (by omega)
  have hindex : (va + BitVec.ofNat 64 k).toNat - layout.base =
      va.toNat - layout.base + k := by omega
  refine ⟨⟨by omega, by omega, by omega, fun j hj => ?_⟩, hindex⟩
  rw [hindex, Nat.add_assoc]
  exact hallowed (k + j) (by omega)

theorem Covers.add (h : Covers layout ram access va size) {k : ℕ}
    (hk : k < size) :
    Checked.add va (BitVec.ofNat 64 k) = pure (va + BitVec.ofNat 64 k) := by
  have hfits := h.fits
  apply Checked.add_eq_pure
  rw [BitVec.toNat_ofNat, Nat.mod_eq_of_lt (by omega)]
  omega

theorem Covers.congr (h : Covers layout ram access va size) {ram' : Dram}
    (hlen : ram'.len = ram.len) : Covers layout ram' access va size :=
  ⟨h.base, hlen ▸ h.inside, h.fits, h.allowed⟩

theorem byte_in_page (va : BitVec 64) : va.toNat % 4096 + 1 ≤ 4096 :=
  Nat.mod_lt _ (by decide)

variable {Shows : Cpu → Dram → Prop} {i : ℕ} {pa : BitVec 64} {x : Cpu}

/-- What is read there is what the flat machine reads. -/
theorem Found.loadLe (h : Found Shows ram access i size pa x) {count : ℕ}
    (hcount : count ≤ size) :
    x.mem.dram.loadLe (Memory.offset pa) count = ram.loadLe i count :=
  Dram.loadLe_moved fun k hk => h.bytes k (by omega)

end Parts

section Loads

variable {V : View} {c : Cpu} {ram : Dram} {va : BitVec 64} {size : ℕ}
  (profile : Profile)

theorem View.readBytes (hshows : V.Shows c ram)
    (hcovers : Covers V.layout ram .load va size) (hsize : size ≤ 8)
    {remaining k : ℕ} (hk : k + remaining = size) :
    ∃ x, Cpu.readBytes va remaining k
        (ram.loadLe (va.toNat - V.layout.base) k) profile c =
        some (.ok (ram.loadLe (va.toNat - V.layout.base) size), x) ∧
      Beside c x ∧ V.Shows x ram := by
  induction remaining generalizing k c with
  | zero =>
      obtain rfl : k = size := hk
      exact ⟨c, rfl, Beside.refl c, hshows⟩
  | succ remaining ih =>
      have hlt : k < size := by omega
      obtain ⟨hbyte, hindex⟩ := hcovers.part Nat.one_pos hlt
      obtain ⟨pa, y, htranslate, hy, hfound⟩ := V.translates profile hshows
        hbyte Nat.one_pos (byte_in_page _)
      rw [hindex] at hfound
      have hload : y.mem.dram.loadLe (Memory.offset pa) 1 =
          (ram.byte (va.toNat - V.layout.base + k)).setWidth 64 := by
        rw [hfound.loadLe le_rfl]
        simp [Dram.loadLe]
      have hjoin := ram.loadLe_succ (va.toNat - V.layout.base) k
      obtain ⟨x, hrest, hx, hlast⟩ := ih hfound.shows (k := k + 1) (by omega)
      refine ⟨x, ?_, hy.trans hx, hlast⟩
      rw [Cpu.readBytes, hcovers.add hlt, Program.check_pure, pure_bind,
        Program.bind_run_ok htranslate, Program.bind_run_ok
          (physRead_inDram hfound.inDram rfl), hload,
        Checked.umul_eq_pure (by omega), Program.check_pure, pure_bind,
        Checked.shl_eq_pure (by omega), Program.check_pure, pure_bind, ← hjoin]
      exact hrest

theorem View.load (hshows : V.Shows c ram)
    (hcovers : Covers V.layout ram .load va size)
    (hvalid : Memory.validSize size = true) :
    ∃ x, readMem va size profile c =
        some (.ok (ram.loadLe (va.toNat - V.layout.base) size), x) ∧
      Beside c x ∧ V.Shows x ram := by
  obtain ⟨hpos, hsize⟩ := Clint.validSize_range hvalid
  unfold readMem
  rw [fitsPage_eq hsize, Program.check_pure, pure_bind]
  by_cases hpage : va.toNat % 4096 + size ≤ 4096
  · obtain ⟨pa, x, htranslate, hx, hfound⟩ :=
      V.translates profile hshows hcovers hpos hpage
    refine ⟨x, ?_, hx, hfound.shows⟩
    rw [decide_eq_true hpage, if_pos rfl, Program.bind_run_ok htranslate,
      physRead_inDram hfound.inDram hvalid, hfound.loadLe le_rfl]
  · rw [decide_eq_false hpage, if_neg Bool.false_ne_true]
    exact V.readBytes profile hshows hcovers hsize (Nat.zero_add size)

end Loads

section Stores

variable {V : View} {c x : Cpu} {ram : Dram} {va value : BitVec 64} {size : ℕ}
  (profile : Profile)

theorem View.translateBytes (hshows : V.Shows c ram)
    (hcovers : Covers V.layout ram .store va size) {remaining k : ℕ}
    (hk : k + remaining = size) :
    ∃ x, Cpu.translateBytes va remaining k profile c = some (.ok (), x) ∧
      Beside c x ∧ V.Shows x ram := by
  induction remaining generalizing k c with
  | zero => exact ⟨c, rfl, Beside.refl c, hshows⟩
  | succ remaining ih =>
      have hlt : k < size := by omega
      obtain ⟨hbyte, -⟩ := hcovers.part Nat.one_pos hlt
      obtain ⟨pa, y, htranslate, hy, hfound⟩ := V.translates profile hshows
        hbyte Nat.one_pos (byte_in_page _)
      obtain ⟨x, hrest, hx, hlast⟩ := ih hfound.shows (k := k + 1) (by omega)
      refine ⟨x, ?_, hy.trans hx, hlast⟩
      rw [Cpu.translateBytes, hcovers.add hlt, Program.check_pure, pure_bind,
        Program.bind_run_ok htranslate]
      exact hrest

theorem View.writeBytes
    (hcovers : Covers V.layout ram .store va size) (hsize : size ≤ 8)
    {remaining k : ℕ}
    (hshows : V.Shows x (ram.storeLe (va.toNat - V.layout.base) k value))
    (hk : k + remaining = size) :
    ∃ y, Cpu.writeBytes va value remaining k profile x = some (.ok (), y) ∧
      Beside x y ∧
      V.Shows y (ram.storeLe (va.toNat - V.layout.base) size value) := by
  induction remaining generalizing k x with
  | zero =>
      obtain rfl : k = size := hk
      exact ⟨x, rfl, Beside.refl x, hshows⟩
  | succ remaining ih =>
      have hlt : k < size := by omega
      obtain ⟨hbyte, hindex⟩ := hcovers.part Nat.one_pos hlt
      obtain ⟨pa, y, htranslate, hy, hfound⟩ := V.translates profile hshows
        (hbyte.congr (Dram.storeLe_len _ _ _ _)) Nat.one_pos (byte_in_page _)
      have hstored := hfound.stored rfl (value >>> (8 * k))
      rw [hindex, Dram.storeLe_succ] at hstored
      obtain ⟨z, hrest, hz, hlast⟩ := ih hstored (by omega)
      refine ⟨z, ?_, (hy.trans (Beside.stored _ _ _ _)).trans hz, hlast⟩
      rw [Cpu.writeBytes, hcovers.add hlt, Program.check_pure, pure_bind,
        Program.bind_run_ok htranslate, Checked.umul_eq_pure (by omega),
        Program.check_pure, pure_bind, Checked.shr_eq_pure (by omega),
        Program.check_pure, pure_bind,
        Program.bind_run_ok (physWrite_inDram hfound.inDram rfl _ _)]
      exact hrest

theorem View.store (hshows : V.Shows c ram)
    (hcovers : Covers V.layout ram .store va size)
    (hvalid : Memory.validSize size = true) (value : BitVec 64) :
    ∃ x, writeMem va size value profile c = some (.ok (), x) ∧
      Beside c x ∧
      V.Shows x (ram.storeLe (va.toNat - V.layout.base) size value) := by
  obtain ⟨hpos, hsize⟩ := Clint.validSize_range hvalid
  unfold writeMem
  rw [fitsPage_eq hsize, Program.check_pure, pure_bind]
  by_cases hpage : va.toNat % 4096 + size ≤ 4096
  · obtain ⟨pa, x, htranslate, hx, hfound⟩ :=
      V.translates profile hshows hcovers hpos hpage
    refine ⟨{ x with mem := x.mem.stored pa size value }, ?_,
      hx.trans (Beside.stored _ _ _ _), hfound.stored rfl value⟩
    rw [decide_eq_true hpage, if_pos rfl, Program.bind_run_ok htranslate,
      physWrite_inDram hfound.inDram hvalid]
  · obtain ⟨x, htranslate, hx, hstill⟩ :=
      V.translateBytes profile hshows hcovers (Nat.zero_add size)
    rw [← Dram.storeLe_zero ram (va.toNat - V.layout.base) value] at hstill
    obtain ⟨y, hwrite, hy, hlast⟩ :=
      V.writeBytes profile hcovers hsize hstill (Nat.zero_add size)
    refine ⟨y, ?_, hx.trans hy, hlast⟩
    rw [decide_eq_false hpage, if_neg Bool.false_ne_true,
      Program.bind_run_ok htranslate]
    exact hwrite

end Stores

/-! ## Fetches -/

section Fetches

variable {V : View} {c : Cpu} {ram : Dram} (profile : Profile)

theorem even_toNat {va : BitVec 64} (heven : va &&& 1 = 0) :
    va.toNat % 2 = 0 := by
  rw [← Nat.and_one_is_mod]
  exact congrArg BitVec.toNat heven

theorem word_in_page {va : BitVec 64} (hpage : va &&& 0xfff ≤ 0xffc) :
    va.toNat % 4096 + 4 ≤ 4096 := by
  have hoffset : (va &&& 0xfff).toNat ≤ 0xffc := hpage
  rw [Mmu.offset_toNat] at hoffset
  omega

theorem View.fetchesHalf {va : BitVec 64} (hshows : V.Shows c ram)
    (hcovers : Covers V.layout ram .fetch va 2) (heven : va.toNat % 2 = 0) :
    ∃ x, Cpu.fetchHalf va profile c =
        some (.ok (ram.loadLe (va.toNat - V.layout.base) 2), x) ∧
      Beside c x ∧ V.Shows x ram := by
  obtain ⟨pa, x, htranslate, hx, hfound⟩ := V.translates profile hshows hcovers
    Nat.two_pos (by omega)
  refine ⟨x, ?_, hx, hfound.shows⟩
  unfold Cpu.fetchHalf
  rw [Program.bind_run_ok htranslate, physRead_inDram hfound.inDram rfl,
    hfound.loadLe le_rfl]

theorem View.fetchWord (hshows : V.Shows c ram) (heven : c.pc &&& 1 = 0)
    (hcovers : Covers V.layout ram .fetch c.pc 4) {word : BitVec 32}
    (hword : ram.loadLe (c.pc.toNat - V.layout.base) 4 = word.setWidth 64)
    (hlow : word &&& 0x3 = 0x3) :
    ∃ x, fetch profile c = some (.ok (word, 4), x) ∧ Beside c x ∧
      V.Shows x ram := by
  have hback : (ram.loadLe (c.pc.toNat - V.layout.base) 4).setWidth 32 =
      word := by
    rw [hword, FieldWords.setWidth_setWidth_of_le word (by decide),
      BitVec.setWidth_eq]
  unfold fetch
  rw [Program.bind_run_ok (Program.read_run _ _ _), if_neg (not_not.mpr heven)]
  by_cases hpage : c.pc &&& 0xfff ≤ 0xffc
  · obtain ⟨pa, x, htranslate, hx, hfound⟩ := V.translates profile hshows
      hcovers (by decide) (word_in_page hpage)
    refine ⟨x, ?_, hx, hfound.shows⟩
    rw [if_pos hpage, Program.bind_run_ok htranslate,
      Program.bind_run_ok (physRead_inDram hfound.inDram rfl),
      hfound.loadLe le_rfl]
    rw [hback, if_neg (not_not.mpr hlow)]
    exact Program.pure_run _ _ _
  · have hlowPart := hcovers.part (k := 0) Nat.two_pos (by decide)
    have hhighPart := hcovers.part (k := 2) Nat.two_pos le_rfl
    rw [add_zero_offset] at hlowPart
    have hevenNext : (c.pc + BitVec.ofNat 64 2).toNat % 2 = 0 := by
      have hfits := hcovers.fits
      rw [add_offset_toNat (by omega), Nat.add_mod_right]
      exact even_toNat heven
    obtain ⟨x, hfirst, hx, hshows'⟩ :=
      V.fetchesHalf profile hshows hlowPart.1 (even_toNat heven)
    obtain ⟨y, hsecond, hy, hlast⟩ :=
      V.fetchesHalf profile hshows' hhighPart.1 hevenNext
    rw [hhighPart.2] at hsecond
    have hnext : Checked.add c.pc 2 = pure (c.pc + BitVec.ofNat 64 2) :=
      hcovers.add (by decide)
    have hlowHalf : ((ram.loadLe (c.pc.toNat - V.layout.base) 2).setWidth 32)
        &&& 0x3 = 0x3 := by
      rw [← Dram.loadLe_low, hback, Rvc.low_bits_half, hlow]
    have hjoin := Dram.loadLe_word ram (c.pc.toNat - V.layout.base)
    rw [hback] at hjoin
    refine ⟨y, ?_, hx.trans hy, hlast⟩
    rw [if_neg hpage, Program.bind_run_ok hfirst]
    dsimp only
    rw [if_neg (not_not.mpr hlowHalf), hnext, Program.check_pure, pure_bind,
      Program.bind_run_ok hsecond, ← hjoin]
    exact Program.pure_run _ _ _

theorem View.fetchHalf (hshows : V.Shows c ram) (heven : c.pc &&& 1 = 0)
    (hcovers : Covers V.layout ram .fetch c.pc 4) {half : BitVec 16}
    (hhalf : ram.loadLe (c.pc.toNat - V.layout.base) 2 = half.setWidth 64)
    (hlow : Rvc.op half ≠ 3) :
    ∃ x, fetch profile c = some (x.expanded half, x) ∧ Beside c x ∧
      V.Shows x ram := by
  have hread : ram.half (c.pc.toNat - V.layout.base) = half := by
    rw [← Dram.loadLe_half ram le_rfl (by decide), hhalf,
      FieldWords.setWidth_setWidth_of_le half (by decide), BitVec.setWidth_eq]
  have hexpands : ∀ {size : ℕ} {pa : BitVec 64} {x : Cpu}, 2 ≤ size →
      translate c.pc .fetch profile c = some (.ok pa, x) →
      Found V.Shows ram .fetch (c.pc.toNat - V.layout.base) size pa x →
      Addressed profile c half pa x := by
    intro size pa x hsize htranslate hfound
    refine ⟨heven, htranslate, hfound.inDram.mono hsize, ?_, hlow⟩
    rw [← Dram.loadLe_half _ le_rfl (by decide), hfound.loadLe hsize,
      Dram.loadLe_half _ le_rfl (by decide), hread]
  by_cases hpage : c.ReadsWord
  · obtain ⟨pa, x, htranslate, hx, hfound⟩ := V.translates profile hshows
      hcovers (by decide) (word_in_page hpage)
    exact ⟨x, fetch_expands (hexpands (by decide) htranslate hfound)
      fun _ => hfound.inDram, hx, hfound.shows⟩
  · have hpart := hcovers.part (k := 0) Nat.two_pos (by decide)
    rw [add_zero_offset] at hpart
    have heven' := even_toNat heven
    obtain ⟨pa, x, htranslate, hx, hfound⟩ := V.translates profile hshows
      hpart.1 Nat.two_pos (by omega)
    exact ⟨x, fetch_expands (hexpands le_rfl htranslate hfound)
      fun hword => absurd hword hpage, hx, hfound.shows⟩

end Fetches

end Cpu

end Nanoemu
