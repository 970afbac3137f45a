import Nanoemu.ReadWidth
import Nanoemu.TableMemory

/-!
# Entries wherever they lie

A table may lie in memory or among the registers of a device.  A word that
names a page comes from memory or from a register that is read to no effect,
and setting the accessed and dirty bits of one leaves the others as they were.
-/

namespace Nanoemu

open CheckedProgram BitFields Mmu

namespace Mmu

def Numbered (v : BitVec 64) : Prop :=
  v >>> PPN_SHIFT ≠ 0

theorem Numbered.le {v : BitVec 64} (h : Numbered v) : 2 ^ 10 ≤ v.toNat := by
  by_contra hlt
  apply h
  apply BitVec.eq_of_toNat_eq
  rw [PPN_SHIFT, BitVec.toNat_ushiftRight, Nat.shiftRight_eq_div_pow,
    Nat.div_eq_of_lt (not_le.mp hlt)]
  rfl

theorem numbered_congr {v v' : BitVec 64} (h : Agree stableBits v' v) :
    Numbered v' ↔ Numbered v := by
  rw [agree_iff] at h
  have hshift : v' >>> PPN_SHIFT = v >>> PPN_SHIFT := by
    apply BitVec.eq_of_getLsbD_eq
    intro i _
    rw [BitVec.getLsbD_ushiftRight, BitVec.getLsbD_ushiftRight]
    by_cases hi : PPN_SHIFT + i < 64
    · exact h _ (stableBits_high hi)
    · rw [BitVec.getLsbD_of_ge _ _ (not_lt.mp hi),
        BitVec.getLsbD_of_ge _ _ (not_lt.mp hi)]
  rw [Numbered, Numbered, hshift]

theorem agree_or_need (v : BitVec 64) (access : Access) :
    Agree stableBits (v ||| need access) v :=
  Agree.or_right (by cases access <;> decide)

end Mmu

namespace Plic

/-- No context enables source 0. -/
def Sound (plic : Plic) : Prop :=
  ∀ context, plic.enable context &&& 1 = 0

variable {plic : Plic}

theorem write_sound (hsound : plic.Sound) (offset value : BitVec 64) :
    (plic.write offset value).Sound := by
  intro other
  unfold Plic.write
  cases decode offset with
  | priority source =>
      dsimp only
      split <;> exact hsound other
  | pending place => exact hsound other
  | enable context word =>
      dsimp only
      split
      · next hword =>
          by_cases hsame : other = ⟨context, hword.2⟩
          · subst hsame
            dsimp only
            rw [Function.update_self, BitVec.and_assoc]
            exact BitVec.and_zero
          · dsimp only
            rw [Function.update_of_ne hsame]
            exact hsound other
      · exact hsound other
  | control context field =>
      dsimp only
      split_ifs
      · exact hsound other
      · unfold complete
        split <;> exact hsound other
      · exact hsound other
      · exact hsound other

theorem read_numbered {offset : BitVec 64}
    (hnumber : Numbered (plic.read offset).1) :
    (plic.read offset).2 = plic := by
  have hle := hnumber.le
  unfold read at hle ⊢
  split at hle
  · split <;> rfl
  · split <;> rfl
  · split <;> rfl
  · split
    · next hcontext =>
        rw [dif_pos hcontext] at hle
        split_ifs at hle ⊢
        · rfl
        · have hsource := source_lt (plic.claim ⟨_, hcontext⟩).1
          change 2 ^ 10 ≤ (BitVec.ofNat 64 _).toNat at hle
          omega
        · rfl
    · rfl

/-- The registers are the same up to accessed and dirty bits, and the requests
are the same. -/
structure Alike (plic plic' : Plic) : Prop where
  levels : plic'.levels = plic.levels
  claimed : plic'.claimed = plic.claimed
  enable : plic'.enable = plic.enable
  priority : ∀ source, Agree stableBits ((plic'.priority source).setWidth 64)
    ((plic.priority source).setWidth 64)
  threshold : ∀ context,
    Agree stableBits ((plic'.threshold context).setWidth 64)
      ((plic.threshold context).setWidth 64)

theorem Alike.refl (plic : Plic) : Alike plic plic :=
  ⟨rfl, rfl, rfl, fun _ => Agree.refl _ _, fun _ => Agree.refl _ _⟩

theorem Alike.read {plic' : Plic} (h : Alike plic plic') {offset : BitVec 64}
    (hnumber : Numbered (plic.read offset).1) :
    Agree stableBits (plic'.read offset).1 (plic.read offset).1 := by
  have hle := hnumber.le
  unfold Plic.read at hle ⊢
  cases hdecode : decode offset with
  | priority source =>
      dsimp only
      split
      · exact h.priority _
      · exact Agree.refl _ _
  | pending place =>
      dsimp only
      rw [pending, pending, h.levels, h.claimed]
      split <;> exact Agree.refl _ _
  | enable context word =>
      dsimp only
      rw [h.enable]
      split <;> exact Agree.refl _ _
  | control context field =>
      rw [hdecode] at hle
      dsimp only at hle ⊢
      split
      · next hcontext =>
          rw [dif_pos hcontext] at hle
          split_ifs at hle ⊢
          · exact h.threshold _
          · have hsource := source_lt (plic.claim ⟨_, hcontext⟩).1
            change 2 ^ 10 ≤ (BitVec.ofNat 64 _).toNat at hle
            omega
          · exact Agree.refl _ _
      · exact Agree.refl _ _

theorem setWidth_or_need (v : BitVec 32) (access : Access) :
    (((v.setWidth 64 ||| need access).setWidth 32).setWidth 64) =
      v.setWidth 64 ||| need access := by
  have hneed : ((need access).setWidth 32).setWidth 64 = need access := by
    cases access <;> decide
  rw [BitVec.setWidth_or, BitVec.setWidth_or, hneed,
    FieldWords.setWidth_setWidth_of_le v (by decide), BitVec.setWidth_eq]

theorem write_alike (hsound : plic.Sound) {offset : BitVec 64}
    (hnumber : Numbered (plic.read offset).1)
    (hvalid : (plic.read offset).1 &&& V ≠ 0) (access : Access) :
    Alike plic (plic.write offset ((plic.read offset).1 ||| need access)) := by
  have hle := hnumber.le
  unfold Plic.read at hle hvalid ⊢
  unfold Plic.write
  cases hdecode : decode offset with
  | priority source =>
      dsimp only
      split
      · next hsource =>
          rw [dif_pos hsource.2]
          refine ⟨rfl, rfl, rfl, fun other => ?_, fun _ => Agree.refl _ _⟩
          by_cases hsame : other = ⟨source, hsource.2⟩
          · subst hsame
            dsimp only
            rw [Function.update_self, setWidth_or_need]
            exact agree_or_need _ access
          · dsimp only
            rw [Function.update_of_ne hsame]
            exact Agree.refl _ _
      · exact Alike.refl plic
  | pending place => exact Alike.refl plic
  | enable context word =>
      rw [hdecode] at hvalid
      dsimp only at hvalid ⊢
      split
      · next hword =>
          rw [dif_pos hword] at hvalid
          have hone : V = (1 : BitVec 32).setWidth 64 := by decide
          rw [hone, ← BitVec.setWidth_and, hsound ⟨context, hword.2⟩] at hvalid
          exact absurd rfl hvalid
      · exact Alike.refl plic
  | control context field =>
      rw [hdecode] at hle
      dsimp only at hle ⊢
      split
      · next hcontext =>
          rw [dif_pos hcontext] at hle
          split_ifs at hle ⊢
          · refine ⟨rfl, rfl, rfl, fun _ => Agree.refl _ _, fun other => ?_⟩
            by_cases hsame : other = ⟨context, hcontext⟩
            · subst hsame
              dsimp only
              rw [Function.update_self, setWidth_or_need]
              exact agree_or_need _ access
            · dsimp only
              rw [Function.update_of_ne hsame]
              exact Agree.refl _ _
          · have hsource := source_lt (plic.claim ⟨_, hcontext⟩).1
            change 2 ^ 10 ≤ (BitVec.ofNat 64 _).toNat at hle
            omega
          · exact Alike.refl plic
      · exact Alike.refl plic

end Plic

/-! ## The interruptor -/

namespace Clint

open FieldWords

theorem shiftCount_aligned {profile : Profile} {size place shift : ℕ}
    (hsize : size = 4 ∨ size = 8) (hdvd : size ∣ place)
    (hcount : shiftCount profile (8 * place) = some shift) :
    shift = 0 ∨ size = 4 ∧ shift = 32 := by
  have hshift : shift = 8 * place % 64 := by
    unfold shiftCount at hcount
    split at hcount
    · next hlt =>
        rw [← Option.some.inj hcount, Nat.mod_eq_of_lt hlt]
    · cases profile with
      | debug => cases hcount
      | release => exact (Option.some.inj hcount).symm
  obtain ⟨k, rfl⟩ := hdvd
  rcases hsize with rfl | rfl
  · omega
  · omega

theorem getLsbD_sliced (full : BitVec 64) (shift i : ℕ) :
    (sliced full shift 4).getLsbD i =
      (decide (i < 32) && full.getLsbD (shift + i)) := by
  rw [sliced, and_ones _ (by decide), BitVec.getLsbD_setWidth,
    BitVec.getLsbD_setWidth, BitVec.getLsbD_ushiftRight]
  by_cases hi : i < 32
  · simp [hi, show i < 64 by omega]
  · simp [hi]

theorem getLsbD_merged (full v : BitVec 64) {shift : ℕ} (hshift : shift ≤ 32)
    (i : ℕ) :
    (merged full v shift 4).getLsbD i =
      if shift ≤ i ∧ i < shift + 32 then v.getLsbD (i - shift)
      else full.getLsbD i := by
  have hones : ∀ j, (BitVec.ofNat 64 (2 ^ (8 * 4) - 1)).getLsbD j =
      decide (j < 32) := by
    intro j
    rw [BitVec.getLsbD_ofNat, Nat.testBit_two_pow_sub_one]
    by_cases hj : j < 32
    · simp [hj, show j < 64 by omega]
    · simp [hj]
  by_cases hword : i < 64
  · simp only [merged, show ¬ 8 ≤ 4 by decide, if_false, BitVec.getLsbD_or,
      BitVec.getLsbD_and, BitVec.getLsbD_not, BitVec.getLsbD_shiftLeft, hones]
    by_cases hin : shift ≤ i ∧ i < shift + 32
    · have hlow : ¬ i < shift := not_lt.mpr hin.1
      have hhigh : i - shift < 32 := by omega
      simp [hin, hword, hlow, hhigh]
    · rw [if_neg hin]
      by_cases hlow : i < shift
      · simp [hlow, hword]
      · have hhigh : ¬ i - shift < 32 := by omega
        simp [hhigh, hword]
  · rw [BitVec.getLsbD_of_ge _ _ (not_lt.mp hword), if_neg (by omega),
      BitVec.getLsbD_of_ge _ _ (not_lt.mp hword)]

theorem sliced_full (full : BitVec 64) : sliced full 0 8 = full := by
  rw [sliced, and_ones _ (by decide), BitVec.setWidth_eq, BitVec.setWidth_eq]
  rfl

theorem sliced_merged (full : BitVec 64) (access : Access)
    {size shift shift' : ℕ} (hsize : size = 4 ∨ size = 8)
    (hshift : shift = 0 ∨ size = 4 ∧ shift = 32)
    (hshift' : shift' = 0 ∨ size = 4 ∧ shift' = 32) :
    Agree stableBits
      (sliced (merged full (sliced full shift size ||| need access) shift size)
        shift' size)
      (sliced full shift' size) := by
  rcases hsize with rfl | rfl
  · rw [agree_iff]
    intro i hstable
    rw [getLsbD_sliced, getLsbD_sliced, getLsbD_merged _ _ (by omega)]
    by_cases hi : i < 32
    · by_cases hsame : shift' = shift
      · subst hsame
        have hneed : (need access).getLsbD i = false := by
          have hagree := agree_or_need 0 access
          rw [agree_iff] at hagree
          simpa using hagree i hstable
        rw [if_pos (by omega), Nat.add_sub_cancel_left, BitVec.getLsbD_or,
          getLsbD_sliced, hneed]
        simp [hi]
      · rw [if_neg (by omega)]
    · simp [hi]
  · obtain rfl : shift = 0 := by omega
    obtain rfl : shift' = 0 := by omega
    have hwhole : ∀ v, merged full v 0 8 = v := by
      intro v
      simp only [merged, le_refl, if_true, BitVec.not_allOnes,
        BitVec.and_zero, BitVec.shiftLeft_zero, BitVec.and_allOnes,
        BitVec.zero_or]
    rw [hwhole, sliced_full, sliced_full]
    exact agree_or_need full access

/-- The registers are the same up to accessed and dirty bits of the entries
that lie in them. -/
def Alike (size : ℕ) (clint clint' : Clint) : Prop :=
  ∀ (register : Register) (shift : ℕ), shift = 0 ∨ size = 4 ∧ shift = 32 →
    Agree stableBits (sliced (register.word clint') shift size)
      (sliced (register.word clint) shift size)

theorem Alike.refl (size : ℕ) (clint : Clint) : Alike size clint clint :=
  fun _ _ _ => Agree.refl _ _

theorem store_alike {clint : Clint} (hsound : clint.Sound)
    {register : Register} {size shift : ℕ} (hsize : size = 4 ∨ size = 8)
    (hshift : shift = 0 ∨ size = 4 ∧ shift = 32)
    (hnumber : Numbered (sliced (register.word clint) shift size))
    (access : Access) :
    Alike size clint (register.store clint
      (merged (register.word clint)
        (sliced (register.word clint) shift size ||| need access) shift
        size)) := by
  intro other shift' hshift'
  by_cases hsame : other = register
  · subst hsame
    have hword : ∀ v, other ≠ .msip → other.word (other.store clint v) = v := by
      intro v hother
      cases other with
      | msip => exact absurd rfl hother
      | mtimecmp => rfl
      | mtime => rfl
    rw [hword]
    · exact sliced_merged _ access hsize hshift hshift'
    · rintro rfl
      have hle := hnumber.le
      have hmsip : (Register.msip.word clint).toNat ≤ 1 := by
        rw [Register.word, ← show clint.msip &&& 1 = clint.msip from hsound,
          BitVec.toNat_setWidth_of_le (by decide), BitVec.toNat_and]
        exact Nat.and_le_right
      have hsliced : (sliced (Register.msip.word clint) shift size).toNat ≤
          (Register.msip.word clint).toNat := by
        rw [sliced, BitVec.toNat_and, BitVec.toNat_ushiftRight]
        exact Nat.and_le_left.trans (Nat.shiftRight_le _ _)
      omega
  · rw [word_store clint _ hsame]
    exact Agree.refl _ _

end Clint

/-! ## Memory and its devices -/

namespace Memory

/-- The device registers hold what a write can leave in them. -/
structure Sound (mem : Memory) : Prop where
  clint : mem.clint.Sound
  plic : mem.plic.Sound

def InPlic (addr : BitVec 64) : Prop :=
  Plic.PLIC_BASE ≤ addr ∧ addr < Plic.PLIC_BASE + Plic.PLIC_SIZE

section Plic

variable {addr : BitVec 64} (hin : InPlic addr) {size : ℕ} (profile : Profile)
  (mem : Memory)

include hin

theorem inPlic_apart :
    ¬ DRAM_BASE ≤ addr ∧ ¬ (CLINT_BASE ≤ addr ∧ addr < CLINT_END) := by
  have hlow := BitVec.le_def.mp hin.1
  have hhigh := BitVec.lt_def.mp hin.2
  have hbase : Plic.PLIC_BASE.toNat = 0xC000000 := by decide
  have hend : (Plic.PLIC_BASE + Plic.PLIC_SIZE).toNat = 0x10000000 := by decide
  have hstart : DRAM_BASE.toNat = 0x80000000 := by decide
  have hstop : CLINT_END.toNat = 0x200C000 := by decide
  rw [BitVec.le_def, BitVec.lt_def]
  omega

theorem read_plic :
    Memory.read addr size profile mem =
      some (.ok (mem.plic.read (addr - Plic.PLIC_BASE)).1,
        { mem with
          plic := (mem.plic.read (addr - Plic.PLIC_BASE)).2
          devicesDirty := true }) := by
  obtain ⟨hdram, hclint⟩ := inPlic_apart hin
  have hplic : Plic.PLIC_BASE ≤ addr ∧
      addr < Plic.PLIC_BASE + Plic.PLIC_SIZE := hin
  unfold Memory.read touchDevices
  rw [if_neg hdram, Program.bind_run_ok (Program.update_run _ _ _),
    Program.bind_run_ok (Program.read_run _ _ _), if_neg hclint, if_pos hplic]
  rfl

theorem write_plic (value : BitVec 64) :
    Memory.write addr size value profile mem =
      some (.ok (),
        { mem with
          plic := mem.plic.write (addr - Plic.PLIC_BASE) value
          devicesDirty := true }) := by
  obtain ⟨hdram, hclint⟩ := inPlic_apart hin
  have hplic : Plic.PLIC_BASE ≤ addr ∧
      addr < Plic.PLIC_BASE + Plic.PLIC_SIZE := hin
  unfold Memory.write touchDevices
  rw [if_neg hdram, Program.bind_run_ok (Program.update_run _ _ _),
    Program.bind_run_ok (Program.read_run _ _ _), if_neg hclint, if_pos hplic]
  rfl

end Plic

/-- What can be read at an address to no effect. -/
inductive Word (profile : Profile) (mem : Memory) (size : ℕ)
    (addr : BitVec 64) : BitVec 64 → Prop where
  | dram : mem.InDram addr size →
      Word profile mem size addr (mem.dram.loadLe (offset addr) size)
  | clint {shift : ℕ} : Clint.InWindow addr →
      Clint.shiftCount profile
        (8 * Clint.intoRegister (Clint.windowOffset addr)) = some shift →
      Word profile mem size addr (Clint.sliced
        ((Clint.Register.nearest (Clint.windowOffset addr)).word mem.clint)
        shift size)
  | plic : InPlic addr →
      Word profile mem size addr (mem.plic.read (addr - Plic.PLIC_BASE)).1

section Words

variable {profile : Profile} {mem : Memory} {size : ℕ} {addr v : BitVec 64}

theorem noticed_below (hbase : ¬ DRAM_BASE ≤ addr) :
    mem.noticed addr = { mem with devicesDirty := true } :=
  if_neg hbase

theorem read_word (hsize : validSize size = true) (profile : Profile)
    (mem : Memory) (addr : BitVec 64) :
    (Memory.read addr size).Ensures profile mem
      (fun v mem' => Numbered v →
        Word profile mem size addr v ∧ mem' = mem.noticed addr)
      (fun _ _ => True) := by
  intro outcome mem' hrun
  cases read_course hrun with
  | dram hin => exact fun _ => ⟨.dram hin, (if_pos hin.1).symm⟩
  | clint hlow hclint hread =>
      rw [Clint.read_run _ hclint (size_le_of_valid hsize),
        Option.map_eq_some_iff] at hread
      obtain ⟨shift, hcount, rfl⟩ := hread
      exact fun _ =>
        ⟨.clint hclint hcount, (noticed_below (BitVec.not_le.mpr hlow)).symm⟩
  | plic hlow hplic =>
      intro hnumber
      rw [Plic.read_numbered hnumber, noticed_below (BitVec.not_le.mpr hlow)]
      exact ⟨.plic hplic, rfl⟩
  | uart =>
      intro hnumber
      have hbyte := mem.uart.read_lt (addr - Uart.UART_BASE)
      have hnumbered := hnumber.le
      change (2 ^ 10 : ℕ) ≤ (mem.uart.read (addr - Uart.UART_BASE)).1.toNat
        at hnumbered
      omega
  | outside | unmapped => trivial

theorem Word.read (hword : Word profile mem size addr v)
    (hsize : validSize size = true) (hnumber : Numbered v) :
    Memory.read addr size profile mem = some (.ok v, mem.noticed addr) := by
  have hle := size_le_of_valid hsize
  cases hword with
  | dram hin => rw [read_inDram hin hsize, noticed, if_pos hin.1]
  | clint hin hcount =>
      rw [Clint.memory_read_run hin, Clint.read_run _ hin hle, hcount,
        noticed_below (Clint.below_dram hin)]
      rfl
  | plic hin =>
      rw [read_plic hin, Plic.read_numbered hnumber,
        noticed_below (inPlic_apart hin).1]

end Words

/-- The entries are the same up to accessed and dirty bits, in memory and in
the devices. -/
structure Alike (size : ℕ) (mem mem' : Memory) : Prop where
  dram : SameTables size mem.dram mem'.dram
  clint : Clint.Alike size mem.clint mem'.clint
  plic : Plic.Alike mem.plic mem'.plic

theorem Alike.refl (size : ℕ) (mem : Memory) : Alike size mem mem :=
  ⟨SameTables.refl _ _, Clint.Alike.refl _ _, Plic.Alike.refl _⟩

/-- The bytes of DRAM that an access to a physical address covers. -/
def Covers (addr : BitVec 64) (size i : ℕ) : Prop :=
  addr.toNat ≤ DRAM_BASE.toNat + i ∧ DRAM_BASE.toNat + i < addr.toNat + size

section Marks

variable {profile : Profile} {mem mem' : Memory} {size : ℕ}
  {addr v : BitVec 64} (hsize : size = 4 ∨ size = 8) (hdvd : size ∣ addr.toNat)

include hsize hdvd

omit hdvd in
theorem validSize_entry : validSize size = true := by
  rcases hsize with rfl | rfl <;> rfl

theorem offset_aligned : size ∣ offset addr := by
  have hbase : size ∣ DRAM_BASE.toNat := by
    rcases hsize with rfl | rfl <;> decide
  exact Nat.dvd_sub hdvd hbase

theorem shift_aligned {shift : ℕ} (hin : Clint.InWindow addr)
    (hcount : Clint.shiftCount profile
      (8 * Clint.intoRegister (Clint.windowOffset addr)) = some shift) :
    shift = 0 ∨ size = 4 ∧ shift = 32 := by
  refine Clint.shiftCount_aligned hsize ?_ hcount
  obtain ⟨-, -, haddr⟩ := Clint.inWindow_range hin
  have hbase : size ∣ CLINT_BASE.toNat := by
    rcases hsize with rfl | rfl <;> decide
  have hwindow : size ∣ Clint.windowOffset addr := by
    rw [haddr] at hdvd
    exact (Nat.dvd_add_right hbase).mp hdvd
  have hstart : ∀ register : Clint.Register, size ∣ register.start := by
    intro register
    rcases hsize with rfl | rfl <;> cases register <;> decide
  exact Nat.dvd_sub hwindow (hstart _)

/-- What is read among alike entries differs in those bits only. -/
theorem Alike.word (halike : Alike size mem mem')
    (hword : Word profile mem size addr v) (hnumber : Numbered v) :
    ∃ v', Word profile mem' size addr v' ∧ Agree stableBits v' v := by
  cases hword with
  | dram hin =>
      have hin' : mem'.InDram addr size := by
        rw [InDram, halike.dram.len]
        exact hin
      exact ⟨_, .dram hin',
        halike.dram.entries _ (offset_aligned hsize hdvd) hin.2.1⟩
  | clint hin hcount =>
      exact ⟨_, .clint hin hcount,
        halike.clint _ _ (shift_aligned hsize hdvd hin hcount)⟩
  | plic hin => exact ⟨_, .plic hin, halike.plic.read hnumber⟩

/-- Setting the bits of an entry succeeds wherever it was read, and leaves the
other entries and the bytes of other words alone. -/
theorem Word.write (hword : Word profile mem size addr v) (hsound : mem.Sound)
    (hnumber : Numbered v) (hvalid : v &&& V ≠ 0) (access : Access) :
    ∃ mem', Memory.write addr size (v ||| need access) profile mem =
        some (.ok (), mem') ∧
      Alike size mem mem' ∧ mem'.Sound ∧
      ∀ i, ¬ Covers addr size i → mem'.dram.byte i = mem.dram.byte i := by
  cases hword with
  | dram hin =>
      have hdevices : (mem.stored addr size
          (mem.dram.loadLe (offset addr) size ||| need access)).clint =
            mem.clint ∧
          (mem.stored addr size
            (mem.dram.loadLe (offset addr) size ||| need access)).plic =
            mem.plic := by
        unfold stored noteTohost
        split <;> exact ⟨rfl, rfl⟩
      refine ⟨_, write_inDram hin (validSize_entry hsize) _ _, ⟨?_, ?_, ?_⟩,
        ⟨?_, ?_⟩, fun i hi => ?_⟩
      · exact sameTables_stored (by omega) (offset_aligned hsize hdvd) rfl
          access
      · rw [hdevices.1]
        exact Clint.Alike.refl _ _
      · rw [hdevices.2]
        exact Plic.Alike.refl _
      · rw [hdevices.1]
        exact hsound.clint
      · rw [hdevices.2]
        exact hsound.plic
      · rw [stored_dram]
        apply Dram.storeLe_byte_outside
        rintro ⟨hlow, hhigh⟩
        have hbase : DRAM_BASE.toNat ≤ addr.toNat := hin.1
        unfold offset at hlow hhigh
        exact hi ⟨by omega, by omega⟩
  | @clint shift hin hcount =>
      have hshift := shift_aligned hsize hdvd hin hcount
      have halike := Clint.store_alike hsound.clint hsize hshift hnumber access
      generalize hregister :
        Clint.Register.nearest (Clint.windowOffset addr) = register at *
      generalize hentry : Clint.sliced (register.word mem.clint) shift size |||
        need access = entry at *
      have hrun : Memory.write addr size entry profile mem = some (.ok (),
          { mem with
            clint := register.store mem.clint
              (Clint.merged (register.word mem.clint) entry shift size)
            devicesDirty := true }) := by
        rw [Clint.memory_write_run hin, Clint.write_run _ hin, hcount,
          hregister]
        rfl
      exact ⟨_, hrun, ⟨SameTables.refl _ _, halike, Plic.Alike.refl _⟩,
        ⟨Clint.store_sound hsound.clint _ _, hsound.plic⟩, fun _ _ => rfl⟩
  | plic hin =>
      refine ⟨_, write_plic hin profile mem _, ⟨SameTables.refl _ _,
        Clint.Alike.refl _ _, ?_⟩, ⟨hsound.clint, ?_⟩, fun _ _ => rfl⟩
      · exact Plic.write_alike hsound.plic hnumber hvalid access
      · exact Plic.write_sound hsound.plic _ _

end Marks

end Memory

end Nanoemu
