import Nanoemu.ClintWindow
import Nanoemu.FreshHart
import Nanoemu.MemoryPath

/-!
# How wide the value of a read is

Memory, the interruptor and the console answer with as many bytes as they are
asked for.  The interrupt controller is never told the size, and answers with
the whole of a 32-bit register.
-/

namespace Nanoemu

open CheckedProgram FieldWords

theorem toNat_lt_of_bits {v : BitVec 64} {size : ℕ} (hsize : size ≤ 8)
    (hbits : ∀ j, 8 * size ≤ j → v.getLsbD j = false) :
    v.toNat < 2 ^ (8 * size) := by
  have hsame : v = (v.setWidth (8 * size)).setWidth 64 := by
    apply BitVec.eq_of_getLsbD_eq
    intro j hj
    by_cases hlow : j < 8 * size
    · simp [hlow, hj]
    · simp [hlow, hbits j (not_lt.mp hlow)]
  rw [hsame, BitVec.toNat_setWidth_of_le (by omega)]
  exact (v.setWidth (8 * size)).isLt

theorem Dram.loadLe_lt (dram : Dram) (i : ℕ) {size : ℕ} (hsize : size ≤ 8) :
    (dram.loadLe i size).toNat < 2 ^ (8 * size) :=
  toNat_lt_of_bits hsize fun _ hj => dram.getLsbD_loadLe_of_ge hsize hj

theorem Clint.sliced_lt (full : BitVec 64) (shift : ℕ) {size : ℕ}
    (hsize : size ≤ 8) :
    (sliced full shift size).toNat < 2 ^ (8 * size) := by
  rw [sliced, and_ones _ (by omega),
    BitVec.toNat_setWidth_of_le (by omega)]
  exact BitVec.isLt _

theorem byte_lt (v : BitVec 8) : (v.setWidth 64).toNat < 2 ^ 8 := by
  rw [BitVec.toNat_setWidth_of_le (by decide)]
  exact v.isLt

theorem Uart.read_lt (uart : Uart) (offset : BitVec 64) :
    (uart.read offset).1.toNat < 2 ^ 8 := by
  unfold Uart.read
  split_ifs <;> exact byte_lt _

namespace Plic

/-- The offsets of the registers that can hold more than a byte: priorities,
pending bits, and each context's enable bits and threshold. -/
def WideRegister (off : ℕ) : Prop :=
  off < 0x80 ∨ off = 0x1000 ∨ off = 0x2000 ∨ off = 0x2080 ∨
    off = 0x200000 ∨ off = 0x201000

instance (off : ℕ) : Decidable (WideRegister off) :=
  inferInstanceAs (Decidable (_ ∨ _))

theorem word_lt (v : BitVec 32) : (v.setWidth 64).toNat < 2 ^ 32 := by
  rw [BitVec.toNat_setWidth_of_le (by decide)]
  exact v.isLt

theorem source_lt (source : Source) :
    (BitVec.ofNat 64 source.val).toNat < 2 ^ 8 := by
  have hlt : source.val < 32 := source.isLt
  rw [BitVec.toNat_ofNat, Nat.mod_eq_of_lt (by omega)]
  omega

theorem decode_eq (offset : BitVec 64) :
    decode offset =
      if offset.toNat < 0x1000 then .priority (offset.toNat / 4)
      else if offset.toNat < 0x2000 then .pending offset
      else if offset.toNat < 0x200000 then
        .enable ((offset.toNat - 0x2000) / 0x80)
          ((offset.toNat - 0x2000) % 0x80)
      else
        .control ((offset.toNat - 0x200000) / 0x1000)
          ((offset.toNat - 0x200000) % 0x1000) := by
  have hpending : PENDING_BASE.toNat = 0x1000 := by decide
  have henable : ENABLE_BASE.toNat = 0x2000 := by decide
  have hcontrol : CONTEXT_CONTROL_BASE.toNat = 0x200000 := by decide
  have hstride : ENABLE_STRIDE.toNat = 0x80 := by decide
  have hstride' : CONTEXT_STRIDE.toNat = 0x1000 := by decide
  unfold decode
  simp only [BitVec.lt_def, hpending, henable, hcontrol]
  split
  · rw [BitVec.toNat_udiv]
    rfl
  split
  · rfl
  split
  · rw [BitVec.toNat_udiv, BitVec.toNat_umod, hstride,
      BitVec.toNat_sub_of_le (BitVec.le_def.mpr (by omega)), henable]
  · rw [BitVec.toNat_udiv, BitVec.toNat_umod, hstride',
      BitVec.toNat_sub_of_le (BitVec.le_def.mpr (by omega)), hcontrol]

theorem read_lt (plic : Plic) (offset : BitVec 64) :
    (plic.read offset).1.toNat < 2 ^ 32 ∧
      (¬ WideRegister offset.toNat → (plic.read offset).1.toNat < 2 ^ 8) := by
  have hword : ∀ (v : BitVec 32) (plic' : Plic), WideRegister offset.toNat →
      ((v.setWidth 64, plic').1 : BitVec 64).toNat < 2 ^ 32 ∧
        (¬ WideRegister offset.toNat →
          ((v.setWidth 64, plic').1 : BitVec 64).toNat < 2 ^ 8) :=
    fun v _ hwide => ⟨word_lt v, fun hnot => absurd hwide hnot⟩
  have hnarrow : ∀ {v : BitVec 64} (plic' : Plic), v.toNat < 2 ^ 8 →
      ((v, plic').1 : BitVec 64).toNat < 2 ^ 32 ∧
        (¬ WideRegister offset.toNat →
          ((v, plic').1 : BitVec 64).toNat < 2 ^ 8) :=
    fun _ hv => ⟨hv.trans (by decide), fun _ => hv⟩
  have hzero : (0 : BitVec 64).toNat < 2 ^ 8 := by decide
  have hsources : MAX_SOURCES = 32 := rfl
  have hcontexts : CONTEXTS = 2 := rfl
  unfold read
  rw [decode_eq]
  by_cases hpriority : offset.toNat < 0x1000
  · rw [if_pos hpriority]
    dsimp only
    by_cases hsource : offset.toNat / 4 < MAX_SOURCES
    · rw [dif_pos hsource]
      exact hword _ _ (Or.inl (by omega))
    · rw [dif_neg hsource]
      exact hnarrow _ hzero
  rw [if_neg hpriority]
  by_cases hpending : offset.toNat < 0x2000
  · rw [if_pos hpending]
    dsimp only
    by_cases hfirst : offset = PENDING_BASE
    · rw [if_pos hfirst]
      exact hword _ _ (Or.inr (Or.inl (by rw [hfirst]; rfl)))
    · rw [if_neg hfirst]
      exact hnarrow _ hzero
  rw [if_neg hpending]
  by_cases henable : offset.toNat < 0x200000
  · rw [if_pos henable]
    dsimp only
    by_cases hcontext : (offset.toNat - 0x2000) % 0x80 = 0 ∧
        (offset.toNat - 0x2000) / 0x80 < CONTEXTS
    · rw [dif_pos hcontext]
      refine hword _ _ (Or.inr (Or.inr ?_))
      omega
    · rw [dif_neg hcontext]
      exact hnarrow _ hzero
  · rw [if_neg henable]
    dsimp only
    by_cases hcontext : (offset.toNat - 0x200000) / 0x1000 < CONTEXTS
    · rw [dif_pos hcontext]
      by_cases hthreshold : (offset.toNat - 0x200000) % 0x1000 = 0
      · rw [if_pos hthreshold]
        refine hword _ _ (Or.inr (Or.inr (Or.inr (Or.inr ?_))))
        omega
      · rw [if_neg hthreshold]
        split
        · exact hnarrow _ (source_lt _)
        · exact hnarrow _ hzero
    · rw [dif_neg hcontext]
      exact hnarrow _ hzero

def full : Plic :=
  { priority := fun _ => BitVec.allOnes 32
    levels := BitVec.allOnes 32
    claimed := 0
    enable := fun _ => BitVec.allOnes 32
    threshold := fun _ => BitVec.allOnes 32 }

theorem full_read {offset : BitVec 64} (hwide : WideRegister offset.toNat) :
    full.read offset = (0xffffffff, full) := by
  have hones : (BitVec.allOnes 32).setWidth 64 = 0xffffffff := by decide
  have hpending : full.pending = BitVec.allOnes 32 := by decide
  unfold read
  rw [decode_eq]
  rcases hwide with hlow | h | h | h | h | h
  · have hsource : offset.toNat / 4 < MAX_SOURCES := by
      have hsources : MAX_SOURCES = 32 := rfl
      omega
    rw [if_pos (by omega)]
    dsimp only
    rw [dif_pos hsource, full, hones]
  · have hfirst : offset = PENDING_BASE := BitVec.eq_of_toNat_eq h
    rw [h, if_neg (by decide), if_pos (by decide)]
    dsimp only
    rw [if_pos hfirst, hpending, hones]
  · rw [h, if_neg (by decide), if_neg (by decide), if_pos (by decide)]
    rfl
  · rw [h, if_neg (by decide), if_neg (by decide), if_pos (by decide)]
    rfl
  · rw [h, if_neg (by decide), if_neg (by decide), if_neg (by decide)]
    rfl
  · rw [h, if_neg (by decide), if_neg (by decide), if_neg (by decide)]
    rfl

end Plic

namespace Memory

/-- Where the interrupt controller answers with a 32-bit register. -/
def WideAt (addr : BitVec 64) : Prop :=
  Plic.PLIC_BASE ≤ addr ∧ addr < Plic.PLIC_BASE + Plic.PLIC_SIZE ∧
    Plic.WideRegister (addr - Plic.PLIC_BASE).toNat

instance (addr : BitVec 64) : Decidable (WideAt addr) :=
  inferInstanceAs (Decidable (_ ∧ _ ∧ _))

def ReadFits (profile : Profile) (addr : BitVec 64) (size : ℕ)
    (mem : Memory) : Prop :=
  ∀ v mem', Memory.read addr size profile mem = some (.ok v, mem') →
    v.toNat < 2 ^ (8 * size)

theorem readFits_of_not_wide {addr : BitVec 64} {size : ℕ}
    (hsize : validSize size = true) (hnot : ¬ (size < 4 ∧ WideAt addr))
    (profile : Profile) (mem : Memory) : ReadFits profile addr size mem := by
  obtain ⟨hpos, hle⟩ := Clint.validSize_range hsize
  have hbyte : ∀ {v : BitVec 64}, v.toNat < 2 ^ 8 → v.toNat < 2 ^ (8 * size) :=
    fun hv => hv.trans_le (Nat.pow_le_pow_right (by decide) (by omega))
  intro v mem' hread
  cases read_course hread with
  | dram => exact mem.dram.loadLe_lt _ hle
  | clint hlow hclint hv =>
      rw [Clint.read_run _ hclint hle, Option.map_eq_some_iff] at hv
      obtain ⟨shift, -, rfl⟩ := hv
      exact Clint.sliced_lt _ _ hle
  | plic hlow hplic =>
      obtain ⟨hword, hnarrow⟩ := mem.plic.read_lt (addr - Plic.PLIC_BASE)
      by_cases hwide : Plic.WideRegister (addr - Plic.PLIC_BASE).toNat
      · have hfour : 4 ≤ size :=
          not_lt.mp fun hlt => hnot ⟨hlt, hplic.1, hplic.2, hwide⟩
        exact hword.trans_le (Nat.pow_le_pow_right (by decide) (by omega))
      · exact hbyte (hnarrow hwide)
  | uart => exact hbyte (mem.uart.read_lt _)

/-- Where a register is wider than the access, a full one overflows it. -/
theorem not_readFits_of_wide {addr : BitVec 64} {size : ℕ} (hsize : size < 4)
    (hwide : WideAt addr) (profile : Profile) :
    ¬ ReadFits profile addr size { Memory.new 0 with plic := Plic.full } := by
  intro hfits
  obtain ⟨hlow, hhigh, hregister⟩ := hwide
  have hbase : Plic.PLIC_BASE.toNat = 0xC000000 := by decide
  have hend : (Plic.PLIC_BASE + Plic.PLIC_SIZE).toNat = 0x10000000 := by decide
  have hdram : ¬ DRAM_BASE ≤ addr := by
    have hstart : DRAM_BASE.toNat = 0x80000000 := by decide
    rw [BitVec.le_def]
    rw [BitVec.lt_def] at hhigh
    omega
  have hclint : ¬ (CLINT_BASE ≤ addr ∧ addr < CLINT_END) := by
    have hstop : CLINT_END.toNat = 0x200C000 := by decide
    rw [BitVec.lt_def, BitVec.le_def]
    rw [BitVec.le_def] at hlow
    omega
  have hrun : Memory.read addr size profile
      { Memory.new 0 with plic := Plic.full } =
      some (.ok 0xffffffff,
        { Memory.new 0 with plic := Plic.full, devicesDirty := true }) := by
    unfold Memory.read touchDevices
    rw [if_neg hdram, Program.bind_run_ok (Program.update_run _ _ _),
      Program.bind_run_ok (Program.read_run _ _ _), if_neg hclint,
      if_pos ⟨hlow, hhigh⟩]
    simp only [id_eq, Plic.full_read hregister]
    rfl
  have hlt := hfits _ _ hrun
  have hbound : 2 ^ (8 * size) ≤ 2 ^ 24 :=
    Nat.pow_le_pow_right (by decide) (by omega)
  have hvalue : (0xffffffff : BitVec 64).toNat = 0xffffffff := by decide
  omega

end Memory

/-! ## Loads through the MMU -/

namespace Cpu

/-- The bytes of a page-crossing load come from elsewhere. -/
def BytesApart (profile : Profile) (va : BitVec 64) : ℕ → ℕ → Cpu → Prop
  | 0, _, _ => True
  | remaining + 1, k, c =>
      ∀ addr pa c₁, Checked.add va (BitVec.ofNat 64 k) profile = some addr →
        translate addr .load profile c = some (.ok pa, c₁) →
          ¬ Memory.WideAt pa ∧
          ∀ b c₂, physRead (.loadAccessFault va) pa 1 profile c₁ =
            some (.ok b, c₂) → BytesApart profile va remaining (k + 1) c₂

/-- A load makes no narrow read of a 32-bit register. -/
def LoadApart (profile : Profile) (va : BitVec 64) (size : ℕ) (c : Cpu) :
    Prop :=
  (fitsPage va size profile = some true →
    ∀ pa c₁, translate va .load profile c = some (.ok pa, c₁) →
      ¬ (size < 4 ∧ Memory.WideAt pa)) ∧
  (fitsPage va size profile = some false → BytesApart profile va size 0 c)

theorem physRead_fits {fault : Exception} {pa : BitVec 64} {size : ℕ}
    (hsize : Memory.validSize size = true)
    (hnot : ¬ (size < 4 ∧ Memory.WideAt pa)) {profile : Profile} {c c' : Cpu}
    {v : BitVec 64} (hrun : physRead fault pa size profile c =
      some (.ok v, c')) : v.toNat < 2 ^ (8 * size) := by
  have hensures : (physRead fault pa size).Ensures profile c
      (fun v _ => v.toNat < 2 ^ (8 * size)) (fun _ _ => True) := by
    apply onMemory_ensures
    apply Program.Ensures.mapError
    intro outcome mem' hread
    cases outcome with
    | ok v =>
        exact Memory.readFits_of_not_wide hsize hnot profile c.mem v mem' hread
    | error _ => trivial
  exact hensures.ok hrun

theorem joined_lt {v b : BitVec 64} {k : ℕ} (hv : v.toNat < 2 ^ (8 * k))
    (hb : b.toNat < 2 ^ 8) :
    (v ||| b <<< (8 * k)).toNat < 2 ^ (8 * (k + 1)) := by
  have hsum : 8 * (k + 1) = 8 + 8 * k := by omega
  rw [BitVec.toNat_or]
  apply Nat.or_lt_two_pow
  · exact hv.trans_le (Nat.pow_le_pow_right (by decide) (by omega))
  · rw [BitVec.toNat_shiftLeft, Nat.shiftLeft_eq, hsum, pow_add]
    exact (Nat.mod_le _ _).trans_lt
      (Nat.mul_lt_mul_of_pos_right hb (Nat.two_pow_pos _))

theorem readBytes_fits (profile : Profile) (va : BitVec 64)
    (remaining k : ℕ) (v : BitVec 64) (c : Cpu) (hk : k + remaining ≤ 8)
    (hv : v.toNat < 2 ^ (8 * k)) (hapart : BytesApart profile va remaining k c) :
    (readBytes va remaining k v).Ensures profile c
      (fun v' _ => v'.toNat < 2 ^ (8 * (k + remaining)))
      (fun _ _ => True) := by
  induction remaining generalizing k v c with
  | zero => exact Program.Ensures.pure hv
  | succ remaining ih =>
      unfold readBytes
      apply Program.Ensures.bind
      apply Program.Ensures.check
      intro addr haddr
      apply Program.Ensures.bind
      intro outcome c₁ htranslate
      cases outcome with
      | error _ => trivial
      | ok pa =>
          obtain ⟨hnot, hrest⟩ := hapart addr pa c₁ haddr htranslate
          apply Program.Ensures.bind
          intro outcome c₂ hread
          cases outcome with
          | error _ => trivial
          | ok b =>
              have hb : b.toNat < 2 ^ 8 :=
                physRead_fits rfl (fun h => hnot h.2) hread
              dsimp only
              rw [Checked.umul_eq_pure (by omega)]
              apply Program.Ensures.bind
              apply Program.Ensures.check
              intro shift hshift
              obtain rfl := Option.some.inj hshift
              rw [Checked.shl_eq_pure (by omega)]
              apply Program.Ensures.bind
              apply Program.Ensures.check
              intro piece hpiece
              obtain rfl := Option.some.inj hpiece
              have hnext := ih (k + 1) (v ||| b <<< (8 * k)) c₂ (by omega)
                (joined_lt hv hb) (hrest b c₂ hread)
              rw [Nat.add_right_comm] at hnext
              exact hnext

theorem readMem_fits {profile : Profile} {va : BitVec 64} {size : ℕ}
    {c : Cpu} (hsize : Memory.validSize size = true)
    (hapart : LoadApart profile va size c) :
    (readMem va size).Ensures profile c
      (fun v _ => v.toNat < 2 ^ (8 * size)) (fun _ _ => True) := by
  unfold readMem
  apply Program.Ensures.bind
  apply Program.Ensures.check
  intro fits hfits
  cases fits with
  | true =>
      rw [if_pos rfl]
      apply Program.Ensures.bind
      intro outcome c₁ htranslate
      cases outcome with
      | error _ => trivial
      | ok pa =>
          intro outcome c₂ hread
          cases outcome with
          | error _ => trivial
          | ok v =>
              exact physRead_fits hsize (hapart.1 hfits pa c₁ htranslate) hread
  | false =>
      rw [if_neg Bool.false_ne_true]
      have hbytes := readBytes_fits profile va size 0 0 c
        (by rw [Nat.zero_add]; exact Memory.size_le_of_valid hsize)
        (by decide) (hapart.2 hfits)
      rw [Nat.zero_add] at hbytes
      exact hbytes

end Cpu

namespace Memory

/-- A read answers with the size it is asked for, in every state, exactly where
it is no narrow read of a 32-bit register of the interrupt controller.  So does
a load whose physical reads are none. -/
theorem read_fits_iff (profile : Profile) {size : ℕ}
    (hsize : validSize size = true) :
    (∀ addr : BitVec 64,
      (∀ mem, ReadFits profile addr size mem) ↔
        ¬ (size < 4 ∧ WideAt addr)) ∧
    (∀ (va : BitVec 64) (c c' : Cpu) (v : BitVec 64),
      Cpu.LoadApart profile va size c →
        Cpu.readMem va size profile c = some (.ok v, c') →
          v.toNat < 2 ^ (8 * size)) := by
  constructor
  · intro addr
    constructor
    · intro hfits hwide
      exact not_readFits_of_wide hwide.1 hwide.2 profile (hfits _)
    · exact fun hnot mem => readFits_of_not_wide hsize hnot profile mem
  · intro va c c' v hapart hrun
    exact (Cpu.readMem_fits hsize hapart).ok hrun

/-- A word of memory is read at every size. -/
theorem read_fits_iff_dram :
    validSize 1 = true ∧
      ((∀ mem, ReadFits .debug DRAM_BASE 1 mem) ↔
        ¬ (1 < 4 ∧ WideAt DRAM_BASE)) :=
  ⟨rfl, (@read_fits_iff .debug 1 rfl).1 DRAM_BASE⟩

/-- A byte load of a priority register takes nine bits. -/
theorem not_read_fits :
    let mem := { Memory.new 0 with
      plic := (Plic.default.write 4 0x1ff) }
    Memory.write (Plic.PLIC_BASE + 4) 4 0x1ff .debug (Memory.new 0) =
        some (.ok (), mem) ∧
      (Memory.read (Plic.PLIC_BASE + 4) 1 .debug mem).map
          (fun result => result.1.toOption) = some (some 0x1ff) ∧
      (Cpu.executeLoad 0x00034283 .debug
          { Cpu.blankHart with
            mem := mem
            regs := Function.update Cpu.blankHart.regs 6
              (Plic.PLIC_BASE + 4) }).map (fun result => result.2.regs 5) =
        some 0x1ff ∧
      ¬ ReadFits .debug (Plic.PLIC_BASE + 4) 1 mem := by
  refine ⟨rfl, rfl, rfl, ?_⟩
  intro hfits
  exact absurd (hfits 0x1ff _ rfl) (by decide)

end Memory

end Nanoemu
