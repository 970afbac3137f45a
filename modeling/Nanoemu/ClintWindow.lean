import Nanoemu.FieldWords
import Nanoemu.MemoryAccess

/-!
# The CLINT as a window of bytes

The interruptor has three registers in a window of 48 KiB.  An access is
described below by the bytes it covers: those of a register are read and
written, and the rest of the window reads as zero.  The code maps an address
to the nearest register below it instead, and the two are compared address by
address.
-/

namespace Nanoemu

open CheckedProgram FieldWords

namespace Clint

def windowOffset (addr : BitVec 64) : ℕ := addr.toNat - CLINT_BASE.toNat

def InWindow (addr : BitVec 64) : Prop := CLINT_BASE ≤ addr ∧ addr < CLINT_END

/-- The registers of the one hart; nothing lies between them. -/
def windowByte (clint : Clint) (k : ℕ) : BitVec 8 :=
  if k < 4 then (clint.msip >>> (8 * k)).setWidth 8
  else if 0x4000 ≤ k ∧ k < 0x4008 then
    Dram.leByte clint.mtimecmp (k - 0x4000)
  else if 0xBFF8 ≤ k ∧ k < 0xC000 then Dram.leByte clint.mtime (k - 0xBFF8)
  else 0

def window (clint : Clint) : Dram := { len := 0xC000, byte := clint.windowByte }

/-- The bits a write can change: only the lowest of `msip`. -/
def writable (k : ℕ) : BitVec 8 :=
  if k = 0 then 1
  else if 0x4000 ≤ k ∧ k < 0x4008 ∨ 0xBFF8 ≤ k ∧ k < 0xC000 then
    BitVec.allOnes 8
  else 0

/-- The bytes after a write to those from an offset on. -/
def writtenByte (bytes : ℕ → BitVec 8) (off size : ℕ) (value : BitVec 64)
    (k : ℕ) : BitVec 8 :=
  if off ≤ k ∧ k < off + size then Dram.leByte value (k - off) &&& writable k
  else bytes k

/-- Only the lowest bit of `msip` is ever set. -/
def Sound (clint : Clint) : Prop := clint.msip &&& 1 = clint.msip

inductive Register where
  | msip | mtimecmp | mtime
deriving DecidableEq, Repr

namespace Register

def start : Register → ℕ
  | msip => 0
  | mtimecmp => 0x4000
  | mtime => 0xBFF8

def nearest (off : ℕ) : Register :=
  if 0xBFF8 ≤ off then .mtime else if 0x4000 ≤ off then .mtimecmp else .msip

def word (clint : Clint) : Register → BitVec 64
  | msip => clint.msip.setWidth 64
  | mtimecmp => clint.mtimecmp
  | mtime => clint.mtime

def store (clint : Clint) (v : BitVec 64) : Register → Clint
  | msip => { clint with msip := v.setWidth 32 &&& 1 }
  | mtimecmp => { clint with mtimecmp := v }
  | mtime => { clint with mtime := v }

theorem nearest_mtime {off : ℕ} (h : 0xBFF8 ≤ off) : nearest off = mtime := by
  unfold nearest
  rw [if_pos h]

theorem nearest_mtimecmp {off : ℕ} (hlow : 0x4000 ≤ off) (hhigh : off < 0xBFF8) :
    nearest off = mtimecmp := by
  unfold nearest
  rw [if_neg (not_le.mpr hhigh), if_pos hlow]

theorem nearest_msip {off : ℕ} (h : off < 0x4000) : nearest off = msip := by
  unfold nearest
  rw [if_neg (by omega), if_neg (not_le.mpr h)]

theorem nearest_cases (off : ℕ) :
    off < 0x4000 ∧ nearest off = msip ∨
      (0x4000 ≤ off ∧ off < 0xBFF8) ∧ nearest off = mtimecmp ∨
      0xBFF8 ≤ off ∧ nearest off = mtime := by
  by_cases hlow : off < 0x4000
  · exact Or.inl ⟨hlow, nearest_msip hlow⟩
  by_cases hhigh : off < 0xBFF8
  · have hrange : 0x4000 ≤ off ∧ off < 0xBFF8 := ⟨not_lt.mp hlow, hhigh⟩
    exact Or.inr (Or.inl ⟨hrange, nearest_mtimecmp hrange.1 hrange.2⟩)
  · have hrange : 0xBFF8 ≤ off := not_lt.mp hhigh
    exact Or.inr (Or.inr ⟨hrange, nearest_mtime hrange⟩)

end Register

def intoRegister (off : ℕ) : ℕ := off - (Register.nearest off).start

theorem intoRegister_msip {off : ℕ} (h : off < 0x4000) :
    intoRegister off = off := by
  rw [intoRegister, Register.nearest_msip h]
  rfl

theorem intoRegister_mtimecmp {off : ℕ} (hlow : 0x4000 ≤ off)
    (hhigh : off < 0xBFF8) : intoRegister off = off - 0x4000 := by
  rw [intoRegister, Register.nearest_mtimecmp hlow hhigh]
  rfl

theorem intoRegister_mtime {off : ℕ} (h : 0xBFF8 ≤ off) :
    intoRegister off = off - 0xBFF8 := by
  rw [intoRegister, Register.nearest_mtime h]
  rfl

theorem start_nearest_le (off : ℕ) :
    (Register.nearest off).start ≤ off := by
  rcases Register.nearest_cases off with
    ⟨hlow, hmsip⟩ | ⟨⟨hlow, hhigh⟩, hcmp⟩ | ⟨hhigh, htime⟩
  · rw [hmsip]
    exact Nat.zero_le off
  · rw [hcmp]
    exact hlow
  · rw [htime]
    exact hhigh

theorem nearest_add {off : ℕ} (h : intoRegister off < 8) {j : ℕ}
    (hj : j < 8) : Register.nearest (off + j) = Register.nearest off := by
  rcases Register.nearest_cases off with
    ⟨hlow, hmsip⟩ | ⟨⟨hlow, hhigh⟩, hcmp⟩ | ⟨hhigh, htime⟩
  · rw [intoRegister_msip hlow] at h
    rw [hmsip, Register.nearest_msip (by omega)]
  · rw [intoRegister_mtimecmp hlow hhigh] at h
    rw [hcmp, Register.nearest_mtimecmp (by omega) (by omega)]
  · rw [htime, Register.nearest_mtime (by omega)]

theorem intoRegister_add {off : ℕ} (h : intoRegister off < 8) {j : ℕ}
    (hj : j < 8) : intoRegister (off + j) = intoRegister off + j := by
  have hle := start_nearest_le off
  unfold intoRegister
  rw [nearest_add h hj]
  omega

open Register

theorem leByte_msip (clint : Clint) {j : ℕ} (hj : j < 8) :
    Dram.leByte (clint.msip.setWidth 64) j =
      (clint.msip >>> (8 * j)).setWidth 8 := by
  apply BitVec.eq_of_getLsbD_eq
  intro b hb
  rw [Dram.getLsbD_leByte _ _ _ hb]
  simp [hb, show 8 * j + b < 64 by omega]

theorem windowByte_eq (clint : Clint) (k : ℕ) :
    clint.windowByte k =
      if intoRegister k < 8 then
        Dram.leByte ((nearest k).word clint) (intoRegister k)
      else 0 := by
  unfold windowByte
  rcases nearest_cases k with
    ⟨hlow, hmsip⟩ | ⟨⟨hlow, hhigh⟩, hcmp⟩ | ⟨hhigh, htime⟩
  · rw [hmsip, intoRegister_msip hlow, word]
    by_cases hin : k < 4
    · rw [if_pos hin, if_pos (by omega), leByte_msip clint (by omega)]
    rw [if_neg hin, if_neg (by omega), if_neg (by omega)]
    split
    · next hbyte =>
        rw [leByte_msip clint hbyte, BitVec.ushiftRight_eq_zero (by omega)]
        rfl
    · rfl
  · rw [hcmp, intoRegister_mtimecmp hlow hhigh, word, if_neg (by omega)]
    by_cases hin : k < 0x4008
    · rw [if_pos ⟨hlow, hin⟩, if_pos (by omega)]
    · rw [if_neg (by omega), if_neg (by omega), if_neg (by omega)]
  · rw [htime, intoRegister_mtime hhigh, word, if_neg (by omega),
      if_neg (by omega)]
    by_cases hin : k < 0xC000
    · rw [if_pos ⟨hhigh, hin⟩, if_pos (by omega)]
    · rw [if_neg (by omega), if_neg (by omega)]

theorem windowByte_add (clint : Clint) {off : ℕ} (h : intoRegister off < 8)
    {j : ℕ} (hj : j < 8) :
    clint.windowByte (off + j) =
      Dram.leByte ((nearest off).word clint) (intoRegister off + j) := by
  rw [windowByte_eq, nearest_add h hj, intoRegister_add h hj]
  split
  · rfl
  · next hover =>
      unfold Dram.leByte
      rw [BitVec.ushiftRight_eq_zero (by omega)]
      rfl

def sliced (full : BitVec 64) (shift size : ℕ) : BitVec 64 :=
  (full >>> shift) &&& BitVec.ofNat 64 (2 ^ (8 * size) - 1)

theorem loadLe_window (clint : Clint) {off size : ℕ} (hsize : size ≤ 8)
    (h : intoRegister off < 8) :
    clint.window.loadLe off size =
      sliced ((nearest off).word clint) (8 * intoRegister off) size := by
  apply BitVec.eq_of_getLsbD_eq
  intro i hi
  unfold sliced
  have hlow : i % 8 < 8 := Nat.mod_lt _ (by decide)
  have hbyte : clint.window.byte (off + i / 8) =
      clint.windowByte (off + i / 8) := rfl
  have hindex : 8 * (intoRegister off + i / 8) + i % 8 =
      8 * intoRegister off + i := by omega
  rw [Dram.getLsbD_loadLe _ _ _ _ hsize, and_ones _ (by omega), hbyte,
    windowByte_add clint h (by omega), Dram.getLsbD_leByte _ _ _ hlow, hindex]
  simp [hi]

def merged (full value : BitVec 64) (shift size : ℕ) : BitVec 64 :=
  let mask :=
    if 8 ≤ size then BitVec.allOnes 64
    else BitVec.ofNat 64 (2 ^ (8 * size) - 1) <<< shift
  (full &&& ~~~mask) ||| ((value <<< shift) &&& mask)

/-- The count a build shifts a 64-bit word by: one that reaches the width is a
panic, or its remainder. -/
def shiftCount (profile : Profile) (count : ℕ) : Option ℕ :=
  if count < 64 then some count else profile.overflow (count % 64)

section Shifts

variable {profile : Profile} {count : ℕ} {a : BitVec 64}

theorem shr_run : Checked.shr a count profile =
    (shiftCount profile count).map fun shift => a >>> shift := by
  unfold Checked.shr shiftCount
  split
  · rfl
  · cases profile <;> rfl

theorem shl_run : Checked.shl a count profile =
    (shiftCount profile count).map fun shift => a <<< shift := by
  unfold Checked.shl shiftCount
  split
  · rfl
  · cases profile <;> rfl

end Shifts

section Runs

variable (clint : Clint) {addr : BitVec 64} (hin : InWindow addr)

include hin

theorem inWindow_range :
    CLINT_BASE.toNat ≤ addr.toNat ∧ windowOffset addr < 0xC000 ∧
      addr.toNat = CLINT_BASE.toNat + windowOffset addr := by
  have hlow : CLINT_BASE.toNat ≤ addr.toNat := BitVec.le_def.mp hin.1
  have hhigh : addr.toNat < CLINT_END.toNat := BitVec.lt_def.mp hin.2
  have hend : CLINT_END.toNat = CLINT_BASE.toNat + 0xC000 := by decide
  unfold windowOffset
  omega

/-- The code finds the nearest register and the offset into it. -/
theorem field_run :
    ∃ base, clint.field addr =
        (base, (nearest (windowOffset addr)).word clint) ∧
      bitOffset addr base = pure (8 * intoRegister (windowOffset addr)) ∧
      ∀ v, (if base = CLINT_MSIP then
          { clint with msip := v.setWidth 32 &&& 1 }
        else if base = CLINT_MTIMECMP then { clint with mtimecmp := v }
        else { clint with mtime := v }) =
          (nearest (windowOffset addr)).store clint v := by
  obtain ⟨hbase, hoff, haddr⟩ := inWindow_range hin
  have hstart : CLINT_BASE.toNat = 0x2000000 := by decide
  have hmsipBase : CLINT_MSIP.toNat = 0x2000000 := by decide
  have hcmpBase : CLINT_MTIMECMP.toNat = 0x2004000 := by decide
  have htimeBase : CLINT_MTIME.toNat = 0x200BFF8 := by decide
  have hcmpLe : CLINT_MTIMECMP ≤ addr ↔ 0x4000 ≤ windowOffset addr := by
    rw [BitVec.le_def]
    omega
  have htimeLe : CLINT_MTIME ≤ addr ↔ 0xBFF8 ≤ windowOffset addr := by
    rw [BitVec.le_def]
    omega
  have hshift : ∀ base : BitVec 64, base.toNat ≤ addr.toNat →
      addr.toNat - base.toNat = intoRegister (windowOffset addr) →
      bitOffset addr base = pure (8 * intoRegister (windowOffset addr)) := by
    intro base hle hinto
    have hsub : (addr - base).toNat = intoRegister (windowOffset addr) := by
      rw [BitVec.toNat_sub_of_le (BitVec.le_def.mpr hle), hinto]
    have hsmall : (addr - base).toNat * (8 : BitVec 64).toNat < 2 ^ 64 := by
      change (addr - base).toNat * 8 < 2 ^ 64
      omega
    unfold bitOffset
    rw [Checked.sub_eq_pure hle, pure_bind, Checked.mul_eq_pure hsmall,
      pure_bind, BitVec.toNat_mul_of_lt hsmall, hsub, Nat.mul_comm]
    rfl
  unfold field
  rcases nearest_cases (windowOffset addr) with
    ⟨hlow, hmsip⟩ | ⟨⟨hlow, hhigh⟩, hcmp⟩ | ⟨hhigh, htime⟩
  · rw [hmsip, if_neg (mt htimeLe.mp (by omega)),
      if_neg (mt hcmpLe.mp (by omega))]
    refine ⟨CLINT_MSIP, rfl, hshift _ (by omega) ?_, fun v => if_pos rfl⟩
    rw [intoRegister_msip hlow]
    omega
  · rw [hcmp, if_neg (mt htimeLe.mp (by omega)), if_pos (hcmpLe.mpr hlow)]
    refine ⟨CLINT_MTIMECMP, rfl, hshift _ (by omega) ?_, fun v => ?_⟩
    · rw [intoRegister_mtimecmp hlow hhigh]
      omega
    · rw [if_neg (by decide), if_pos rfl, store]
  · rw [htime, if_pos (htimeLe.mpr hhigh)]
    refine ⟨CLINT_MTIME, rfl, hshift _ (by omega) ?_, fun v => ?_⟩
    · rw [intoRegister_mtime hhigh]
      omega
    · rw [if_neg (by decide), if_neg (by decide), store]

omit hin in
theorem lowMask_eq_pure {size : ℕ} (hsize : size < 8) :
    lowMask size = pure (BitVec.ofNat 64 (2 ^ (8 * size) - 1)) := by
  have hpos := Nat.two_pow_pos (8 * size)
  have hlt : 2 ^ (8 * size) < 2 ^ 64 :=
    Nat.pow_lt_pow_right (by decide) (by omega)
  have htop : (1#64 <<< (size * 8)).toNat = 2 ^ (8 * size) := by
    rw [BitVec.toNat_shiftLeft, Nat.shiftLeft_eq, BitVec.toNat_ofNat,
      Nat.one_mod_two_pow (by decide), one_mul, Nat.mul_comm size,
      Nat.mod_eq_of_lt hlt]
  have hone : (1 : BitVec 64).toNat ≤ (1#64 <<< (size * 8)).toNat := by
    rw [htop]
    exact hpos
  unfold lowMask
  rw [Checked.umul_eq_pure (by omega), pure_bind,
    Checked.shl_eq_pure (by omega), pure_bind, Checked.sub_eq_pure hone]
  congr 1
  apply BitVec.eq_of_toNat_eq
  rw [BitVec.toNat_sub_of_le (BitVec.le_def.mpr hone), htop,
    toNat_ones (by omega)]
  rfl

/-- A read is a shift by the offset in bits, where the build has one. -/
theorem read_run {size : ℕ} (hsize : size ≤ 8) (profile : Profile) :
    clint.read addr size profile =
      (shiftCount profile (8 * intoRegister (windowOffset addr))).map
        fun shift =>
          sliced ((nearest (windowOffset addr)).word clint) shift size := by
  obtain ⟨base, hfield, hoffset, -⟩ := field_run clint hin
  have hmask : ∀ v : BitVec 64,
      (if 8 ≤ size then pure v
        else do
          let mask ← lowMask size
          pure (v &&& mask) : Checked (BitVec 64)) =
        pure (v &&& BitVec.ofNat 64 (2 ^ (8 * size) - 1)) := by
    intro v
    split
    · next hfull =>
        obtain rfl : size = 8 := by omega
        rw [and_ones v (by decide), BitVec.setWidth_eq, BitVec.setWidth_eq]
    · next hpart => rw [lowMask_eq_pure (by omega), pure_bind]
  unfold read
  rw [hfield]
  simp only [hoffset, pure_bind, hmask]
  cases hcount : shiftCount profile
      (8 * intoRegister (windowOffset addr)) with
  | none => exact Checked.bind_of_none (by rw [shr_run, hcount, Option.map_none])
  | some shift =>
      exact Checked.bind_of_some (by rw [shr_run, hcount, Option.map_some])

theorem write_run (size : ℕ) (value : BitVec 64) (profile : Profile) :
    clint.write addr size value profile =
      (shiftCount profile (8 * intoRegister (windowOffset addr))).map
        fun shift => (nearest (windowOffset addr)).store clint
          (merged ((nearest (windowOffset addr)).word clint) value shift
            size) := by
  obtain ⟨base, hfield, hoffset, hstore⟩ := field_run clint hin
  unfold write
  rw [hfield]
  simp only [hoffset, pure_bind, hstore]
  have hshl : ∀ a : BitVec 64,
      Checked.shl a (8 * intoRegister (windowOffset addr)) profile =
        (shiftCount profile (8 * intoRegister (windowOffset addr))).map
          fun shift => a <<< shift := fun a => shl_run
  cases hcount : shiftCount profile
      (8 * intoRegister (windowOffset addr)) with
  | none =>
      simp only [hcount, Option.map_none] at hshl
      by_cases hfull : 8 ≤ size
      · simp only [if_pos hfull]
        exact Checked.bind_of_none (hshl value)
      · simp only [if_neg hfull, lowMask_eq_pure (not_le.mp hfull), pure_bind]
        exact Checked.bind_of_none (hshl _)
  | some shift =>
      simp only [hcount, Option.map_some] at hshl
      by_cases hfull : 8 ≤ size
      · simp only [if_pos hfull]
        rw [Checked.bind_of_some (hshl value)]
        simp [merged, hfull, Checked.pure_run]
      · simp only [if_neg hfull, lowMask_eq_pure (not_le.mp hfull), pure_bind]
        rw [Checked.bind_of_some (hshl _), Checked.bind_of_some (hshl value)]
        simp [merged, hfull, Checked.pure_run]

end Runs

section Merging

variable (full value : BitVec 64) {o size j : ℕ} (hj : j < 8)

include hj

theorem leByte_merged (hsize : size < 8) :
    Dram.leByte (merged full value (8 * o) size) j =
      if o ≤ j ∧ j < o + size then Dram.leByte value (j - o)
      else Dram.leByte full j := by
  apply BitVec.eq_of_getLsbD_eq
  intro b hb
  have hword : 8 * j + b < 64 := by omega
  have hones : ∀ i, (BitVec.ofNat 64 (2 ^ (8 * size) - 1)).getLsbD i =
      decide (i < 8 * size) := by
    intro i
    have hlt : 8 * size ≤ 64 := by omega
    rw [BitVec.getLsbD_ofNat, Nat.testBit_two_pow_sub_one]
    by_cases hi : i < 8 * size
    · simp [hi, show i < 64 by omega]
    · simp [hi]
  have hmask : (BitVec.ofNat 64 (2 ^ (8 * size) - 1) <<< (8 * o)).getLsbD
      (8 * j + b) = decide (o ≤ j ∧ j < o + size) := by
    rw [BitVec.getLsbD_shiftLeft, hones]
    by_cases hlow : o ≤ j
    · have hover : ¬ 8 * j + b < 8 * o := by omega
      have hin : 8 * j + b - 8 * o < 8 * size ↔ j < o + size := by omega
      simp [hword, hover, hin, hlow]
    · have hunder : 8 * j + b < 8 * o := by omega
      simp [hunder, hlow]
  rw [Dram.getLsbD_leByte _ _ _ hb, merged, if_neg (not_le.mpr hsize),
    BitVec.getLsbD_or, BitVec.getLsbD_and, BitVec.getLsbD_and,
    BitVec.getLsbD_not, hmask, BitVec.getLsbD_shiftLeft]
  by_cases hin : o ≤ j ∧ j < o + size
  · have hover : ¬ 8 * j + b < 8 * o := by omega
    have hindex : 8 * j + b - 8 * o = 8 * (j - o) + b := by omega
    rw [if_pos hin, Dram.getLsbD_leByte _ _ _ hb, hindex]
    simp [hin, hword, hover]
  · rw [if_neg hin, Dram.getLsbD_leByte _ _ _ hb]
    simp [hin, hword]

theorem leByte_merged_full :
    Dram.leByte (merged full value (8 * o) 8) j =
      if o ≤ j then Dram.leByte value (j - o) else 0 := by
  apply BitVec.eq_of_getLsbD_eq
  intro b hb
  have hword : 8 * j + b < 64 := by omega
  rw [Dram.getLsbD_leByte _ _ _ hb, merged, if_pos le_rfl, BitVec.not_allOnes,
    BitVec.and_zero, BitVec.zero_or, BitVec.and_allOnes,
    BitVec.getLsbD_shiftLeft]
  by_cases hlow : o ≤ j
  · have hover : ¬ 8 * j + b < 8 * o := by omega
    have hindex : 8 * j + b - 8 * o = 8 * (j - o) + b := by omega
    rw [if_pos hlow, Dram.getLsbD_leByte _ _ _ hb, hindex]
    simp [hword, hover]
  · have hunder : 8 * j + b < 8 * o := by omega
    simp [hunder, hlow]

end Merging

/-! ## Bytes of a stored register -/

theorem writable_msip {k : ℕ} (h : nearest k = Register.msip) :
    writable k = if k = 0 then 1 else 0 := by
  rcases nearest_cases k with
    ⟨hlow, -⟩ | ⟨-, hcmp⟩ | ⟨-, htime⟩
  · unfold writable
    rw [if_neg (show ¬ (0x4000 ≤ k ∧ k < 0x4008 ∨ 0xBFF8 ≤ k ∧ k < 0xC000)
      by omega)]
  · rw [hcmp] at h
    cases h
  · rw [htime] at h
    cases h

theorem writable_wide {k : ℕ} (h : nearest k ≠ Register.msip)
    (hbyte : intoRegister k < 8) : writable k = BitVec.allOnes 8 := by
  unfold writable
  rcases nearest_cases k with
    ⟨hlow, hmsip⟩ | ⟨⟨hlow, hhigh⟩, -⟩ | ⟨hhigh, -⟩
  · exact absurd hmsip h
  · rw [intoRegister_mtimecmp hlow hhigh] at hbyte
    rw [if_neg (by omega), if_pos (by omega)]
  · rw [intoRegister_mtime hhigh] at hbyte
    rw [if_neg (by omega), if_pos (by omega)]

theorem writable_outside {k : ℕ} (hbyte : 8 ≤ intoRegister k) :
    writable k = 0 := by
  unfold writable
  rcases nearest_cases k with
    ⟨hlow, -⟩ | ⟨⟨hlow, hhigh⟩, -⟩ | ⟨hhigh, -⟩
  · rw [intoRegister_msip hlow] at hbyte
    rw [if_neg (by omega), if_neg (by omega)]
  · rw [intoRegister_mtimecmp hlow hhigh] at hbyte
    rw [if_neg (by omega), if_neg (by omega)]
  · rw [intoRegister_mtime hhigh] at hbyte
    rw [if_neg (by omega), if_neg (by omega)]

theorem windowByte_outside (clint : Clint) {k : ℕ}
    (hbyte : 8 ≤ intoRegister k) : clint.windowByte k = 0 := by
  rw [windowByte_eq, if_neg (not_lt.mpr hbyte)]

theorem word_store (clint : Clint) (v : BitVec 64) {r r' : Register}
    (h : r ≠ r') : r.word (r'.store clint v) = r.word clint := by
  cases r <;> cases r' <;> first | rfl | exact absurd rfl h

theorem leByte_and_one (v : BitVec 64) (j : ℕ) :
    Dram.leByte ((v.setWidth 32 &&& 1#32).setWidth 64) j =
      Dram.leByte v j &&& if j = 0 then 1#8 else 0 := by
  apply BitVec.eq_of_getLsbD_eq
  intro b hb
  rw [Dram.getLsbD_leByte _ _ _ hb, BitVec.getLsbD_and,
    Dram.getLsbD_leByte _ _ _ hb, BitVec.getLsbD_setWidth, BitVec.getLsbD_and,
    BitVec.getLsbD_setWidth, BitVec.getLsbD_one]
  by_cases hj : j = 0
  · subst hj
    rw [if_pos rfl, BitVec.getLsbD_one]
    by_cases hzero : b = 0
    · simp [hzero]
    · simp [hzero]
  · simp [hj]

theorem windowByte_store (clint : Clint) (v : BitVec 64) (r : Register)
    (k : ℕ) :
    (r.store clint v).windowByte k =
      if nearest k = r ∧ intoRegister k < 8 then
        Dram.leByte v (intoRegister k) &&& writable k
      else clint.windowByte k := by
  rw [windowByte_eq, windowByte_eq]
  by_cases hbyte : intoRegister k < 8
  · by_cases hr : nearest k = r
    · rw [if_pos hbyte, if_pos ⟨hr, hbyte⟩, hr]
      cases r with
      | msip =>
          rw [writable_msip hr, intoRegister, hr, store, word]
          exact leByte_and_one v k
      | mtimecmp =>
          rw [writable_wide (by rw [hr]; decide) hbyte, BitVec.and_allOnes,
            store, word]
      | mtime =>
          rw [writable_wide (by rw [hr]; decide) hbyte, BitVec.and_allOnes,
            store, word]
    · rw [if_pos hbyte, if_neg (fun h => hr h.1), if_pos hbyte,
        word_store clint v hr]
  · rw [if_neg hbyte, if_neg (fun h => hbyte h.2), if_neg hbyte]

section Stored

variable (clint : Clint) (value : BitVec 64) (r : Register) {o size : ℕ}

/-- A sound interruptor has nothing where nothing can be written. -/
theorem windowByte_and_writable {clint : Clint} (hsound : clint.Sound)
    (k : ℕ) : clint.windowByte k &&& writable k = clint.windowByte k := by
  by_cases hbyte : intoRegister k < 8
  · by_cases hr : nearest k = Register.msip
    · have hinto : intoRegister k = k := by
        rw [intoRegister, hr]
        rfl
      have hone := leByte_and_one (clint.msip.setWidth 64) k
      have hmsip : clint.msip &&& 1#32 = clint.msip := hsound
      rw [setWidth_setWidth_of_le _ (by decide), BitVec.setWidth_eq,
        hmsip] at hone
      rw [windowByte_eq, if_pos hbyte, hr, hinto, word, writable_msip hr]
      exact hone.symm
    · rw [writable_wide hr hbyte, BitVec.and_allOnes]
  · rw [windowByte_outside clint (not_lt.mp hbyte)]
    exact BitVec.zero_and

theorem windowByte_stored (hsound : clint.Sound) (hsize : size < 8) (k : ℕ) :
    (r.store clint (merged (r.word clint) value (8 * o) size)).windowByte k =
      if nearest k = r ∧ o ≤ intoRegister k ∧
          intoRegister k < o + size then
        Dram.leByte value (intoRegister k - o) &&& writable k
      else clint.windowByte k := by
  rw [windowByte_store]
  by_cases hbyte : intoRegister k < 8
  · by_cases hr : nearest k = r
    · rw [if_pos ⟨hr, hbyte⟩, leByte_merged _ _ hbyte hsize]
      by_cases hin : o ≤ intoRegister k ∧ intoRegister k < o + size
      · rw [if_pos hin, if_pos ⟨hr, hin⟩]
      · have hsame : clint.windowByte k =
            Dram.leByte (r.word clint) (intoRegister k) := by
          rw [windowByte_eq, if_pos hbyte, hr]
        rw [if_neg hin, if_neg (fun h => hin h.2), ← hsame,
          windowByte_and_writable hsound]
    · rw [if_neg (fun h => hr h.1), if_neg (fun h => hr h.1)]
  · rw [if_neg (fun h => hbyte h.2), writable_outside (not_lt.mp hbyte),
      windowByte_outside clint (not_lt.mp hbyte)]
    simp

theorem windowByte_stored_full (k : ℕ) :
    (r.store clint (merged (r.word clint) value (8 * o) 8)).windowByte k =
      if nearest k = r ∧ intoRegister k < 8 then
        if o ≤ intoRegister k then
          Dram.leByte value (intoRegister k - o) &&& writable k
        else 0
      else clint.windowByte k := by
  rw [windowByte_store]
  by_cases hin : nearest k = r ∧ intoRegister k < 8
  · rw [if_pos hin, if_pos hin, leByte_merged_full _ _ hin.2]
    split
    · rfl
    · exact BitVec.zero_and
  · rw [if_neg hin, if_neg hin]

end Stored

/-! ## The law of the window -/

/-- A read returns the bytes in its range and changes nothing. -/
def ReadsBytes (profile : Profile) (addr : BitVec 64) (size : ℕ) : Prop :=
  ∀ mem : Memory, mem.clint.Sound →
    Memory.read addr size profile mem =
      some (.ok (mem.clint.window.loadLe (windowOffset addr) size),
        { mem with devicesDirty := true })

/-- A write changes the bytes in its range and no others. -/
def WritesBytes (profile : Profile) (addr : BitVec 64) (size : ℕ) : Prop :=
  ∀ (mem : Memory) (value : BitVec 64), mem.clint.Sound →
    ∃ clint',
      Memory.write addr size value profile mem =
        some (.ok (), { mem with clint := clint', devicesDirty := true }) ∧
      ∀ k, clint'.windowByte k =
        writtenByte mem.clint.windowByte (windowOffset addr) size value k

/-- A build without overflow checks reads zero, and writes nothing, at the
offsets past `msip` that are no multiple of eight. -/
def FallsBetween (profile : Profile) (off size : ℕ) : Prop :=
  profile = .release ∧ off % 8 ≠ 0 ∧ off + size ≤ 0x4000

/-- The access starts within eight bytes of a register. -/
def ReadsWithin (profile : Profile) (off size : ℕ) : Prop :=
  intoRegister off < 8 ∨ FallsBetween profile off size

/-- The same for a write, where all eight bytes can only be written at
once. -/
def WritesWithin (profile : Profile) (off size : ℕ) : Prop :=
  intoRegister off < 8 ∧ (size = 8 → intoRegister off = 0) ∨
    size ≠ 8 ∧ FallsBetween profile off size

section Accesses

variable {addr : BitVec 64} (hin : InWindow addr) {size : ℕ}
  (profile : Profile)

include hin

theorem below_dram : ¬ DRAM_BASE ≤ addr := by
  obtain ⟨-, hoff, haddr⟩ := inWindow_range hin
  have hbase : DRAM_BASE.toNat = 0x80000000 := by decide
  have hclint : CLINT_BASE.toNat = 0x2000000 := by decide
  rw [BitVec.le_def]
  omega

theorem memory_read_run (mem : Memory) :
    Memory.read addr size profile mem =
      (mem.clint.read addr size profile).map fun v =>
        (.ok v, { mem with devicesDirty := true }) := by
  have hwindow : CLINT_BASE ≤ addr ∧ addr < CLINT_END := hin
  unfold Memory.read Memory.touchDevices
  rw [if_neg (below_dram hin), Program.bind_run_ok (Program.update_run _ _ _),
    Program.bind_run_ok (Program.read_run _ _ _), if_pos hwindow]
  cases hread : mem.clint.read addr size profile with
  | none => exact Program.check_run_none hread _
  | some v => exact Program.check_run_some hread _

theorem memory_write_run (value : BitVec 64) (mem : Memory) :
    Memory.write addr size value profile mem =
      (mem.clint.write addr size value profile).map fun clint' =>
        (.ok (), { mem with clint := clint', devicesDirty := true }) := by
  have hwindow : CLINT_BASE ≤ addr ∧ addr < CLINT_END := hin
  unfold Memory.write Memory.touchDevices
  rw [if_neg (below_dram hin), Program.bind_run_ok (Program.update_run _ _ _),
    Program.bind_run_ok (Program.read_run _ _ _), if_pos hwindow]
  cases hwrite : mem.clint.write addr size value profile with
  | none => exact Program.bind_run_none (Program.check_run_none hwrite _)
  | some clint' =>
      exact Program.bind_run_ok (Program.check_run_some hwrite _)

omit hin in
theorem shiftCount_within {o : ℕ} (h : o < 8) :
    shiftCount profile (8 * o) = some (8 * o) :=
  if_pos (by omega)

omit hin in
theorem shiftCount_beyond {o : ℕ} (h : ¬ o < 8) :
    shiftCount profile (8 * o) = profile.overflow (8 * (o % 8)) := by
  rw [shiftCount, if_neg (by omega), Nat.mul_mod_mul_left 8 o 8]

omit hin in
theorem sliced_msip {clint : Clint} (hsound : clint.Sound) {shift : ℕ}
    (hshift : 0 < shift) :
    sliced (Register.msip.word clint) shift size = 0 := by
  have hzero : Register.msip.word clint >>> shift = 0 := by
    apply BitVec.eq_of_getLsbD_eq
    intro i hi
    have hmsip : clint.msip &&& 1#32 = clint.msip := hsound
    rw [BitVec.getLsbD_ushiftRight, word, BitVec.getLsbD_setWidth, ← hmsip,
      BitVec.getLsbD_and, BitVec.getLsbD_one]
    simp [hshift.ne']
  rw [sliced, hzero]
  exact BitVec.zero_and

omit hin in
theorem windowByte_between (clint : Clint) {k : ℕ} (hlow : 4 ≤ k)
    (hhigh : k < 0x4000) : clint.windowByte k = 0 := by
  unfold windowByte
  rw [if_neg (by omega), if_neg (by omega), if_neg (by omega)]

omit hin in
theorem loadLe_zero {dram : Dram} {i count : ℕ} (hcount : count ≤ 8)
    (hzero : ∀ k, i ≤ k → k < i + count → dram.byte k = 0) :
    dram.loadLe i count = 0 := by
  apply BitVec.eq_of_getLsbD_eq
  intro j hj
  rw [Dram.getLsbD_loadLe _ _ _ _ hcount]
  by_cases hrange : j < 8 * count
  · rw [hzero (i + j / 8) (by omega) (by omega)]
    simp
  · simp [hrange]

theorem readsBytes_of_within (hsize : size ≤ 8)
    (h : ReadsWithin profile (windowOffset addr) size) :
    ReadsBytes profile addr size := by
  intro mem hsound
  rw [memory_read_run hin, read_run _ hin hsize]
  by_cases hinto : intoRegister (windowOffset addr) < 8
  · rw [shiftCount_within profile hinto, loadLe_window _ hsize hinto]
    rfl
  · obtain ⟨rfl, hodd, hbelow⟩ := h.resolve_left hinto
    have hrange : windowOffset addr < 0x4000 := by omega
    rw [intoRegister_msip hrange] at hinto
    have hnone : mem.clint.window.loadLe (windowOffset addr) size = 0 := by
      apply loadLe_zero hsize
      intro k hle hlt
      exact windowByte_between mem.clint (by omega) (by omega)
    rw [intoRegister_msip hrange, shiftCount_beyond _ hinto,
      nearest_msip hrange, hnone]
    simp only [Profile.overflow, Option.map_some]
    rw [sliced_msip hsound (by omega)]

omit hin in
/-- A narrow write that starts in its register covers there what it covers of
the window. -/
theorem covered_iff {off k : ℕ} (hinto : intoRegister off < 8)
    (hsize : size ≤ 8) (hbyte : intoRegister k < 8) :
    off ≤ k ∧ k < off + size ↔
      nearest k = nearest off ∧ intoRegister off ≤ intoRegister k ∧
        intoRegister k < intoRegister off + size := by
  constructor
  · rintro ⟨hle, hlt⟩
    obtain ⟨j, rfl⟩ := Nat.exists_eq_add_of_le hle
    rw [nearest_add hinto (by omega), intoRegister_add hinto (by omega)]
    exact ⟨rfl, by omega, by omega⟩
  · rintro ⟨hsame, hle, hlt⟩
    have hoff := start_nearest_le off
    have hk := start_nearest_le k
    unfold intoRegister at hle hlt
    rw [hsame] at hle hlt hk
    omega

omit hin in
theorem covered_sub {off k : ℕ} (hsame : nearest k = nearest off) :
    k - off = intoRegister k - intoRegister off := by
  have hoff := start_nearest_le off
  have hk := start_nearest_le k
  unfold intoRegister
  rw [hsame] at hk ⊢
  omega

theorem writesBytes_of_within (hsize : size ≤ 8)
    (h : WritesWithin profile (windowOffset addr) size) :
    WritesBytes profile addr size := by
  intro mem value hsound
  rw [memory_write_run hin, write_run _ hin]
  have hcases : (intoRegister (windowOffset addr) < 8 ∧
      (size = 8 → intoRegister (windowOffset addr) = 0)) ∨
      ¬ intoRegister (windowOffset addr) < 8 ∧ size ≠ 8 ∧
        FallsBetween profile (windowOffset addr) size := by
    by_cases hinto : intoRegister (windowOffset addr) < 8
    · left
      rcases h with hwhole | hnarrow
      · exact hwhole
      · exact ⟨hinto, fun hfull => absurd hfull hnarrow.1⟩
    · exact Or.inr ⟨hinto, h.resolve_left fun hwhole => hinto hwhole.1⟩
  rcases hcases with ⟨hinto, hwhole⟩ | ⟨hinto, hnarrow, rfl, hodd, hbelow⟩
  · rw [shiftCount_within profile hinto]
    refine ⟨_, rfl, fun k => ?_⟩
    unfold writtenByte
    by_cases hbyte : intoRegister k < 8
    · have hcovered := covered_iff hinto hsize hbyte
      by_cases hrange : windowOffset addr ≤ k ∧ k < windowOffset addr + size
      · obtain ⟨hsame, hle, hlt⟩ := hcovered.mp hrange
        rw [if_pos hrange, covered_sub hsame]
        by_cases hfull : size = 8
        · subst hfull
          rw [windowByte_stored_full, if_pos ⟨hsame, hbyte⟩, if_pos hle]
        · rw [windowByte_stored _ _ _ hsound (by omega),
            if_pos ⟨hsame, hle, hlt⟩]
      · rw [if_neg hrange]
        by_cases hfull : size = 8
        · subst hfull
          have hother : ¬ nearest k = nearest (windowOffset addr) := by
            intro hsame
            have hstart := hwhole rfl
            exact hrange (hcovered.mpr ⟨hsame, by omega, by omega⟩)
          rw [windowByte_stored_full, if_neg fun h => hother h.1]
        · rw [windowByte_stored _ _ _ hsound (by omega),
            if_neg (mt hcovered.mpr hrange)]
    · rw [windowByte_outside _ (not_lt.mp hbyte),
        writable_outside (not_lt.mp hbyte),
        windowByte_outside _ (not_lt.mp hbyte)]
      simp
  · have hrange : windowOffset addr < 0x4000 := by omega
    rw [shiftCount_beyond _ hinto, nearest_msip hrange]
    refine ⟨_, rfl, fun k => ?_⟩
    rw [intoRegister_msip hrange] at hinto ⊢
    have hsilent : ∀ v : BitVec 8, 0 < k → k < 0x4000 →
        v &&& writable k = mem.clint.windowByte k := by
      intro v hpos hhigh
      have hnone : writable k = 0 := by
        rw [writable_msip (nearest_msip hhigh), if_neg hpos.ne']
      rw [← windowByte_and_writable hsound, hnone]
      simp
    rw [windowByte_stored _ _ _ hsound (by omega)]
    unfold writtenByte
    calc
      _ = mem.clint.windowByte k := by
        split
        · next hstored =>
            rcases nearest_cases k with
              ⟨hlow, -⟩ | ⟨-, hcmp⟩ | ⟨-, htime⟩
            · rw [intoRegister_msip hlow] at hstored ⊢
              exact hsilent _ (by omega) hlow
            · rw [hcmp] at hstored
              cases hstored.1
            · rw [htime] at hstored
              cases hstored.1
        · rfl
      _ = _ := by
        split
        · exact (hsilent _ (by omega) (by omega)).symm
        · rfl

omit hin in
def saturated : Clint :=
  { msip := 1, mtimecmp := BitVec.allOnes 64, mtime := BitVec.allOnes 64 }

omit hin in
theorem saturated_sound : saturated.Sound := rfl

omit hin in
theorem loadLe_window_bit (clint : Clint) (off : ℕ) {j : ℕ} (hj : j < size)
    (hsize : size ≤ 8) :
    (clint.window.loadLe off size).getLsbD (8 * j) =
      (clint.windowByte (off + j)).getLsbD 0 := by
  have hbyte : clint.window.byte (off + j) = clint.windowByte (off + j) := rfl
  rw [Dram.getLsbD_loadLe _ _ _ _ hsize, Nat.mul_div_cancel_left j (by decide),
    Nat.mul_mod_right, hbyte]
  simp [hj]

omit hin in
theorem sliced_bit (full : BitVec 64) (shift : ℕ) (hpos : 0 < size)
    (hsize : size ≤ 8) :
    (sliced full shift size).getLsbD 0 = full.getLsbD shift := by
  rw [sliced, and_ones _ (by omega)]
  simp [hpos]

omit hin in
theorem within_of_readsBytes (hpos : 0 < size) (hsize : size ≤ 8)
    (hin : InWindow addr) (h : ReadsBytes profile addr size) :
    ReadsWithin profile (windowOffset addr) size := by
  by_contra hout
  obtain ⟨hinto, hbetween⟩ := not_or.mp hout
  have hread := h { Memory.new 0 with clint := saturated } rfl
  rw [memory_read_run hin, read_run _ hin hsize,
    shiftCount_beyond _ hinto] at hread
  cases profile with
  | debug => cases hread
  | release =>
      simp only [Profile.overflow, Option.map_some, Option.some.injEq,
        Prod.mk.injEq, Except.ok.injEq, and_true] at hread
      obtain ⟨-, hoff, -⟩ := inWindow_range hin
      have hfirst : (saturated.window.loadLe (windowOffset addr) size).getLsbD
          0 = false := by
        have hbit := loadLe_window_bit saturated (windowOffset addr) hpos hsize
        rw [Nat.mul_zero, Nat.add_zero,
          windowByte_outside _ (not_lt.mp hinto)] at hbit
        rw [hbit]
        rfl
      rcases nearest_cases (windowOffset addr) with
        ⟨hlow, hmsip⟩ | ⟨⟨hlow, hhigh⟩, hcmp⟩ | ⟨hhigh, -⟩
      · rw [hmsip, intoRegister_msip hlow] at hread
        by_cases heven : windowOffset addr % 8 = 0
        · rw [← hread, heven, sliced_bit _ _ hpos hsize] at hfirst
          exact absurd hfirst (by decide)
        · have habove : 0x4000 < windowOffset addr + size := by
            by_contra hbelow
            exact hbetween ⟨rfl, heven, not_lt.mp hbelow⟩
          have hbit := @loadLe_window_bit size saturated (windowOffset addr)
            (0x4000 - windowOffset addr) (by omega) hsize
          rw [Nat.add_sub_of_le hlow.le, ← hread,
            sliced_msip saturated_sound (by omega),
            show (saturated.windowByte 0x4000).getLsbD 0 = true by
              decide] at hbit
          simp at hbit
      · rw [hcmp] at hread
        have hshift : 8 * (intoRegister (windowOffset addr) % 8) < 64 := by
          omega
        rw [← hread, sliced_bit _ _ hpos hsize, word, saturated,
          BitVec.getLsbD_allOnes] at hfirst
        simp only [hshift, decide_true] at hfirst
        cases hfirst
      · rw [intoRegister_mtime hhigh] at hinto
        omega

omit hin in
theorem windowByte_default (k : ℕ) : Clint.default.windowByte k = 0 := by
  unfold windowByte default Dram.leByte
  simp

omit hin in
theorem leByte_allOnes {j : ℕ} (hj : j < 8) :
    Dram.leByte (BitVec.allOnes 64) j = BitVec.allOnes 8 := by
  apply BitVec.eq_of_getLsbD_eq
  intro b hb
  rw [Dram.getLsbD_leByte _ _ _ hb, BitVec.getLsbD_allOnes,
    BitVec.getLsbD_allOnes]
  simp [hb]
  omega

omit hin in
theorem intoRegister_start (r : Register) :
    nearest r.start = r ∧ intoRegister r.start = 0 := by
  cases r with
  | msip => exact ⟨nearest_msip (by decide), intoRegister_msip (by decide)⟩
  | mtimecmp =>
      exact ⟨nearest_mtimecmp (by decide) (by decide),
        intoRegister_mtimecmp (by decide) (by decide)⟩
  | mtime => exact ⟨nearest_mtime (by decide), intoRegister_mtime (by decide)⟩

omit hin in
theorem default_sound : Clint.default.Sound := rfl

omit hin in
theorem writable_start (r : Register) : writable r.start ≠ 0 := by
  obtain ⟨hnear, hzero⟩ := intoRegister_start r
  by_cases hr : r = Register.msip
  · subst hr
    decide
  · rw [writable_wide (by rw [hnear]; exact hr) (by omega)]
    decide

theorem stored_of_writesBytes (h : WritesBytes profile addr size)
    {clint : Clint} (hsound : clint.Sound) (value : BitVec 64) :
    ∃ shift,
      shiftCount profile (8 * intoRegister (windowOffset addr)) =
        some shift ∧
      ∀ k, ((nearest (windowOffset addr)).store clint
          (merged ((nearest (windowOffset addr)).word clint) value shift
            size)).windowByte k =
        writtenByte clint.windowByte (windowOffset addr) size value k := by
  obtain ⟨clint', hwrite, hbytes⟩ :=
    h { Memory.new 0 with clint := clint } value hsound
  rw [memory_write_run hin, write_run _ hin] at hwrite
  cases hcount : shiftCount profile
      (8 * intoRegister (windowOffset addr)) with
  | none =>
      rw [hcount] at hwrite
      cases hwrite
  | some shift =>
      simp only [hcount, Option.map_some, Option.some.injEq, Prod.mk.injEq,
        true_and, Memory.mk.injEq, and_true] at hwrite
      obtain ⟨-, rfl, -⟩ := hwrite
      exact ⟨shift, rfl, hbytes⟩

/-- A write of eight bytes that starts past a register's first byte clears
that byte. -/
theorem not_writesBytes_full {o : ℕ} (ho : 0 < o)
    (hpast : intoRegister (windowOffset addr) ≠ 0)
    (hcount : shiftCount profile (8 * intoRegister (windowOffset addr)) =
      some (8 * o)) : ¬ WritesBytes profile addr 8 := by
  intro h
  obtain ⟨shift, hshift, hbytes⟩ :=
    stored_of_writesBytes hin profile h saturated_sound 0
  obtain rfl := Option.some.inj (hcount.symm.trans hshift)
  have hstart := start_nearest_le (windowOffset addr)
  have hbefore : ¬ (windowOffset addr ≤ (nearest (windowOffset addr)).start ∧
      (nearest (windowOffset addr)).start < windowOffset addr + 8) := by
    unfold intoRegister at hpast
    omega
  have hfirst := hbytes (nearest (windowOffset addr)).start
  obtain ⟨hnear, hzero⟩ := intoRegister_start (nearest (windowOffset addr))
  rw [windowByte_stored_full, hnear, hzero, if_pos ⟨rfl, by decide⟩,
    if_neg (by omega), writtenByte, if_neg hbefore] at hfirst
  cases hr : nearest (windowOffset addr) <;> rw [hr] at hfirst <;>
    exact absurd hfirst (by decide)

/-- A write that wraps into its register from beyond it changes a byte that it
does not cover. -/
theorem not_writesBytes_wrapped (hpos : 0 < size) (hsize : size ≤ 8)
    (hover : ¬ intoRegister (windowOffset addr) < 8)
    (hcase : intoRegister (windowOffset addr) % 8 = 0 ∨
      size < 8 ∧ nearest (windowOffset addr) ≠ Register.msip) :
    ¬ WritesBytes .release addr size := by
  intro h
  obtain ⟨shift, hshift, hbytes⟩ :=
    stored_of_writesBytes hin .release h default_sound (BitVec.allOnes 64)
  rw [shiftCount_beyond _ hover] at hshift
  obtain rfl := Option.some.inj hshift
  have hstart := start_nearest_le (windowOffset addr)
  have hlow : intoRegister (windowOffset addr) % 8 < 8 :=
    Nat.mod_lt _ (by decide)
  obtain ⟨hnear, hzero⟩ := intoRegister_start (nearest (windowOffset addr))
  have hwithin : intoRegister (nearest (windowOffset addr)).start < 8 := by
    omega
  have hnear' := nearest_add hwithin hlow
  have hinto' := intoRegister_add hwithin hlow
  rw [hnear] at hnear'
  rw [hzero, Nat.zero_add] at hinto'
  have hbefore : ¬ windowOffset addr ≤ (nearest (windowOffset addr)).start +
      intoRegister (windowOffset addr) % 8 := by
    unfold intoRegister at hover hlow ⊢
    omega
  have hset : writable ((nearest (windowOffset addr)).start +
      intoRegister (windowOffset addr) % 8) ≠ 0 := by
    rcases hcase with hfirst | ⟨-, hwide⟩
    · rw [hfirst, Nat.add_zero]
      exact writable_start _
    · rw [← hnear'] at hwide
      rw [writable_wide hwide (by omega)]
      decide
  have hbyte := hbytes ((nearest (windowOffset addr)).start +
    intoRegister (windowOffset addr) % 8)
  rw [writtenByte, if_neg fun h => hbefore h.1, windowByte_default] at hbyte
  by_cases hnarrow : size < 8
  · rw [windowByte_stored _ _ _ default_sound hnarrow, hinto', hnear',
      if_pos ⟨rfl, le_rfl, by omega⟩, Nat.sub_self, leByte_allOnes (by decide),
      BitVec.allOnes_and] at hbyte
    exact hset hbyte
  · obtain rfl : size = 8 := by omega
    rw [windowByte_stored_full, hinto', hnear', if_pos ⟨rfl, hlow⟩,
      if_pos le_rfl, Nat.sub_self, leByte_allOnes (by decide),
      BitVec.allOnes_and] at hbyte
    exact hset hbyte

/-- A narrow write before `mtimecmp` that reaches into it leaves it as it
was. -/
theorem not_writesBytes_reaching (hnarrow : size < 8)
    (hlow : windowOffset addr < 0x4000)
    (hover : ¬ intoRegister (windowOffset addr) < 8)
    (hreach : 0x4000 < windowOffset addr + size) :
    ¬ WritesBytes .release addr size := by
  intro h
  obtain ⟨shift, hshift, hbytes⟩ :=
    stored_of_writesBytes hin .release h default_sound (BitVec.allOnes 64)
  rw [shiftCount_beyond _ hover] at hshift
  obtain rfl := Option.some.inj hshift
  have hother : nearest 0x4000 ≠ nearest (windowOffset addr) := by
    rw [nearest_msip hlow]
    decide
  have hbyte := hbytes 0x4000
  rw [windowByte_stored _ _ _ default_sound hnarrow,
    if_neg fun h => hother h.1, writtenByte, if_pos ⟨hlow.le, hreach⟩,
    leByte_allOnes (by omega), windowByte_default] at hbyte
  exact absurd hbyte (by decide)

theorem within_of_writesBytes (hpos : 0 < size) (hsize : size ≤ 8)
    (h : WritesBytes profile addr size) :
    WritesWithin profile (windowOffset addr) size := by
  by_contra hout
  obtain ⟨hwhole, hbetween⟩ := not_or.mp hout
  by_cases hinto : intoRegister (windowOffset addr) < 8
  · have hpast : size = 8 ∧ intoRegister (windowOffset addr) ≠ 0 := by
      by_contra hnot
      exact hwhole ⟨hinto, fun hfull => not_not.mp fun hne => hnot ⟨hfull, hne⟩⟩
    obtain ⟨rfl, hne⟩ := hpast
    exact not_writesBytes_full hin profile (Nat.pos_of_ne_zero hne) hne
      (shiftCount_within profile hinto) h
  cases profile with
  | debug =>
      obtain ⟨shift, hshift, -⟩ :=
        stored_of_writesBytes hin .debug h default_sound 0
      rw [shiftCount_beyond _ hinto] at hshift
      cases hshift
  | release =>
      by_cases haligned : intoRegister (windowOffset addr) % 8 = 0
      · exact not_writesBytes_wrapped hin hpos hsize hinto (Or.inl haligned) h
      by_cases hfull : size = 8
      · subst hfull
        exact not_writesBytes_full hin .release (Nat.pos_of_ne_zero haligned)
          (by omega) (shiftCount_beyond .release hinto) h
      by_cases hmsip : nearest (windowOffset addr) = Register.msip
      · have hlow : windowOffset addr < 0x4000 := by
          rcases nearest_cases (windowOffset addr) with
            ⟨hlow, -⟩ | ⟨-, hcmp⟩ | ⟨-, htime⟩
          · exact hlow
          · rw [hcmp] at hmsip
            cases hmsip
          · rw [htime] at hmsip
            cases hmsip
        rw [intoRegister_msip hlow] at haligned
        refine not_writesBytes_reaching hin (by omega) hlow hinto ?_ h
        by_contra hbelow
        exact hbetween ⟨hfull, rfl, haligned, not_lt.mp hbelow⟩
      · exact not_writesBytes_wrapped hin hpos hsize hinto
          (Or.inr ⟨by omega, hmsip⟩) h

end Accesses

/-! ## Histories of writes -/

structure WindowWrite where
  addr : BitVec 64
  size : ℕ
  value : BitVec 64

def lastBytes (bytes : ℕ → BitVec 8) (writes : List WindowWrite) :
    ℕ → BitVec 8 :=
  writes.foldl (fun bytes write =>
    writtenByte bytes (windowOffset write.addr) write.size write.value) bytes

def writeAll : List WindowWrite → Program Memory Unmapped Unit
  | [] => pure ()
  | write :: rest => do
      Memory.write write.addr write.size write.value
      writeAll rest

def WindowWrite.Within (profile : Profile) (write : WindowWrite) : Prop :=
  InWindow write.addr ∧ Memory.validSize write.size = true ∧
    WritesWithin profile (windowOffset write.addr) write.size

theorem store_sound {clint : Clint} (hsound : clint.Sound) (v : BitVec 64)
    (r : Register) : (r.store clint v).Sound := by
  cases r with
  | msip =>
      unfold Sound store
      rw [BitVec.and_assoc, BitVec.and_self]
  | mtimecmp => exact hsound
  | mtime => exact hsound

theorem writeAll_run {profile : Profile} {writes : List WindowWrite}
    (hwrites : ∀ write ∈ writes, write.Within profile) (mem : Memory)
    (hsound : mem.clint.Sound) :
    ∃ mem', writeAll writes profile mem = some (.ok (), mem') ∧
      mem'.clint.Sound ∧
      mem'.clint.windowByte = lastBytes mem.clint.windowByte writes := by
  induction writes generalizing mem with
  | nil => exact ⟨mem, rfl, hsound, rfl⟩
  | cons write rest ih =>
      obtain ⟨hin, hsize, hwithin⟩ := hwrites write List.mem_cons_self
      obtain ⟨clint', hrun, hbytes⟩ := writesBytes_of_within hin profile
        (Memory.size_le_of_valid hsize) hwithin mem write.value hsound
      have hsound' : clint'.Sound := by
        rw [memory_write_run hin, write_run _ hin] at hrun
        cases hcount : shiftCount profile
            (8 * intoRegister (windowOffset write.addr)) with
        | none =>
            rw [hcount] at hrun
            cases hrun
        | some shift =>
            simp only [hcount, Option.map_some, Option.some.injEq,
              Prod.mk.injEq, true_and, Memory.mk.injEq, and_true] at hrun
            obtain ⟨-, rfl, -⟩ := hrun
            exact store_sound hsound _ _
      obtain ⟨mem', hrest, hsound'', hlast⟩ := ih
        (fun other hother => hwrites other (List.mem_cons_of_mem _ hother))
        { mem with clint := clint', devicesDirty := true } hsound'
      refine ⟨mem', ?_, hsound'', ?_⟩
      · rw [writeAll, Program.bind_run_ok hrun, hrest]
      · have hstep : clint'.windowByte = writtenByte mem.clint.windowByte
            (windowOffset write.addr) write.size write.value := funext hbytes
        have hlast' : mem'.clint.windowByte =
            lastBytes clint'.windowByte rest := hlast
        rw [hlast', hstep, lastBytes, lastBytes, List.foldl_cons]

/-! ## Where the law holds -/

theorem validSize_range {size : ℕ} (hsize : Memory.validSize size = true) :
    0 < size ∧ size ≤ 8 := by
  refine ⟨?_, Memory.size_le_of_valid hsize⟩
  rw [Nat.pos_iff_ne_zero]
  rintro rfl
  exact absurd hsize (by decide)

/-- An access follows the law of the window exactly where it starts within
eight bytes of a register and, written whole, at its first byte.  So does every
history of such accesses. -/
theorem window_law_iff (profile : Profile) :
    (∀ (addr : BitVec 64) (size : ℕ), InWindow addr →
      Memory.validSize size = true →
        (ReadsBytes profile addr size ↔
          ReadsWithin profile (windowOffset addr) size) ∧
        (WritesBytes profile addr size ↔
          WritesWithin profile (windowOffset addr) size)) ∧
    (∀ (writes : List WindowWrite) (mem : Memory), mem.clint.Sound →
      (∀ write ∈ writes, write.Within profile) →
        ∃ mem', writeAll writes profile mem = some (.ok (), mem') ∧
          mem'.clint.Sound ∧
          mem'.clint.windowByte =
            lastBytes mem.clint.windowByte writes) := by
  constructor
  · intro addr size hin hsize
    obtain ⟨hpos, hle⟩ := validSize_range hsize
    constructor
    · exact ⟨within_of_readsBytes profile hpos hle hin,
        readsBytes_of_within hin profile hle⟩
    · exact ⟨within_of_writesBytes hin profile hpos hle,
        writesBytes_of_within hin profile hle⟩
  · intro writes mem hsound hwrites
    exact writeAll_run hwrites mem hsound

/-- A deadline, its lowest byte once more, and an interrupt. -/
def timerWrites : List WindowWrite :=
  [⟨CLINT_MTIMECMP, 8, 0x1122334455667788⟩, ⟨CLINT_MTIMECMP, 1, 0x99⟩,
    ⟨CLINT_BASE, 4, 3⟩]

/-- The comparison register is written whole, the interrupt register of an
absent hart cannot be read, and after some writes the window holds their
bytes. -/
theorem window_law_timer :
    WritesBytes .debug CLINT_MTIMECMP 8 ∧
      ¬ ReadsBytes .debug (CLINT_BASE + 8) 1 ∧
      ∃ mem', writeAll timerWrites .debug (Memory.new 0) =
          some (.ok (), mem') ∧ mem'.clint.Sound ∧
        [0x4000, 0x4001, 0].map mem'.clint.windowByte = [0x99, 0x77, 1] := by
  have hin : InWindow CLINT_MTIMECMP := ⟨by decide, by decide⟩
  have hin' : InWindow (CLINT_BASE + 8) := ⟨by decide, by decide⟩
  have hwritten : WritesWithin .debug (windowOffset CLINT_MTIMECMP) 8 :=
    Or.inl ⟨by decide, fun _ => by decide⟩
  have hread : ¬ ReadsWithin .debug (windowOffset (CLINT_BASE + 8)) 1 := by
    rintro (hnear | ⟨hrelease, -⟩)
    · exact absurd hnear (by decide)
    · cases hrelease
  have hwithin : ∀ write ∈ timerWrites, write.Within .debug := by
    intro write hwrite
    simp only [timerWrites, List.mem_cons, List.not_mem_nil, or_false]
      at hwrite
    rcases hwrite with rfl | rfl | rfl
    · exact ⟨hin, rfl, hwritten⟩
    · exact ⟨hin, rfl, Or.inl ⟨by decide, fun h => by cases h⟩⟩
    · exact ⟨⟨by decide, by decide⟩, rfl,
        Or.inl ⟨by decide, fun h => by cases h⟩⟩
  obtain ⟨haccesses, hhistories⟩ := window_law_iff .debug
  obtain ⟨mem', hrun, hsound, hbytes⟩ :=
    hhistories timerWrites (Memory.new 0) rfl hwithin
  refine ⟨(haccesses CLINT_MTIMECMP 8 hin rfl).2.mpr hwritten,
    fun h => hread ((haccesses (CLINT_BASE + 8) 1 hin' rfl).1.mp h), mem', hrun,
    hsound, ?_⟩
  rw [hbytes]
  decide

/-- The interrupt register of an absent hart is an alias of this hart's, or a
panic, and the upper half of `mtimecmp` cannot be written with eight bytes. -/
theorem not_window_law :
    InWindow (CLINT_BASE + 8) ∧
      (Memory.write (CLINT_BASE + 8) 4 1 .release (Memory.new 0)).map
          (fun result => result.2.clint.msip) = some 1 ∧
      Memory.write (CLINT_BASE + 8) 4 1 .debug (Memory.new 0) = none ∧
      (∀ profile, ¬ WritesBytes profile (CLINT_BASE + 8) 4) ∧
      ∀ profile, ¬ WritesBytes profile (CLINT_MTIMECMP + 4) 8 := by
  have hin : InWindow (CLINT_BASE + 8) := ⟨by decide, by decide⟩
  have hin' : InWindow (CLINT_MTIMECMP + 4) := ⟨by decide, by decide⟩
  have hoff : windowOffset (CLINT_BASE + 8) = 8 := by decide
  have hoff' : windowOffset (CLINT_MTIMECMP + 4) = 0x4004 := by decide
  refine ⟨hin, ?_, ?_, ?_, ?_⟩
  · rw [memory_write_run hin, write_run _ hin, hoff]
    rfl
  · rw [memory_write_run hin, write_run _ hin, hoff]
    rfl
  · intro profile h
    have hwithin := within_of_writesBytes hin profile (by decide) (by decide) h
    rw [hoff] at hwithin
    rcases hwithin with ⟨hlow, -⟩ | ⟨-, -, hodd, -⟩
    · exact absurd hlow (by decide)
    · exact hodd rfl
  · intro profile h
    have hwithin := within_of_writesBytes hin' profile (by decide) (by decide)
      h
    rw [hoff'] at hwithin
    rcases hwithin with ⟨-, hwhole⟩ | ⟨hnarrow, -⟩
    · exact absurd (hwhole rfl) (by decide)
    · exact hnarrow rfl

end Clint

end Nanoemu
