import Nanoemu.BitFields
import Nanoemu.MemoryAccess
import Nanoemu.Mmu

/-!
# The walk as a relation

What a page table says an address maps to, stated without the loop: a chain of
valid pointers ends in a valid leaf, and the leaf grants the access or does
not.  The loop of the walker computes exactly that, and writes nothing but the
accessed and dirty bits of the leaf.
-/

namespace Nanoemu

open CheckedProgram

namespace Mmu

def entryAddr (scheme : Mode) (va table : BitVec 64) (level : ℕ) :
    BitVec 64 :=
  table + ((va >>> (12 + scheme.vpnBits * level)) &&&
    (1#64 <<< scheme.vpnBits - 1)) * BitVec.ofNat 64 scheme.pteSize

def entryAt (scheme : Mode) (dram : Dram) (addr : BitVec 64) : BitVec 64 :=
  dram.loadLe (Memory.offset addr) scheme.pteSize

def nextTable (scheme : Mode) (pte : BitVec 64) : BitVec 64 :=
  ppn scheme pte * PAGE_SIZE

def rootTable (scheme : Mode) (satp : BitVec 64) : BitVec 64 :=
  (satp &&& scheme.ppnMask) * PAGE_SIZE

/-- Present, and not of the reserved encoding that is writable without being
readable. -/
structure ValidEntry (pte : BitVec 64) : Prop where
  present : pte.getLsbD 0 = true
  readable_of_writable : pte.getLsbD 2 = true → pte.getLsbD 1 = true

/-- Neither readable nor executable. -/
def PointerEntry (pte : BitVec 64) : Prop :=
  pte.getLsbD 1 = false ∧ pte.getLsbD 3 = false

/-- An entry at which a walk ends. -/
structure Leaf where
  level : ℕ
  addr : BitVec 64
  pte : BitVec 64

/-- With `remaining` levels to go, the walk of `va` from `table` follows valid
pointers to a valid leaf. -/
inductive Reaches (scheme : Mode) (dram : Dram) (va : BitVec 64) :
    (remaining : ℕ) → (table : BitVec 64) → Leaf → Prop where
  | leaf {level : ℕ} {table : BitVec 64} :
      ValidEntry (entryAt scheme dram (entryAddr scheme va table level)) →
      ¬ PointerEntry (entryAt scheme dram (entryAddr scheme va table level)) →
      Reaches scheme dram va (level + 1) table
        { level := level
          addr := entryAddr scheme va table level
          pte := entryAt scheme dram (entryAddr scheme va table level) }
  | pointer {level : ℕ} {table : BitVec 64} {reached : Leaf} :
      ValidEntry (entryAt scheme dram (entryAddr scheme va table level)) →
      PointerEntry (entryAt scheme dram (entryAddr scheme va table level)) →
      Reaches scheme dram va level
        (nextTable scheme
          (entryAt scheme dram (entryAddr scheme va table level))) reached →
      Reaches scheme dram va (level + 1) table reached

/-- The addresses of the entries the walk of `va` reads. -/
def entriesRead (scheme : Mode) (dram : Dram) (va : BitVec 64) :
    (remaining : ℕ) → (table : BitVec 64) → List (BitVec 64)
  | 0, _ => []
  | level + 1, table =>
      let addr := entryAddr scheme va table level
      let pte := entryAt scheme dram addr
      addr ::
        if valid pte && isPointer pte then
          entriesRead scheme dram va level (nextTable scheme pte)
        else []

/-- The permission bit an access needs: X is bit 3 of an entry, R bit 1 and W
bit 2.  MXR, bit 19 of the status, makes an executable page readable. -/
def Permits (pte status : BitVec 64) : Access → Prop
  | .fetch => pte.getLsbD 3 = true
  | .load => pte.getLsbD 1 = true ∨
      (status.getLsbD 19 = true ∧ pte.getLsbD 3 = true)
  | .store => pte.getLsbD 2 = true

/-- User pages, bit 4 of their entry set, are for the user, and for supervisor
data accesses under SUM, bit 18 of the status. -/
def RespectsUser (pte status : BitVec 64) (effective : Priv)
    (access : Access) : Prop :=
  match effective with
  | .user => pte.getLsbD 4 = true
  | .supervisor =>
      pte.getLsbD 4 = true → access ≠ .fetch ∧ status.getLsbD 18 = true
  | .machine => True

/-- The leaf lets the access through, and its page is aligned to its size. -/
structure Leaf.Grants (reached : Leaf) (scheme : Mode) (status : BitVec 64)
    (effective : Priv) (access : Access) : Prop where
  permits : Permits reached.pte status access
  respects_user : RespectsUser reached.pte status effective access
  aligned : 2 ^ (scheme.vpnBits * reached.level) ∣ (ppn scheme reached.pte).toNat

/-- The page number of the leaf, with the low bits of the address below it. -/
def Leaf.target (reached : Leaf) (scheme : Mode) (va : BitVec 64) : BitVec 64 :=
  BitVec.ofNat 64
    ((ppn scheme reached.pte).toNat * 4096 +
      va.toNat % 2 ^ (12 + scheme.vpnBits * reached.level))

/-- Every bit from 39 on repeats bit 38. -/
def Canonical (va : BitVec 64) : Prop :=
  ∀ i, 38 ≤ i → i < 64 → va.getLsbD i = va.getLsbD 38

theorem valid_iff (pte : BitVec 64) : valid pte = true ↔ ValidEntry pte := by
  have hv : pte &&& V ≠ 0 ↔ pte.getLsbD 0 = true :=
    BitFields.and_bit_ne_zero pte 0
  have hr : pte &&& R ≠ 0 ↔ pte.getLsbD 1 = true :=
    BitFields.and_bit_ne_zero pte 1
  have hw : pte &&& W ≠ 0 ↔ pte.getLsbD 2 = true :=
    BitFields.and_bit_ne_zero pte 2
  rw [valid]
  simp only [Bool.not_eq_true', Bool.or_eq_false_iff, Bool.and_eq_false_iff,
    beq_eq_false_iff_ne, bne_eq_false_iff_eq]
  constructor
  · rintro ⟨hpresent, hwrite⟩
    refine ⟨hv.mp hpresent, fun hwritable => hr.mp ?_⟩
    exact hwrite.resolve_right (hw.mpr hwritable)
  · rintro ⟨hpresent, hwrite⟩
    refine ⟨hv.mpr hpresent, ?_⟩
    by_cases hzero : pte &&& W = 0
    · exact Or.inr hzero
    · exact Or.inl (hr.mpr (hwrite (hw.mp hzero)))

theorem isPointer_iff (pte : BitVec 64) :
    isPointer pte = true ↔ PointerEntry pte := by
  have hread : pte &&& R = 0 ↔ pte.getLsbD 1 = false := by
    rw [← not_iff_not, Bool.not_eq_false]
    exact BitFields.and_bit_ne_zero pte 1
  have hexecute : pte &&& X = 0 ↔ pte.getLsbD 3 = false := by
    rw [← not_iff_not, Bool.not_eq_false]
    exact BitFields.and_bit_ne_zero pte 3
  rw [isPointer, beq_iff_eq, PointerEntry, ← hread, ← hexecute]
  have hsplit : pte &&& (R ||| X) = (pte &&& R) ||| (pte &&& X) :=
    BitVec.and_or_distrib_left
  rw [hsplit, BitVec.ofNat_eq_ofNat]
  constructor
  · intro hzero
    have hbits : ∀ i, (pte &&& R).getLsbD i = false ∧
        (pte &&& X).getLsbD i = false := by
      intro i
      have hbit := congrArg (fun word => word.getLsbD i) hzero
      simpa only [BitVec.getLsbD_or, BitVec.getLsbD_zero,
        Bool.or_eq_false_iff] using hbit
    exact ⟨BitVec.eq_of_getLsbD_eq fun i _ => by
        rw [(hbits i).1, BitVec.getLsbD_zero],
      BitVec.eq_of_getLsbD_eq fun i _ => by
        rw [(hbits i).2, BitVec.getLsbD_zero]⟩
  · rintro ⟨hr, hx⟩
    rw [hr, hx]
    rfl

theorem permitted_iff (pte status : BitVec 64) (access : Access) :
    permitted pte status access = true ↔ Permits pte status access := by
  have hr : pte &&& R ≠ 0 ↔ pte.getLsbD 1 = true :=
    BitFields.and_bit_ne_zero pte 1
  have hw : pte &&& W ≠ 0 ↔ pte.getLsbD 2 = true :=
    BitFields.and_bit_ne_zero pte 2
  have hx : pte &&& X ≠ 0 ↔ pte.getLsbD 3 = true :=
    BitFields.and_bit_ne_zero pte 3
  have hmxr : status &&& Mstatus.MXR ≠ 0 ↔ status.getLsbD 19 = true :=
    BitFields.and_bit_ne_zero status 19
  cases access with
  | fetch => rw [permitted, Permits, bne_iff_ne, hx]
  | load =>
      rw [permitted, Permits, Bool.or_eq_true, Bool.and_eq_true, bne_iff_ne,
        bne_iff_ne, bne_iff_ne, hr, hmxr, hx]
  | store => rw [permitted, Permits, bne_iff_ne, hw]

theorem reachable_iff (pte status : BitVec 64) (effective : Priv)
    (access : Access) :
    reachable pte status effective access = true ↔
      RespectsUser pte status effective access := by
  have hu : pte &&& U ≠ 0 ↔ pte.getLsbD 4 = true :=
    BitFields.and_bit_ne_zero pte 4
  have hsum : status &&& Mstatus.SUM ≠ 0 ↔ status.getLsbD 18 = true :=
    BitFields.and_bit_ne_zero status 18
  cases effective with
  | user => rw [reachable, RespectsUser, bne_iff_ne, hu]
  | supervisor =>
      rw [RespectsUser, ← hu, ← hsum]
      simp [reachable]
      tauto
  | machine => simp [reachable, RespectsUser]

theorem pteSize_cases {scheme : Mode} (hscheme : scheme ≠ .bare) :
    (scheme = .sv32 ∧ scheme.pteSize = 4) ∨
      (scheme = .sv39 ∧ scheme.pteSize = 8) := by
  cases scheme with
  | bare => exact absurd rfl hscheme
  | sv32 => exact Or.inl ⟨rfl, rfl⟩
  | sv39 => exact Or.inr ⟨rfl, rfl⟩

theorem validSize_pteSize {scheme : Mode} (hscheme : scheme ≠ .bare) :
    Memory.validSize scheme.pteSize = true := by
  cases scheme with
  | bare => exact absurd rfl hscheme
  | sv32 => rfl
  | sv39 => rfl

/-- A table base: a page of the 56-bit physical address space. -/
def TableBase (table : BitVec 64) : Prop :=
  ∃ page, page < 2 ^ 44 ∧ table.toNat = page * 4096

/-- The page number of an entry is its field from bit 10 on: 22 bits in Sv32,
44 in Sv39. -/
theorem ppn_toNat (scheme : Mode) (pte : BitVec 64) :
    (ppn scheme pte).toNat =
      pte.toNat / 2 ^ 10 % 2 ^ (if scheme = .sv32 then 22 else 44) := by
  have hmask : scheme.ppnMask.toNat =
      2 ^ (if scheme = .sv32 then 22 else 44) - 1 := by
    cases scheme <;> decide
  rw [ppn, BitVec.toNat_and, hmask, Nat.and_two_pow_sub_one_eq_mod,
    BitVec.toNat_ushiftRight, Nat.shiftRight_eq_div_pow]
  rfl

theorem ppn_toNat_lt (scheme : Mode) (pte : BitVec 64) :
    (ppn scheme pte).toNat < 2 ^ 44 := by
  rw [ppn_toNat]
  exact (Nat.mod_lt _ (Nat.two_pow_pos _)).trans_le
    (Nat.pow_le_pow_right (by decide) (by split <;> omega))

theorem page_mul {page : BitVec 64} (hpage : page.toNat < 2 ^ 44) :
    (Checked.mul page PAGE_SIZE = pure (page * PAGE_SIZE)) ∧
      (page * PAGE_SIZE).toNat = page.toNat * 4096 := by
  have hsize : PAGE_SIZE.toNat = 4096 := by decide
  have hlt : page.toNat * PAGE_SIZE.toNat < 2 ^ 64 := by
    rw [hsize]
    omega
  refine ⟨Checked.mul_eq_pure hlt, ?_⟩
  rw [BitVec.toNat_mul, Nat.mod_eq_of_lt hlt, hsize]

theorem nextTable_tableBase (scheme : Mode) (pte : BitVec 64) :
    TableBase (nextTable scheme pte) :=
  ⟨(ppn scheme pte).toNat, ppn_toNat_lt scheme pte,
    (page_mul (ppn_toNat_lt scheme pte)).2⟩

theorem satp_page_lt (scheme : Mode) (satp : BitVec 64) :
    (satp &&& scheme.ppnMask).toNat < 2 ^ 44 := by
  have hmask : scheme.ppnMask.toNat < 2 ^ 44 := by
    cases scheme <;> decide
  rw [BitVec.toNat_and]
  exact lt_of_le_of_lt Nat.and_le_right hmask

theorem rootTable_tableBase (scheme : Mode) (satp : BitVec 64) :
    TableBase (rootTable scheme satp) :=
  ⟨_, satp_page_lt scheme satp, (page_mul (satp_page_lt scheme satp)).2⟩

def entryIndex (scheme : Mode) (va : BitVec 64) (level : ℕ) : BitVec 64 :=
  (va >>> (12 + scheme.vpnBits * level)) &&& (1#64 <<< scheme.vpnBits - 1)

theorem entryIndex_mul (scheme : Mode) (hscheme : scheme ≠ .bare)
    (va : BitVec 64) (level : ℕ) :
    ∃ entry, entry * scheme.pteSize < 4096 ∧
      (entryIndex scheme va level).toNat = entry := by
  refine ⟨(entryIndex scheme va level).toNat, ?_, rfl⟩
  have hle : (entryIndex scheme va level).toNat ≤
      (1#64 <<< scheme.vpnBits - 1).toNat := by
    rw [entryIndex, BitVec.toNat_and]
    exact Nat.and_le_right
  cases scheme with
  | bare => exact absurd rfl hscheme
  | sv32 =>
      have hmask : (1#64 <<< Mode.sv32.vpnBits - 1).toNat = 1023 := by decide
      rw [hmask] at hle
      simp only [Mode.pteSize]
      omega
  | sv39 =>
      have hmask : (1#64 <<< Mode.sv39.vpnBits - 1).toNat = 511 := by decide
      rw [hmask] at hle
      simp only [Mode.pteSize]
      omega

theorem entryAddr_toNat {scheme : Mode} (hscheme : scheme ≠ .bare)
    {table : BitVec 64} (htable : TableBase table) (va : BitVec 64)
    (level : ℕ) :
    ∃ page entry, page < 2 ^ 44 ∧ entry * scheme.pteSize < 4096 ∧
      (entryAddr scheme va table level).toNat =
        page * 4096 + entry * scheme.pteSize := by
  obtain ⟨page, hpage, htable⟩ := htable
  obtain ⟨entry, hentry, hindex⟩ := entryIndex_mul scheme hscheme va level
  refine ⟨page, entry, hpage, hentry, ?_⟩
  have hsize : (BitVec.ofNat 64 scheme.pteSize).toNat = scheme.pteSize := by
    cases scheme <;> rfl
  have hoffset : (entryIndex scheme va level *
      BitVec.ofNat 64 scheme.pteSize).toNat = entry * scheme.pteSize := by
    rw [BitVec.toNat_mul, hindex, hsize, Nat.mod_eq_of_lt (by omega)]
  change (table + entryIndex scheme va level *
    BitVec.ofNat 64 scheme.pteSize).toNat = _
  rw [BitVec.toNat_add, htable, hoffset, Nat.mod_eq_of_lt (by omega)]

theorem pteAddr_eq_pure {scheme : Mode} (hscheme : scheme ≠ .bare)
    {level : ℕ} (hlevel : level < scheme.levels) {table : BitVec 64}
    (htable : TableBase table) (va : BitVec 64) :
    pteAddr scheme va table level = pure (entryAddr scheme va table level) := by
  have hbits : scheme.vpnBits * level ≤ 20 ∧ scheme.vpnBits < 64 := by
    cases scheme with
    | bare => exact absurd rfl hscheme
    | sv32 => simp only [Mode.vpnBits, Mode.levels] at *; omega
    | sv39 => simp only [Mode.vpnBits, Mode.levels] at *; omega
  have hone : (1 : BitVec 64).toNat ≤ (1#64 <<< scheme.vpnBits).toNat := by
    cases scheme <;> decide
  obtain ⟨entry, hentry, hindex⟩ := entryIndex_mul scheme hscheme va level
  have hsize : (BitVec.ofNat 64 scheme.pteSize).toNat = scheme.pteSize := by
    cases scheme <;> rfl
  have hoffset : (entryIndex scheme va level *
      BitVec.ofNat 64 scheme.pteSize).toNat = entry * scheme.pteSize := by
    rw [BitVec.toNat_mul, hindex, hsize, Nat.mod_eq_of_lt (by omega)]
  obtain ⟨page, hpage, hbase⟩ := htable
  rw [pteAddr, Checked.umul_eq_pure (by omega), pure_bind,
    Checked.uadd_eq_pure (by omega), pure_bind,
    Checked.shr_eq_pure (by omega), pure_bind,
    Checked.shl_eq_pure hbits.2, pure_bind,
    Checked.sub_eq_pure hone, pure_bind]
  change (Checked.mul (entryIndex scheme va level)
    (BitVec.ofNat 64 scheme.pteSize) >>= Checked.add table) = _
  rw [Checked.mul_eq_pure (by rw [hindex, hsize]; omega), pure_bind,
    Checked.add_eq_pure (by rw [hbase, hoffset]; omega)]
  rfl

/-! ## The leaf's address -/

def levelMask (scheme : Mode) (level : ℕ) : BitVec 64 :=
  1#64 <<< (scheme.vpnBits * level) - 1

theorem levelBits_le {scheme : Mode} {level : ℕ}
    (hlevel : level < scheme.levels) : scheme.vpnBits * level ≤ 18 := by
  cases scheme <;> simp only [Mode.vpnBits, Mode.levels] at * <;> omega

theorem one_shiftLeft_toNat {scheme : Mode} {level : ℕ}
    (hlevel : level < scheme.levels) :
    (1#64 <<< (scheme.vpnBits * level)).toNat =
      2 ^ (scheme.vpnBits * level) := by
  have hpow : 2 ^ (scheme.vpnBits * level) ≤ 2 ^ 18 :=
    Nat.pow_le_pow_right (by decide) (levelBits_le hlevel)
  rw [BitVec.toNat_shiftLeft, BitVec.toNat_ofNat, Nat.shiftLeft_eq]
  omega

theorem one_le_shiftLeft {scheme : Mode} {level : ℕ}
    (hlevel : level < scheme.levels) :
    (1 : BitVec 64).toNat ≤ (1#64 <<< (scheme.vpnBits * level)).toNat := by
  rw [one_shiftLeft_toNat hlevel]
  exact Nat.two_pow_pos _

theorem levelMask_toNat {scheme : Mode} {level : ℕ}
    (hlevel : level < scheme.levels) :
    (levelMask scheme level).toNat = 2 ^ (scheme.vpnBits * level) - 1 := by
  rw [levelMask, BitVec.toNat_sub_of_le (one_le_shiftLeft hlevel),
    one_shiftLeft_toNat hlevel]
  rfl

theorem splitMask_eq_pure {scheme : Mode} {level : ℕ}
    (hlevel : level < scheme.levels) :
    splitMask scheme level = pure (levelMask scheme level) := by
  have hbits := levelBits_le hlevel
  rw [splitMask, Checked.umul_eq_pure (by omega), pure_bind,
    Checked.shl_eq_pure (by omega), pure_bind,
    Checked.sub_eq_pure (one_le_shiftLeft hlevel)]
  rfl

theorem and_levelMask_toNat {scheme : Mode} {level : ℕ}
    (hlevel : level < scheme.levels) (word : BitVec 64) :
    (word &&& levelMask scheme level).toNat =
      word.toNat % 2 ^ (scheme.vpnBits * level) := by
  rw [BitVec.toNat_and, levelMask_toNat hlevel,
    Nat.and_two_pow_sub_one_eq_mod]

/-- The alignment test of the code, which it skips at the lowest level. -/
theorem aligned_iff {scheme : Mode} {level : ℕ}
    (hlevel : level < scheme.levels) (pte : BitVec 64) :
    (¬ (0 < level ∧ ppn scheme pte &&& levelMask scheme level ≠ 0)) ↔
      2 ^ (scheme.vpnBits * level) ∣ (ppn scheme pte).toNat := by
  have hzero : ppn scheme pte &&& levelMask scheme level = 0 ↔
      2 ^ (scheme.vpnBits * level) ∣ (ppn scheme pte).toNat := by
    rw [Nat.dvd_iff_mod_eq_zero, ← and_levelMask_toNat hlevel]
    constructor
    · intro h
      rw [h]
      rfl
    · intro h
      exact BitVec.eq_of_toNat_eq h
  rcases Nat.eq_zero_or_pos level with rfl | hpos
  · simp
  · rw [← hzero]
    simp [hpos]

theorem splice_eq_pure {scheme : Mode} {reached : Leaf}
    (hlevel : reached.level < scheme.levels) (va : BitVec 64)
    (haligned : 2 ^ (scheme.vpnBits * reached.level) ∣
      (ppn scheme reached.pte).toNat) :
    splice scheme reached.pte va reached.level =
      pure (reached.target scheme va) := by
  set bits := scheme.vpnBits * reached.level with hbits
  set page := ppn scheme reached.pte with hpage
  set mask := levelMask scheme reached.level with hmask
  have hbitsLe : bits ≤ 18 := levelBits_le hlevel
  have hpageLt : page.toNat < 2 ^ 44 := ppn_toNat_lt scheme reached.pte
  have hpow : 2 ^ bits ≤ 2 ^ 18 := Nat.pow_le_pow_right (by decide) hbitsLe
  have hzero : page &&& mask = 0 := by
    apply BitVec.eq_of_toNat_eq
    rw [and_levelMask_toNat hlevel, ← hbits,
      Nat.mod_eq_zero_of_dvd haligned]
    rfl
  have hlow : ((va >>> 12) &&& mask).toNat = va.toNat / 4096 % 2 ^ bits := by
    rw [and_levelMask_toNat hlevel, BitVec.toNat_ushiftRight,
      Nat.shiftRight_eq_div_pow]
  have hdisjoint : page &&& ((va >>> 12) &&& mask) = 0 := by
    rw [BitVec.and_comm (va >>> 12), ← BitVec.and_assoc, hzero]
    exact BitVec.zero_and
  have hsum : (page ||| ((va >>> 12) &&& mask)).toNat =
      page.toNat + va.toNat / 4096 % 2 ^ bits := by
    rw [← BitVec.add_eq_or_of_and_eq_zero _ _ hdisjoint, BitVec.toNat_add,
      hlow, Nat.mod_eq_of_lt]
    have hmod := Nat.mod_lt (va.toNat / 4096) (Nat.two_pow_pos bits)
    omega
  have hfits : (page ||| ((va >>> 12) &&& mask)).toNat < 2 ^ 44 := by
    rw [BitVec.toNat_or, hlow]
    have hmod := Nat.mod_lt (va.toNat / 4096) (Nat.two_pow_pos bits)
    exact Nat.or_lt_two_pow hpageLt (by omega)
  obtain ⟨hmul, hbase⟩ := page_mul hfits
  have hoffset : (va &&& (PAGE_SIZE - 1)).toNat = va.toNat % 4096 := by
    have hconst : (PAGE_SIZE - 1).toNat = 2 ^ 12 - 1 := by decide
    rw [BitVec.toNat_and, hconst, Nat.and_two_pow_sub_one_eq_mod]
  have hlast := Nat.mod_lt va.toNat (show 0 < 4096 by decide)
  have hfinal : (page ||| ((va >>> 12) &&& mask)).toNat * 4096 +
      va.toNat % 4096 = page.toNat * 4096 + va.toNat % 2 ^ (12 + bits) := by
    rw [hsum, Nat.pow_add, Nat.mod_mul]
    ring
  have hsplit : splice scheme reached.pte va reached.level =
      (Checked.mul (page ||| ((va >>> 12) &&& mask)) PAGE_SIZE >>= fun base =>
        Checked.add base (va &&& (PAGE_SIZE - 1))) := by
    rw [splice, splitMask_eq_pure hlevel, pure_bind, ← hpage, ← hmask,
      BitFields.and_not_eq_self hzero]
  rw [hsplit, hmul, pure_bind, Checked.add_eq_pure (by
    rw [hbase, hoffset]
    omega), Leaf.target]
  congr 1
  apply BitVec.eq_of_toNat_eq
  rw [BitVec.toNat_add, hbase, hoffset, BitVec.toNat_ofNat, ← hpage, ← hbits,
    hfinal]

/-! ## The loop follows the relation -/

/-- The memory once the accessed and dirty bits of a leaf are set. -/
def marked (scheme : Mode) (access : Access) (mem : Memory) (reached : Leaf) :
    Memory :=
  if reached.pte &&& need access = need access then mem
  else
    mem.stored reached.addr scheme.pteSize (reached.pte ||| need access)

section Walk

variable {scheme : Mode} {effective : Priv} {status va : BitVec 64}
  {access : Access} {mem : Memory} {reached : Leaf}

theorem leaf_granted (hscheme : scheme ≠ .bare)
    (hlevel : reached.level < scheme.levels)
    (hin : mem.InDram reached.addr scheme.pteSize)
    (hgrants : reached.Grants scheme status effective access)
    (profile : Profile) :
    leaf scheme effective status va access reached.level reached.addr
        reached.pte profile mem =
      some (.ok (reached.target scheme va),
        marked scheme access mem reached) := by
  have hreachable : reachable reached.pte status effective access = true :=
    (reachable_iff _ _ _ _).mpr hgrants.respects_user
  have hpermitted : permitted reached.pte status access = true :=
    (permitted_iff _ _ _).mpr hgrants.permits
  rw [leaf, hreachable, hpermitted]
  simp only [Bool.not_true, Bool.false_eq_true, if_false]
  rw [splitMask_eq_pure hlevel, Program.check_pure, pure_bind,
    if_neg ((aligned_iff hlevel _).mpr hgrants.aligned),
    splice_eq_pure hlevel va hgrants.aligned, Program.check_pure, marked]
  by_cases hneed : reached.pte &&& need access = need access
  · rw [if_neg (not_not.mpr hneed), if_pos hneed]
    rfl
  · have hwrite :
        (Program.mapError (fun _ => Exception.pageFault access va)
          (Memory.write reached.addr scheme.pteSize
            (reached.pte ||| need access))) profile mem =
          some (.ok (), mem.stored reached.addr scheme.pteSize
            (reached.pte ||| need access)) := by
      rw [Program.mapError,
        Memory.write_inDram hin (validSize_pteSize hscheme)]
    rw [if_pos hneed, if_neg hneed, Program.bind_run_ok hwrite,
      Program.pure_run]

theorem leaf_refused (hlevel : reached.level < scheme.levels)
    (hgrants : ¬ reached.Grants scheme status effective access)
    (profile : Profile) :
    leaf scheme effective status va access reached.level reached.addr
        reached.pte profile mem =
      some (.error (Exception.pageFault access va), mem) := by
  rw [leaf]
  cases hreachable : reachable reached.pte status effective access with
  | false => rfl
  | true =>
      cases hpermitted : permitted reached.pte status access with
      | false => rfl
      | true =>
          have hunaligned : ¬ 2 ^ (scheme.vpnBits * reached.level) ∣
              (ppn scheme reached.pte).toNat := fun haligned =>
            hgrants ⟨(permitted_iff _ _ _).mp hpermitted,
              (reachable_iff _ _ _ _).mp hreachable, haligned⟩
          simp only [Bool.not_true, Bool.false_eq_true, if_false]
          rw [splitMask_eq_pure hlevel, Program.check_pure, pure_bind,
            if_pos (not_not.mp fun h =>
              hunaligned ((aligned_iff hlevel _).mp h))]
          rfl

/-- Where the entries lie in DRAM, the loop ends at the leaf the relation
names, or with the page fault and the memory as it was. -/
theorem walk_spec (hscheme : scheme ≠ .bare) (profile : Profile)
    (remaining : ℕ) (table : BitVec 64) (hremaining : remaining ≤ scheme.levels)
    (htable : TableBase table)
    (hin : ∀ addr ∈ entriesRead scheme mem.dram va remaining table,
      mem.InDram addr scheme.pteSize) :
    (∃ reached : Leaf, Reaches scheme mem.dram va remaining table reached ∧
        reached.Grants scheme status effective access ∧
        reached.level < scheme.levels ∧
        mem.InDram reached.addr scheme.pteSize ∧
        walk scheme effective status va access remaining table profile mem =
          some (.ok (reached.target scheme va),
            marked scheme access mem reached)) ∨
      ((∀ reached : Leaf, Reaches scheme mem.dram va remaining table reached →
          ¬ reached.Grants scheme status effective access) ∧
        walk scheme effective status va access remaining table profile mem =
          some (.error (Exception.pageFault access va), mem)) := by
  induction remaining generalizing table with
  | zero => exact Or.inr ⟨fun _ h => (nomatch h), rfl⟩
  | succ level ih =>
      have hlevel : level < scheme.levels := hremaining
      set addr := entryAddr scheme va table level with haddr
      set pte := entryAt scheme mem.dram addr with hpte
      have hfirst : mem.InDram addr scheme.pteSize :=
        hin addr (by simp [entriesRead, haddr])
      have hread :
          (Program.mapError (fun _ => Exception.pageFault access va)
            (Memory.read addr scheme.pteSize)) profile mem =
            some (.ok pte, mem) := by
        rw [Program.mapError,
          Memory.read_inDram hfirst (validSize_pteSize hscheme)]
        rfl
      rw [walk, pteAddr_eq_pure hscheme hlevel htable, Program.check_pure,
        pure_bind, ← haddr, Program.bind_run_ok hread]
      by_cases hvalid : ValidEntry pte
      · rw [(valid_iff pte).mpr hvalid]
        simp only [Bool.not_true, Bool.false_eq_true, if_false]
        by_cases hpointer : PointerEntry pte
        · rw [if_pos ((isPointer_iff pte).mpr hpointer)]
          rcases Nat.eq_zero_or_pos level with rfl | hpos
          · refine Or.inr ⟨fun reached hreaches => ?_, rfl⟩
            cases hreaches with
            | leaf _ hleaf => exact absurd hpointer hleaf
            | pointer _ _ hrest => cases hrest
          · rw [if_neg (by omega), (page_mul (ppn_toNat_lt scheme pte)).1,
              Program.check_pure, pure_bind]
            have hrest : ∀ next ∈ entriesRead scheme mem.dram va level
                (nextTable scheme pte), mem.InDram next scheme.pteSize := by
              intro next hnext
              apply hin next
              rw [entriesRead, ← haddr, ← hpte, (valid_iff pte).mpr hvalid,
                (isPointer_iff pte).mpr hpointer]
              exact List.mem_cons_of_mem _ hnext
            rcases ih (nextTable scheme pte) hlevel.le
                (nextTable_tableBase scheme pte) hrest with
              ⟨reached, hreaches, hgranted⟩ | ⟨hnone, hrun⟩
            · exact Or.inl ⟨reached, .pointer hvalid hpointer hreaches,
                hgranted⟩
            · refine Or.inr ⟨fun reached hreaches => ?_, hrun⟩
              cases hreaches with
              | leaf _ hleaf => exact absurd hpointer hleaf
              | pointer _ _ htail => exact hnone reached htail
        · have hleaf : isPointer pte = false := by
            rw [← Bool.not_eq_true, isPointer_iff]
            exact hpointer
          rw [hleaf]
          simp only [Bool.false_eq_true, if_false]
          let here : Leaf := { level := level, addr := addr, pte := pte }
          by_cases hgrants : here.Grants scheme status effective access
          · have hrun := @leaf_granted scheme effective status va access mem
              here hscheme hlevel hfirst hgrants profile
            exact Or.inl ⟨here, .leaf hvalid hpointer, hgrants, hlevel,
              hfirst, hrun⟩
          · have hrun := @leaf_refused scheme effective status va access mem
              here hlevel hgrants profile
            refine Or.inr ⟨fun reached hreaches => ?_, hrun⟩
            cases hreaches with
            | leaf _ _ => exact hgrants
            | pointer _ hnot _ => exact absurd hnot hpointer
      · have hinvalid : valid pte = false := by
          rw [← Bool.not_eq_true, valid_iff]
          exact hvalid
        rw [hinvalid]
        refine Or.inr ⟨fun reached hreaches => ?_, rfl⟩
        cases hreaches with
        | leaf hnot _ => exact absurd hnot hvalid
        | pointer hnot _ _ => exact absurd hnot hvalid

end Walk

theorem Reaches.unique {scheme : Mode} {dram : Dram} {va : BitVec 64}
    {remaining : ℕ} {table : BitVec 64} {first second : Leaf}
    (hfirst : Reaches scheme dram va remaining table first)
    (hsecond : Reaches scheme dram va remaining table second) :
    first = second := by
  induction hfirst with
  | leaf hvalid hleaf =>
      cases hsecond with
      | leaf _ _ => rfl
      | pointer _ hpointer _ => exact absurd hpointer hleaf
  | pointer hvalid hpointer _ ih =>
      cases hsecond with
      | leaf _ hleaf => exact absurd hpointer hleaf
      | pointer _ _ hrest => exact ih hrest

theorem canonical_iff (va : BitVec 64) :
    canonical va = true ↔ Canonical va := by
  have hbits : ∀ i, i < 64 → (va.sshiftRight 38).getLsbD i =
      if 38 + i < 64 then va.getLsbD (38 + i) else va.getLsbD 63 := by
    intro i hi
    rw [BitVec.getLsbD_sshiftRight, BitVec.msb_eq_getLsbD_last]
    simp [not_le.mpr hi]
  rw [canonical, Bool.or_eq_true, beq_iff_eq, beq_iff_eq]
  constructor
  · intro hextends i hlow hhigh
    have hconst : ∃ bit, ∀ j, j < 64 → (va.sshiftRight 38).getLsbD j = bit := by
      rcases hextends with hzero | hones
      · exact ⟨false, fun j _ => by simp [hzero]⟩
      · exact ⟨true, fun j hj => by
          rw [hones, BitVec.getLsbD_allOnes, decide_eq_true hj]⟩
    obtain ⟨bit, hbit⟩ := hconst
    have hthis := hbit (i - 38) (by omega)
    have hbase := hbit 0 (by omega)
    rw [hbits _ (by omega), if_pos (by omega),
      show 38 + (i - 38) = i by omega] at hthis
    rw [hbits _ (by omega), if_pos (by omega), Nat.add_zero] at hbase
    rw [hthis, hbase]
  · intro hcanonical
    have hshift : ∀ i, i < 64 →
        (va.sshiftRight 38).getLsbD i = va.getLsbD 38 := by
      intro i hi
      rw [hbits i hi]
      split
      · exact hcanonical _ (by omega) (by omega)
      · exact hcanonical 63 (by omega) (by omega)
    cases hsign : va.getLsbD 38 with
    | false =>
        left
        apply BitVec.eq_of_getLsbD_eq
        intro i hi
        rw [hshift i hi, hsign]
        simp
    | true =>
        right
        apply BitVec.eq_of_getLsbD_eq
        intro i hi
        rw [hshift i hi, hsign, BitVec.getLsbD_allOnes, decide_eq_true hi]

/-! ## The whole translation -/

/-- The leaf that answers an access: its walk starts at the table `satp`
names, from an address of the scheme. -/
structure Answers (scheme : Mode) (satp status : BitVec 64) (effective : Priv)
    (dram : Dram) (va : BitVec 64) (access : Access) (reached : Leaf) :
    Prop where
  canonical : scheme = .sv39 → Canonical va
  reaches : Reaches scheme dram va scheme.levels (rootTable scheme satp) reached
  grants : reached.Grants scheme status effective access

/-- The addresses of the entries a translation reads. -/
def translationReads (scheme : Mode) (satp : BitVec 64) (dram : Dram)
    (va : BitVec 64) : List (BitVec 64) :=
  if scheme = .sv39 ∧ !canonical va then []
  else entriesRead scheme dram va scheme.levels (rootTable scheme satp)

theorem translate_eq_walk {xlen : Xlen} {satp status : BitVec 64} {mode : Priv}
    {va : BitVec 64} {access : Access}
    (hpaged : Mode.of satp xlen ≠ .bare)
    (heffective : effectivePriv status mode access ≠ .machine) :
    translate xlen satp status mode va access =
      if Mode.of satp xlen = .sv39 ∧ !canonical va then
        Program.fail (Exception.pageFault access va)
      else
        walk (Mode.of satp xlen) (effectivePriv status mode access) status va
          access (Mode.of satp xlen).levels
          (rootTable (Mode.of satp xlen) satp) := by
  have hno : ¬ (Mode.of satp xlen = .bare ∨
      effectivePriv status mode access = .machine) := by
    rintro (h | h)
    · exact hpaged h
    · exact heffective h
  rw [translate, if_neg hno, (page_mul (satp_page_lt (Mode.of satp xlen) satp)).1,
    Program.check_pure, pure_bind]
  rfl

theorem translate_spec {xlen : Xlen} {satp status : BitVec 64} {mode : Priv}
    {va : BitVec 64} {access : Access} {mem : Memory}
    (hpaged : Mode.of satp xlen ≠ .bare)
    (heffective : effectivePriv status mode access ≠ .machine)
    (hin : ∀ addr ∈ translationReads (Mode.of satp xlen) satp mem.dram va,
      mem.InDram addr (Mode.of satp xlen).pteSize)
    (profile : Profile) :
    (∃ reached, Answers (Mode.of satp xlen) satp status
          (effectivePriv status mode access) mem.dram va access reached ∧
        mem.InDram reached.addr (Mode.of satp xlen).pteSize ∧
        translate xlen satp status mode va access profile mem =
          some (.ok (reached.target (Mode.of satp xlen) va),
            marked (Mode.of satp xlen) access mem reached)) ∨
      ((∀ reached, ¬ Answers (Mode.of satp xlen) satp status
          (effectivePriv status mode access) mem.dram va access reached) ∧
        translate xlen satp status mode va access profile mem =
          some (.error (Exception.pageFault access va), mem)) := by
  rw [translate_eq_walk hpaged heffective]
  set scheme := Mode.of satp xlen
  by_cases hbad : scheme = .sv39 ∧ !canonical va
  · refine Or.inr ⟨fun reached hanswers => ?_, by rw [if_pos hbad]; rfl⟩
    have hcanonical := (canonical_iff va).mpr (hanswers.canonical hbad.1)
    rw [hcanonical] at hbad
    exact absurd hbad.2 (by decide)
  · rw [if_neg hbad]
    rw [translationReads, if_neg hbad] at hin
    have hcanonical : scheme = .sv39 → Canonical va := by
      intro hsv39
      rw [← canonical_iff]
      by_contra hnot
      exact hbad ⟨hsv39, by simpa using hnot⟩
    rcases @walk_spec scheme (effectivePriv status mode access) status va
        access mem hpaged profile scheme.levels (rootTable scheme satp) le_rfl
        (rootTable_tableBase scheme satp) hin with
      ⟨reached, hreaches, hgrants, -, hreached, hrun⟩ | ⟨hnone, hrun⟩
    · exact Or.inl ⟨reached, ⟨hcanonical, hreaches, hgrants⟩, hreached, hrun⟩
    · exact Or.inr ⟨fun reached hanswers =>
        hnone reached hanswers.reaches hanswers.grants, hrun⟩

theorem need_toNat_lt (access : Access) : (need access).toNat < 2 ^ 8 := by
  cases access <;> decide

theorem getLsbD_or_need_of_ge {size i j : ℕ} (hsize : 0 < size ∧ size ≤ 8)
    (dram : Dram) (access : Access) (hj : 8 * size ≤ j) :
    (dram.loadLe i size ||| need access).getLsbD j = false := by
  have hflags : (need access).getLsbD j = false :=
    Nat.testBit_lt_two_pow ((need_toNat_lt access).trans_le
      (Nat.pow_le_pow_right (by decide) (by omega)))
  rw [BitVec.getLsbD_or, hflags, Dram.getLsbD_loadLe_of_ge _ hsize.2 hj,
    Bool.or_false]

theorem marked_spec {scheme : Mode} (hscheme : scheme ≠ .bare) (access : Access)
    (mem : Memory) {reached : Leaf}
    (hentry : reached.pte = entryAt scheme mem.dram reached.addr) :
    (marked scheme access mem reached).dram.len = mem.dram.len ∧
      (∀ i, ¬ (Memory.offset reached.addr ≤ i ∧
          i < Memory.offset reached.addr + scheme.pteSize) →
        (marked scheme access mem reached).dram.byte i = mem.dram.byte i) ∧
      entryAt scheme (marked scheme access mem reached).dram reached.addr =
        reached.pte ||| need access := by
  have hsize : 0 < scheme.pteSize ∧ scheme.pteSize ≤ 8 := by
    rcases pteSize_cases hscheme with ⟨-, h⟩ | ⟨-, h⟩ <;> omega
  rw [marked]
  by_cases hneed : reached.pte &&& need access = need access
  · rw [if_pos hneed]
    refine ⟨rfl, fun _ _ => rfl, ?_⟩
    rw [← hentry]
    apply BitVec.eq_of_getLsbD_eq
    intro i _
    have hbit := congrArg (fun word => word.getLsbD i) hneed
    simp only [BitVec.getLsbD_and] at hbit
    rw [BitVec.getLsbD_or, ← hbit]
    cases reached.pte.getLsbD i <;> simp
  · have hvalue : ∀ j, 8 * scheme.pteSize ≤ j →
        (reached.pte ||| need access).getLsbD j = false := by
      intro j hj
      rw [hentry, entryAt]
      exact getLsbD_or_need_of_ge hsize mem.dram access hj
    rw [if_neg hneed, Memory.stored_dram, Dram.storeLe_len]
    exact ⟨rfl, fun i hi => Dram.storeLe_byte_outside mem.dram _ hi,
      Dram.loadLe_storeLe mem.dram hsize.2 hvalue⟩

theorem Reaches.pte_eq {scheme : Mode} {dram : Dram} {va : BitVec 64}
    {remaining : ℕ} {table : BitVec 64} {reached : Leaf}
    (hreaches : Reaches scheme dram va remaining table reached) :
    reached.pte = entryAt scheme dram reached.addr := by
  induction hreaches with
  | leaf _ _ => rfl
  | pointer _ _ _ ih => exact ih

/-- The entry `pte'` is `pte` with the accessed bit set, and the dirty bit for
a store. -/
structure AccessedEntry (access : Access) (pte pte' : BitVec 64) : Prop where
  accessed : pte'.getLsbD 6 = true
  dirty : access = .store → pte'.getLsbD 7 = true
  others : ∀ i, i ≠ 6 → (i = 7 → access ≠ .store) →
    pte'.getLsbD i = pte.getLsbD i

/-- The scheme that `satp` selects, by its mode field. -/
inductive Selects : Xlen → BitVec 64 → Mode → Prop where
  | sv32 {satp : BitVec 64} : satp.toNat / 2 ^ 31 = 1 → Selects .rv32 satp .sv32
  | sv39 {satp : BitVec 64} : satp.toNat / 2 ^ 60 = 8 → Selects .rv64 satp .sv39

theorem Selects.mode {xlen : Xlen} {satp : BitVec 64} {scheme : Mode}
    (h : Selects xlen satp scheme) :
    Mode.of satp xlen = scheme ∧ scheme ≠ .bare := by
  cases h with
  | sv32 hfield =>
      have hone : satp >>> 31 = 1 := by
        apply BitVec.eq_of_toNat_eq
        rw [BitVec.toNat_ushiftRight, Nat.shiftRight_eq_div_pow]
        exact hfield
      exact ⟨if_pos hone, by decide⟩
  | sv39 hfield =>
      have height : (satp >>> 60) &&& 0xf = 8 := by
        apply BitVec.eq_of_toNat_eq
        rw [BitVec.toNat_and, BitVec.toNat_ushiftRight,
          Nat.shiftRight_eq_div_pow, hfield]
        rfl
      exact ⟨if_pos height, by decide⟩

/-- The privilege an access is made at: where MPRV is set, the field MPP names
it for loads and stores. -/
def MadeAt (status : BitVec 64) (mode : Priv) (access : Access)
    (effective : Priv) : Prop :=
  if access ≠ .fetch ∧ status.getLsbD 17 = true then
    status.toNat / 2 ^ 11 % 4 = effective.toNat
  else effective = mode

/-- The mode a word holds in its field MPP. -/
theorem fromBits_mpp {status : BitVec 64} {mode : Priv}
    (h : status.toNat / 2 ^ 11 % 4 = mode.toNat) :
    Priv.fromBits ((status &&& Mstatus.MPP) >>> Mstatus.MPP_SHIFT) = mode := by
  have hfield : (status &&& Mstatus.MPP) >>> Mstatus.MPP_SHIFT =
      mode.toBits := by
    have hshift : (status &&& Mstatus.MPP) >>> Mstatus.MPP_SHIFT =
        (status >>> 11) &&& 3 := by
      rw [BitVec.ushiftRight_and_distrib]
      rfl
    apply BitVec.eq_of_toNat_eq
    rw [hshift, BitVec.toNat_and, BitVec.toNat_ushiftRight,
      Nat.shiftRight_eq_div_pow, show (3 : BitVec 64).toNat = 2 ^ 2 - 1 from rfl,
      Nat.and_two_pow_sub_one_eq_mod]
    refine h.trans ?_
    cases mode <;> rfl
  rw [hfield]
  cases mode <;> rfl

theorem MadeAt.eq {status : BitVec 64} {mode : Priv} {access : Access}
    {effective : Priv} (h : MadeAt status mode access effective) :
    effectivePriv status mode access = effective := by
  have hmprv : status &&& Mstatus.MPRV ≠ 0 ↔ status.getLsbD 17 = true := by
    have hbit : Mstatus.MPRV = BitVec.twoPow 64 17 := by decide
    rw [hbit, BitVec.and_twoPow]
    split
    · next hset => exact iff_of_true (by decide) hset
    · next hclear => exact iff_of_false (fun h => h rfl) hclear
  rw [MadeAt] at h
  simp only [effectivePriv, hmprv]
  split at h
  · next hredirected =>
      rw [if_pos hredirected]
      exact fromBits_mpp h
  · next hown => rw [if_neg hown, h]

/-- The page fault of an access kind, with the address of the access. -/
def IsPageFault (va : BitVec 64) (error : Exception) : Access → Prop
  | .fetch => error = .instructionPageFault va
  | .load => error = .loadPageFault va
  | .store => error = .storePageFault va

/-- What a translation returns and what it leaves in DRAM. -/
structure Translated (scheme : Mode) (satp status : BitVec 64)
    (effective : Priv) (va : BitVec 64) (access : Access) (mem : Memory)
    (outcome : Except Exception (BitVec 64)) (mem' : Memory) : Prop where
  ok_iff : ∀ pa, outcome = .ok pa ↔
    ∃ reached, Answers scheme satp status effective mem.dram va access
      reached ∧ pa = reached.target scheme va
  error : ∀ error, outcome = .error error →
    IsPageFault va error access ∧ mem' = mem
  leaf_entry : ∀ pa, outcome = .ok pa →
    ∃ reached, Answers scheme satp status effective mem.dram va access
      reached ∧ mem'.dram.len = mem.dram.len ∧
      (∀ i, ¬ (Memory.offset reached.addr ≤ i ∧
          i < Memory.offset reached.addr + scheme.pteSize) →
        mem'.dram.byte i = mem.dram.byte i) ∧
      AccessedEntry access reached.pte (entryAt scheme mem'.dram reached.addr)

end Mmu

end Nanoemu
