import Nanoemu.BitFields
import Nanoemu.PageWalk

/-!
# What a translation leaves of the page tables

Walks read entries and set accessed and dirty bits, wherever in the address
space the tables lie.  Two memories with the same tables up to those bits give
the same walks, which is what makes a cached translation worth keeping.
-/

namespace Nanoemu

open CheckedProgram BitFields

namespace Memory

/-- Programs that leave DRAM alone. -/
def dramFrame : Frame Memory where
  rel mem mem' := mem'.dram = mem.dram
  refl _ := rfl
  trans hfirst hsecond := hsecond.trans hfirst

/-- DRAM is as it was, and nothing was written to `tohost`. -/
structure NoStore (mem mem' : Memory) : Prop where
  dram : mem'.dram = mem.dram
  tohost : mem'.tohost = mem.tohost
  value : mem'.tohostValue = mem.tohostValue

theorem NoStore.refl (mem : Memory) : NoStore mem mem :=
  ⟨rfl, rfl, rfl⟩

theorem NoStore.trans {mem mem' mem'' : Memory} (hfirst : NoStore mem mem')
    (hsecond : NoStore mem' mem'') : NoStore mem mem'' :=
  ⟨hsecond.dram.trans hfirst.dram, hsecond.tohost.trans hfirst.tohost,
    hsecond.value.trans hfirst.value⟩

def noStoreFrame : Frame Memory where
  rel := NoStore
  refl := NoStore.refl
  trans := NoStore.trans

theorem read_noStore (addr : BitVec 64) (size : ℕ) :
    (Memory.read addr size).Keeps noStoreFrame := by
  apply Program.Keeps.intro
  intro profile mem outcome mem' hrun
  cases read_course hrun with
  | dram | outside => exact NoStore.refl mem
  | clint | plic | uart | unmapped => exact ⟨rfl, rfl, rfl⟩

theorem read_keeps_dram (addr : BitVec 64) (size : ℕ) :
    (Memory.read addr size).Keeps dramFrame := by
  intro profile mem
  apply (read_noStore addr size profile mem).mono
  · exact fun _ _ hkept => hkept.dram
  · exact fun _ _ hkept => hkept.dram

theorem read_ensures (addr : BitVec 64) {size : ℕ}
    (hsize : validSize size = true) (profile : Profile) (mem : Memory) :
    (Memory.read addr size).Ensures profile mem
      (fun value mem' => mem'.dram = mem.dram ∧
        (mem.InDram addr size →
          value = mem.dram.loadLe (offset addr) size))
      (fun _ mem' => mem'.dram = mem.dram) := by
  intro outcome mem' hrun
  have hdram : mem'.dram = mem.dram :=
    (read_keeps_dram addr size).of_run hrun
  cases outcome with
  | error error => exact hdram
  | ok value =>
      refine ⟨hdram, fun hin => ?_⟩
      rw [read_inDram hin hsize] at hrun
      cases hrun
      rfl

theorem write_cases (addr : BitVec 64) {size : ℕ}
    (hsize : validSize size = true) (value : BitVec 64) (profile : Profile)
    (mem : Memory) :
    (Memory.write addr size value).Ensures profile mem
      (fun _ mem' => (mem.InDram addr size ∧ mem' = mem.stored addr size value) ∨
        (addr < DRAM_BASE ∧ NoStore mem mem'))
      (fun _ mem' => ¬ mem.InDram addr size ∧ NoStore mem mem') := by
  intro outcome mem' hrun
  cases write_course hrun with
  | dram hin => exact Or.inl ⟨hin, rfl⟩
  | outside hbase hnot => exact ⟨fun hin => hnot ⟨hin, hsize⟩, NoStore.refl mem⟩
  | clint hlow | plic hlow | uart hlow => exact Or.inr ⟨hlow, rfl, rfl, rfl⟩
  | unmapped hlow =>
      have hout : ¬ mem.InDram addr size := fun hin =>
        absurd hlow (BitVec.not_lt.mpr hin.1)
      exact ⟨hout, rfl, rfl, rfl⟩

theorem write_ensures (addr : BitVec 64) {size : ℕ}
    (hsize : validSize size = true) (value : BitVec 64) (profile : Profile)
    (mem : Memory) :
    (Memory.write addr size value).Ensures profile mem
      (fun _ mem' => (mem.InDram addr size ∧ mem' = mem.stored addr size value) ∨
        (addr < DRAM_BASE ∧ mem'.dram = mem.dram))
      (fun _ mem' => mem'.dram = mem.dram) := by
  apply (write_cases addr hsize value profile mem).mono
  · intro _ mem' houtcome
    exact houtcome.imp_right fun hdevice => ⟨hdevice.1, hdevice.2.dram⟩
  · exact fun _ _ hfailed => hfailed.2.dram

end Memory

namespace Mmu

/-- Every bit of an entry but the accessed and dirty ones. -/
def stableBits : BitVec 64 := ~~~(A ||| D)

def entrySize : Xlen → ℕ
  | .rv32 => 4
  | .rv64 => 8

theorem pteSize_eq_entrySize {satp : BitVec 64} {xlen : Xlen}
    (hpaged : Mode.of satp xlen ≠ .bare) :
    (Mode.of satp xlen).pteSize = entrySize xlen := by
  cases xlen with
  | rv32 =>
      rw [Mode.of] at hpaged ⊢
      split
      · rfl
      · next h => exact absurd (if_neg h) hpaged
  | rv64 =>
      rw [Mode.of] at hpaged ⊢
      split
      · rfl
      · next h => exact absurd (if_neg h) hpaged

/-- Two DRAMs hold the same entries, wherever an entry may lie, up to the
accessed and dirty bits. -/
structure SameTables (size : ℕ) (dram dram' : Dram) : Prop where
  len : dram'.len = dram.len
  entries : ∀ i, size ∣ i → i + size ≤ dram.len →
    Agree stableBits (dram'.loadLe i size) (dram.loadLe i size)

theorem SameTables.refl (size : ℕ) (dram : Dram) : SameTables size dram dram :=
  ⟨rfl, fun _ _ _ => Agree.refl _ _⟩

theorem SameTables.of_eq {size : ℕ} {dram dram' : Dram} (h : dram' = dram) :
    SameTables size dram dram' :=
  h ▸ SameTables.refl size dram

theorem SameTables.trans {size : ℕ} {first second third : Dram}
    (hfirst : SameTables size first second)
    (hsecond : SameTables size second third) :
    SameTables size first third :=
  ⟨hsecond.len.trans hfirst.len, fun i hdvd hi =>
    (hsecond.entries i hdvd (hfirst.len ▸ hi)).trans
      (hfirst.entries i hdvd hi)⟩

theorem offset_dvd {scheme : Mode} (hscheme : scheme ≠ .bare)
    {table : BitVec 64} (htable : TableBase table) (va : BitVec 64)
    (level : ℕ) :
    scheme.pteSize ∣ Memory.offset (entryAddr scheme va table level) := by
  obtain ⟨page, entry, -, -, haddr⟩ :=
    entryAddr_toNat hscheme htable va level
  have hpage : scheme.pteSize ∣ 4096 := by
    cases scheme with
    | bare => exact absurd rfl hscheme
    | sv32 => exact ⟨1024, rfl⟩
    | sv39 => exact ⟨512, rfl⟩
  have hbase : scheme.pteSize ∣ DRAM_BASE.toNat :=
    hpage.trans ⟨524288, rfl⟩
  rw [Memory.offset, haddr]
  exact Nat.dvd_sub
    (Nat.dvd_add (hpage.mul_left page) (Nat.dvd_mul_left _ _)) hbase

theorem apart_of_dvd {size i j : ℕ} (hi : size ∣ i) (hj : size ∣ j)
    (hne : i ≠ j) : i + size ≤ j ∨ j + size ≤ i := by
  obtain ⟨a, rfl⟩ := hi
  obtain ⟨b, rfl⟩ := hj
  have hab : a ≠ b := by
    rintro rfl
    exact hne rfl
  rcases Nat.lt_or_gt_of_ne hab with hlt | hlt
  · left
    have hle : size * (a + 1) ≤ size * b := Nat.mul_le_mul_left size hlt
    rwa [Nat.mul_succ] at hle
  · right
    have hle : size * (b + 1) ≤ size * a := Nat.mul_le_mul_left size hlt
    rwa [Nat.mul_succ] at hle

theorem sameTables_stored {size : ℕ} {mem : Memory} {addr pte : BitVec 64}
    (hsize : 0 < size ∧ size ≤ 8) (hdvd : size ∣ Memory.offset addr)
    (hpte : pte = mem.dram.loadLe (Memory.offset addr) size)
    (access : Access) :
    SameTables size mem.dram
      (mem.stored addr size (pte ||| need access)).dram := by
  rw [Memory.stored_dram]
  refine ⟨Dram.storeLe_len _ _ _ _, fun i hi _ => ?_⟩
  by_cases hsame : i = Memory.offset addr
  · have hdisjoint : Disjoint stableBits (need access) := by
      cases access <;> decide
    have hvalue : ∀ j, 8 * size ≤ j →
        (pte ||| need access).getLsbD j = false := by
      intro j hj
      rw [hpte]
      exact getLsbD_or_need_of_ge hsize mem.dram access hj
    rw [hsame, Dram.loadLe_storeLe mem.dram hsize.2 hvalue, ← hpte]
    exact Agree.or_right hdisjoint
  · have hapart := apart_of_dvd hdvd hi fun h => hsame h.symm
    rw [Dram.loadLe_storeLe_disjoint _ _ hapart]
    exact Agree.refl _ _

def tablesFrame (size : ℕ) : Frame Dram where
  rel := SameTables size
  refl := SameTables.refl size
  trans := SameTables.trans

/-- What a walk does to memory stays within the frame: it reads entries, sets
the bits an access needs in one, and may do so in a device. -/
structure KeepsWalks (frame : Frame Memory) (size : ℕ) (access : Access) :
    Prop where
  read : ∀ addr, (Memory.read addr size).Keeps frame
  device : ∀ addr value, addr < DRAM_BASE →
    (Memory.write addr size value).Keeps frame
  mark : ∀ {mem : Memory} {addr : BitVec 64}, size ∣ Memory.offset addr →
    mem.InDram addr size → frame.rel mem (mem.stored addr size
      (mem.dram.loadLe (Memory.offset addr) size ||| need access))

section Walks

variable {scheme : Mode} {effective : Priv} {status va : BitVec 64}
  {access : Access} {frame : Frame Memory}

theorem leaf_walks (hscheme : scheme ≠ .bare)
    (hwalks : KeepsWalks frame scheme.pteSize access) {level : ℕ}
    {addr pte : BitVec 64} (hdvd : scheme.pteSize ∣ Memory.offset addr)
    (profile : Profile)
    {mem : Memory}
    (hpte : mem.InDram addr scheme.pteSize →
      pte = mem.dram.loadLe (Memory.offset addr) scheme.pteSize) :
    (leaf scheme effective status va access level addr pte).Ensures profile mem
      (fun _ mem' => frame.rel mem mem') (fun _ mem' => frame.rel mem mem') := by
  have hsize := validSize_pteSize hscheme
  have hwrite : (Memory.write addr scheme.pteSize
      (pte ||| need access)).Ensures profile mem
      (fun _ mem' => frame.rel mem mem') (fun _ mem' => frame.rel mem mem') := by
    by_cases hin : mem.InDram addr scheme.pteSize
    · intro outcome mem' hrun
      rw [Memory.write_inDram hin hsize] at hrun
      cases hrun
      rw [hpte hin]
      exact hwalks.mark hdvd hin
    by_cases hbase : DRAM_BASE ≤ addr
    · intro outcome mem' hrun
      rw [Memory.write, if_pos hbase,
        Program.bind_run_ok (Program.read_run _ _ _),
        Memory.index_of_not_inDram hin] at hrun
      cases hrun
      exact frame.refl mem
    · exact hwalks.device addr _ (BitVec.not_le.mp hbase) profile mem
  unfold leaf
  apply Program.Ensures.ite
  · exact fun _ => Program.Ensures.fail (frame.refl _)
  intro _
  apply Program.Ensures.ite
  · exact fun _ => Program.Ensures.fail (frame.refl _)
  intro _
  apply Program.Ensures.bind
  apply Program.Ensures.check
  intro mask _
  apply Program.Ensures.ite
  · exact fun _ => Program.Ensures.fail (frame.refl _)
  intro _
  dsimp only
  apply Program.Ensures.ite
  · intro _
    apply Program.Ensures.bind
    apply Program.Ensures.mapError
    apply hwrite.mono
    · exact fun _ _ hrel => Program.Ensures.check fun _ _ => hrel
    · exact fun _ _ hrel => hrel
  · exact fun _ => Program.Ensures.check fun _ _ => frame.refl _

theorem walk_walks (hscheme : scheme ≠ .bare)
    (hwalks : KeepsWalks frame scheme.pteSize access) (profile : Profile)
    (remaining : ℕ) (hremaining : remaining ≤ scheme.levels)
    (table : BitVec 64) (htable : TableBase table) (mem : Memory) :
    (walk scheme effective status va access remaining table).Ensures profile
      mem (fun _ mem' => frame.rel mem mem')
      (fun _ mem' => frame.rel mem mem') := by
  induction remaining generalizing table mem with
  | zero => exact Program.Ensures.fail (frame.refl _)
  | succ level ih =>
      have hlevel : level < scheme.levels := hremaining
      rw [walk, pteAddr_eq_pure hscheme hlevel htable, Program.check_pure,
        pure_bind]
      apply Program.Ensures.bind
      apply Program.Ensures.mapError
      intro outcome mem₁ hrun
      have hsame : frame.rel mem mem₁ :=
        (hwalks.read (entryAddr scheme va table level)).of_run hrun
      have hentry := Memory.read_ensures (entryAddr scheme va table level)
        (validSize_pteSize hscheme) profile mem
      cases outcome with
      | error e => exact hsame
      | ok pte =>
          obtain ⟨hdram, hpte⟩ := hentry.ok hrun
          apply Program.Ensures.ite
          · exact fun _ => Program.Ensures.fail hsame
          intro _
          apply Program.Ensures.ite
          · intro _
            apply Program.Ensures.ite
            · exact fun _ => Program.Ensures.fail hsame
            intro _
            rw [(page_mul (ppn_toNat_lt scheme pte)).1, Program.check_pure,
              pure_bind]
            apply (ih hlevel.le (nextTable scheme pte)
              (nextTable_tableBase scheme pte) mem₁).mono
            · exact fun _ _ hrest => frame.trans hsame hrest
            · exact fun _ _ hrest => frame.trans hsame hrest
          · intro _
            have hloaded : mem₁.InDram (entryAddr scheme va table level)
                scheme.pteSize → pte = mem₁.dram.loadLe
                  (Memory.offset (entryAddr scheme va table level))
                  scheme.pteSize := by
              intro hin
              rw [hdram]
              apply hpte
              rwa [Memory.InDram, hdram] at hin
            apply (leaf_walks hscheme hwalks
              (offset_dvd hscheme htable va level) profile hloaded).mono
            · exact fun _ _ hrest => frame.trans hsame hrest
            · exact fun _ _ hrest => frame.trans hsame hrest

/-- As far as memory goes, a translation reads entries and sets bits of one. -/
theorem translate_walks {xlen : Xlen}
    (hwalks : KeepsWalks frame (entrySize xlen) access)
    (satp status : BitVec 64) (mode : Priv) (va : BitVec 64)
    (profile : Profile) (mem : Memory) :
    (translate xlen satp status mode va access).Ensures profile mem
      (fun _ mem' => frame.rel mem mem') (fun _ mem' => frame.rel mem mem') := by
  by_cases hpaged : Mode.of satp xlen = .bare
  · rw [translate, if_pos (Or.inl hpaged)]
    exact Program.Ensures.pure (frame.refl _)
  by_cases heffective : effectivePriv status mode access = .machine
  · rw [translate, if_pos (Or.inr heffective)]
    exact Program.Ensures.pure (frame.refl _)
  rw [← pteSize_eq_entrySize hpaged] at hwalks
  rw [translate_eq_walk hpaged heffective]
  apply Program.Ensures.ite
  · exact fun _ => Program.Ensures.fail (frame.refl _)
  · exact fun _ => walk_walks hpaged hwalks profile _ le_rfl _
      (rootTable_tableBase _ satp) mem

end Walks

/-! ## Walks keep the tables -/

/-- Setting the bits an access needs, in an entry where it lies, stays within
the frame. -/
def KeepsMarks (frame : Frame Dram) (size : ℕ) (access : Access) : Prop :=
  ∀ {mem : Memory} {addr : BitVec 64}, size ∣ Memory.offset addr →
    frame.rel mem.dram (mem.stored addr size
      (mem.dram.loadLe (Memory.offset addr) size ||| need access)).dram

def dramOnly (frame : Frame Dram) : Frame Memory where
  rel mem mem' := frame.rel mem.dram mem'.dram
  refl mem := frame.refl mem.dram
  trans := frame.trans

theorem KeepsMarks.walks {frame : Frame Dram} {xlen : Xlen} {access : Access}
    (hmarks : KeepsMarks frame (entrySize xlen) access) :
    KeepsWalks (dramOnly frame) (entrySize xlen) access := by
  have hsame : ∀ {mem mem' : Memory}, mem'.dram = mem.dram →
      (dramOnly frame).rel mem mem' := by
    intro mem mem' hdram
    change frame.rel mem.dram mem'.dram
    rw [hdram]
    exact frame.refl _
  have hsize : Memory.validSize (entrySize xlen) = true := by
    cases xlen <;> rfl
  constructor
  case read =>
    intro addr profile mem
    apply (Memory.read_keeps_dram addr _ profile mem).mono
    · exact fun _ _ => hsame
    · exact fun _ _ => hsame
  case device =>
    intro addr value hlow profile mem
    apply (Memory.write_ensures addr hsize value profile mem).mono
    · rintro _ mem' (⟨hin, -⟩ | ⟨-, hdram⟩)
      · exact absurd hlow (BitVec.not_lt.mpr hin.1)
      · exact hsame hdram
    · exact fun _ _ => hsame
  case mark => exact fun hdvd _ => hmarks hdvd

section Keeps

variable {access : Access} {frame : Frame Dram}

theorem tablesFrame_marks {size : ℕ} (hsize : 0 < size ∧ size ≤ 8) :
    KeepsMarks (tablesFrame size) size access :=
  fun hdvd => sameTables_stored hsize hdvd rfl access

theorem translate_tables {xlen : Xlen}
    (hmarks : KeepsMarks frame (entrySize xlen) access)
    (satp status : BitVec 64) (mode : Priv) (va : BitVec 64)
    (profile : Profile) (mem : Memory) :
    (translate xlen satp status mode va access).Ensures profile mem
      (fun _ mem' => frame.rel mem.dram mem'.dram)
      (fun _ mem' => frame.rel mem.dram mem'.dram) :=
  translate_walks hmarks.walks satp status mode va profile mem

theorem entrySize_bounds (xlen : Xlen) :
    0 < entrySize xlen ∧ entrySize xlen ≤ 8 := by
  cases xlen <;> decide

theorem translate_sameTables (xlen : Xlen) (satp status : BitVec 64)
    (mode : Priv) (va : BitVec 64) (access : Access) (profile : Profile)
    (mem : Memory) :
    (translate xlen satp status mode va access).Ensures profile mem
      (fun _ mem' => SameTables (entrySize xlen) mem.dram mem'.dram)
      (fun _ mem' => SameTables (entrySize xlen) mem.dram mem'.dram) :=
  translate_tables (tablesFrame_marks (entrySize_bounds xlen)) satp status mode
    va profile mem

end Keeps

/-! ## Same tables, same walk -/

section Congruence

variable {scheme : Mode} {dram dram' : Dram} {va va' : BitVec 64}
  {remaining : ℕ} {table : BitVec 64}

theorem getLsbD_of_page_eq (hpage : va' >>> 12 = va >>> 12) {i : ℕ}
    (hi : 12 ≤ i) : va'.getLsbD i = va.getLsbD i := by
  have hbit := congrArg (fun word => word.getLsbD (i - 12)) hpage
  simpa only [BitVec.getLsbD_ushiftRight, Nat.add_sub_cancel' hi] using hbit

theorem entryAddr_congr (hpage : va' >>> 12 = va >>> 12) (level : ℕ) :
    entryAddr scheme va' table level = entryAddr scheme va table level := by
  rw [entryAddr, entryAddr, BitVec.shiftRight_add, BitVec.shiftRight_add,
    hpage]

theorem canonical_congr (hpage : va' >>> 12 = va >>> 12) :
    canonical va' = canonical va := by
  rw [Bool.eq_iff_iff, canonical_iff, canonical_iff, Canonical, Canonical]
  have hbit : ∀ i, 38 ≤ i → va'.getLsbD i = va.getLsbD i :=
    fun i hi => getLsbD_of_page_eq hpage (by omega)
  constructor
  · intro h i hlow hhigh
    rw [← hbit i hlow, ← hbit 38 le_rfl]
    exact h i hlow hhigh
  · intro h i hlow hhigh
    rw [hbit i hlow, hbit 38 le_rfl]
    exact h i hlow hhigh

theorem ValidEntry.congr {pte pte' : BitVec 64}
    (hagree : Agree stableBits pte' pte) : ValidEntry pte' ↔ ValidEntry pte := by
  have hv := agree_iff.mp hagree 0 (by decide)
  have hr := agree_iff.mp hagree 1 (by decide)
  have hw := agree_iff.mp hagree 2 (by decide)
  constructor
  · rintro ⟨hpresent, hwrite⟩
    exact ⟨hv ▸ hpresent, hr ▸ hw ▸ hwrite⟩
  · rintro ⟨hpresent, hwrite⟩
    exact ⟨hv.symm ▸ hpresent, hr.symm ▸ hw.symm ▸ hwrite⟩

theorem PointerEntry.congr {pte pte' : BitVec 64}
    (hagree : Agree stableBits pte' pte) :
    PointerEntry pte' ↔ PointerEntry pte := by
  have hr := agree_iff.mp hagree 1 (by decide)
  have hx := agree_iff.mp hagree 3 (by decide)
  rw [PointerEntry, PointerEntry, hr, hx]

theorem stableBits_high {i : ℕ} (hi : PPN_SHIFT + i < 64) :
    stableBits.getLsbD (PPN_SHIFT + i) = true := by
  have hflags : (A ||| D).getLsbD (PPN_SHIFT + i) = false := by
    have hlt : (A ||| D).toNat < 2 ^ 10 := by decide
    exact Nat.testBit_lt_two_pow
      (hlt.trans_le (Nat.pow_le_pow_right (by decide) (Nat.le_add_right 10 i)))
  rw [stableBits, BitVec.getLsbD_not, hflags, decide_eq_true hi]
  rfl

theorem ppn_congr {pte pte' : BitVec 64} (hagree : Agree stableBits pte' pte) :
    ppn scheme pte' = ppn scheme pte := by
  rw [agree_iff] at hagree
  apply BitVec.eq_of_getLsbD_eq
  intro i _
  rw [ppn, ppn, BitVec.getLsbD_and, BitVec.getLsbD_and,
    BitVec.getLsbD_ushiftRight, BitVec.getLsbD_ushiftRight]
  by_cases hi : PPN_SHIFT + i < 64
  · rw [hagree _ (stableBits_high hi)]
  · rw [BitVec.getLsbD_of_ge _ _ (not_lt.mp hi),
      BitVec.getLsbD_of_ge _ _ (not_lt.mp hi)]

theorem Reaches.level_lt {reached : Leaf}
    (hreaches : Reaches scheme dram va remaining table reached) :
    reached.level < remaining := by
  induction hreaches with
  | leaf _ _ => exact Nat.lt_succ_self _
  | pointer _ _ _ ih => exact Nat.lt_succ_of_lt ih

theorem entriesRead_congr (hpage : va' >>> 12 = va >>> 12)
    (hagree : ∀ addr ∈ entriesRead scheme dram va remaining table,
      Agree stableBits (entryAt scheme dram' addr)
        (entryAt scheme dram addr)) :
    entriesRead scheme dram' va' remaining table =
      entriesRead scheme dram va remaining table := by
  induction remaining generalizing table with
  | zero => rfl
  | succ level ih =>
      rw [entriesRead, entriesRead, entryAddr_congr hpage]
      set addr := entryAddr scheme va table level with haddr
      have hfirst : Agree stableBits (entryAt scheme dram' addr)
          (entryAt scheme dram addr) :=
        hagree addr (by simp [entriesRead, haddr])
      have hcondition :
          (valid (entryAt scheme dram' addr) &&
              isPointer (entryAt scheme dram' addr)) =
            (valid (entryAt scheme dram addr) &&
              isPointer (entryAt scheme dram addr)) := by
        rw [Bool.eq_iff_iff, Bool.and_eq_true, Bool.and_eq_true, valid_iff,
          valid_iff, isPointer_iff, isPointer_iff,
          ValidEntry.congr hfirst, PointerEntry.congr hfirst]
      rw [hcondition]
      by_cases hpointer : (valid (entryAt scheme dram addr) &&
          isPointer (entryAt scheme dram addr)) = true
      · rw [if_pos hpointer, if_pos hpointer, nextTable, ppn_congr hfirst,
          ← nextTable]
        rw [ih]
        intro next hnext
        apply hagree next
        rw [entriesRead, ← haddr, if_pos hpointer]
        exact List.mem_cons_of_mem _ hnext
      · rw [if_neg hpointer, if_neg hpointer]

/-- Walks over agreeing entries end at the same leaf, up to its accessed and
dirty bits. -/
theorem Reaches.congr {reached : Leaf} (hpage : va' >>> 12 = va >>> 12)
    (hagree : ∀ addr ∈ entriesRead scheme dram va remaining table,
      Agree stableBits (entryAt scheme dram' addr)
        (entryAt scheme dram addr))
    (hreaches : Reaches scheme dram' va' remaining table reached) :
    ∃ reached', Reaches scheme dram va remaining table reached' ∧
      reached'.level = reached.level ∧
      Agree stableBits reached.pte reached'.pte := by
  induction remaining generalizing table with
  | zero => cases hreaches
  | succ level ih =>
      have hsame : entryAddr scheme va' table level =
          entryAddr scheme va table level := entryAddr_congr hpage level
      have hfirst : Agree stableBits
          (entryAt scheme dram' (entryAddr scheme va' table level))
          (entryAt scheme dram (entryAddr scheme va table level)) := by
        rw [hsame]
        exact hagree _ (by simp [entriesRead])
      cases hreaches with
      | leaf hvalid hleaf =>
          exact ⟨_, .leaf ((ValidEntry.congr hfirst).mp hvalid)
            (fun h => hleaf ((PointerEntry.congr hfirst).mpr h)), rfl, hfirst⟩
      | pointer hvalid hpointer hrest =>
          have hvalid' := (ValidEntry.congr hfirst).mp hvalid
          have hpointer' := (PointerEntry.congr hfirst).mp hpointer
          rw [nextTable, ppn_congr hfirst, ← nextTable] at hrest
          obtain ⟨reached', hreaches', hlevel, hpte⟩ :=
            ih (fun addr haddr => hagree addr (by
              rw [entriesRead, (valid_iff _).mpr hvalid',
                (isPointer_iff _).mpr hpointer']
              exact List.mem_cons_of_mem _ haddr)) hrest
          exact ⟨reached', .pointer hvalid' hpointer' hreaches', hlevel, hpte⟩

theorem Leaf.Grants.congr {reached reached' : Leaf}
    {status status' : BitVec 64} {effective : Priv} {access : Access}
    (hlevel : reached'.level = reached.level)
    (hpte : Agree stableBits reached.pte reached'.pte)
    (hsum : status' &&& Mstatus.SUM = status &&& Mstatus.SUM)
    (hmxr : status' &&& Mstatus.MXR = status &&& Mstatus.MXR)
    (hgrants : reached.Grants scheme status effective access) :
    reached'.Grants scheme status' effective access := by
  have hr := agree_iff.mp hpte 1 (by decide)
  have hw := agree_iff.mp hpte 2 (by decide)
  have hx := agree_iff.mp hpte 3 (by decide)
  have hu := agree_iff.mp hpte 4 (by decide)
  have hsumBit := agree_iff.mp hsum 18 (by decide)
  have hmxrBit := agree_iff.mp hmxr 19 (by decide)
  obtain ⟨hpermits, huser, haligned⟩ := hgrants
  refine ⟨?_, ?_, ?_⟩
  · cases access with
    | fetch =>
        rw [Permits, ← hx]
        exact hpermits
    | load =>
        rw [Permits, ← hr, ← hx, hmxrBit]
        exact hpermits
    | store =>
        rw [Permits, ← hw]
        exact hpermits
  · cases effective with
    | user =>
        rw [RespectsUser, ← hu]
        exact huser
    | supervisor =>
        rw [RespectsUser, ← hu, hsumBit]
        exact huser
    | machine => trivial
  · rw [hlevel, ← ppn_congr hpte]
    exact haligned

theorem eq_of_page_and_offset {pa base offset : BitVec 64}
    (hpage : pa >>> 12 = base >>> 12)
    (hoffset : pa &&& 0xfff = offset &&& 0xfff) :
    pa = (base &&& ~~~0xfff) ||| (offset &&& 0xfff) := by
  have hsplit : pa = (pa &&& ~~~0xfff) ||| (pa &&& 0xfff) := by
    have hall : (~~~0xfff ||| 0xfff : BitVec 64) = BitVec.allOnes 64 := by
      decide
    rw [← BitVec.and_or_distrib_left, hall, BitVec.and_allOnes]
  have hhigh : pa &&& ~~~0xfff = base &&& ~~~0xfff := by
    change Agree (~~~0xfff) pa base
    rw [agree_iff]
    intro i hi
    apply getLsbD_of_page_eq hpage
    by_contra hlow
    have hall : ∀ j, j < 12 → (~~~0xfff : BitVec 64).getLsbD j = false := by
      decide
    rw [hall i (not_le.mp hlow)] at hi
    cases hi
  rw [← hhigh, ← hoffset]
  exact hsplit

theorem Leaf.target_toNat {reached : Leaf} (va : BitVec 64)
    (hlevel : reached.level < scheme.levels) :
    (reached.target scheme va).toNat =
      (ppn scheme reached.pte).toNat * 4096 +
        va.toNat % 2 ^ (12 + scheme.vpnBits * reached.level) := by
  have hpage := ppn_toNat_lt scheme reached.pte
  have hmod := Nat.mod_lt va.toNat
    (Nat.two_pow_pos (12 + scheme.vpnBits * reached.level))
  have hpow : 2 ^ (12 + scheme.vpnBits * reached.level) ≤ 2 ^ 30 :=
    Nat.pow_le_pow_right (by decide)
      (by have := levelBits_le hlevel; omega)
  rw [Leaf.target, BitVec.toNat_ofNat, Nat.mod_eq_of_lt (by omega)]

theorem Leaf.target_congr {reached reached' : Leaf}
    (hlevel : reached.level < scheme.levels)
    (hlevels : reached'.level = reached.level)
    (hpte : Agree stableBits reached.pte reached'.pte)
    (hpage : va' >>> 12 = va >>> 12) :
    reached'.target scheme va =
      (reached.target scheme va' &&& ~~~0xfff) ||| (va &&& 0xfff) := by
  have hnat : va'.toNat / 4096 = va.toNat / 4096 := by
    have h := congrArg BitVec.toNat hpage
    simpa only [BitVec.toNat_ushiftRight, Nat.shiftRight_eq_div_pow] using h
  have htarget := Leaf.target_toNat va (hlevels.symm ▸ hlevel)
  have htarget' := Leaf.target_toNat va' hlevel
  rw [hlevels, ← ppn_congr hpte] at htarget
  set bits := scheme.vpnBits * reached.level
  have hmod := @Nat.mod_mul 4096 (2 ^ bits) va.toNat
  have hmod' := @Nat.mod_mul 4096 (2 ^ bits) va'.toNat
  have hpow : 2 ^ (12 + bits) = 4096 * 2 ^ bits := Nat.pow_add 2 12 bits
  rw [hpow, hmod] at htarget
  rw [hpow, hmod', hnat] at htarget'
  apply eq_of_page_and_offset
  · apply BitVec.eq_of_toNat_eq
    simp only [BitVec.toNat_ushiftRight, Nat.shiftRight_eq_div_pow]
    rw [htarget, htarget']
    omega
  · apply BitVec.eq_of_toNat_eq
    have hmask : (0xfff : BitVec 64).toNat = 2 ^ 12 - 1 := by decide
    rw [BitVec.toNat_and, BitVec.toNat_and, hmask,
      Nat.and_two_pow_sub_one_eq_mod, Nat.and_two_pow_sub_one_eq_mod, htarget]
    omega

end Congruence

/-- What was translated once is translated the same again: for any address of
the page, over tables that agree on the entries the walk reads, at the same
effective privilege, SUM and MXR. -/
theorem translate_again {xlen : Xlen} {satp status status' : BitVec 64}
    {mode mode' : Priv} {va va' pa' : BitVec 64} {access : Access}
    {mem mem' after : Memory} {profile' : Profile}
    (heffective : effectivePriv status' mode' access =
      effectivePriv status mode access)
    (hsum : status' &&& Mstatus.SUM = status &&& Mstatus.SUM)
    (hmxr : status' &&& Mstatus.MXR = status &&& Mstatus.MXR)
    (hpage : va' >>> 12 = va >>> 12)
    (hin : ∀ addr ∈ translationReads (Mode.of satp xlen) satp mem.dram va,
      mem.InDram addr (Mode.of satp xlen).pteSize)
    (hlen : mem'.dram.len = mem.dram.len)
    (hagree : ∀ addr ∈ translationReads (Mode.of satp xlen) satp mem.dram va,
      Agree stableBits (entryAt (Mode.of satp xlen) mem'.dram addr)
        (entryAt (Mode.of satp xlen) mem.dram addr))
    (hrun : translate xlen satp status' mode' va' access profile' mem' =
      some (.ok pa', after))
    (profile : Profile) :
    ∃ after', translate xlen satp status mode va access profile mem =
      some (.ok ((pa' &&& ~~~0xfff) ||| (va &&& 0xfff)), after') := by
  have hflat : ∀ pa, pa = va' → va = (pa &&& ~~~0xfff) ||| (va &&& 0xfff) := by
    rintro pa rfl
    exact eq_of_page_and_offset hpage.symm rfl
  by_cases hpaged : Mode.of satp xlen = .bare
  · rw [translate, if_pos (Or.inl hpaged)] at hrun
    cases hrun
    rw [translate, if_pos (Or.inl hpaged), ← hflat _ rfl]
    exact ⟨mem, rfl⟩
  by_cases hmachine : effectivePriv status mode access = .machine
  · rw [translate, if_pos (Or.inr (heffective.trans hmachine))] at hrun
    cases hrun
    rw [translate, if_pos (Or.inr hmachine), ← hflat _ rfl]
    exact ⟨mem, rfl⟩
  set scheme := Mode.of satp xlen with hscheme
  have hreads : translationReads scheme satp mem'.dram va' =
      translationReads scheme satp mem.dram va := by
    rw [translationReads, translationReads, canonical_congr hpage]
    split
    · rfl
    · next hok =>
        rw [translationReads, if_neg hok] at hagree
        exact entriesRead_congr hpage hagree
  have hin' : ∀ addr ∈ translationReads scheme satp mem'.dram va',
      mem'.InDram addr scheme.pteSize := by
    intro addr haddr
    rw [hreads] at haddr
    have h := hin addr haddr
    rwa [Memory.InDram, ← hlen] at h
  have hmachine' : effectivePriv status' mode' access ≠ .machine := by
    rw [heffective]
    exact hmachine
  rcases translate_spec hpaged hmachine' hin' profile' with
    ⟨reached, hanswers, -, hrun'⟩ | ⟨-, hrun'⟩
  · rw [hrun'] at hrun
    cases hrun
    have hcanonical : ¬ (scheme = .sv39 ∧ (!canonical va) = true) := by
      rintro ⟨hsv39, hbad⟩
      have hgood := (canonical_iff va').mpr (hanswers.canonical hsv39)
      rw [canonical_congr hpage] at hgood
      rw [hgood] at hbad
      cases hbad
    have hentries : ∀ addr ∈ entriesRead scheme mem.dram va scheme.levels
        (rootTable scheme satp), Agree stableBits
          (entryAt scheme mem'.dram addr) (entryAt scheme mem.dram addr) := by
      rwa [translationReads, if_neg hcanonical] at hagree
    obtain ⟨reached', hreaches, hlevel, hpte⟩ :=
      hanswers.reaches.congr hpage hentries
    have hanswers' : Answers scheme satp status
        (effectivePriv status mode access) mem.dram va access reached' := by
      refine ⟨fun hsv39 => ?_, hreaches, ?_⟩
      · have hgood := (canonical_iff va').mpr (hanswers.canonical hsv39)
        rw [canonical_congr hpage] at hgood
        exact (canonical_iff va).mp hgood
      · rw [← heffective]
        exact hanswers.grants.congr hlevel hpte hsum.symm hmxr.symm
    rcases translate_spec hpaged hmachine hin profile with
      ⟨found, hfound, -, hgoal⟩ | ⟨hnone, -⟩
    · rw [hfound.reaches.unique hreaches] at hgoal
      have hbound := hanswers.reaches.level_lt
      rw [hgoal, Leaf.target_congr hbound hlevel hpte hpage]
      exact ⟨_, rfl⟩
    · exact absurd hanswers' (hnone reached')
  · rw [hrun'] at hrun
    cases hrun

end Mmu

end Nanoemu
