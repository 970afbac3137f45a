import Nanoemu.EntryWords
import Nanoemu.PageOffset

/-!
# Walks over entries wherever they lie

A walk that ends in memory has read every entry to no effect, and set the bits
of the last one.  It ends at the same place as long as those entries keep what
they hold, and an access that only reads is granted where a store is.
-/

namespace Nanoemu

open CheckedProgram BitFields

namespace Memory

/-- The same memory, up to the flag that devices were touched. -/
def Still (mem mem' : Memory) : Prop :=
  mem' = { mem with devicesDirty := mem'.devicesDirty }

theorem Still.trans {mem mem' mem'' : Memory} (hfirst : Still mem mem')
    (hsecond : Still mem' mem'') : Still mem mem'' := by
  rw [Still, hsecond, hfirst]

theorem Still.symm {mem mem' : Memory} (h : Still mem mem') :
    Still mem' mem := by
  rw [Still, h]

theorem noticed_still (mem : Memory) (addr : BitVec 64) :
    Still mem (mem.noticed addr) := by
  unfold noticed
  split <;> rfl

namespace Still

variable {mem mem' : Memory} {size : ℕ}

theorem word (h : Still mem mem') {profile : Profile} {addr v : BitVec 64} :
    Word profile mem' size addr v ↔ Word profile mem size addr v := by
  rw [h]
  constructor
  · intro hword
    cases hword with
    | dram hin => exact .dram hin
    | clint hin hcount => exact .clint hin hcount
    | plic hin => exact .plic hin
  · intro hword
    cases hword with
    | dram hin => exact .dram hin
    | clint hin hcount => exact .clint hin hcount
    | plic hin => exact .plic hin

theorem sound (h : Still mem mem') (hsound : mem.Sound) : mem'.Sound := by
  rw [h]
  exact ⟨hsound.clint, hsound.plic⟩

theorem dram (h : Still mem mem') : mem'.dram = mem.dram :=
  (congrArg Memory.dram h :)

theorem then_alike {mem'' : Memory} (h : Still mem mem')
    (halike : Alike size mem' mem'') : Alike size mem mem'' := by
  rw [h] at halike
  exact ⟨halike.dram, halike.clint, halike.plic⟩

end Still

end Memory

namespace Mmu

/-- The walk of `va` from `table` reads words of `mem` and follows valid
pointers to a valid leaf. -/
inductive Path (scheme : Mode) (profile : Profile) (mem : Memory)
    (va : BitVec 64) : (remaining : ℕ) → (table : BitVec 64) → Leaf → Prop where
  | leaf {level : ℕ} {table pte : BitVec 64} :
      mem.Word profile scheme.pteSize (entryAddr scheme va table level) pte →
      Numbered pte → ValidEntry pte → ¬ PointerEntry pte →
      Path scheme profile mem va (level + 1) table
        { level := level, addr := entryAddr scheme va table level, pte := pte }
  | pointer {level : ℕ} {table pte : BitVec 64} {reached : Leaf} :
      mem.Word profile scheme.pteSize (entryAddr scheme va table level) pte →
      Numbered pte → ValidEntry pte → PointerEntry pte →
      Path scheme profile mem va level (nextTable scheme pte) reached →
      Path scheme profile mem va (level + 1) table reached

def entriesMet (scheme : Mode) (profile : Profile) (mem : Memory)
    (va : BitVec 64) : (remaining : ℕ) → (table : BitVec 64) →
      List (BitVec 64)
  | 0, _ => []
  | level + 1, table =>
      let addr := entryAddr scheme va table level
      addr ::
        match Memory.read addr scheme.pteSize profile mem with
        | some (.ok pte, _) =>
            if valid pte && isPointer pte then
              entriesMet scheme profile mem va level (nextTable scheme pte)
            else []
        | _ => []

section Paths

variable {scheme : Mode} {profile : Profile} {mem mem' : Memory}
  {va va' : BitVec 64} {remaining : ℕ} {table : BitVec 64} {reached : Leaf}

theorem pteSize_entry (hscheme : scheme ≠ .bare) :
    scheme.pteSize = 4 ∨ scheme.pteSize = 8 := by
  rcases pteSize_cases hscheme with ⟨-, h⟩ | ⟨-, h⟩
  · exact Or.inl h
  · exact Or.inr h

theorem entryAddr_dvd (hscheme : scheme ≠ .bare) (htable : TableBase table)
    (va : BitVec 64) (level : ℕ) :
    scheme.pteSize ∣ (entryAddr scheme va table level).toNat := by
  obtain ⟨page, entry, -, -, haddr⟩ := entryAddr_toNat hscheme htable va level
  have hpage : scheme.pteSize ∣ 4096 := by
    rcases pteSize_entry hscheme with h | h <;> rw [h] <;> decide
  rw [haddr]
  exact Nat.dvd_add (hpage.mul_left page) (Nat.dvd_mul_left _ _)

theorem entriesMet_leaf {level : ℕ} {pte : BitVec 64} (hscheme : scheme ≠ .bare)
    (hword : mem.Word profile scheme.pteSize
      (entryAddr scheme va table level) pte)
    (hnumber : Numbered pte) (hleaf : ¬ PointerEntry pte) :
    entriesMet scheme profile mem va (level + 1) table =
      [entryAddr scheme va table level] := by
  have hpointer : isPointer pte = false := by
    rw [← Bool.not_eq_true, isPointer_iff]
    exact hleaf
  unfold entriesMet
  simp only [hword.read (validSize_pteSize hscheme) hnumber, hpointer,
    Bool.and_false, Bool.false_eq_true, if_false]

theorem entriesMet_pointer {level : ℕ} {pte : BitVec 64}
    (hscheme : scheme ≠ .bare)
    (hword : mem.Word profile scheme.pteSize
      (entryAddr scheme va table level) pte)
    (hnumber : Numbered pte) (hvalid : ValidEntry pte)
    (hpointer : PointerEntry pte) :
    entriesMet scheme profile mem va (level + 1) table =
      entryAddr scheme va table level ::
        entriesMet scheme profile mem va level (nextTable scheme pte) := by
  rw [entriesMet]
  simp only [hword.read (validSize_pteSize hscheme) hnumber,
    (valid_iff pte).mpr hvalid, (isPointer_iff pte).mpr hpointer, Bool.and_true,
    if_true]

theorem Path.addr_mem (hscheme : scheme ≠ .bare)
    (hpath : Path scheme profile mem va remaining table reached) :
    reached.addr ∈ entriesMet scheme profile mem va remaining table := by
  induction hpath with
  | leaf hword hnumber _ hleaf =>
      rw [entriesMet_leaf hscheme hword hnumber hleaf]
      exact List.mem_singleton_self _
  | pointer hword hnumber hvalid hpointer _ ih =>
      rw [entriesMet_pointer hscheme hword hnumber hvalid hpointer]
      exact List.mem_cons_of_mem _ ih

/-- What is read at an address differs in accessed and dirty bits at most. -/
def KeptAt (profile : Profile) (size : ℕ) (mem mem' : Memory)
    (addr : BitVec 64) : Prop :=
  ∀ v, mem.Word profile size addr v → Numbered v →
    ∃ v', mem'.Word profile size addr v' ∧ Agree stableBits v' v

theorem Path.kept (hscheme : scheme ≠ .bare) (hpage : va' >>> 12 = va >>> 12)
    (hpath : Path scheme profile mem va remaining table reached)
    (hkept : ∀ addr ∈ entriesMet scheme profile mem va remaining table,
      KeptAt profile scheme.pteSize mem mem' addr) :
    (∃ reached', Path scheme profile mem' va' remaining table reached' ∧
        reached'.level = reached.level ∧
        Agree stableBits reached.pte reached'.pte) ∧
      entriesMet scheme profile mem' va' remaining table =
        entriesMet scheme profile mem va remaining table := by
  induction hpath with
  | leaf hword hnumber hvalid hleaf =>
      rw [entriesMet_leaf hscheme hword hnumber hleaf] at hkept ⊢
      obtain ⟨pte', hword', hpte⟩ :=
        hkept _ (List.mem_singleton_self _) _ hword hnumber
      rw [← entryAddr_congr hpage] at hword' ⊢
      have hnumber' := (numbered_congr hpte).mpr hnumber
      have hvalid' := (ValidEntry.congr hpte).mpr hvalid
      have hleaf' := mt (PointerEntry.congr hpte).mp hleaf
      exact ⟨⟨_, .leaf hword' hnumber' hvalid' hleaf', rfl, hpte.symm⟩,
        entriesMet_leaf hscheme hword' hnumber' hleaf'⟩
  | pointer hword hnumber hvalid hpointer _ ih =>
      rw [entriesMet_pointer hscheme hword hnumber hvalid hpointer] at hkept ⊢
      obtain ⟨pte', hword', hpte⟩ :=
        hkept _ List.mem_cons_self _ hword hnumber
      obtain ⟨⟨reached', hpath', hlevel, hleaf⟩, hentries⟩ :=
        ih fun addr haddr => hkept addr (List.mem_cons_of_mem _ haddr)
      rw [← entryAddr_congr hpage] at hword' ⊢
      have hnumber' := (numbered_congr hpte).mpr hnumber
      have hvalid' := (ValidEntry.congr hpte).mpr hvalid
      have hpointer' := (PointerEntry.congr hpte).mpr hpointer
      have hnext : ppn scheme pte' = ppn scheme _ := ppn_congr hpte
      rw [nextTable, ← hnext, ← nextTable] at hpath' hentries ⊢
      refine ⟨⟨reached', .pointer hword' hnumber' hvalid' hpointer' hpath',
        hlevel, hleaf⟩, ?_⟩
      rw [entriesMet_pointer hscheme hword' hnumber' hvalid' hpointer',
        hentries]

theorem Path.spec (hscheme : scheme ≠ .bare) (htable : TableBase table)
    (hpath : Path scheme profile mem va remaining table reached) :
    mem.Word profile scheme.pteSize reached.addr reached.pte ∧
      Numbered reached.pte ∧ ValidEntry reached.pte ∧
      scheme.pteSize ∣ reached.addr.toNat ∧ reached.level < remaining := by
  induction hpath with
  | leaf hword hnumber hvalid _ =>
      exact ⟨hword, hnumber, hvalid, entryAddr_dvd hscheme htable va _,
        Nat.lt_succ_self _⟩
  | pointer _ _ _ _ _ ih =>
      obtain ⟨hword, hnumber, hvalid, hdvd, hlevel⟩ :=
        ih (nextTable_tableBase scheme _)
      exact ⟨hword, hnumber, hvalid, hdvd, Nat.lt_succ_of_lt hlevel⟩

theorem Path.still (hstill : mem.Still mem')
    (hpath : Path scheme profile mem' va remaining table reached) :
    Path scheme profile mem va remaining table reached := by
  induction hpath with
  | leaf hword hnumber hvalid hleaf =>
      exact .leaf (hstill.word.mp hword) hnumber hvalid hleaf
  | pointer hword hnumber hvalid hpointer _ ih =>
      exact .pointer (hstill.word.mp hword) hnumber hvalid hpointer ih

end Paths

/-! ## The walker -/

/-- The bits of a leaf are set, or they were set before. -/
def Marks (scheme : Mode) (access : Access) (profile : Profile)
    (mem : Memory) (reached : Leaf) (after : Memory) : Prop :=
  if reached.pte &&& need access = need access then after = mem
  else Memory.write reached.addr scheme.pteSize (reached.pte ||| need access)
    profile mem = some (.ok (), after)

theorem Marks.unique {scheme : Mode} {access : Access} {profile : Profile}
    {mem after after' : Memory} {reached : Leaf}
    (h : Marks scheme access profile mem reached after)
    (h' : Marks scheme access profile mem reached after') : after' = after := by
  unfold Marks at h h'
  split at h
  · next hneed =>
      rw [if_pos hneed] at h'
      exact h'.trans h.symm
  · next hneed =>
      rw [if_neg hneed, h] at h'
      cases h'
      rfl

/-- What setting the bits of a leaf leaves alone. -/
structure Marked (size : ℕ) (mem : Memory) (reached : Leaf) (after : Memory) :
    Prop where
  alike : Memory.Alike size mem after
  sound : after.Sound
  bytes : ∀ i, ¬ Memory.Covers reached.addr size i →
    after.dram.byte i = mem.dram.byte i

theorem marks_marked {scheme : Mode} (hscheme : scheme ≠ .bare)
    {profile : Profile} {mem : Memory} {reached : Leaf}
    (hdvd : scheme.pteSize ∣ reached.addr.toNat)
    (hword : mem.Word profile scheme.pteSize reached.addr reached.pte)
    (hnumber : Numbered reached.pte) (hvalid : ValidEntry reached.pte)
    (hsound : mem.Sound) (access : Access) :
    ∃ after, Marks scheme access profile mem reached after ∧
      Marked scheme.pteSize mem reached after := by
  unfold Marks
  have hpresent : reached.pte &&& V ≠ 0 :=
    (BitFields.and_bit_ne_zero reached.pte 0).mpr hvalid.present
  by_cases hneed : reached.pte &&& need access = need access
  · refine ⟨mem, ?_, Memory.Alike.refl _ _, hsound, fun _ _ => rfl⟩
    rw [if_pos hneed]
  · obtain ⟨after, hrun, halike, hsound', hbytes⟩ :=
      Memory.Word.write (pteSize_entry hscheme) hdvd hword hsound hnumber
        hpresent access
    refine ⟨after, ?_, halike, hsound', hbytes⟩
    rw [if_neg hneed]
    exact hrun

section Walks

variable {scheme : Mode} {effective : Priv} {status va : BitVec 64}
  {access : Access} {profile : Profile} {mem after : Memory}

theorem leaf_marks {reached : Leaf} (hlevel : reached.level < scheme.levels)
    (hgrants : reached.Grants scheme status effective access)
    (pa : BitVec 64) :
    leaf scheme effective status va access reached.level reached.addr
        reached.pte profile mem = some (.ok pa, after) ↔
      pa = reached.target scheme va ∧
        Marks scheme access profile mem reached after := by
  rw [leaf, (reachable_iff _ _ _ _).mpr hgrants.respects_user,
    (permitted_iff _ _ _).mpr hgrants.permits]
  simp only [Bool.not_true, Bool.false_eq_true, if_false]
  rw [splitMask_eq_pure hlevel, Program.check_pure, pure_bind,
    if_neg ((aligned_iff hlevel _).mpr hgrants.aligned),
    splice_eq_pure hlevel va hgrants.aligned, Program.check_pure, Marks]
  by_cases hneed : reached.pte &&& need access = need access
  · rw [if_neg (not_not.mpr hneed), if_pos hneed, Program.pure_run]
    constructor
    · intro hrun
      cases hrun
      exact ⟨rfl, rfl⟩
    · rintro ⟨rfl, rfl⟩
      rfl
  · rw [if_pos hneed, if_neg hneed]
    rcases hwrite : Memory.write reached.addr scheme.pteSize
        (reached.pte ||| need access) profile mem with _ | ⟨error | value, mem'⟩
    · rw [Program.bind_run_none (by rw [Program.mapError, hwrite])]
      simp
    · rw [Program.bind_run_error (by rw [Program.mapError, hwrite])]
      simp
    · rw [Program.bind_run_ok (by rw [Program.mapError, hwrite]),
        Program.pure_run]
      constructor
      · intro hrun
        cases hrun
        exact ⟨rfl, rfl⟩
      · rintro ⟨rfl, hsame⟩
        cases hsame
        rfl

theorem ppn_of_not_numbered {pte : BitVec 64} (hnumber : ¬ Numbered pte) :
    ppn scheme pte = 0 := by
  rw [ppn, not_not.mp hnumber]
  exact BitVec.zero_and

/-- No walk goes on from the first page. -/
theorem walk_first_page (hscheme : scheme ≠ .bare) {remaining : ℕ}
    (hremaining : remaining ≤ scheme.levels) {pa : BitVec 64} :
    walk scheme effective status va access remaining 0 profile mem ≠
      some (.ok pa, after) := by
  intro hrun
  cases remaining with
  | zero => cases hrun
  | succ level =>
      have htable : TableBase 0 := ⟨0, by decide, rfl⟩
      obtain ⟨entry, hentry, hindex⟩ := entryIndex_mul scheme hscheme va level
      have hsize : (BitVec.ofNat 64 scheme.pteSize).toNat = scheme.pteSize := by
        cases scheme <;> rfl
      have haddr : (entryAddr scheme va 0 level).toNat < 4096 := by
        change (0#64 + entryIndex scheme va level *
          BitVec.ofNat 64 scheme.pteSize).toNat < _
        rw [BitVec.zero_add, BitVec.toNat_mul, hindex, hsize,
          Nat.mod_eq_of_lt (by omega)]
        exact hentry
      have hout : ¬ mem.InDram (entryAddr scheme va 0 level)
          scheme.pteSize := by
        intro hin
        have hbase : DRAM_BASE.toNat = 0x80000000 := by decide
        have hle := BitVec.le_def.mp hin.1
        omega
      have hdevice : ¬ Memory.InDevice (entryAddr scheme va 0 level) := by
        have hclint : CLINT_BASE.toNat = 0x2000000 := by decide
        have hplic : Plic.PLIC_BASE.toNat = 0xC000000 := by decide
        have huart : Uart.UART_BASE.toNat = 0x10000000 := by decide
        rintro ⟨-, ⟨hle, -⟩ | ⟨hle, -⟩ | ⟨hle, -⟩⟩
        all_goals
          rw [BitVec.le_def] at hle
          omega
      rw [walk, pteAddr_eq_pure hscheme hremaining htable, Program.check_pure,
        pure_bind, Program.bind_run_error (by
          rw [Program.mapError, Memory.read_unmapped hout hdevice])] at hrun
      cases hrun

theorem Leaf.not_numbered_target {reached : Leaf}
    (hlevel : reached.level < scheme.levels)
    (hnumber : ¬ Numbered reached.pte) :
    ¬ DRAM_BASE ≤ reached.target scheme va := by
  have hbase : DRAM_BASE.toNat = 0x80000000 := by decide
  have hpow : 2 ^ (12 + scheme.vpnBits * reached.level) ≤ 2 ^ 30 :=
    Nat.pow_le_pow_right (by decide)
      (by have := levelBits_le hlevel; omega)
  have hmod := Nat.mod_lt va.toNat
    (Nat.two_pow_pos (12 + scheme.vpnBits * reached.level))
  have hzero : (ppn scheme reached.pte).toNat = 0 := by
    rw [ppn_of_not_numbered hnumber]
    rfl
  rw [BitVec.le_def, Leaf.target_toNat va hlevel, hzero]
  omega

theorem walk_path (hscheme : scheme ≠ .bare) {remaining : ℕ}
    (hremaining : remaining ≤ scheme.levels) {table : BitVec 64}
    (htable : TableBase table) {pa : BitVec 64} (hpa : DRAM_BASE ≤ pa)
    (hrun : walk scheme effective status va access remaining table profile mem =
      some (.ok pa, after)) :
    ∃ reached mem₁, Path scheme profile mem va remaining table reached ∧
      mem.Still mem₁ ∧ reached.Grants scheme status effective access ∧
      pa = reached.target scheme va ∧
      Marks scheme access profile mem₁ reached after := by
  induction remaining generalizing table mem with
  | zero => cases hrun
  | succ level ih =>
      have hlevel : level < scheme.levels := hremaining
      rw [walk, pteAddr_eq_pure hscheme hlevel htable, Program.check_pure,
        pure_bind] at hrun
      rcases hread : Memory.read (entryAddr scheme va table level)
          scheme.pteSize profile mem with _ | ⟨error | pte, mem'⟩
      · rw [Program.bind_run_none (by rw [Program.mapError, hread])] at hrun
        cases hrun
      · rw [Program.bind_run_error (by rw [Program.mapError, hread])] at hrun
        cases hrun
      rw [Program.bind_run_ok (by rw [Program.mapError, hread])] at hrun
      by_cases hvalid : ValidEntry pte
      · rw [(valid_iff pte).mpr hvalid] at hrun
        simp only [Bool.not_true, Bool.false_eq_true, if_false] at hrun
        have hquiet := (Memory.read_word (validSize_pteSize hscheme) profile mem
          (entryAddr scheme va table level)).ok hread
        by_cases hpointer : PointerEntry pte
        · rw [if_pos ((isPointer_iff pte).mpr hpointer)] at hrun
          rcases Nat.eq_zero_or_pos level with rfl | hpos
          · cases hrun
          rw [if_neg (by omega), (page_mul (ppn_toNat_lt scheme pte)).1,
            Program.check_pure, pure_bind] at hrun
          by_cases hnumber : Numbered pte
          · obtain ⟨hword, rfl⟩ := hquiet hnumber
            obtain ⟨reached, mem₁, hpath, hstill, hgranted⟩ := ih hlevel.le
              (nextTable_tableBase scheme pte) hrun
            have hnoticed := mem.noticed_still (entryAddr scheme va table level)
            exact ⟨reached, mem₁,
              .pointer hword hnumber hvalid hpointer (hpath.still hnoticed),
              hnoticed.trans hstill, hgranted⟩
          · rw [ppn_of_not_numbered hnumber] at hrun
            exact absurd hrun (walk_first_page hscheme hlevel.le)
        · have hleaf : isPointer pte = false := by
            rw [← Bool.not_eq_true, isPointer_iff]
            exact hpointer
          rw [hleaf] at hrun
          simp only [Bool.false_eq_true, if_false] at hrun
          set reached : Leaf :=
            { level := level, addr := entryAddr scheme va table level, pte := pte }
            with hreached
          by_cases hgrants : reached.Grants scheme status effective access
          · obtain ⟨htarget, hmarks⟩ :=
              (@leaf_marks _ _ _ va _ _ _ _ reached hlevel hgrants pa).mp hrun
            by_cases hnumber : Numbered pte
            · obtain ⟨hword, rfl⟩ := hquiet hnumber
              exact ⟨reached, _, .leaf hword hnumber hvalid hpointer,
                mem.noticed_still _, hgrants, htarget, hmarks⟩
            · rw [htarget] at hpa
              exact absurd hpa (reached.not_numbered_target hlevel hnumber)
          · have hrefused : leaf scheme effective status va access level
                (entryAddr scheme va table level) pte profile mem' =
                some (.error (Exception.pageFault access va), mem') :=
              @leaf_refused _ _ _ _ _ _ reached hlevel hgrants profile
            rw [hrefused] at hrun
            cases hrun
      · have hinvalid : valid pte = false := by
          rw [← Bool.not_eq_true, valid_iff]
          exact hvalid
        rw [hinvalid] at hrun
        cases hrun

theorem Path.walk (hscheme : scheme ≠ .bare) {remaining : ℕ}
    (hremaining : remaining ≤ scheme.levels) {table : BitVec 64}
    (htable : TableBase table) (hsound : mem.Sound) {reached : Leaf}
    (hpath : Path scheme profile mem va remaining table reached)
    (hgrants : reached.Grants scheme status effective access) :
    ∃ after, Mmu.walk scheme effective status va access remaining table profile
      mem = some (.ok (reached.target scheme va), after) := by
  induction remaining generalizing table mem with
  | zero => cases hpath
  | succ level ih =>
      have hlevel : level < scheme.levels := hremaining
      have hnoticed := mem.noticed_still (entryAddr scheme va table level)
      rw [Mmu.walk, pteAddr_eq_pure hscheme hlevel htable, Program.check_pure,
        pure_bind]
      cases hpath with
      | @leaf _ _ pte hword hnumber hvalid hpointer =>
          have hleaf : isPointer pte = false := by
            rw [← Bool.not_eq_true, isPointer_iff]
            exact hpointer
          have hread := hword.read (validSize_pteSize hscheme) hnumber
          rw [Program.bind_run_ok (by rw [Program.mapError, hread]),
            (valid_iff pte).mpr hvalid, hleaf]
          simp only [Bool.not_true, Bool.false_eq_true, if_false]
          set reached : Leaf := { level := level
                                  addr := entryAddr scheme va table level
                                  pte := pte }
          obtain ⟨after, hmarks, -⟩ := @marks_marked _ hscheme _ _ reached
            (entryAddr_dvd hscheme htable va level) (hnoticed.word.mpr hword)
            hnumber hvalid (hnoticed.sound hsound) access
          exact ⟨after, (@leaf_marks _ _ _ va _ _ _ _ reached hlevel hgrants
            _).mpr ⟨rfl, hmarks⟩⟩
      | @pointer _ _ pte _ hword hnumber hvalid hpointer hrest =>
          have hread := hword.read (validSize_pteSize hscheme) hnumber
          rw [Program.bind_run_ok (by rw [Program.mapError, hread]),
            (valid_iff pte).mpr hvalid]
          simp only [Bool.not_true, Bool.false_eq_true, if_false]
          have hpos : level ≠ 0 := by
            rintro rfl
            cases hrest
          rw [if_pos ((isPointer_iff pte).mpr hpointer), if_neg hpos,
            (page_mul (ppn_toNat_lt scheme pte)).1, Program.check_pure,
            pure_bind]
          exact ih hlevel.le (nextTable_tableBase scheme pte)
            (hnoticed.sound hsound) (hrest.still hnoticed.symm)

theorem Leaf.Grants.load {reached : Leaf} (hvalid : ValidEntry reached.pte)
    (hgrants : reached.Grants scheme status effective .store) :
    reached.Grants scheme status effective .load := by
  refine ⟨Or.inl (hvalid.readable_of_writable hgrants.permits), ?_,
    hgrants.aligned⟩
  have huser := hgrants.respects_user
  cases effective with
  | user => exact huser
  | supervisor => exact fun hpage => ⟨by decide, (huser hpage).2⟩
  | machine => trivial

end Walks

/-! ## Translations -/

def tableEntries (xlen : Xlen) (satp status : BitVec 64) (mode : Priv)
    (va : BitVec 64) (access : Access) (profile : Profile) (mem : Memory) :
    List (BitVec 64) :=
  let scheme := Mode.of satp xlen
  if scheme = .bare ∨ effectivePriv status mode access = .machine then []
  else if scheme = .sv39 ∧ !canonical va then []
  else entriesMet scheme profile mem va scheme.levels (rootTable scheme satp)

/-- An access that needs no more than another does: the same one, or a load
for a store. -/
inductive Weaker : Access → Access → Prop where
  | same (access : Access) : Weaker access access
  | load : Weaker .load .store

section Translations

variable {xlen : Xlen} {satp status va va' pa : BitVec 64} {mode : Priv}
  {access access' : Access} {profile : Profile} {mem mem' after : Memory}

theorem Weaker.effective (h : Weaker access' access) :
    effectivePriv status mode access' = effectivePriv status mode access := by
  cases h with
  | same _ => rfl
  | load => simp [effectivePriv]

theorem Weaker.grants {scheme : Mode} {effective : Priv} {reached : Leaf}
    (h : Weaker access' access) (hvalid : ValidEntry reached.pte)
    (hgrants : reached.Grants scheme status effective access) :
    reached.Grants scheme status effective access' := by
  cases h with
  | same _ => exact hgrants
  | load => exact hgrants.load hvalid

theorem translate_path (hpa : DRAM_BASE ≤ pa)
    (hrun : translate xlen satp status mode va access profile mem =
      some (.ok pa, after)) :
    (Mode.of satp xlen = .bare ∨
        effectivePriv status mode access = .machine) ∧
      pa = va ∧ after = mem ∨
    (Mode.of satp xlen ≠ .bare ∧
        effectivePriv status mode access ≠ .machine) ∧
      ¬ (Mode.of satp xlen = .sv39 ∧ !canonical va) ∧
      ∃ reached mem₁, Path (Mode.of satp xlen) profile mem va
          (Mode.of satp xlen).levels (rootTable (Mode.of satp xlen) satp)
          reached ∧
        mem.Still mem₁ ∧ reached.Grants (Mode.of satp xlen) status
          (effectivePriv status mode access) access ∧
        pa = reached.target (Mode.of satp xlen) va ∧
        Marks (Mode.of satp xlen) access profile mem₁ reached after := by
  by_cases hdirect : Mode.of satp xlen = .bare ∨
      effectivePriv status mode access = .machine
  · rw [translate, if_pos hdirect] at hrun
    cases hrun
    exact Or.inl ⟨hdirect, rfl, rfl⟩
  · obtain ⟨hpaged, heffective⟩ := not_or.mp hdirect
    rw [translate_eq_walk hpaged heffective] at hrun
    by_cases hbad : Mode.of satp xlen = .sv39 ∧ !canonical va
    · rw [if_pos hbad] at hrun
      cases hrun
    · rw [if_neg hbad] at hrun
      exact Or.inr ⟨⟨hpaged, heffective⟩, hbad, walk_path hpaged le_rfl
        (rootTable_tableBase _ _) hpa hrun⟩

theorem tableEntries_direct (hdirect : Mode.of satp xlen = .bare ∨
      effectivePriv status mode access = .machine) :
    tableEntries xlen satp status mode va access profile mem = [] :=
  if_pos hdirect

theorem tableEntries_paged (hpaged : Mode.of satp xlen ≠ .bare ∧
      effectivePriv status mode access ≠ .machine)
    (hcanonical : ¬ (Mode.of satp xlen = .sv39 ∧ !canonical va)) :
    tableEntries xlen satp status mode va access profile mem =
      entriesMet (Mode.of satp xlen) profile mem va (Mode.of satp xlen).levels
        (rootTable (Mode.of satp xlen) satp) := by
  have hno : ¬ (Mode.of satp xlen = .bare ∨
      effectivePriv status mode access = .machine) := not_or.mpr hpaged
  unfold tableEntries
  dsimp only
  rw [if_neg hno, if_neg hcanonical]

/-- A translation into memory changes accessed and dirty bits, and only bytes
of the entries it meets. -/
theorem translate_marks (hsound : mem.Sound) (hpa : DRAM_BASE ≤ pa)
    (hrun : translate xlen satp status mode va access profile mem =
      some (.ok pa, after)) :
    Memory.Alike (entrySize xlen) mem after ∧ after.Sound ∧
      ∀ i, (∀ addr ∈ tableEntries xlen satp status mode va access profile mem,
          ¬ Memory.Covers addr (entrySize xlen) i) →
        after.dram.byte i = mem.dram.byte i := by
  rcases translate_path hpa hrun with
    ⟨-, -, rfl⟩ | ⟨hpaged, hcanonical, reached, mem₁, hpath, hstill, -, -,
      hmarks⟩
  · exact ⟨Memory.Alike.refl _ _, hsound, fun _ _ => rfl⟩
  · obtain ⟨hword, hnumber, hvalid, hdvd, -⟩ :=
      hpath.spec hpaged.1 (rootTable_tableBase _ _)
    obtain ⟨after', hmarks', hmarked⟩ := marks_marked hpaged.1 hdvd
      (hstill.word.mpr hword) hnumber hvalid (hstill.sound hsound) access
    obtain rfl := hmarks.unique hmarks'
    rw [tableEntries_paged hpaged hcanonical,
      ← pteSize_eq_entrySize hpaged.1]
    refine ⟨hstill.then_alike hmarked.alike, hmarked.sound, fun i hi => ?_⟩
    rw [hmarked.bytes i (hi _ (hpath.addr_mem hpaged.1)), hstill.dram]

/-- Where the entries a translation met are kept, the page is translated the
same, for the same access and for a load instead of a store. -/
theorem translate_kept (hpa : DRAM_BASE ≤ pa)
    (hrun : translate xlen satp status mode va access profile mem =
      some (.ok pa, after))
    (hpage : va' >>> 12 = va >>> 12) (hweaker : Weaker access' access)
    (hsound : mem'.Sound)
    (hkept : ∀ addr ∈ tableEntries xlen satp status mode va access profile mem,
      KeptAt profile (entrySize xlen) mem mem' addr) :
    (∃ after', translate xlen satp status mode va' access' profile mem' =
        some (.ok ((pa &&& ~~~0xfff) ||| (va' &&& 0xfff)), after')) ∧
      tableEntries xlen satp status mode va' access' profile mem' =
        tableEntries xlen satp status mode va access profile mem := by
  rcases translate_path hpa hrun with
    ⟨hdirect, rfl, rfl⟩ | ⟨hpaged, hcanonical, reached, mem₁, hpath, hstill,
      hgrants, rfl, hmarks⟩
  · rw [tableEntries_direct hdirect]
    rw [← hweaker.effective] at hdirect
    rw [tableEntries_direct hdirect, translate, if_pos hdirect,
      ← eq_of_page_and_offset hpage rfl]
    exact ⟨⟨mem', rfl⟩, rfl⟩
  · rw [tableEntries_paged hpaged hcanonical,
      ← pteSize_eq_entrySize hpaged.1] at hkept
    obtain ⟨⟨reached', hpath', hlevel, hpte⟩, hentries⟩ :=
      hpath.kept hpaged.1 hpage hkept
    have htable := rootTable_tableBase (Mode.of satp xlen) satp
    obtain ⟨-, -, hvalid', -, -⟩ := hpath'.spec hpaged.1 htable
    have hbound := (hpath.spec hpaged.1 htable).2.2.2.2
    rw [tableEntries_paged hpaged hcanonical, ← hentries]
    rw [← hweaker.effective] at hpaged hgrants
    rw [← canonical_congr hpage] at hcanonical
    rw [tableEntries_paged hpaged hcanonical,
      translate_eq_walk hpaged.1 hpaged.2, if_neg hcanonical,
      ← Leaf.target_congr hbound hlevel hpte hpage.symm]
    exact ⟨hpath'.walk hpaged.1 le_rfl htable hsound
      (hweaker.grants hvalid' (hgrants.congr hlevel hpte rfl rfl)), rfl⟩

end Translations

end Mmu

end Nanoemu
