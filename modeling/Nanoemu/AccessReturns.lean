import Nanoemu.ReturningProgram
import Nanoemu.ClintWindow
import Nanoemu.WalkDefects
import Nanoemu.PageOffset
import Nanoemu.StoreAtomicity

/-!
# Accesses under overflow checks

With overflow checks on, memory panics in one place: at an address of the CLINT
eight bytes or more past the register the code finds for it, by whose distance
it shifts a word.  A walk panics where it reads an entry there, and an access
that is translated where the translation does or where the address it gives is
there.
-/

namespace Nanoemu

open CheckedProgram

namespace Clint

/-- Eight bytes or more past the register that the code finds. -/
def Beyond (addr : BitVec 64) : Prop :=
  InWindow addr ∧ 8 ≤ intoRegister (windowOffset addr)

instance (addr : BitVec 64) : Decidable (Beyond addr) :=
  inferInstanceAs (Decidable ((_ ∧ _) ∧ _))

variable {addr : BitVec 64} (hin : InWindow addr)

include hin

theorem shiftCount_debug :
    (shiftCount .debug (8 * intoRegister (windowOffset addr))).isSome = true ↔
      ¬ Beyond addr := by
  unfold Beyond shiftCount
  simp only [hin, true_and]
  split
  · simp only [Option.isSome_some, true_iff]
    omega
  · simp only [Profile.overflow, Option.isSome_none, Bool.false_eq_true,
      false_iff]
    omega

theorem read_returns_iff (mem : Memory) {size : ℕ} (hsize : size ≤ 8) :
    (Memory.read addr size).Returns .debug mem ↔ ¬ Beyond addr := by
  rw [Program.Returns, memory_read_run hin, Option.isSome_map,
    read_run _ hin hsize, Option.isSome_map]
  exact shiftCount_debug hin

theorem write_returns_iff (mem : Memory) (size : ℕ) (value : BitVec 64) :
    (Memory.write addr size value).Returns .debug mem ↔ ¬ Beyond addr := by
  rw [Program.Returns, memory_write_run hin, Option.isSome_map,
    write_run _ hin, Option.isSome_map]
  exact shiftCount_debug hin

end Clint

namespace Memory

section Accesses

variable {addr : BitVec 64} {size : ℕ} (hsize : validSize size = true)
  (mem : Memory)

include hsize

theorem read_returns_iff :
    (Memory.read addr size).Returns .debug mem ↔ ¬ Clint.Beyond addr := by
  by_cases hclint : Clint.InWindow addr
  · exact Clint.read_returns_iff hclint mem (size_le_of_valid hsize)
  refine iff_of_true ?_ fun h => hclint h.1
  by_cases hmapped : mem.Mapped addr size
  · rcases hmapped with hin | ⟨hlow, hdevice⟩
    · exact Program.returns_of_run (read_inDram hin hsize .debug)
    · have hother : ¬ (CLINT_BASE ≤ addr ∧ addr < CLINT_END) := hclint
      unfold Memory.read
      rw [if_neg (BitVec.not_le.mpr hlow)]
      simp only [if_neg hother]
      apply Program.returns_bind (Program.returns_update _)
      intro _ _
      apply Program.returns_bind (Program.returns_read _)
      intro _ _
      exact Program.returns_ite (fun _ => rfl) fun _ =>
        Program.returns_ite (fun _ => rfl) fun _ => rfl
  · obtain ⟨hdram, hdevice⟩ := not_or.mp hmapped
    exact Program.returns_of_run (read_unmapped hdram hdevice .debug)

theorem write_returns_iff (value : BitVec 64) :
    (Memory.write addr size value).Returns .debug mem ↔
      ¬ Clint.Beyond addr := by
  by_cases hclint : Clint.InWindow addr
  · exact Clint.write_returns_iff hclint mem size value
  refine iff_of_true ?_ fun h => hclint h.1
  by_cases hmapped : mem.Mapped addr size
  · rcases hmapped with hin | ⟨hlow, hdevice⟩
    · exact Program.returns_of_run (write_inDram hin hsize value .debug)
    · have hother : ¬ (CLINT_BASE ≤ addr ∧ addr < CLINT_END) := hclint
      unfold Memory.write
      rw [if_neg (BitVec.not_le.mpr hlow)]
      simp only [if_neg hother]
      apply Program.returns_bind (Program.returns_update _)
      intro _ _
      apply Program.returns_bind (Program.returns_read _)
      intro _ _
      exact Program.returns_ite (fun _ => rfl) fun _ =>
        Program.returns_ite (fun _ => rfl) fun _ => rfl
  · obtain ⟨mem', hrun, -⟩ := write_unmapped hmapped value .debug
    exact Program.returns_of_run hrun

end Accesses

end Memory

/-! ## Walks -/

namespace Mmu

/-- The walk of `va` reads an entry at an address. -/
inductive WalkReads (scheme : Mode) (va : BitVec 64) :
    (remaining : ℕ) → (table : BitVec 64) → Memory → BitVec 64 → Prop where
  | entry {level : ℕ} {table : BitVec 64} {mem : Memory} :
      WalkReads scheme va (level + 1) table mem
        (entryAddr scheme va table level)
  | pointer {level : ℕ} {table pte addr : BitVec 64} {mem mem' : Memory} :
      Memory.read (entryAddr scheme va table level) scheme.pteSize .debug mem =
        some (.ok pte, mem') →
      ValidEntry pte → PointerEntry pte →
      WalkReads scheme va level (nextTable scheme pte) mem' addr →
      WalkReads scheme va (level + 1) table mem addr

section Walks

variable {scheme : Mode} {effective : Priv} {status va : BitVec 64}
  {access : Access}

theorem leaf_returns {reached : Leaf} (hscheme : scheme ≠ .bare)
    (hlevel : reached.level < scheme.levels)
    (hclear : ¬ Clint.Beyond reached.addr) (mem : Memory) :
    (leaf scheme effective status va access reached.level reached.addr
      reached.pte).Returns .debug mem := by
  by_cases hgrants : reached.Grants scheme status effective access
  · rw [leaf, (reachable_iff _ _ _ _).mpr hgrants.respects_user,
      (permitted_iff _ _ _).mpr hgrants.permits]
    simp only [Bool.not_true, Bool.false_eq_true, if_false]
    rw [splitMask_eq_pure hlevel, Program.check_pure, pure_bind,
      if_neg ((aligned_iff hlevel _).mpr hgrants.aligned),
      splice_eq_pure hlevel va hgrants.aligned, Program.check_pure]
    apply Program.returns_ite
    · intro _
      apply Program.returns_bind
      · exact Program.returns_mapError_iff.mpr
          ((Memory.write_returns_iff (validSize_pteSize hscheme) mem _).mpr
            hclear)
      · exact fun _ _ => rfl
    · exact fun _ => rfl
  · exact Program.returns_of_run (leaf_refused hlevel hgrants .debug)

/-- What the walk does with the entry it has read. -/
def follow (scheme : Mode) (effective : Priv) (status va : BitVec 64)
    (access : Access) (level : ℕ) (addr pte : BitVec 64) :
    Program Memory Exception (BitVec 64) :=
  let fault := Exception.pageFault access va
  if !valid pte then Program.fail fault
  else if isPointer pte then
    if level = 0 then Program.fail fault
    else do
      let table ← Program.check (Checked.mul (ppn scheme pte) PAGE_SIZE)
      walk scheme effective status va access level table
  else leaf scheme effective status va access level addr pte

theorem walk_succ (hscheme : scheme ≠ .bare) {level : ℕ}
    (hlevel : level < scheme.levels) {table : BitVec 64}
    (htable : TableBase table) :
    walk scheme effective status va access (level + 1) table =
      Program.mapError (fun _ => Exception.pageFault access va)
          (Memory.read (entryAddr scheme va table level) scheme.pteSize) >>=
        follow scheme effective status va access level
          (entryAddr scheme va table level) := by
  rw [walk, pteAddr_eq_pure hscheme hlevel htable, Program.check_pure,
    pure_bind]
  rfl

theorem follow_returns_iff (hscheme : scheme ≠ .bare) {level : ℕ}
    (hlevel : level < scheme.levels) {addr : BitVec 64}
    (hclear : ¬ Clint.Beyond addr) (pte : BitVec 64) (mem : Memory) :
    (follow scheme effective status va access level addr pte).Returns .debug
        mem ↔
      (ValidEntry pte → PointerEntry pte →
        (walk scheme effective status va access level
          (nextTable scheme pte)).Returns .debug mem) := by
  unfold follow
  by_cases hvalid : ValidEntry pte
  · rw [(valid_iff pte).mpr hvalid]
    simp only [Bool.not_true, Bool.false_eq_true, if_false]
    by_cases hpointer : PointerEntry pte
    · rw [if_pos ((isPointer_iff pte).mpr hpointer)]
      simp only [hvalid, hpointer, true_implies]
      rcases Nat.eq_zero_or_pos level with rfl | hpos
      · exact Iff.rfl
      · rw [if_neg (by omega), (page_mul (ppn_toNat_lt scheme pte)).1,
          Program.check_pure, pure_bind]
        exact Iff.rfl
    · rw [if_neg (mt (isPointer_iff pte).mp hpointer)]
      let reached : Leaf := { level := level, addr := addr, pte := pte }
      have hleaf := @leaf_returns scheme effective status va access reached
        hscheme hlevel hclear mem
      exact iff_of_true hleaf fun _ h => absurd h hpointer
  · have hinvalid : valid pte = false := by
      rw [← Bool.not_eq_true, valid_iff]
      exact hvalid
    rw [hinvalid]
    exact iff_of_true rfl fun h => absurd h hvalid

theorem walk_returns_iff (hscheme : scheme ≠ .bare) {remaining : ℕ}
    (hremaining : remaining ≤ scheme.levels) {table : BitVec 64}
    (htable : TableBase table) {mem : Memory} :
    (walk scheme effective status va access remaining table).Returns .debug
        mem ↔
      ∀ addr, WalkReads scheme va remaining table mem addr →
        ¬ Clint.Beyond addr := by
  induction remaining generalizing table mem with
  | zero => exact iff_of_true rfl fun _ h => nomatch h
  | succ level ih =>
      have hlevel : level < scheme.levels := hremaining
      rw [walk_succ hscheme hlevel htable, Program.returns_bind_iff,
        Program.returns_mapError_iff,
        Memory.read_returns_iff (validSize_pteSize hscheme)]
      have hbelow := fun pte mem' => @ih hlevel.le (nextTable scheme pte)
        (nextTable_tableBase scheme pte) mem'
      constructor
      · rintro ⟨hentry, hafter⟩ addr hreads
        cases hreads with
        | entry => exact hentry
        | @pointer _ _ pte _ _ mem' hread hvalid hpointer hreads =>
            have hfollow := hafter pte mem'
              (Program.mapError_eq_ok_iff.mpr hread)
            rw [follow_returns_iff hscheme hlevel hentry] at hfollow
            exact (hbelow pte mem').mp (hfollow hvalid hpointer) addr hreads
      · intro hclear
        have hentry := hclear _ .entry
        refine ⟨hentry, fun pte mem' hread => ?_⟩
        rw [follow_returns_iff hscheme hlevel hentry]
        intro hvalid hpointer
        rw [hbelow]
        intro addr hreads
        exact hclear addr (.pointer (Program.mapError_eq_ok_iff.mp hread)
          hvalid hpointer hreads)

end Walks

/-- A translation that walks its tables reads an entry at an address. -/
structure TranslationReads (xlen : Xlen) (satp status : BitVec 64)
    (mode : Priv) (va : BitVec 64) (access : Access) (mem : Memory)
    (addr : BitVec 64) : Prop where
  paged : Mode.of satp xlen ≠ .bare
  below : effectivePriv status mode access ≠ .machine
  canonical : ¬ (Mode.of satp xlen = .sv39 ∧ !canonical va)
  reads : WalkReads (Mode.of satp xlen) va (Mode.of satp xlen).levels
    (rootTable (Mode.of satp xlen) satp) mem addr

theorem translate_returns_iff {xlen : Xlen} {satp status : BitVec 64}
    {mode : Priv} {va : BitVec 64} {access : Access} {mem : Memory} :
    (translate xlen satp status mode va access).Returns .debug mem ↔
      ∀ addr, TranslationReads xlen satp status mode va access mem addr →
        ¬ Clint.Beyond addr := by
  by_cases hpaged : Mode.of satp xlen = .bare
  · refine iff_of_true ?_ fun _ h => absurd hpaged h.paged
    rw [translate, if_pos (Or.inl hpaged)]
    rfl
  by_cases hbelow : effectivePriv status mode access = .machine
  · refine iff_of_true ?_ fun _ h => absurd hbelow h.below
    rw [translate, if_pos (Or.inr hbelow)]
    rfl
  rw [translate_eq_walk hpaged hbelow]
  by_cases hcanonical : Mode.of satp xlen = .sv39 ∧ !canonical va
  · rw [if_pos hcanonical]
    exact iff_of_true rfl fun _ h => absurd hcanonical h.canonical
  · rw [if_neg hcanonical,
      walk_returns_iff hpaged le_rfl (rootTable_tableBase _ satp)]
    exact ⟨fun h addr hreads => h addr hreads.reads,
      fun h addr hreads => h addr ⟨hpaged, hbelow, hcanonical, hreads⟩⟩

end Mmu

/-! ## Translated accesses -/

namespace Cpu

/-- The translation is not cached, and its walk reads an entry at an
address. -/
structure Walks (c : Cpu) (va : BitVec 64) (access : Access)
    (addr : BitVec 64) : Prop where
  missed : c.tlbHit va access = false
  reads : Mmu.TranslationReads c.xlen (c.csrs.read Csr.SATP)
    (c.csrs.read Csr.MSTATUS) c.privMode va access c.mem addr

/-- No walk for the address meets the CLINT past a register. -/
def TranslationClear (c : Cpu) (va : BitVec 64) (access : Access) : Prop :=
  ∀ addr, c.Walks va access addr → ¬ Clint.Beyond addr

/-- Neither does the access itself. -/
structure AccessClear (c : Cpu) (va : BitVec 64) (access : Access) : Prop where
  translation : c.TranslationClear va access
  target : ∀ pa c', translate va access .debug c = some (.ok pa, c') →
    ¬ Clint.Beyond pa

theorem translate_returns_iff {c : Cpu} {va : BitVec 64} {access : Access} :
    (translate va access).Returns .debug c ↔ c.TranslationClear va access := by
  cases hhit : c.tlbHit va access with
  | true =>
      refine iff_of_true
        (Program.returns_of_run (translate_hit hhit .debug)) ?_
      intro addr hwalks
      cases hhit.symm.trans hwalks.missed
  | false =>
      have hwalker : (c.walker va access).Returns .debug c.mem ↔
          c.TranslationClear va access := by
        rw [walker, Mmu.translate_returns_iff]
        exact ⟨fun h addr hwalks => h addr hwalks.reads,
          fun h addr hreads => h addr ⟨hhit, hreads⟩⟩
      rw [← hwalker, Program.Returns, Program.Returns, translate_miss hhit]
      rcases c.walker va access .debug c.mem with
        _ | ⟨error | pa, mem⟩ <;> rfl

theorem physRead_returns_iff {c : Cpu} {size : ℕ}
    (hsize : Memory.validSize size = true) (fault : Exception)
    (pa : BitVec 64) :
    (physRead fault pa size).Returns .debug c ↔ ¬ Clint.Beyond pa := by
  rw [physRead, onMemory, Program.returns_zoom_iff,
    Program.returns_mapError_iff, Memory.read_returns_iff hsize]

theorem physWrite_returns_iff {c : Cpu} {size : ℕ}
    (hsize : Memory.validSize size = true) (fault : Exception)
    (pa value : BitVec 64) :
    (physWrite fault pa size value).Returns .debug c ↔ ¬ Clint.Beyond pa := by
  rw [physWrite, onMemory, Program.returns_zoom_iff,
    Program.returns_mapError_iff, Memory.write_returns_iff hsize]

/-- An access within a page, which goes on with its address. -/
theorem access_returns_iff {α : Type} {c : Cpu} {va : BitVec 64}
    {access : Access} {rest : BitVec 64 → Hart α}
    (hrest : ∀ pa c', (rest pa).Returns .debug c' ↔ ¬ Clint.Beyond pa) :
    (translate va access >>= rest).Returns .debug c ↔
      c.AccessClear va access := by
  rw [Program.returns_bind_iff, translate_returns_iff]
  simp only [hrest]
  exact ⟨fun h => ⟨h.1, h.2⟩, fun h => ⟨h.translation, h.target⟩⟩

/-- A loop over bytes is about to do byte `k`, with `remaining` of them to
come, and is clear there and wherever the byte leaves the hart. -/
def EachByte {α : Type} (clear : ℕ → Cpu → Prop) (byte : ℕ → Hart α) :
    (remaining k : ℕ) → Cpu → Prop
  | 0, _, _ => True
  | remaining + 1, k, c => clear k c ∧
      ∀ v c', byte k .debug c = some (.ok v, c') →
        EachByte clear byte remaining (k + 1) c'

theorem eachByte_returns_iff {α β γ : Type} {clear : ℕ → Cpu → Prop}
    {byte : ℕ → Hart α} {loop : ℕ → ℕ → β → Hart γ} {combine : β → α → β}
    {size : ℕ} (hzero : ∀ k acc c, (loop 0 k acc).Returns .debug c)
    (hsucc : ∀ remaining k acc, loop (remaining + 1) k acc =
      byte k >>= fun v => loop remaining (k + 1) (combine acc v))
    (hbyte : ∀ k < size, ∀ c, (byte k).Returns .debug c ↔ clear k c)
    {remaining k : ℕ} (hend : k + remaining ≤ size) (acc : β) (c : Cpu) :
    (loop remaining k acc).Returns .debug c ↔
      EachByte clear byte remaining k c := by
  induction remaining generalizing k acc c with
  | zero => exact iff_of_true (hzero k acc c) trivial
  | succ remaining ih =>
      rw [hsucc, Program.returns_bind_iff, hbyte k (by omega), EachByte]
      have hrest := fun v c' => @ih (k + 1) (by omega) (combine acc v) c'
      simp only [hrest]

/-- The address of byte `k` does not pass the top of the address space, and
its access is clear. -/
structure ByteClear (va : BitVec 64) (access : Access) (k : ℕ) (c : Cpu) :
    Prop where
  below : va.toNat + k < 2 ^ 64
  access : c.AccessClear (va + BitVec.ofNat 64 k) access

/-- The same for a byte that is only translated. -/
structure ByteTranslationClear (va : BitVec 64) (access : Access) (k : ℕ)
    (c : Cpu) : Prop where
  below : va.toNat + k < 2 ^ 64
  translation : c.TranslationClear (va + BitVec.ofNat 64 k) access

theorem byteClear_iff {va : BitVec 64} {access : Access} {k : ℕ} {c : Cpu} :
    va.toNat + k < 2 ^ 64 ∧ c.AccessClear (va + BitVec.ofNat 64 k) access ↔
      ByteClear va access k c :=
  ⟨fun h => ⟨h.1, h.2⟩, fun h => ⟨h.below, h.access⟩⟩

theorem byteTranslationClear_iff {va : BitVec 64} {access : Access} {k : ℕ}
    {c : Cpu} :
    va.toNat + k < 2 ^ 64 ∧
        c.TranslationClear (va + BitVec.ofNat 64 k) access ↔
      ByteTranslationClear va access k c :=
  ⟨fun h => ⟨h.1, h.2⟩, fun h => ⟨h.below, h.translation⟩⟩

def readByte (va : BitVec 64) (k : ℕ) : Hart (BitVec 64) := do
  let addr ← Program.check (Checked.add va (BitVec.ofNat 64 k))
  let pa ← translate addr .load
  let b ← physRead (.loadAccessFault va) pa 1
  let shift ← Program.check (Checked.umul 64 8 k)
  Program.check (Checked.shl b shift)

def translateByte (va : BitVec 64) (k : ℕ) : Hart Unit := do
  let addr ← Program.check (Checked.add va (BitVec.ofNat 64 k))
  let _ ← translate addr .store
  pure ()

theorem readBytes_succ (va : BitVec 64) (remaining k : ℕ) (v : BitVec 64) :
    readBytes va (remaining + 1) k v =
      readByte va k >>= fun piece =>
        readBytes va remaining (k + 1) (v ||| piece) := by
  simp only [readBytes, readByte, bind_assoc]

theorem translateBytes_succ (va : BitVec 64) (remaining k : ℕ) :
    translateBytes va (remaining + 1) k =
      translateByte va k >>= fun _ => translateBytes va remaining (k + 1) := by
  simp only [translateBytes, translateByte, bind_assoc, pure_bind]

section Bytes

variable {va value : BitVec 64} {k : ℕ} {c : Cpu} (hk : k < 8)

include hk

theorem ofNat_byte : (BitVec.ofNat 64 k).toNat = k := by
  rw [BitVec.toNat_ofNat]
  omega

theorem readByte_returns_iff :
    (readByte va k).Returns .debug c ↔ ByteClear va .load k c := by
  rw [readByte, Program.returns_add_iff, ofNat_byte hk, access_returns_iff]
  · exact byteClear_iff
  · intro pa c'
    rw [Program.returns_bind_iff, physRead_returns_iff rfl]
    refine and_iff_left ?_
    intro b _ _
    rw [Checked.umul_eq_pure (by omega), Program.check_pure, pure_bind,
      Checked.shl_eq_pure (by omega)]
    rfl

theorem translateByte_returns_iff :
    (translateByte va k).Returns .debug c ↔
      ByteTranslationClear va .store k c := by
  rw [translateByte, Program.returns_add_iff, ofNat_byte hk,
    Program.returns_bind_iff, translate_returns_iff]
  exact (and_congr_right fun _ => and_iff_left fun _ _ _ => rfl).trans
    byteTranslationClear_iff

theorem writeByte_returns_iff :
    (writeByte va value k).Returns .debug c ↔ ByteClear va .store k c := by
  rw [writeByte, Program.returns_add_iff, ofNat_byte hk, access_returns_iff]
  · exact byteClear_iff
  · intro pa c'
    rw [Checked.umul_eq_pure (by omega), Program.check_pure, pure_bind,
      Checked.shr_eq_pure (by omega), Program.check_pure, pure_bind,
      physWrite_returns_iff rfl]

end Bytes

def LoadClear (c : Cpu) (va : BitVec 64) (size : ℕ) : Prop :=
  if va.toNat % 4096 + size ≤ 4096 then c.AccessClear va .load
  else EachByte (ByteClear va .load) (readByte va) size 0 c

/-- A store that crosses a page is translated byte by byte before it is
written byte by byte. -/
def StoreClear (c : Cpu) (va : BitVec 64) (size : ℕ) (value : BitVec 64) :
    Prop :=
  if va.toNat % 4096 + size ≤ 4096 then c.AccessClear va .store
  else
    EachByte (ByteTranslationClear va .store) (translateByte va) size 0 c ∧
      ∀ c', translateBytes va size 0 .debug c = some (.ok (), c') →
        EachByte (ByteClear va .store) (writeByte va value) size 0 c'

theorem readBytes_returns_iff {size : ℕ} (hsize : size ≤ 8) (va : BitVec 64)
    (c : Cpu) :
    (readBytes va size 0 0).Returns .debug c ↔
      EachByte (ByteClear va .load) (readByte va) size 0 c :=
  @eachByte_returns_iff (BitVec 64) (BitVec 64) (BitVec 64) _ _ (readBytes va)
    (· ||| ·) size (fun _ _ _ => rfl) (readBytes_succ va)
    (fun k hk c => readByte_returns_iff (by omega)) size 0 (by omega) 0 c

theorem translateBytes_returns_iff {size : ℕ} (hsize : size ≤ 8)
    (va : BitVec 64) (c : Cpu) :
    (translateBytes va size 0).Returns .debug c ↔
      EachByte (ByteTranslationClear va .store) (translateByte va) size 0 c :=
  @eachByte_returns_iff Unit Unit Unit _ _
    (fun remaining k _ => translateBytes va remaining k) (fun _ _ => ()) size
    (fun _ _ _ => rfl) (fun remaining k _ => translateBytes_succ va remaining k)
    (fun k hk c => translateByte_returns_iff (by omega)) size 0 (by omega) () c

theorem writeBytes_returns_iff {size : ℕ} (hsize : size ≤ 8)
    (va value : BitVec 64) (c : Cpu) :
    (writeBytes va value size 0).Returns .debug c ↔
      EachByte (ByteClear va .store) (writeByte va value) size 0 c :=
  @eachByte_returns_iff Unit Unit Unit _ _
    (fun remaining k _ => writeBytes va value remaining k) (fun _ _ => ()) size
    (fun _ _ _ => rfl)
    (fun remaining k _ => writeBytes_succ va value remaining k)
    (fun k hk c => writeByte_returns_iff (by omega)) size 0 (by omega) () c

section Data

variable {va : BitVec 64} {size : ℕ} (hsize : Memory.validSize size = true)
  {c : Cpu}

include hsize

theorem readMem_returns_iff :
    (readMem va size).Returns .debug c ↔ c.LoadClear va size := by
  have hle := Memory.size_le_of_valid hsize
  rw [readMem, fitsPage_eq hle, Program.check_pure, pure_bind, LoadClear]
  by_cases hfits : va.toNat % 4096 + size ≤ 4096
  · rw [if_pos (decide_eq_true hfits), if_pos hfits, access_returns_iff]
    exact fun pa c' => physRead_returns_iff hsize _ pa
  · have hfalse : ¬ decide (va.toNat % 4096 + size ≤ 4096) = true := by
      simpa using hfits
    rw [if_neg hfalse, if_neg hfits]
    exact readBytes_returns_iff hle va c

theorem writeMem_returns_iff (value : BitVec 64) :
    (writeMem va size value).Returns .debug c ↔
      c.StoreClear va size value := by
  have hle := Memory.size_le_of_valid hsize
  rw [writeMem, fitsPage_eq hle, Program.check_pure, pure_bind, StoreClear]
  by_cases hfits : va.toNat % 4096 + size ≤ 4096
  · rw [if_pos (decide_eq_true hfits), if_pos hfits, access_returns_iff]
    exact fun pa c' => physWrite_returns_iff hsize _ pa value
  · have hfalse : ¬ decide (va.toNat % 4096 + size ≤ 4096) = true := by
      simpa using hfits
    rw [if_neg hfalse, if_neg hfits, Program.returns_bind_iff,
      translateBytes_returns_iff hle]
    refine and_congr_right fun _ => ?_
    constructor
    · exact fun h c' hrun => (writeBytes_returns_iff hle va value c').mp
        (h () c' hrun)
    · exact fun h _ c' hrun => (writeBytes_returns_iff hle va value c').mpr
        (h c' hrun)

end Data

/-- The first halfword, and the second where it is fetched on its own. -/
structure FetchClear (c : Cpu) : Prop where
  first : c.pc &&& 1 = 0 → c.AccessClear c.pc .fetch
  second : ∀ lo c', c.pc &&& 1 = 0 → ¬ c.pc &&& 0xfff ≤ 0xffc →
    fetchHalf c.pc .debug c = some (.ok lo, c') →
    lo.setWidth 32 &&& 0x3 = (0x3 : BitVec 32) →
    c.pc.toNat + 2 < 2 ^ 64 ∧ c'.AccessClear (c.pc + 2) .fetch

theorem fetchHalf_returns_iff {c : Cpu} {va : BitVec 64} :
    (fetchHalf va).Returns .debug c ↔ c.AccessClear va .fetch := by
  rw [fetchHalf, access_returns_iff]
  exact fun pa c' => physRead_returns_iff rfl _ pa

theorem expand_returns (lo : BitVec 32) (c : Cpu) :
    (expand lo).Returns .debug c := by
  rw [expand]
  apply Program.returns_bind (Program.returns_read _)
  intro c' _
  cases decompress lo c'.xlen <;> rfl

/-- What a fetch does with the last halfword of a page. -/
def afterHalf (pc lo : BitVec 64) : Hart (BitVec 32 × BitVec 64) :=
  if lo.setWidth 32 &&& 0x3 ≠ (0x3 : BitVec 32) then
    expand (lo.setWidth 32)
  else do
    let next ← Program.check (Checked.add pc 2)
    let hi ← fetchHalf next
    pure ((hi.setWidth 32 <<< 16) ||| lo.setWidth 32, 4)

theorem afterHalf_returns_iff {pc lo : BitVec 64} {c : Cpu} :
    (afterHalf pc lo).Returns .debug c ↔
      (lo.setWidth 32 &&& 0x3 = (0x3 : BitVec 32) →
        pc.toNat + 2 < 2 ^ 64 ∧ c.AccessClear (pc + 2) .fetch) := by
  unfold afterHalf
  by_cases hfull : lo.setWidth 32 &&& 0x3 = (0x3 : BitVec 32)
  · rw [if_neg (not_not.mpr hfull), Program.returns_add_iff,
      Program.returns_bind_iff, fetchHalf_returns_iff]
    constructor
    · exact fun h _ => ⟨h.1, h.2.1⟩
    · exact fun h => ⟨(h hfull).1, (h hfull).2, fun _ _ _ => rfl⟩
  · rw [if_pos hfull]
    exact iff_of_true (expand_returns _ c) fun h => absurd h hfull

theorem fetch_returns_iff {c : Cpu} :
    fetch.Returns .debug c ↔ c.FetchClear := by
  rw [fetch, Program.Returns, Program.bind_run_ok (Program.read_run _ _ _)]
  by_cases heven : c.pc &&& 1 = 0
  · rw [if_neg (not_not.mpr heven)]
    by_cases hfits : c.pc &&& 0xfff ≤ 0xffc
    · rw [if_pos hfits]
      refine (access_returns_iff ?_).trans ?_
      · intro pa c'
        rw [Program.returns_bind_iff, physRead_returns_iff rfl]
        refine and_iff_left fun word c'' _ => ?_
        exact Program.returns_ite (fun _ => expand_returns _ c'') fun _ => rfl
      · exact ⟨fun h => ⟨fun _ => h, fun _ _ _ hlast => absurd hfits hlast⟩,
          fun h => h.first heven⟩
    · rw [if_neg hfits]
      change (fetchHalf c.pc >>= afterHalf c.pc).Returns .debug c ↔ _
      rw [Program.returns_bind_iff, fetchHalf_returns_iff]
      constructor
      · rintro ⟨hfirst, hsecond⟩
        exact ⟨fun _ => hfirst, fun lo c' _ _ hrun =>
          afterHalf_returns_iff.mp (hsecond lo c' hrun)⟩
      · intro h
        exact ⟨h.first heven, fun lo c' hrun =>
          afterHalf_returns_iff.mpr (h.second lo c' heven hfits hrun)⟩
  · rw [if_pos heven]
    exact iff_of_true rfl ⟨fun h => absurd h heven, fun _ _ h => absurd h heven⟩

end Cpu

end Nanoemu
