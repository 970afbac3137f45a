import Nanoemu.CrossingStores
import Nanoemu.FreshHart

/-!
# Stores that fail

A store within a page is checked as a whole before anything is written.  One
that crosses a page boundary is translated first and then written byte by
byte, and it is all-or-nothing exactly when the bytes before the first
unmapped one hold what it writes, and nothing is taken from a device by the
walks for it.
-/

namespace Nanoemu

open CheckedProgram Mmu

namespace Cpu

theorem physWrite_unmapped {c : Cpu} {pa : BitVec 64} {size : ℕ}
    (hout : ¬ c.mem.Mapped pa size) (fault : Exception) (value : BitVec 64)
    (profile : Profile) :
    ∃ mem, physWrite fault pa size value profile c =
        some (.error fault, { c with mem := mem }) ∧
      mem.dram = c.mem.dram ∧ Memory.SameDevices c.mem mem := by
  obtain ⟨mem, hrun, hdram, hdevices⟩ :=
    Memory.write_unmapped hout value profile
  refine ⟨mem, ?_, hdram, hdevices⟩
  rw [physWrite, onMemory, Program.zoom, Program.mapError, hrun]

theorem physWrite_mapped {c : Cpu} {pa : BitVec 64} {size : ℕ}
    (hsize : Memory.validSize size = true) (hmapped : c.mem.Mapped pa size)
    (fault : Exception) (value : BitVec 64) (profile : Profile) :
    (physWrite fault pa size value).Ensures profile c
      (fun _ c' => ∃ mem, c' = { c with mem := mem }) (fun _ _ => False) := by
  apply onMemory_ensures
  apply Program.Ensures.mapError
  apply (Memory.write_mapped hsize hmapped value profile).mono
  · exact fun _ mem _ => ⟨mem, rfl⟩
  · exact fun _ _ h => h

def writeByte (va value : BitVec 64) (k : ℕ) : Hart Unit := do
  let addr ← Program.check (Checked.add va (BitVec.ofNat 64 k))
  let pa ← translate addr .store
  let shift ← Program.check (Checked.umul 64 8 k)
  let byte ← Program.check (Checked.shr value shift)
  physWrite (.storeAccessFault va) pa 1 byte

theorem writeBytes_succ (va value : BitVec 64) (remaining k : ℕ) :
    writeBytes va value (remaining + 1) k =
      writeByte va value k >>= fun _ =>
        writeBytes va value remaining (k + 1) := by
  simp only [writeBytes, writeByte, bind_assoc]

/-- What the first pass leaves: the addresses of the bytes do not overflow,
and they hit. -/
structure Translated (profile : Profile) (va : BitVec 64) (size : ℕ)
    (c : Cpu) : Prop where
  add : ∀ k < size, Checked.add va (BitVec.ofNat 64 k) profile =
    some (va + BitVec.ofNat 64 k)
  hit : ∀ k < size, c.tlbHit (va + BitVec.ofNat 64 k) .store = true

theorem Translated.withMem {profile : Profile} {va : BitVec 64} {size : ℕ}
    {c : Cpu} (h : Translated profile va size c) (mem : Memory) :
    Translated profile va size { c with mem := mem } :=
  ⟨h.add, fun k hk => (tlbHit_congr rfl rfl rfl _ _).trans (h.hit k hk)⟩

theorem writeByte_run {profile : Profile} {va : BitVec 64} {size : ℕ} {c : Cpu}
    (h : Translated profile va size c) (hsize : size ≤ 8) (value : BitVec 64)
    {k : ℕ} (hk : k < size) :
    writeByte va value k profile c =
      physWrite (.storeAccessFault va)
        (c.storeTarget (va + BitVec.ofNat 64 k)) 1 (value >>> (8 * k))
        profile c := by
  have hshift : Checked.umul 64 8 k = pure (8 * k) :=
    Checked.umul_eq_pure (by omega)
  have hbyte : Checked.shr value (8 * k) = pure (value >>> (8 * k)) :=
    Checked.shr_eq_pure (by omega)
  rw [writeByte, Program.bind_run_ok (Program.check_run_some (h.add k hk) c),
    Program.bind_run_ok (translate_hit (h.hit k hk) profile), hshift,
    Program.check_pure, pure_bind, hbyte, Program.check_pure, pure_bind]
  rfl

/-- The byte `k` of the store is mapped nowhere. -/
def Missing (va : BitVec 64) (k : ℕ) (c : Cpu) : Prop :=
  ¬ c.mem.Mapped (c.storeTarget (va + BitVec.ofNat 64 k)) 1

/-- The same memory, up to the flag that devices were touched. -/
def SameMemory (c c' : Cpu) : Prop :=
  c'.mem.dram = c.mem.dram ∧ Memory.SameDevices c.mem c'.mem

section SecondPass

variable {profile : Profile} {va value : BitVec 64} {size : ℕ} {c : Cpu}

theorem writeBytes_succ_last (va value : BitVec 64) (count k : ℕ) :
    writeBytes va value (count + 1) k =
      writeBytes va value count k >>= fun _ =>
        writeByte va value (k + count) := by
  induction count generalizing k with
  | zero =>
      rw [writeBytes_succ]
      exact bind_pure _
  | succ count ih =>
      rw [writeBytes_succ, ih, writeBytes_succ va value count, bind_assoc,
        Nat.add_right_comm, Nat.add_assoc]

/-- The second pass makes the writes of its bytes. -/
theorem writeBytes_iff_puts (h : Translated profile va size c)
    (hsize : size ≤ 8) {target : ℕ → BitVec 64}
    (htarget : ∀ k < size, c.storeTarget (va + BitVec.ofNat 64 k) = target k)
    {n : ℕ} (hn : n ≤ size) {c' : Cpu} :
    writeBytes va value n 0 profile c = some (.ok (), c') ↔
      ∃ mem, Memory.Puts profile c.mem (Memory.bytePuts target value n) mem ∧
        c' = { c with mem := mem } := by
  induction n generalizing c' with
  | zero =>
      constructor
      · intro hrun
        cases hrun
        exact ⟨c.mem, .nil, rfl⟩
      · rintro ⟨mem, hputs, rfl⟩
        cases hputs
        rfl
  | succ n ih =>
      have hlast : ∀ mem, writeByte va value (0 + n) profile
          { c with mem := mem } =
            physWrite (.storeAccessFault va) (target n) 1 (value >>> (8 * n))
              profile { c with mem := mem } := by
        intro mem
        rw [Nat.zero_add, ← htarget n hn,
          writeByte_run (h.withMem mem) hsize value hn]
        rfl
      rw [writeBytes_succ_last]
      constructor
      · intro hrun
        obtain ⟨_, c₁, hbefore, hbyte⟩ := Program.bind_ok hrun
        obtain ⟨mem, hputs, rfl⟩ := (ih (by omega)).mp hbefore
        obtain ⟨mem', hwrite, rfl⟩ :=
          physWrite_ok_iff.mp ((hlast mem).symm.trans hbyte)
        exact ⟨mem', Memory.bytePuts_succ_iff.mpr ⟨mem, hputs, hwrite⟩, rfl⟩
      · rintro ⟨mem', hputs, rfl⟩
        obtain ⟨mem, hputs, hwrite⟩ := Memory.bytePuts_succ_iff.mp hputs
        rw [Program.bind_run_ok ((ih (by omega)).mpr ⟨mem, hputs, rfl⟩), hlast]
        exact physWrite_ok_iff.mpr ⟨mem', hwrite, rfl⟩

theorem writeByte_missing (h : Translated profile va size c) (hsize : size ≤ 8)
    (value : BitVec 64) {k : ℕ} (hk : k < size) (hmissing : Missing va k c) :
    ∃ c', writeByte va value k profile c =
        some (.error (.storeAccessFault va), c') ∧ SameMemory c c' := by
  obtain ⟨mem, hrun, hsame⟩ := physWrite_unmapped hmissing
    (.storeAccessFault va) (value >>> (8 * k)) profile
  exact ⟨{ c with mem := mem }, (writeByte_run h hsize value hk).trans hrun,
    hsame⟩

theorem writeByte_mapped (h : Translated profile va size c) (hsize : size ≤ 8)
    (value : BitVec 64) {k : ℕ} (hk : k < size) (hmapped : ¬ Missing va k c) :
    (writeByte va value k).Ensures profile c
      (fun _ c' => Translated profile va size c') (fun _ _ => False) := by
  have hbyte : (physWrite (.storeAccessFault va)
      (c.storeTarget (va + BitVec.ofNat 64 k)) 1
      (value >>> (8 * k))).Ensures profile c
      (fun _ c' => Translated profile va size c') (fun _ _ => False) := by
    apply (physWrite_mapped rfl (not_not.mp hmapped) _ _ _).mono
    · rintro _ _ ⟨mem, rfl⟩
      exact h.withMem mem
    · exact fun _ _ h => h
  intro outcome c' hrun
  exact hbyte outcome c' ((writeByte_run h hsize value hk).symm.trans hrun)

/-- A second pass that fails stops at a missing byte, after the ones before it
were written. -/
theorem writeBytes_error {remaining k : ℕ} {e : Exception} {c' : Cpu}
    (h : Translated profile va size c) (hsize : size ≤ 8)
    (hremaining : k + remaining = size)
    (hrun : writeBytes va value remaining k profile c =
      some (.error e, c')) :
    e = .storeAccessFault va ∧ ∃ n < remaining, ∃ c₂,
      writeBytes va value n k profile c = some (.ok (), c₂) ∧
        Missing va (k + n) c₂ ∧ SameMemory c₂ c' := by
  induction remaining generalizing k c with
  | zero => cases hrun
  | succ remaining ih =>
      have hk : k < size := by omega
      rw [writeBytes_succ] at hrun
      by_cases hmissing : Missing va k c
      · obtain ⟨c₁, hbyte, hsame⟩ := writeByte_missing h hsize value hk hmissing
        rw [Program.bind_run_error hbyte] at hrun
        cases hrun
        exact ⟨rfl, 0, Nat.succ_pos _, c, rfl, hmissing, hsame⟩
      · have hmapped := writeByte_mapped h hsize value hk hmissing
        rcases hbyte : writeByte va value k profile c with _ | ⟨_ | _, c₁⟩
        · rw [Program.bind_run_none hbyte] at hrun
          cases hrun
        · exact (hmapped.error hbyte).elim
        · rw [Program.bind_run_ok hbyte] at hrun
          obtain ⟨he, n, hn, c₂, hbefore, hbad, hsame⟩ :=
            ih (hmapped.ok hbyte) (by omega) hrun
          refine ⟨he, n + 1, by omega, c₂, ?_, ?_, hsame⟩
          · rw [writeBytes_succ, Program.bind_run_ok hbyte]
            exact hbefore
          · rw [show k + (n + 1) = k + 1 + n by omega]
            exact hbad

theorem writeBytes_stops {remaining k n : ℕ} {c₂ : Cpu}
    (h : Translated profile va size c) (hsize : size ≤ 8)
    (hremaining : k + remaining = size) (hn : n < remaining)
    (hbefore : writeBytes va value n k profile c = some (.ok (), c₂))
    (hmissing : Missing va (k + n) c₂) :
    ∃ c', writeBytes va value remaining k profile c =
        some (.error (.storeAccessFault va), c') ∧ SameMemory c₂ c' := by
  induction remaining generalizing k c n with
  | zero => exact absurd hn (Nat.not_lt_zero n)
  | succ remaining ih =>
      have hk : k < size := by omega
      rw [writeBytes_succ]
      cases n with
      | zero =>
          cases hbefore
          obtain ⟨c', hbyte, hsame⟩ :=
            writeByte_missing h hsize value hk hmissing
          exact ⟨c', Program.bind_run_error hbyte, hsame⟩
      | succ n =>
          rw [writeBytes_succ] at hbefore
          rcases hbyte : writeByte va value k profile c with _ | ⟨e | _, c₁⟩
          · rw [Program.bind_run_none hbyte] at hbefore
            cases hbefore
          · rw [Program.bind_run_error hbyte] at hbefore
            cases hbefore
          · rw [Program.bind_run_ok hbyte] at hbefore
            have hmapped : ¬ Missing va k c := by
              intro hnow
              obtain ⟨_, hstops, _⟩ := writeByte_missing h hsize value hk hnow
              rw [hbyte] at hstops
              cases hstops
            have h₁ := (writeByte_mapped h hsize value hk hmapped).ok hbyte
            rw [show k + (n + 1) = k + 1 + n by omega] at hmissing
            obtain ⟨c', hrun, hsame⟩ :=
              ih h₁ (by omega) (by omega) hbefore hmissing
            exact ⟨c', (Program.bind_run_ok hbyte).trans hrun, hsame⟩

end SecondPass

/-! ## Where a store stops -/

/-- The translations of a store, without the store. -/
def translateStore (va : BitVec 64) (size : ℕ) : Hart Unit := do
  if ← Program.check (fitsPage va size) then do
    let _ ← translate va .store
    pure ()
  else translateBytes va size 0

/-- The translations succeed, leaving `c₁`, and then the store meets an
address that is mapped nowhere: at once, or, where it crosses a page boundary,
at some byte after the bytes before it were written, leaving `c₂`. -/
inductive Stops (profile : Profile) (va : BitVec 64) (size : ℕ)
    (value : BitVec 64) (c : Cpu) : Cpu → Cpu → Prop where
  | whole {pa : BitVec 64} {c₁ : Cpu} :
      fitsPage va size profile = some true →
      translate va .store profile c = some (.ok pa, c₁) →
      ¬ c₁.mem.Mapped pa size → Stops profile va size value c c₁ c₁
  | byte {n : ℕ} {c₁ c₂ : Cpu} :
      fitsPage va size profile = some false →
      translateBytes va size 0 profile c = some (.ok (), c₁) →
      n < size → writeBytes va value n 0 profile c₁ = some (.ok (), c₂) →
      Missing va n c₂ → Stops profile va size value c c₁ c₂

theorem translateBytes_add {profile : Profile} {va : BitVec 64}
    {remaining k : ℕ} {c c₁ : Cpu}
    (hrun : translateBytes va remaining k profile c = some (.ok (), c₁)) :
    ∀ j, k ≤ j → j < k + remaining →
      Checked.add va (BitVec.ofNat 64 j) profile =
        some (va + BitVec.ofNat 64 j) := by
  induction remaining generalizing k c with
  | zero =>
      intro j hle hlt
      omega
  | succ remaining ih =>
      intro j hle hlt
      rw [translateBytes] at hrun
      cases hadd : Checked.add va (BitVec.ofNat 64 k) profile with
      | none =>
          rw [Program.bind_run_none (Program.check_run_none hadd c)] at hrun
          cases hrun
      | some addr =>
          rw [Program.bind_run_ok (Program.check_run_some hadd c)] at hrun
          rcases htranslate : translate addr .store profile c with
            _ | ⟨e | pa, c'⟩
          · rw [Program.bind_run_none htranslate] at hrun
            cases hrun
          · rw [Program.bind_run_error htranslate] at hrun
            cases hrun
          · rw [Program.bind_run_ok htranslate] at hrun
            rcases Nat.eq_or_lt_of_le hle with rfl | hlater
            · rw [hadd, Checked.add_eq_some hadd]
            · exact ih hrun j hlater (by omega)

section Store

variable {profile : Profile} {va value : BitVec 64} {size : ℕ} {c : Cpu}

theorem translated_of_translateBytes (hsize : size ≤ 8) {c₁ : Cpu}
    (hrun : translateBytes va size 0 profile c = some (.ok (), c₁)) :
    Translated profile va size c₁ := by
  have hensures := translateBytes_ensures va size 0 (by omega) profile c
    (fun j hj => absurd hj (Nat.not_lt_zero j))
  refine ⟨fun k hk => translateBytes_add hrun k (Nat.zero_le k) (by omega),
    fun k hk => (hensures.ok hrun).2 k (by omega)⟩

theorem Stops.translated {c₁ c₂ : Cpu}
    (h : Stops profile va size value c c₁ c₂) :
    translateStore va size profile c = some (.ok (), c₁) := by
  cases h with
  | whole hfits htranslate _ =>
      rw [translateStore,
        Program.bind_run_ok (Program.check_run_some hfits c), if_pos rfl,
        Program.bind_run_ok htranslate]
      rfl
  | byte hfits htranslate _ _ _ =>
      rw [translateStore,
        Program.bind_run_ok (Program.check_run_some hfits c),
        if_neg Bool.false_ne_true]
      exact htranslate

theorem Stops.fails (hsize : Memory.validSize size = true) {c₁ c₂ : Cpu}
    (h : Stops profile va size value c c₁ c₂) :
    ∃ c', writeMem va size value profile c =
        some (.error (.storeAccessFault va), c') ∧ SameMemory c₂ c' := by
  cases h with
  | whole hfits htranslate hout =>
      obtain ⟨mem, hwrite, hsame⟩ :=
        physWrite_unmapped hout (.storeAccessFault va) value profile
      refine ⟨{ c₁ with mem := mem }, ?_, hsame.1, hsame.2⟩
      rw [writeMem, Program.bind_run_ok (Program.check_run_some hfits c),
        if_pos rfl, Program.bind_run_ok htranslate]
      exact hwrite
  | byte hfits htranslate hn hbefore hmissing =>
      have hle := Memory.size_le_of_valid hsize
      rw [writeMem, Program.bind_run_ok (Program.check_run_some hfits c),
        if_neg Bool.false_ne_true, Program.bind_run_ok htranslate]
      exact writeBytes_stops (translated_of_translateBytes hle htranslate) hle
        (Nat.zero_add size) hn hbefore ((Nat.zero_add _).symm ▸ hmissing)

def placeStore (va : BitVec 64) (size : ℕ) (value : BitVec 64) : Hart Unit := do
  let c ← Program.read id
  if va.toNat % 4096 + size ≤ 4096 then
    physWrite (.storeAccessFault va) (c.storeTarget va) size value
  else writeBytes va value size 0

/-- A store is translated before anything is written. -/
theorem writeMem_eq (hsize : size ≤ 8) (va value : BitVec 64)
    (profile : Profile) (c : Cpu) :
    writeMem va size value profile c =
      (translateStore va size >>= fun _ => placeStore va size value)
        profile c := by
  unfold writeMem translateStore placeStore
  rw [fitsPage_eq hsize, Program.check_pure, pure_bind, pure_bind]
  by_cases hfits : va.toNat % 4096 + size ≤ 4096
  · simp only [hfits, decide_true, if_true, bind_assoc, pure_bind]
    apply Program.bind_congr
    intro pa c₁ htranslate
    obtain ⟨-, hpa, -⟩ := (translate_entry va .store profile c).ok htranslate
    rw [hpa]
    rfl
  · simp only [hfits, decide_false, Bool.false_eq_true, if_false]
    rfl

theorem writeMem_of_translateStore (hsize : size ≤ 8) {e : Exception}
    {c' : Cpu}
    (hrun : translateStore va size profile c = some (.error e, c')) :
    writeMem va size value profile c = some (.error e, c') := by
  rw [writeMem_eq hsize]
  exact Program.bind_run_error hrun

theorem writeMem_error (hsize : Memory.validSize size = true) {e : Exception}
    {c' : Cpu} (hrun : writeMem va size value profile c = some (.error e, c')) :
    translateStore va size profile c = some (.error e, c') ∨
      ∃ c₁ c₂, Stops profile va size value c c₁ c₂ ∧ SameMemory c₂ c' := by
  rw [writeMem] at hrun
  rw [translateStore]
  cases hfits : fitsPage va size profile with
  | none =>
      rw [Program.bind_run_none (Program.check_run_none hfits c)] at hrun
      cases hrun
  | some fits =>
      rw [Program.bind_run_ok (Program.check_run_some hfits c)] at hrun ⊢
      cases fits with
      | true =>
          rw [if_pos rfl] at hrun ⊢
          rcases htranslate : translate va .store profile c with
            _ | ⟨_ | pa, c₁⟩
          · rw [Program.bind_run_none htranslate] at hrun
            cases hrun
          · left
            rw [Program.bind_run_error htranslate] at hrun ⊢
            cases hrun
            rfl
          · right
            rw [Program.bind_run_ok htranslate] at hrun
            by_cases hmapped : c₁.mem.Mapped pa size
            · exact ((physWrite_mapped hsize hmapped _ _ _).error hrun).elim
            · obtain ⟨mem, hwrite, hsame⟩ :=
                physWrite_unmapped hmapped (.storeAccessFault va) value profile
              rw [hwrite] at hrun
              cases hrun
              exact ⟨c₁, c₁, .whole hfits htranslate hmapped, hsame.1, hsame.2⟩
      | false =>
          rw [if_neg Bool.false_ne_true] at hrun ⊢
          rcases htranslate : translateBytes va size 0 profile c with
            _ | ⟨_ | _, c₁⟩
          · rw [Program.bind_run_none htranslate] at hrun
            cases hrun
          · left
            rw [Program.bind_run_error htranslate] at hrun
            exact hrun
          · right
            rw [Program.bind_run_ok htranslate] at hrun
            have hle := Memory.size_le_of_valid hsize
            obtain ⟨-, n, hn, c₂, hbefore, hmissing, hsame⟩ :=
              writeBytes_error (translated_of_translateBytes hle htranslate)
                hle (Nat.zero_add size) hrun
            rw [Nat.zero_add] at hmissing
            exact ⟨c₁, c₂, .byte hfits htranslate hn hbefore hmissing, hsame⟩

end Store

/-! ## All or nothing -/

section Atomicity

variable {profile : Profile} {va value : BitVec 64} {size : ℕ} {c c' : Cpu}

theorem translateStore_frame {frame : Frame Cpu}
    (htranslate : ∀ addr, (translate addr .store).Keeps frame)
    (va : BitVec 64) (size : ℕ) : (translateStore va size).Keeps frame := by
  apply Program.Keeps.bind (Program.Keeps.check _)
  intro fits
  apply Program.Keeps.ite
  · exact Program.Keeps.bind (htranslate va) fun _ => Program.Keeps.pure _
  · exact (translateBytes_raises (fun addr => (htranslate addr).raises)
      size 0).keeps

theorem translateStore_keeps (va : BitVec 64) (size : ℕ) :
    (translateStore va size).Keeps walkFrame :=
  translateStore_frame (fun addr => translate_keeps addr .store) va size

theorem translateStore_within (hfits : va.toNat % 4096 + size ≤ 4096)
    (hsize : size ≤ 8) :
    translateStore va size profile c =
      (translate va .store >>= fun _ => pure ()) profile c := by
  rw [translateStore, fitsPage_eq hsize, Program.check_pure, pure_bind,
    if_pos (decide_eq_true hfits)]

theorem translateStore_crossing (hcross : 4096 < va.toNat % 4096 + size)
    (hsize : size ≤ 8) :
    translateStore va size profile c = translateBytes va size 0 profile c := by
  rw [translateStore, fitsPage_eq hsize, Program.check_pure, pure_bind,
    decide_eq_false (not_le.mpr hcross), if_neg Bool.false_ne_true]

/-- The state `c'` after a store that failed in `c`: DRAM is what the
translations alone leave, which differs in accessed and dirty bits of entries
only, and no device register has moved. -/
structure Untouched (profile : Profile) (va : BitVec 64) (size : ℕ)
    (c c' : Cpu) : Prop where
  translated : ∃ outcome c₁,
    translateStore va size profile c = some (outcome, c₁) ∧
      c'.mem.dram = c₁.mem.dram
  tables : SameTables (entrySize c.xlen) c.mem.dram c'.mem.dram
  devices : Memory.SameDevices c.mem c'.mem

/-- A store that fails takes nothing and changes nothing: it finds no page, or
none for its second part, or memory does not take it; a store over two pages
that memory does not take has bytes before the first one that is mapped
nowhere, and these are in memory already. -/
structure Harmless (profile : Profile) (va : BitVec 64) (size : ℕ)
    (value : BitVec 64) (c : Cpu) : Prop where
  first : ∀ entries found mem,
    Translates profile c va .store entries found none mem →
    ∀ addr ∈ entries, c.mem.QuietAt addr
  whole : va.toNat % 4096 + size ≤ 4096 → ∀ entries found page mem,
    Translates profile c va .store entries found (some page) mem →
    ¬ c.mem.Mapped (page ||| (va &&& 0xfff)) size →
    c.mem.Restores profile mem entries [] (leafPuts c.scheme .store found)
  second : 4096 < va.toNat % 4096 + size →
    ∀ entries found page mem next entries' found' mem',
    Translates profile c va .store entries found (some page) mem →
    nextPage va profile = some next →
    Translates profile { c with mem := mem } next .store entries' found' none
      mem' →
    c.mem.Restores profile mem entries entries' (leafPuts c.scheme .store found)
  bytes : 4096 < va.toNat % 4096 + size →
    ∀ entries found page mem next entries' found' page' mem',
    Translates profile c va .store entries found (some page) mem →
    nextPage va profile = some next →
    Translates profile { c with mem := mem } next .store entries' found'
      (some page') mem' →
    ∀ n < size, ¬ c.mem.Mapped (pageTarget va page page' n) 1 →
    (∃ after, Memory.Puts profile c.mem
      (Memory.bytePuts (pageTarget va page page') value n) after) →
    c.mem.Restores profile mem entries entries'
        (leafPuts c.scheme .store found ++ (leafPuts c.scheme .store found' ++
          Memory.bytePuts (pageTarget va page page') value n)) ∧
      ∀ k < n, DRAM_BASE ≤ pageTarget va page page' k →
        (∀ j, k < j → j < n →
          pageTarget va page page' j ≠ pageTarget va page page' k) →
        mem'.dram.byte (Memory.offset (pageTarget va page page' k)) =
          Dram.leByte value k

/-- It fails in its translations, or stops at an unmapped address. -/
theorem untouched_iff_stops (hsize : Memory.validSize size = true) :
    (∀ e c', writeMem va size value profile c = some (.error e, c') →
        Untouched profile va size c c') ↔
      (∀ e c₁, translateStore va size profile c = some (.error e, c₁) →
        Memory.SameDevices c.mem c₁.mem) ∧
      ∀ c₁ c₂, Stops profile va size value c c₁ c₂ →
        c₂.mem.dram = c₁.mem.dram ∧ Memory.SameDevices c.mem c₂.mem := by
  have htables : ∀ {outcome c₁},
      translateStore va size profile c = some (outcome, c₁) →
      SameTables (entrySize c.xlen) c.mem.dram c₁.mem.dram := fun hrun =>
    ((translateStore_keeps va size).of_run hrun).tables
  constructor
  · intro huntouched
    refine ⟨fun e c₁ hrun => ?_, fun c₁ c₂ hstops => ?_⟩
    · exact (huntouched e c₁ (writeMem_of_translateStore
        (Memory.size_le_of_valid hsize) hrun)).devices
    · obtain ⟨c', hrun, hdram, hdevices⟩ := hstops.fails hsize
      have h := huntouched _ c' hrun
      obtain ⟨outcome, c₁', htranslated, hsame⟩ := h.translated
      rw [hstops.translated] at htranslated
      cases htranslated
      exact ⟨hdram.symm.trans hsame, h.devices.trans hdevices.symm⟩
  · rintro ⟨hwalks, hbytes⟩ e c' hrun
    rcases writeMem_error hsize hrun with
      htranslated | ⟨c₁, c₂, hstops, hdram, hdevices⟩
    · exact ⟨⟨_, c', htranslated, rfl⟩, htables htranslated,
        hwalks e c' htranslated⟩
    · obtain ⟨hbefore, hquiet⟩ := hbytes c₁ c₂ hstops
      refine ⟨⟨_, c₁, hstops.translated, hdram.trans hbefore⟩, ?_,
        hquiet.trans hdevices⟩
      rw [hdram, hbefore]
      exact htables hstops.translated

/-- A translation that finds no page takes nothing exactly if its entries show
nothing that a read takes. -/
theorem Translates.missing_iff {entries : List (BitVec 64)}
    {found : Option Leaf} {mem : Memory}
    (h : Translates profile c va .store entries found none mem) :
    Memory.SameDevices c.mem mem ↔ ∀ addr ∈ entries, c.mem.QuietAt addr := by
  have haccesses := h.accesses
  rw [h.found_of_none rfl] at haccesses
  constructor
  · intro hsame
    exact (haccesses.quiet (.of_queues ⟨rfl, rfl⟩) hsame.queues).1
  · intro hquiet
    obtain ⟨mem', hnil, hsame⟩ := haccesses.puts_of_quiet hquiet
    cases hnil
    exact hsame.symm

section Both

variable {entries entries' : List (BitVec 64)} {found found' : Option Leaf}
  {page page' next : BitVec 64} {mem mem' : Memory}

theorem both_mem
    (h : Translates profile c va .store entries found (some page) mem)
    (hnext : nextPage va profile = some next)
    (h' : Translates profile { c with mem := mem } next .store entries' found'
      (some page') mem') :
    ((c.answer va .store (some page) mem).2.answer next .store (some page')
      mem').2.mem = mem' :=
  ((translates_next_iff h hnext).mpr h').answer_mem

/-- Where both pages are found, the store stops at a byte exactly where memory
takes the bytes before it and the byte is mapped nowhere. -/
theorem stops_both_iff (hsize : size ≤ 8)
    (hcross : 4096 < va.toNat % 4096 + size)
    (h : Translates profile c va .store entries found (some page) mem)
    (hnext : nextPage va profile = some next)
    (h' : Translates profile { c with mem := mem } next .store entries' found'
      (some page') mem') {c₂ : Cpu} :
    Stops profile va size value c
        ((c.answer va .store (some page) mem).2.answer next .store
          (some page') mem').2 c₂ ↔
      ∃ n < size, ¬ c.mem.Mapped (pageTarget va page page' n) 1 ∧
        ∃ after, Memory.Puts profile mem'
            (Memory.bytePuts (pageTarget va page page') value n) after ∧
          c₂ = { ((c.answer va .store (some page) mem).2.answer next .store
            (some page') mem').2 with mem := after } := by
  have hfits : fitsPage va size profile = some false := by
    rw [fitsPage_eq hsize, decide_eq_false (not_le.mpr hcross)]
    rfl
  have hpages : translateBytes va size 0 profile c = some (.ok (), _) :=
    (crosses_iff hcross hsize).mpr (.both h hnext h')
  have htranslated := translated_of_translateBytes hsize hpages
  have htarget : ∀ k < size, storeTarget _ (va + BitVec.ofNat 64 k) = _ :=
    fun k hk => storeTarget_both h hnext h' (hk.trans_le hsize)
  have hmem := both_mem h hnext h'
  have hlen : mem'.dram.len = c.mem.dram.len := h'.len.trans h.len
  have hmissing : ∀ {n after}, n < size → Memory.Puts profile mem'
      (Memory.bytePuts (pageTarget va page page') value n) after →
      (Missing va n { ((c.answer va .store (some page) mem).2.answer next
          .store (some page') mem').2 with mem := after } ↔
        ¬ c.mem.Mapped (pageTarget va page page' n) 1) := by
    intro n after hn hputs
    unfold Missing
    rw [← htarget n hn]
    exact not_congr (Memory.mapped_congr (hputs.len.trans hlen))
  constructor
  · intro hstops
    cases hstops with
    | whole hwithin _ _ => cases hfits.symm.trans hwithin
    | byte _ _ hn hbefore hbad =>
        obtain ⟨after, hputs, rfl⟩ :=
          (writeBytes_iff_puts htranslated hsize htarget hn.le).mp hbefore
        rw [hmem] at hputs
        exact ⟨_, hn, (hmissing hn hputs).mp hbad, after, hputs, rfl⟩
  · rintro ⟨n, hn, hbad, after, hputs, rfl⟩
    refine .byte hfits hpages hn ?_ ((hmissing hn hputs).mpr hbad)
    refine (writeBytes_iff_puts htranslated hsize htarget hn.le).mpr
      ⟨after, ?_, rfl⟩
    rw [hmem]
    exact hputs

/-- The registers that a failing store over two pages leaves. -/
theorem both_restores_iff (hsize : size ≤ 8)
    (hcross : 4096 < va.toNat % 4096 + size)
    (h : Translates profile c va .store entries found (some page) mem)
    (h' : Translates profile { c with mem := mem } next .store entries' found'
      (some page') mem') {n : ℕ} (hn : n < size)
    (hmissing : ¬ c.mem.Mapped (pageTarget va page page' n) 1) {after : Memory}
    (hputs : Memory.Puts profile mem'
      (Memory.bytePuts (pageTarget va page page') value n) after) :
    Memory.SameDevices c.mem after ↔
      c.mem.Restores profile mem entries entries'
        (leafPuts c.scheme .store found ++ (leafPuts c.scheme .store found' ++
          Memory.bytePuts (pageTarget va page page') value n)) := by
  have hqueues := Memory.bytePuts_queues hputs fun k hk =>
    Memory.pageTarget_claim (by omega) hk (by omega) hmissing
  exact h.accesses.restores_iff (h'.accesses.then_puts hputs hqueues)

end Both

theorem whole_restores_iff {entries : List (BitVec 64)}
    {found : Option Leaf} {page : BitVec 64} {mem : Memory}
    (h : Translates profile c va .store entries found (some page) mem) :
    Memory.SameDevices c.mem mem ↔
      c.mem.Restores profile mem entries []
        (leafPuts c.scheme .store found) := by
  rw [h.accesses.restores_iff (.refl profile mem), List.append_nil]

theorem second_restores_iff {entries entries' : List (BitVec 64)}
    {found found' : Option Leaf} {page next : BitVec 64} {mem mem' : Memory}
    (h : Translates profile c va .store entries found (some page) mem)
    (h' : Translates profile { c with mem := mem } next .store entries' found'
      none mem') :
    Memory.SameDevices c.mem mem' ↔
      c.mem.Restores profile mem entries entries'
        (leafPuts c.scheme .store found) := by
  have haccesses := h'.accesses
  rw [h'.found_of_none rfl] at haccesses
  rw [h.accesses.restores_iff haccesses]
  exact iff_of_eq (congrArg _ (List.append_nil _))

theorem harmless_of_stops (hle : size ≤ 8)
    (hwalks : ∀ e c₁, translateStore va size profile c = some (.error e, c₁) →
      Memory.SameDevices c.mem c₁.mem)
    (hstops : ∀ c₁ c₂, Stops profile va size value c c₁ c₂ →
      c₂.mem.dram = c₁.mem.dram ∧ Memory.SameDevices c.mem c₂.mem) :
    Harmless profile va size value c := by
  refine ⟨?_, ?_, ?_, ?_⟩
  · intro entries found mem h
    obtain ⟨e, hrun⟩ : ∃ e, translateStore va size profile c =
        some (.error e, { c with mem := mem }) := by
      rcases Nat.lt_or_ge 4096 (va.toNat % 4096 + size) with hcross | hfits
      · rw [translateStore_crossing hcross hle]
        exact ⟨_, (crosses_iff hcross hle).mpr (.first h)⟩
      · rw [translateStore_within hfits hle]
        exact ⟨_, Program.bind_run_error
          (translate_iff.mpr ⟨_, _, _, _, h, rfl⟩)⟩
    exact h.missing_iff.mp (hwalks e _ hrun)
  · intro hfits entries found page mem h hmissing
    have hmem := h.answer_mem
    have hwithin : fitsPage va size profile = some true := by
      rw [fitsPage_eq hle, decide_eq_true hfits]
      rfl
    have hstop : Stops profile va size value c
        (c.answer va .store (some page) mem).2 _ :=
      .whole hwithin (translate_iff.mpr ⟨_, _, _, _, h, rfl⟩) (by
        rwa [hmem, Memory.mapped_congr h.len])
    have hsame := (hstops _ _ hstop).2
    rw [hmem] at hsame
    exact (whole_restores_iff h).mp hsame
  · intro hcross entries found page mem next entries' found' mem' h hnext h'
    have hrun := (crosses_iff hcross hle).mpr (.second h hnext h')
    rw [← translateStore_crossing hcross hle] at hrun
    exact (second_restores_iff h h').mp (hwalks _ _ hrun)
  · rintro hcross entries found page mem next entries' found' page' mem' h
      hnext h' n hn hmissing ⟨_, htakes⟩
    obtain ⟨after, hputs⟩ := htakes.answers (h'.len.trans h.len)
    obtain ⟨hdram, hsame⟩ := hstops _ _ ((stops_both_iff hle hcross h hnext
      h').mpr ⟨n, hn, hmissing, after, hputs, rfl⟩)
    rw [both_mem h hnext h'] at hdram
    exact ⟨(both_restores_iff hle hcross h h' hn hmissing hputs).mp hsame,
      (Memory.bytePuts_dram_iff hputs).mp hdram⟩

theorem Harmless.walks (hle : size ≤ 8)
    (hharmless : Harmless profile va size value c) {e : Exception} {c₁ : Cpu}
    (hrun : translateStore va size profile c = some (.error e, c₁)) :
    Memory.SameDevices c.mem c₁.mem := by
  rcases Nat.lt_or_ge 4096 (va.toNat % 4096 + size) with hcross | hfits
  · rw [translateStore_crossing hcross hle] at hrun
    cases (crosses_iff hcross hle).mp hrun with
    | first h => exact h.missing_iff.mpr (hharmless.first _ _ _ h)
    | second h hnext h' =>
        exact (second_restores_iff h h').mpr
          (hharmless.second hcross _ _ _ _ _ _ _ _ h hnext h')
  · rw [translateStore_within hfits hle] at hrun
    rcases Program.bind_cases hrun with ⟨_, htranslate, -⟩ | ⟨_, _, _, hpure⟩
    · obtain ⟨entries, found, page, mem, h, hanswer⟩ :=
        translate_iff.mp htranslate
      cases page with
      | some page => cases congrArg Prod.fst hanswer
      | none =>
          cases hanswer
          exact h.missing_iff.mpr (hharmless.first _ _ _ h)
    · cases hpure

theorem Harmless.stops (hle : size ≤ 8)
    (hharmless : Harmless profile va size value c) {c₁ c₂ : Cpu}
    (hstop : Stops profile va size value c c₁ c₂) :
    c₂.mem.dram = c₁.mem.dram ∧ Memory.SameDevices c.mem c₂.mem := by
  have hstops := hstop
  cases hstop with
  | whole hfits htranslate hmissing =>
      rw [fitsPage_eq hle] at hfits
      obtain ⟨entries, found, page, mem, h, hanswer⟩ :=
        translate_iff.mp htranslate
      cases page with
      | none => cases congrArg Prod.fst hanswer
      | some page =>
          cases congrArg Prod.fst hanswer
          have hc₁ : c₁ = (c.answer va .store (some page) mem).2 :=
            congrArg Prod.snd hanswer
          have hmem := h.answer_mem
          rw [← hc₁] at hmem
          rw [hmem, Memory.mapped_congr h.len] at hmissing
          refine ⟨rfl, ?_⟩
          rw [hmem]
          exact (whole_restores_iff h).mpr (hharmless.whole
            (of_decide_eq_true (Option.some.inj hfits)) _ _ _ _ h hmissing)
  | byte hfits hpages _ _ _ =>
      rw [fitsPage_eq hle] at hfits
      have hcross : 4096 < va.toNat % 4096 + size :=
        not_le.mp (of_decide_eq_false (Option.some.inj hfits))
      cases (crosses_iff hcross hle).mp hpages with
      | both h hnext h' =>
          obtain ⟨n, hn, hmissing, after, hputs, rfl⟩ :=
            (stops_both_iff hle hcross h hnext h').mp hstops
          obtain ⟨hrestores, hheld⟩ := hharmless.bytes hcross _ _ _ _ _ _ _ _ _
            h hnext h' n hn hmissing
            (hputs.answers (h'.len.trans h.len).symm)
          rw [both_mem h hnext h']
          exact ⟨(Memory.bytePuts_dram_iff hputs).mpr hheld,
            (both_restores_iff hle hcross h h' hn hmissing hputs).mpr
              hrestores⟩

/-- A store is all-or-nothing exactly when its walks take nothing from a device
and the bytes before an unmapped one are in memory already. -/
theorem writeMem_untouched_iff {size : ℕ}
    (hsize : Memory.validSize size = true) (profile : Profile)
    (va value : BitVec 64) (c : Cpu) :
    (∀ e c', writeMem va size value profile c = some (.error e, c') →
        Untouched profile va size c c') ↔
      Harmless profile va size value c := by
  have hle := Memory.size_le_of_valid hsize
  rw [untouched_iff_stops hsize]
  constructor
  · rintro ⟨hwalks, hstops⟩
    exact harmless_of_stops hle hwalks hstops
  · intro hharmless
    exact ⟨fun _ _ hrun => hharmless.walks hle hrun,
      fun _ _ hstop => hharmless.stops hle hstop⟩

end Atomicity

def onePageHart : Cpu :=
  (Cpu.new 0x1000 .rv64).get rfl

/-- A word that leaves the page finds its last two bytes unmapped, after the
first two were written. -/
theorem writeMem_partial :
    ∃ c', writeMem 0x80000ffe 4 0xffffffff .debug onePageHart =
        some (.error (.storeAccessFault 0x80000ffe), c') ∧
      onePageHart.mem.dram.byte 0xffe = 0 ∧ c'.mem.dram.byte 0xffe = 0xff ∧
      ¬ Untouched .debug 0x80000ffe 4 onePageHart c' := by
  have hruns : (writeMem 0x80000ffe 4 0xffffffff .debug onePageHart).map
      (fun result => (result.1, result.2.mem.dram.byte 0xffe,
        result.2.mem.dram.loadLe 0xff8 8)) =
      some (.error (.storeAccessFault 0x80000ffe), 0xff,
        0xffff000000000000) := by
    decide +kernel
  obtain ⟨⟨outcome, c'⟩, hrun, hresult⟩ := Option.map_eq_some_iff.mp hruns
  simp only [Prod.mk.injEq] at hresult
  obtain ⟨rfl, hbyte, hword⟩ := hresult
  refine ⟨c', hrun, by decide +kernel, hbyte, fun huntouched => ?_⟩
  have hkept := huntouched.tables.entries 0xff8 ⟨0x1ff, rfl⟩ (by decide +kernel)
  change BitFields.Agree stableBits (c'.mem.dram.loadLe 0xff8 8) _ at hkept
  rw [hword] at hkept
  revert hkept
  decide +kernel

/-- The same store of zeros, which are there already, fails and leaves memory
as it was. -/
theorem writeMem_untouched_zeros :
    (writeMem 0x80000ffe 4 0 .debug onePageHart).map Prod.fst =
        some (.error (.storeAccessFault 0x80000ffe)) ∧
      Harmless .debug 0x80000ffe 4 0 onePageHart ∧
      ∀ e c', writeMem 0x80000ffe 4 0 .debug onePageHart =
        some (.error e, c') →
        Untouched .debug 0x80000ffe 4 onePageHart c' := by
  have hdirect : onePageHart.Untranslated .store := by decide +kernel
  have hfirst : onePageHart.tlbHit 0x80000ffe .store = false := by
    decide +kernel
  have hsecond : onePageHart.tlbHit 0x80001000 .store = false := by
    decide +kernel
  have hnext : nextPage 0x80000ffe .debug = some 0x80001000 := by decide
  have hharmless : Harmless .debug 0x80000ffe 4 0 onePageHart := by
    refine ⟨?_, fun hfits => absurd hfits (by decide), ?_, ?_⟩
    · intro entries found mem h
      cases ((translates_direct_iff hdirect hfirst).mp h).2.2.1
    · intro _ entries found page mem next entries' found' mem' h hpage h'
      cases hnext.symm.trans hpage
      obtain ⟨rfl, rfl, -, rfl⟩ := (translates_direct_iff hdirect hfirst).mp h
      cases ((translates_direct_iff hdirect hsecond).mp h').2.2.1
    · intro _ entries found page mem next entries' found' page' mem' h hpage h'
        n hn _ _
      cases hnext.symm.trans hpage
      obtain ⟨rfl, rfl, heq, rfl⟩ := (translates_direct_iff hdirect hfirst).mp h
      cases heq
      obtain ⟨rfl, rfl, heq, rfl⟩ :=
        (translates_direct_iff hdirect hsecond).mp h'
      cases heq
      have hbase : ∀ k < 4, DRAM_BASE ≤ pageTarget 0x80000ffe
          (0x80000ffe &&& ~~~0xfff) (0x80001000 &&& ~~~0xfff) k := by
        decide
      refine ⟨⟨fun _ h => (nomatch h), fun _ h => (nomatch h),
        fun after hputs => ?_⟩, fun k _ _ _ => ?_⟩
      · exact Memory.bytePuts_devices hputs fun k hk => hbase k (hk.trans hn)
      · -- DRAM is zero, and so is every byte of zero.
        change (0 : BitVec 8) = ((0 : BitVec 64) >>> (8 * k)).setWidth 8
        simp
  exact ⟨by decide +kernel, hharmless,
    (writeMem_untouched_iff rfl .debug 0x80000ffe 0 onePageHart).mpr hharmless⟩

end Cpu

end Nanoemu
