import Nanoemu.PageOffset
import Nanoemu.TableReads

/-!
# Stores over two pages

A store that crosses a page boundary is translated at the first byte of each
of its pages, and its bytes are then written one after another.  What it does
to memory is a list of writes: the bits of the leaves that were found, and
the bytes.
-/

namespace Nanoemu

open CheckedProgram Mmu

namespace Memory

structure Put where
  addr : BitVec 64
  size : ℕ
  value : BitVec 64

/-- Memory takes all the writes, one after another. -/
inductive Puts (profile : Profile) : Memory → List Put → Memory → Prop where
  | nil {mem : Memory} : Puts profile mem [] mem
  | cons {mem mem' mem'' : Memory} {put : Put} {puts : List Put} :
      Memory.write put.addr put.size put.value profile mem =
        some (.ok (), mem') →
      Puts profile mem' puts mem'' → Puts profile mem (put :: puts) mem''

namespace Puts

variable {profile : Profile} {mem mem' after after' : Memory}
  {puts puts' : List Put}

theorem append_iff :
    Puts profile mem (puts ++ puts') after ↔
      ∃ mem', Puts profile mem puts mem' ∧ Puts profile mem' puts' after := by
  induction puts generalizing mem with
  | nil =>
      constructor
      · exact fun h => ⟨mem, .nil, h⟩
      · rintro ⟨_, hnil, h⟩
        cases hnil
        exact h
  | cons put puts ih =>
      constructor
      · intro h
        cases h with
        | cons hwrite hrest =>
            obtain ⟨mem', hputs, hputs'⟩ := ih.mp hrest
            exact ⟨mem', .cons hwrite hputs, hputs'⟩
      · rintro ⟨mem', hputs, hputs'⟩
        cases hputs with
        | cons hwrite hrest => exact .cons hwrite (ih.mpr ⟨mem', hrest, hputs'⟩)

theorem unique (h : Puts profile mem puts after)
    (h' : Puts profile mem puts after') : after' = after := by
  induction h with
  | nil =>
      cases h'
      rfl
  | cons hwrite _ ih =>
      cases h' with
      | cons hwrite' hrest' =>
          cases hwrite.symm.trans hwrite'
          exact ih hrest'

theorem singleton_iff {addr value : BitVec 64} {size : ℕ} :
    Puts profile mem [⟨addr, size, value⟩] after ↔
      Memory.write addr size value profile mem = some (.ok (), after) := by
  constructor
  · intro h
    cases h with
    | cons hwrite hnil =>
        cases hnil
        exact hwrite
  · exact fun h => .cons h .nil

theorem len (h : Puts profile mem puts after) :
    after.dram.len = mem.dram.len := by
  induction h with
  | nil => rfl
  | cons hwrite _ ih =>
      refine ih.trans ?_
      cases write_course hwrite with
      | dram _ _ => rw [stored_dram, Dram.storeLe_len]
      | clint _ _ _ | plic _ _ | uart _ _ => rfl

/-- Whether memory takes the writes depends on their addresses and on the size
of DRAM alone. -/
theorem answers (h : Puts profile mem puts after)
    (hlen : mem'.dram.len = mem.dram.len) :
    ∃ after', Puts profile mem' puts after' := by
  induction h generalizing mem' with
  | nil => exact ⟨mem', .nil⟩
  | cons hwrite _ ih =>
      obtain ⟨first', hwrite'⟩ := write_answers hwrite hlen
      have hfirst := (singleton_iff.mpr hwrite).len
      have hfirst' := (singleton_iff.mpr hwrite').len
      obtain ⟨after', hrest⟩ := ih (hfirst'.trans (hlen.trans hfirst.symm))
      exact ⟨after', .cons hwrite' hrest⟩

end Puts

theorem write_sameDevices {profile : Profile} {mem mem' after : Memory}
    {addr value : BitVec 64} {size : ℕ} (hsame : SameDevices mem mem')
    (hlen : mem'.dram.len = mem.dram.len)
    (h : Memory.write addr size value profile mem = some (.ok (), after)) :
    ∃ after', Memory.write addr size value profile mem' =
      some (.ok (), after') ∧ SameDevices after after' := by
  obtain ⟨after', h'⟩ := write_answers h hlen
  refine ⟨after', h', ?_⟩
  have hdram : ∀ {mem : Memory}, SameDevices mem (mem.stored addr size value) := by
    intro mem
    unfold stored noteTohost
    split <;> exact ⟨rfl, rfl, rfl⟩
  cases write_course h with
  | dram hin hvalid =>
      rw [write_inDram ⟨hin.1, hlen ▸ hin.2⟩ hvalid] at h'
      cases h'
      exact hdram.symm.trans (hsame.trans hdram)
  | clint _ hclint hwrite =>
      rw [Clint.memory_write_run hclint, hsame.clint, hwrite] at h'
      cases h'
      exact ⟨rfl, hsame.plic, hsame.uart⟩
  | plic _ hplic =>
      rw [write_plic hplic] at h'
      cases h'
      exact ⟨hsame.clint, by rw [hsame.plic], hsame.uart⟩
  | uart _ huart =>
      rw [write_uart huart] at h'
      cases h'
      exact ⟨hsame.clint, hsame.plic, by rw [hsame.uart]⟩

/-- Where the devices are the same, the writes leave them the same. -/
theorem Puts.sameDevices {profile : Profile} {mem mem' after : Memory}
    {puts : List Put} (h : Puts profile mem puts after)
    (hsame : SameDevices mem mem') (hlen : mem'.dram.len = mem.dram.len) :
    ∃ after', Puts profile mem' puts after' ∧ SameDevices after after' := by
  induction h generalizing mem' with
  | nil => exact ⟨mem', .nil, hsame⟩
  | cons hwrite _ ih =>
      obtain ⟨first', hwrite', hsame'⟩ := write_sameDevices hsame hlen hwrite
      have hfirst := (Puts.singleton_iff.mpr hwrite).len
      have hfirst' := (Puts.singleton_iff.mpr hwrite').len
      obtain ⟨after', hrest, hdevices⟩ :=
        ih hsame' (hfirst'.trans (hlen.trans hfirst.symm))
      exact ⟨after', .cons hwrite' hrest, hdevices⟩

/-- The entries are read from `mem`, which takes what they show, and then the
writes are made, which take nothing. -/
def Reads (profile : Profile) (mem : Memory) (entries : List (BitVec 64))
    (puts : List Put) (after : Memory) : Prop :=
  ∃ read, read.dram = mem.dram ∧ Taken mem read ∧
    (SameQueues mem read ↔ ∀ addr ∈ entries, mem.QuietAt addr) ∧
    Puts profile read puts after ∧ SameQueues read after

/-- The entries and then the other ones, read when memory is `between`, show
nothing that is taken, and the writes leave every register as it was. -/
structure Restores (profile : Profile) (mem between : Memory)
    (entries entries' : List (BitVec 64)) (puts : List Put) : Prop where
  first : ∀ addr ∈ entries, mem.QuietAt addr
  second : ∀ addr ∈ entries', between.QuietAt addr
  registers : ∀ after, Puts profile mem puts after → SameDevices mem after

namespace Reads

variable {profile : Profile} {mem between after : Memory}
  {entries entries' : List (BitVec 64)} {puts puts' : List Put}

theorem refl (profile : Profile) (mem : Memory) : Reads profile mem [] [] mem :=
  ⟨mem, rfl, .refl mem, iff_of_true ⟨rfl, rfl⟩ fun _ h => (nomatch h), .nil,
    ⟨rfl, rfl⟩⟩

theorem len (h : Reads profile mem entries puts after) :
    after.dram.len = mem.dram.len := by
  obtain ⟨read, hdram, -, -, hputs, -⟩ := h
  exact hputs.len.trans (congrArg Dram.len hdram)

theorem then_puts (h : Reads profile mem entries puts between)
    (hputs : Puts profile between puts' after)
    (hqueues : SameQueues between after) :
    Reads profile mem entries (puts ++ puts') after := by
  obtain ⟨read, hdram, htaken, hquiet, hfirst, hsame⟩ := h
  exact ⟨read, hdram, htaken, hquiet,
    Puts.append_iff.mpr ⟨between, hfirst, hputs⟩, hsame.trans hqueues⟩

theorem drained (h : Reads profile mem entries puts after) :
    Drained mem after := by
  obtain ⟨read, -, htaken, -, -, hsame⟩ := h
  exact (Drained.of_taken htaken).trans (.of_queues hsame)

/-- What is there in the end was never taken. -/
theorem quiet (h : Reads profile mem entries puts between)
    (hrest : Drained between after) (hsame : SameQueues mem after) :
    (∀ addr ∈ entries, mem.QuietAt addr) ∧ SameQueues between after := by
  obtain ⟨read, -, htaken, hquiet, -, hqueues⟩ := h
  have hfirst := (Drained.of_taken htaken).queues_of
    ((Drained.of_queues hqueues).trans hrest) hsame
  exact ⟨hquiet.mp hfirst, (hfirst.trans hqueues).symm.trans hsame⟩

theorem puts_of_quiet (h : Reads profile mem entries puts after)
    (hquiet : ∀ addr ∈ entries, mem.QuietAt addr) :
    ∃ after', Puts profile mem puts after' ∧ SameDevices after after' := by
  obtain ⟨read, hdram, htaken, hiff, hputs, -⟩ := h
  exact hputs.sameDevices (htaken.sameDevices (hiff.mpr hquiet)).symm
    (congrArg Dram.len hdram).symm

/-- The registers end as they were exactly if nothing was taken and the writes
alone leave them as they were. -/
theorem restores_iff (hfirst : Reads profile mem entries puts between)
    (hsecond : Reads profile between entries' puts' after) :
    SameDevices mem after ↔
      Restores profile mem between entries entries' (puts ++ puts') := by
  have hcompose : (∀ addr ∈ entries, mem.QuietAt addr) →
      (∀ addr ∈ entries', between.QuietAt addr) →
      ∃ after', Puts profile mem (puts ++ puts') after' ∧
        SameDevices after after' := by
    intro hquiet hquiet'
    obtain ⟨between', hputs, hbetween⟩ := hfirst.puts_of_quiet hquiet
    obtain ⟨last, hlast, hsame⟩ := hsecond.puts_of_quiet hquiet'
    have hlen : between'.dram.len = between.dram.len :=
      hputs.len.trans hfirst.len.symm
    obtain ⟨last', hlast', hsame'⟩ := hlast.sameDevices hbetween hlen
    exact ⟨last', Puts.append_iff.mpr ⟨between', hputs, hlast'⟩,
      hsame.trans hsame'⟩
  constructor
  · intro hsame
    obtain ⟨hquiet, hqueues⟩ := hfirst.quiet hsecond.drained hsame.queues
    obtain ⟨hquiet', -⟩ := hsecond.quiet (.of_queues ⟨rfl, rfl⟩) hqueues
    refine ⟨hquiet, hquiet', fun after' hputs => ?_⟩
    obtain ⟨last, hlast, hdevices⟩ := hcompose hquiet hquiet'
    rw [hlast.unique hputs]
    exact hsame.trans hdevices
  · intro hrestores
    obtain ⟨last, hlast, hdevices⟩ :=
      hcompose hrestores.first hrestores.second
    exact (hrestores.registers last hlast).trans hdevices.symm

end Reads

end Memory

namespace Mmu

/-- The write that sets the bits of a leaf, if one is needed. -/
def leafPuts (scheme : Mode) (access : Access) : Option Leaf → List Memory.Put
  | none => []
  | some reached =>
      if reached.pte &&& need access = need access then []
      else
        [{ addr := reached.addr
           size := scheme.pteSize
           value := reached.pte ||| need access }]

theorem marks_iff_puts {scheme : Mode} {access : Access} {profile : Profile}
    {mem after : Memory} {reached : Leaf} :
    Marks scheme access profile mem reached after ↔
      Memory.Puts profile mem (leafPuts scheme access (some reached)) after := by
  unfold Marks
  by_cases hneed : reached.pte &&& need access = need access
  · have hputs : leafPuts scheme access (some reached) = [] := if_pos hneed
    rw [if_pos hneed, hputs]
    constructor
    · rintro rfl
      exact .nil
    · intro h
      cases h
      rfl
  · have hputs : leafPuts scheme access (some reached) =
        [{ addr := reached.addr
           size := scheme.pteSize
           value := reached.pte ||| need access }] := if_neg hneed
    rw [if_neg hneed, hputs]
    exact Memory.Puts.singleton_iff.symm

end Mmu

namespace Cpu

theorem physWrite_ok_iff {c c' : Cpu} {fault : Exception} {pa value : BitVec 64}
    {size : ℕ} {profile : Profile} :
    physWrite fault pa size value profile c = some (.ok (), c') ↔
      ∃ mem, Memory.write pa size value profile c.mem = some (.ok (), mem) ∧
        c' = { c with mem := mem } := by
  rw [physWrite, onMemory, Program.zoom, Program.mapError]
  constructor
  · intro hrun
    rcases hwrite : Memory.write pa size value profile c.mem with
      _ | ⟨_ | _, mem⟩
    · rw [hwrite] at hrun
      cases hrun
    · rw [hwrite] at hrun
      cases hrun
    · rw [hwrite] at hrun
      cases hrun
      exact ⟨mem, rfl, rfl⟩
  · rintro ⟨mem, hwrite, rfl⟩
    rw [hwrite]

section Pages

variable {profile : Profile} {c c' : Cpu} {va : BitVec 64} {size : ℕ}

theorem Translates.accesses {access : Access} {entries : List (BitVec 64)}
    {found : Option Leaf} {page : Option (BitVec 64)} {mem : Memory}
    (h : Translates profile c va access entries found page mem) :
    Memory.Reads profile c.mem entries (leafPuts c.scheme access found) mem := by
  obtain ⟨read, hdram, htaken, hquiet, hnone, hsome⟩ := h.reads
  refine ⟨read, hdram, htaken, hquiet, ?_⟩
  cases found with
  | none =>
      rw [hnone rfl]
      exact ⟨.nil, rfl, rfl⟩
  | some reached =>
      have hmarks := (hsome reached rfl).1
      exact ⟨marks_iff_puts.mp hmarks, hmarks.queues⟩

/-! ## The two pages of a store -/

/-- The first address after the page of `va`. -/
def nextPage (va : BitVec 64) : Checked (BitVec 64) :=
  Checked.add va (BitVec.ofNat 64 (4096 - va.toNat % 4096))

theorem translateBytes_skip {count rest k : ℕ}
    (hadd : ∀ j, k ≤ j → j < k + count →
      Checked.add va (BitVec.ofNat 64 j) profile =
        some (va + BitVec.ofNat 64 j))
    (hhit : ∀ j, k ≤ j → j < k + count →
      c.tlbHit (va + BitVec.ofNat 64 j) .store = true) :
    translateBytes va (count + rest) k profile c =
      translateBytes va rest (k + count) profile c := by
  induction count generalizing k with
  | zero => rw [Nat.zero_add, Nat.add_zero]
  | succ count ih =>
      rw [Nat.add_right_comm, translateBytes, Program.bind_run_ok
          (Program.check_run_some (hadd k le_rfl (by omega)) c),
        Program.bind_run_ok (translate_hit (hhit k le_rfl (by omega)) profile),
        ih (fun j hle hlt => hadd j (by omega) (by omega))
          (fun j hle hlt => hhit j (by omega) (by omega)),
        Nat.add_assoc, Nat.add_comm 1 count]

theorem same_page {j : ℕ} (hj : va.toNat % 4096 + j < 4096) :
    (va + BitVec.ofNat 64 j) >>> 12 = va >>> 12 := by
  have hva := va.isLt
  apply BitVec.eq_of_toNat_eq
  rw [BitVec.toNat_ushiftRight, BitVec.toNat_ushiftRight,
    Nat.shiftRight_eq_div_pow, Nat.shiftRight_eq_div_pow, BitVec.toNat_add,
    BitVec.toNat_ofNat]
  omega

theorem add_same_page (profile : Profile) {j : ℕ}
    (hj : va.toNat % 4096 + j < 4096) :
    Checked.add va (BitVec.ofNat 64 j) profile =
      some (va + BitVec.ofNat 64 j) := by
  have hva := va.isLt
  have hsum : va.toNat + (BitVec.ofNat 64 j).toNat < 2 ^ 64 := by
    rw [BitVec.toNat_ofNat]
    omega
  exact congrFun (Checked.add_eq_pure hsum) profile

theorem nextPage_eq {next : BitVec 64} (hnext : nextPage va profile = some next) :
    next = va + BitVec.ofNat 64 (4096 - va.toNat % 4096) :=
  Checked.add_eq_some hnext

/-- The bytes past the boundary lie in the page after it. -/
theorem next_page {next : BitVec 64} (hnext : nextPage va profile = some next)
    {j : ℕ} (hj : 4096 ≤ va.toNat % 4096 + j) (hj8 : j < 8) :
    Checked.add va (BitVec.ofNat 64 j) profile =
        some (va + BitVec.ofNat 64 j) ∧
      (va + BitVec.ofNat 64 j) >>> 12 = next >>> 12 := by
  have hva := va.isLt
  constructor
  · unfold nextPage Checked.add at hnext
    unfold Checked.add
    rw [BitVec.toNat_ofNat] at hnext ⊢
    split at hnext
    · rw [if_pos (by omega)]
    · cases profile with
      | debug => cases hnext
      | release => split <;> rfl
  · rw [nextPage_eq hnext]
    apply BitVec.eq_of_toNat_eq
    rw [BitVec.toNat_ushiftRight, BitVec.toNat_ushiftRight,
      Nat.shiftRight_eq_div_pow, Nat.shiftRight_eq_div_pow, BitVec.toNat_add,
      BitVec.toNat_add, BitVec.toNat_ofNat, BitVec.toNat_ofNat]
    omega

theorem next_slot {next : BitVec 64} (hnext : nextPage va profile = some next) :
    tlbSlot va ≠ tlbSlot next := by
  intro hslot
  have hval := congrArg Fin.val hslot
  have hva := va.isLt
  rw [tlbSlot_val, tlbSlot_val, nextPage_eq hnext, BitVec.toNat_add,
    BitVec.toNat_ofNat] at hval
  omega

theorem hit_same_page {c : Cpu} {va va' : BitVec 64} {access : Access}
    (hpage : va' >>> 12 = va >>> 12) :
    c.tlbHit va' access = c.tlbHit va access := by
  unfold tlbHit
  rw [tlbSlot_congr hpage, hpage]

/-- The first pass translates the two pages. -/
theorem translateBytes_pages (hcross : 4096 < va.toNat % 4096 + size)
    (hsize : size ≤ 8) :
    translateBytes va size 0 profile c =
      (translate va .store >>= fun _ => Program.check (nextPage va) >>=
        fun next => translate next .store >>= fun _ => pure ()) profile c := by
  obtain ⟨before, after, rfl, hbefore⟩ : ∃ before after,
      size = before + (after + 1) + 1 ∧ va.toNat % 4096 + before + 1 = 4096 :=
    have hlt := Nat.mod_lt va.toNat (show 0 < 4096 by decide)
    ⟨4095 - va.toNat % 4096, size - (4095 - va.toNat % 4096) - 2, by omega,
      by omega⟩
  have hzero : va + BitVec.ofNat 64 0 = va := BitVec.add_zero va
  rw [translateBytes, Program.bind_run_ok (Program.check_run_some
    (add_same_page profile (by omega)) c), hzero]
  apply Program.bind_congr
  intro _ _ htranslate
  have hhit := ((translate_ensures va .store profile c).ok htranslate).2.1
  have hindex : 1 + before = 4096 - va.toNat % 4096 := by omega
  rw [translateBytes_skip (fun j _ hlt => add_same_page profile (by omega))
      (fun j _ hlt => (hit_same_page (same_page (by omega))).trans hhit),
    translateBytes, hindex]
  apply Program.bind_congr
  intro next c₁ hcheck
  obtain ⟨_, hnext, heq, rfl⟩ := Program.check_cases hcheck
  cases heq
  apply Program.bind_congr
  intro _ c₂ htranslate₂
  have hhit₂ := ((translate_ensures next .store profile c₁).ok htranslate₂).2.1
  have hpast := fun j (hle : 1 + before + 1 ≤ j) (hlt : j < 1 + before + 1 + after) =>
    next_page hnext (show 4096 ≤ va.toNat % 4096 + j by omega) (by omega)
  rw [← hindex, ← Nat.add_zero after,
    translateBytes_skip (fun j hle hlt => (hpast j hle hlt).1)
      (fun j hle hlt => (hit_same_page (hpast j hle hlt).2).trans hhit₂)]
  rfl

/-- A translation leaves memory and one entry of the cache. -/
theorem Translates.answer_frame {access : Access} {entries : List (BitVec 64)}
    {found : Option Leaf} {page : Option (BitVec 64)} {mem : Memory}
    (h : Translates profile c va access entries found page mem) :
    (c.answer va access page mem).2 =
      { c with mem := mem, tlb := (c.answer va access page mem).2.tlb } := by
  unfold answer
  cases h with
  | cached hhit =>
      dsimp only
      rw [hhit, if_pos rfl]
  | direct hmiss | granted hmiss =>
      dsimp only
      rw [hmiss, if_neg Bool.false_ne_true]
      rfl
  | far | missing | denied => rfl

theorem answer_other (access : Access) (page : Option (BitVec 64)) (mem : Memory)
    {slot : Fin TLB_ENTRIES} (hslot : slot ≠ tlbSlot va) :
    (c.answer va access page mem).2.tlb slot = c.tlb slot := by
  funext way
  unfold answer
  cases page with
  | none => rfl
  | some page =>
      dsimp only
      split
      · rfl
      · rw [setTlb_tlb, if_neg fun h => hslot h.1]

theorem Translates.answer_page {access : Access} {entries : List (BitVec 64)}
    {found : Option Leaf} {page : BitVec 64} {mem : Memory}
    (h : Translates profile c va access entries found (some page) mem) :
    ((c.answer va access (some page) mem).2.tlb (tlbSlot va) access).ppn =
      page := by
  unfold answer
  cases h with
  | cached hhit =>
      dsimp only
      rw [hhit, if_pos rfl]
  | direct hmiss | granted hmiss =>
      dsimp only
      rw [hmiss, if_neg Bool.false_ne_true, setTlb_tlb, if_pos ⟨rfl, rfl⟩,
        cachedEntry_page]
      rfl

/-- Of the cache, a translation depends on the entry it would use. -/
theorem Translates.withTlb {access : Access} {entries : List (BitVec 64)}
    {found : Option Leaf} {page : Option (BitVec 64)} {mem : Memory}
    {tlb : Fin TLB_ENTRIES → Access → TlbEntry}
    (h : Translates profile c va access entries found page mem)
    (htlb : tlb (tlbSlot va) = c.tlb (tlbSlot va)) :
    Translates profile { c with tlb := tlb } va access entries found page
      mem := by
  have hhit : ({ c with tlb := tlb } : Cpu).tlbHit va access =
      c.tlbHit va access := by
    unfold tlbHit
    rw [show ({ c with tlb := tlb } : Cpu).tlb (tlbSlot va) access =
      c.tlb (tlbSlot va) access from congrFun htlb access]
    rfl
  cases h with
  | cached h =>
      have hppn : (c.tlb (tlbSlot va) access).ppn =
          (({ c with tlb := tlb } : Cpu).tlb (tlbSlot va) access).ppn :=
        congrArg TlbEntry.ppn (congrFun htlb access).symm
      rw [hppn]
      exact .cached (hhit.trans h)
  | direct h hdirect => exact .direct (hhit.trans h) hdirect
  | far h hpaged hsv39 hfar => exact .far (hhit.trans h) hpaged hsv39 hfar
  | missing h hpaged hlooks => exact .missing (hhit.trans h) hpaged hlooks
  | denied h hpaged hlooks hdenied =>
      exact .denied (hhit.trans h) hpaged hlooks hdenied
  | granted h hpaged hlooks hgrants hmarks =>
      exact .granted (hhit.trans h) hpaged hlooks hgrants hmarks

theorem Translates.found_of_none {access : Access} {entries : List (BitVec 64)}
    {found : Option Leaf} {page : Option (BitVec 64)} {mem : Memory}
    (h : Translates profile c va access entries found page mem)
    (hpage : page = none) : found = none := by
  cases h with
  | cached | direct | granted => cases hpage
  | far | missing | denied => rfl

/-- What the first pass over two pages comes to. -/
inductive Crosses (profile : Profile) (c : Cpu) (va : BitVec 64) :
    Except Exception Unit → Cpu → Prop where
  | first {entries : List (BitVec 64)} {found : Option Leaf} {mem : Memory} :
      Translates profile c va .store entries found none mem →
      Crosses profile c va (.error (Exception.pageFault .store va))
        { c with mem := mem }
  | second {entries entries' : List (BitVec 64)} {found found' : Option Leaf}
      {page next : BitVec 64} {mem mem' : Memory} :
      Translates profile c va .store entries found (some page) mem →
      nextPage va profile = some next →
      Translates profile { c with mem := mem } next .store entries' found' none
        mem' →
      Crosses profile c va (.error (Exception.pageFault .store next))
        { (c.answer va .store (some page) mem).2 with mem := mem' }
  | both {entries entries' : List (BitVec 64)} {found found' : Option Leaf}
      {page page' next : BitVec 64} {mem mem' : Memory} :
      Translates profile c va .store entries found (some page) mem →
      nextPage va profile = some next →
      Translates profile { c with mem := mem } next .store entries' found'
        (some page') mem' →
      Crosses profile c va (.ok ())
        ((c.answer va .store (some page) mem).2.answer next .store (some page')
          mem').2

/-- The second translation is the same before and after the first page is
cached. -/
theorem translates_next_iff {entries entries' : List (BitVec 64)}
    {found found' : Option Leaf} {page next : BitVec 64}
    {page' : Option (BitVec 64)} {mem mem' : Memory}
    (h : Translates profile c va .store entries found (some page) mem)
    (hnext : nextPage va profile = some next) :
    Translates profile (c.answer va .store (some page) mem).2 next .store
        entries' found' page' mem' ↔
      Translates profile { c with mem := mem } next .store entries' found' page'
        mem' := by
  have hother := answer_other (c := c) .store (some page) mem
    (next_slot hnext).symm
  rw [h.answer_frame]
  constructor
  · intro hsecond
    exact hsecond.withTlb hother.symm
  · exact fun hsecond => hsecond.withTlb hother

theorem crosses_iff (hcross : 4096 < va.toNat % 4096 + size) (hsize : size ≤ 8)
    {outcome : Except Exception Unit} :
    translateBytes va size 0 profile c = some (outcome, c') ↔
      Crosses profile c va outcome c' := by
  rw [translateBytes_pages hcross hsize]
  constructor
  · intro hrun
    rcases Program.bind_cases hrun with
      ⟨e, htranslate, rfl⟩ | ⟨pa, c₁, htranslate, hrest⟩
    · obtain ⟨entries, found, page, mem, h, hanswer⟩ :=
        translate_iff.mp htranslate
      cases page with
      | some page => cases congrArg Prod.fst hanswer
      | none =>
          cases hanswer
          exact .first h
    obtain ⟨entries, found, page, mem, h, hanswer⟩ :=
      translate_iff.mp htranslate
    cases page with
    | none => cases congrArg Prod.fst hanswer
    | some page =>
        have hc₁ : c₁ = (c.answer va .store (some page) mem).2 :=
          congrArg Prod.snd hanswer
        subst hc₁
        rcases Program.bind_cases hrest with
          ⟨e, hcheck, -⟩ | ⟨next, c₂, hcheck, hlast⟩
        · obtain ⟨_, -, herror, -⟩ := Program.check_cases hcheck
          cases herror
        obtain ⟨_, hnext, heq, rfl⟩ := Program.check_cases hcheck
        cases heq
        rcases Program.bind_cases hlast with
          ⟨e, htranslate', rfl⟩ | ⟨pa', c₃, htranslate', hpure⟩
        · obtain ⟨entries', found', page', mem', h', hanswer'⟩ :=
            translate_iff.mp htranslate'
          cases page' with
          | some page' => cases congrArg Prod.fst hanswer'
          | none =>
              cases hanswer'
              exact .second h hnext ((translates_next_iff h hnext).mp h')
        · obtain ⟨entries', found', page', mem', h', hanswer'⟩ :=
            translate_iff.mp htranslate'
          cases page' with
          | none => cases congrArg Prod.fst hanswer'
          | some page' =>
              have hc₃ : c₃ = _ := congrArg Prod.snd hanswer'
              cases hpure
              rw [hc₃]
              exact .both h hnext ((translates_next_iff h hnext).mp h')
  · intro hcrosses
    cases hcrosses with
    | first h =>
        exact Program.bind_run_error (translate_iff.mpr ⟨_, _, _, _, h, rfl⟩)
    | second h hnext h' =>
        rw [Program.bind_run_ok (translate_iff.mpr ⟨_, _, _, _, h, rfl⟩),
          Program.bind_run_ok (Program.check_run_some hnext _)]
        exact Program.bind_run_error (translate_iff.mpr
          ⟨_, _, _, _, (translates_next_iff h hnext).mpr h', rfl⟩)
    | both h hnext h' =>
        rw [Program.bind_run_ok (translate_iff.mpr ⟨_, _, _, _, h, rfl⟩),
          Program.bind_run_ok (Program.check_run_some hnext _)]
        exact (Program.bind_run_ok (translate_iff.mpr
          ⟨_, _, _, _, (translates_next_iff h hnext).mpr h', rfl⟩)).trans rfl

/-! ## The bytes -/

/-- Where byte `k` of a store goes, by the pages of its addresses. -/
def pageTarget (va page page' : BitVec 64) (k : ℕ) : BitVec 64 :=
  (if va.toNat % 4096 + k < 4096 then page else page') |||
    ((va + BitVec.ofNat 64 k) &&& 0xfff)

/-- Where the cache sends a store. -/
def storeTarget (c : Cpu) (va : BitVec 64) : BitVec 64 :=
  (c.tlb (tlbSlot va) .store).ppn ||| (va &&& 0xfff)

/-- Once both pages are cached, the bytes go where the pages say. -/
theorem storeTarget_both {entries entries' : List (BitVec 64)}
    {found found' : Option Leaf} {page page' next : BitVec 64}
    {mem mem' : Memory}
    (h : Translates profile c va .store entries found (some page) mem)
    (hnext : nextPage va profile = some next)
    (h' : Translates profile { c with mem := mem } next .store entries' found'
      (some page') mem') {k : ℕ} (hk : k < 8) :
    ((c.answer va .store (some page) mem).2.answer next .store (some page')
        mem').2.storeTarget (va + BitVec.ofNat 64 k) =
      pageTarget va page page' k := by
  unfold storeTarget pageTarget
  split
  · next hfirst =>
      rw [tlbSlot_congr (same_page hfirst),
        answer_other .store (some page') mem' (next_slot hnext), h.answer_page]
  · next hpast =>
      rw [tlbSlot_congr (next_page hnext (not_lt.mp hpast) hk).2,
        ((translates_next_iff h hnext).mpr h').answer_page]

end Pages

end Cpu

namespace Memory

/-- The writes of the first `n` bytes of a value. -/
def bytePuts (target : ℕ → BitVec 64) (value : BitVec 64) (n : ℕ) : List Put :=
  (List.range n).map fun k => ⟨target k, 1, value >>> (8 * k)⟩

section Bytes

variable {profile : Profile} {mem after : Memory} {target : ℕ → BitVec 64}
  {value : BitVec 64} {n : ℕ}

theorem bytePuts_succ_iff :
    Puts profile mem (bytePuts target value (n + 1)) after ↔
      ∃ mem', Puts profile mem (bytePuts target value n) mem' ∧
        Memory.write (target n) 1 (value >>> (8 * n)) profile mem' =
          some (.ok (), after) := by
  unfold bytePuts
  rw [List.range_succ, List.map_append, Puts.append_iff]
  exact exists_congr fun mem' => and_congr_right fun _ => Puts.singleton_iff

/-- What the write of a byte leaves in DRAM. -/
theorem write_byte {addr : BitVec 64} {k : ℕ}
    (h : Memory.write addr 1 (value >>> (8 * k)) profile mem =
      some (.ok (), after)) (i : ℕ) :
    after.dram.byte i =
      if DRAM_BASE ≤ addr ∧ offset addr = i then Dram.leByte value k
      else mem.dram.byte i := by
  cases write_course h with
  | dram hin _ =>
      rw [stored_dram]
      by_cases hi : offset addr = i
      · subst hi
        rw [if_pos ⟨hin.1, rfl⟩]
        simp [Dram.storeLe, Dram.leByte]
      · rw [if_neg fun h => hi h.2, Dram.storeLe_byte_outside _ _ (by omega)]
  | clint hlow _ _ | plic hlow _ | uart hlow _ =>
      rw [if_neg fun h => absurd hlow (BitVec.not_lt.mpr h.1)]

theorem bytePuts_outside (h : Puts profile mem (bytePuts target value n) after)
    {i : ℕ} (hout : ∀ k < n, DRAM_BASE ≤ target k → offset (target k) ≠ i) :
    after.dram.byte i = mem.dram.byte i := by
  induction n generalizing after with
  | zero =>
      cases h
      rfl
  | succ n ih =>
      obtain ⟨mem', hbefore, hwrite⟩ := bytePuts_succ_iff.mp h
      rw [write_byte hwrite, if_neg fun h => hout n (Nat.lt_succ_self n) h.1 h.2]
      exact ih hbefore fun k hk => hout k (Nat.lt_succ_of_lt hk)

theorem offset_inj {addr addr' : BitVec 64} (hbase : DRAM_BASE ≤ addr)
    (hbase' : DRAM_BASE ≤ addr') (h : offset addr = offset addr') :
    addr = addr' := by
  unfold offset at h
  rw [BitVec.le_def] at hbase hbase'
  exact BitVec.eq_of_toNat_eq (by omega)

theorem bytePuts_last (h : Puts profile mem (bytePuts target value n) after)
    {k : ℕ} (hk : k < n) (hbase : DRAM_BASE ≤ target k)
    (hlast : ∀ j, k < j → j < n → target j ≠ target k) :
    after.dram.byte (offset (target k)) = Dram.leByte value k := by
  induction n generalizing after with
  | zero => exact absurd hk (Nat.not_lt_zero k)
  | succ n ih =>
      obtain ⟨mem', hbefore, hwrite⟩ := bytePuts_succ_iff.mp h
      rw [write_byte hwrite]
      rcases Nat.eq_or_lt_of_le (Nat.le_of_lt_succ hk) with rfl | hearlier
      · rw [if_pos ⟨hbase, rfl⟩]
      · rw [if_neg fun hsame => hlast n hearlier (Nat.lt_succ_self n)
          (offset_inj hsame.1 hbase hsame.2)]
        exact ih hbefore hearlier fun j hj hjn => hlast j hj (by omega)

/-- The bytes change nothing in DRAM exactly if every one that stays there was
there before. -/
theorem bytePuts_dram_iff
    (h : Puts profile mem (bytePuts target value n) after) :
    after.dram = mem.dram ↔
      ∀ k < n, DRAM_BASE ≤ target k →
        (∀ j, k < j → j < n → target j ≠ target k) →
        mem.dram.byte (offset (target k)) = Dram.leByte value k := by
  constructor
  · intro hsame k hk hbase hlast
    rw [← hsame]
    exact bytePuts_last h hk hbase hlast
  · intro hheld
    have hbytes : ∀ i, after.dram.byte i = mem.dram.byte i := by
      intro i
      by_cases hout : ∀ k < n, DRAM_BASE ≤ target k → offset (target k) ≠ i
      · exact bytePuts_outside h hout
      · -- The last byte that goes there decides what it holds.
        simp only [not_forall, not_not] at hout
        obtain ⟨k, hk, hbase, rfl⟩ := hout
        obtain ⟨last, hlt, htarget, hlast⟩ : ∃ last < n,
            target last = target k ∧
              ∀ j, last < j → j < n → target j ≠ target last := by
          obtain ⟨hlt, htarget⟩ := Nat.findGreatest_spec
            (P := fun j => j < n ∧ target j = target k) hk.le ⟨hk, rfl⟩
          exact ⟨_, hlt, htarget, fun j hj hjn hsame =>
            Nat.findGreatest_is_greatest hj hjn.le
              ⟨hjn, hsame.trans htarget⟩⟩
        rw [← htarget] at hbase ⊢
        rw [hheld last hlt hbase hlast, bytePuts_last h hlt hbase hlast]
    have hlen := h.len
    obtain ⟨⟨len, byte⟩, _, _, _⟩ := mem
    obtain ⟨⟨len', byte'⟩, _, _, _⟩ := after
    cases hlen
    exact congrArg (Dram.mk len) (funext hbytes)

theorem claim_offset {addr : BitVec 64} {context : Plic.Context}
    (hclaim : Plic.decode (addr - Plic.PLIC_BASE) =
      .control context.val 4) : addr.toNat % 4096 = 4 := by
  have hcontext : context.val < 2 := context.isLt
  have hbase : Plic.PLIC_BASE.toNat = 0xC000000 := by decide
  have haddr : addr.toNat < 2 ^ 64 := addr.isLt
  rw [Plic.decode_eq] at hclaim
  split at hclaim
  · cases hclaim
  split at hclaim
  · cases hclaim
  split at hclaim
  · cases hclaim
  simp only [Plic.Register.control.injEq, BitVec.toNat_sub, hbase] at hclaim
  omega

/-- Bytes that go to DRAM or beyond it reach no device. -/
theorem bytePuts_devices (h : Puts profile mem (bytePuts target value n) after)
    (hbase : ∀ k < n, DRAM_BASE ≤ target k) : SameDevices mem after := by
  induction n generalizing after with
  | zero =>
      cases h
      exact .refl mem
  | succ n ih =>
      obtain ⟨mem', hbefore, hwrite⟩ := bytePuts_succ_iff.mp h
      refine (ih hbefore fun k hk => hbase k (Nat.lt_succ_of_lt hk)).trans ?_
      cases write_course hwrite with
      | dram _ _ =>
          unfold stored noteTohost
          split <;> exact ⟨rfl, rfl, rfl⟩
      | clint hlow _ _ | plic hlow _ | uart hlow _ =>
          exact absurd hlow (BitVec.not_lt.mpr (hbase n (Nat.lt_succ_self n)))

/-- Bytes that meet no claim register complete nothing. -/
theorem bytePuts_queues (h : Puts profile mem (bytePuts target value n) after)
    (hclaim : ∀ k < n, ∀ context : Plic.Context,
      Plic.decode (target k - Plic.PLIC_BASE) ≠ .control context.val 4) :
    SameQueues mem after := by
  induction n generalizing after with
  | zero =>
      cases h
      exact ⟨rfl, rfl⟩
  | succ n ih =>
      obtain ⟨mem', hbefore, hwrite⟩ := bytePuts_succ_iff.mp h
      refine (ih hbefore fun k hk => hclaim k (Nat.lt_succ_of_lt hk)).trans ?_
      cases write_course hwrite with
      | dram _ _ =>
          unfold stored noteTohost
          split <;> exact ⟨rfl, rfl⟩
      | clint _ _ _ => exact ⟨rfl, rfl⟩
      | plic _ _ =>
          rcases mem'.plic.write_claimed _ _ with
            ⟨_, ⟨⟨context, hregister⟩, -⟩, -⟩ | hsame
          · exact absurd hregister (hclaim n (Nat.lt_succ_self n) context)
          · exact ⟨hsame, rfl⟩
      | uart _ _ => exact ⟨rfl, Uart.write_rx _ _ _⟩

end Bytes

/-- Before a byte that is mapped nowhere a store meets no claim register: its
first page ends without one, and a page of the PLIC is mapped as a whole. -/
theorem pageTarget_claim {mem : Memory} {va page page' : BitVec 64} {k n : ℕ}
    (hcross : 4088 < va.toNat % 4096) (hk : k < n) (hn : n < 8)
    (hmissing : ¬ mem.Mapped (Cpu.pageTarget va page page' n) 1)
    (context : Plic.Context) :
    Plic.decode (Cpu.pageTarget va page page' k - Plic.PLIC_BASE) ≠
      .control context.val 4 := by
  intro hclaim
  have hva := va.isLt
  have hoffset : ∀ j < 8, ((va + BitVec.ofNat 64 j) &&& 0xfff).toNat =
      (va.toNat % 4096 + j) % 4096 := by
    intro j hj
    rw [Mmu.offset_toNat, BitVec.toNat_add, BitVec.toNat_ofNat]
    omega
  have hlow := claim_offset hclaim
  by_cases hfirst : va.toNat % 4096 + k < 4096
  · have hle : va.toNat % 4096 + k ≤
        (Cpu.pageTarget va page page' k).toNat % 4096 := by
      unfold Cpu.pageTarget
      rw [if_pos hfirst, BitVec.toNat_or, hoffset k (by omega),
        Nat.mod_eq_of_lt hfirst, Nat.or_mod_two_pow (n := 12),
        Nat.mod_eq_of_lt hfirst]
      exact Nat.right_le_or
    omega
  · have hpage : (Cpu.pageTarget va page page' n).toNat / 4096 =
        (Cpu.pageTarget va page page' k).toNat / 4096 := by
      unfold Cpu.pageTarget
      rw [if_neg hfirst, if_neg (by omega), BitVec.toNat_or, BitVec.toNat_or,
        hoffset k (by omega), hoffset n hn, Nat.or_div_two_pow (n := 12),
        Nat.or_div_two_pow (n := 12)]
      rw [Nat.div_eq_of_lt (Nat.mod_lt _ (by decide)),
        Nat.div_eq_of_lt (Nat.mod_lt _ (by decide))]
    have hplic := inPlic_of_claim hclaim
    apply hmissing
    have hstart : Plic.PLIC_BASE.toNat = 0xC000000 := by decide
    have hend : (Plic.PLIC_BASE + Plic.PLIC_SIZE).toNat = 0x10000000 := by
      decide
    have hdram : DRAM_BASE.toNat = 0x80000000 := by decide
    unfold InPlic at hplic
    rw [BitVec.le_def, BitVec.lt_def, hstart, hend] at hplic
    refine Or.inr ⟨?_, Or.inr (Or.inl ⟨?_, ?_⟩)⟩
    · rw [BitVec.lt_def, hdram]
      omega
    · rw [BitVec.le_def, hstart]
      omega
    · rw [BitVec.lt_def, hend]
      omega

end Memory

end Nanoemu
