import Nanoemu.AccessFrames
import Nanoemu.TableMemory

/-!
# The hart's paths to memory

A translation, a load, a store or a fetch moves nothing of the hart but its
memory and its translation cache, and every entry it adds to the cache comes
from a walk that succeeded.
-/

namespace Nanoemu

open CheckedProgram Mmu

namespace Cpu

theorem onMemory_ensures {ε α : Type} {body : Program Memory ε α}
    {profile : Profile} {c : Cpu} {onOk : α → Cpu → Prop}
    {onError : ε → Cpu → Prop}
    (hbody : body.Ensures profile c.mem
      (fun value mem => onOk value { c with mem := mem })
      (fun error mem => onError error { c with mem := mem })) :
    (onMemory body).Ensures profile c onOk onError :=
  Program.Ensures.zoom hbody

theorem physRead_ensures (fault : Exception) (pa : BitVec 64) (size : ℕ)
    (profile : Profile) (c : Cpu) :
    (physRead fault pa size).Ensures profile c
      (fun _ c' => ∃ mem, mem.dram = c.mem.dram ∧ c' = { c with mem := mem })
      (fun error c' => error = fault ∧
        ∃ mem, mem.dram = c.mem.dram ∧ c' = { c with mem := mem }) := by
  apply onMemory_ensures
  apply Program.Ensures.mapError
  apply (Memory.read_keeps_dram pa size profile c.mem).mono
  · exact fun _ mem hdram => ⟨mem, hdram, rfl⟩
  · exact fun _ mem hdram => ⟨rfl, mem, hdram, rfl⟩

def scheme (c : Cpu) : Mode :=
  Mode.of (c.csrs.read Csr.SATP) c.xlen

def effective (c : Cpu) (access : Access) : Priv :=
  effectivePriv (c.csrs.read Csr.MSTATUS) c.privMode access

def walker (c : Cpu) (va : BitVec 64) (access : Access) :
    Program Memory Exception (BitVec 64) :=
  Mmu.translate c.xlen (c.csrs.read Csr.SATP) (c.csrs.read Csr.MSTATUS)
    c.privMode va access

def cachedEntry (c : Cpu) (va pa : BitVec 64) : TlbEntry :=
  { valid := true
    vpn := va >>> 12
    ppn := pa &&& ~~~0xfff
    satp := c.csrs.read Csr.SATP
    ctx := c.tlbCtx }

theorem translate_hit {c : Cpu} {va : BitVec 64} {access : Access}
    (hhit : c.tlbHit va access = true) (profile : Profile) :
    translate va access profile c =
      some (.ok ((c.tlb (tlbSlot va) access).ppn ||| (va &&& 0xfff)), c) := by
  rw [translate, Program.bind_run_ok (Program.read_run _ _ _), id,
    Program.ite_run, if_pos hhit, Program.pure_run]

theorem translate_miss {c : Cpu} {va : BitVec 64} {access : Access}
    (hmiss : c.tlbHit va access = false) (profile : Profile) :
    translate va access profile c =
      match c.walker va access profile c.mem with
      | none => none
      | some (.error error, mem) => some (.error error, { c with mem := mem })
      | some (.ok pa, mem) =>
          some (.ok pa,
            ({ c with mem := mem }).setTlb va access (c.cachedEntry va pa)) := by
  have hnot : ¬ c.tlbHit va access = true := by
    rw [hmiss]
    exact Bool.false_ne_true
  have hbody : ∀ outcome, c.walker va access profile c.mem = outcome →
      onMemory (c.walker va access) profile c =
        outcome.map fun result => (result.1, { c with mem := result.2 }) := by
    rintro outcome rfl
    rw [onMemory, Program.zoom]
    rcases c.walker va access profile c.mem with _ | ⟨_, _⟩ <;> rfl
  rw [translate, Program.bind_run_ok (Program.read_run _ _ _), id,
    Program.ite_run, if_neg hnot]
  rcases hwalk : c.walker va access profile c.mem with _ | ⟨error | pa, mem⟩
  · exact Program.bind_run_none (hbody _ hwalk)
  · exact Program.bind_run_error (hbody _ hwalk)
  · exact (Program.bind_run_ok (hbody _ hwalk)).trans rfl

theorem tlbHit_congr {c c' : Cpu} (htlb : c'.tlb = c.tlb)
    (hcsrs : c'.csrs = c.csrs) (hmode : c'.privMode = c.privMode)
    (va : BitVec 64) (access : Access) :
    c'.tlbHit va access = c.tlbHit va access := by
  rw [tlbHit, tlbHit, tlbCtx, tlbCtx, htlb, hcsrs, hmode]

theorem tlbSlot_val (va : BitVec 64) :
    (tlbSlot va).val = va.toNat / 4096 % 1024 := by
  change (va >>> 12).toNat &&& (2 ^ 10 - 1) = _
  rw [Nat.and_two_pow_sub_one_eq_mod, BitVec.toNat_ushiftRight,
    Nat.shiftRight_eq_div_pow]

theorem tlbSlot_congr {va va' : BitVec 64} (hpage : va' >>> 12 = va >>> 12) :
    tlbSlot va' = tlbSlot va := by
  rw [tlbSlot, tlbSlot]
  simp only [hpage]

theorem setTlb_tlb (c : Cpu) (va : BitVec 64) (access : Access) (e : TlbEntry)
    (slot : Fin TLB_ENTRIES) (way : Access) :
    (c.setTlb va access e).tlb slot way =
      if slot = tlbSlot va ∧ way = access then e else c.tlb slot way := by
  by_cases hslot : slot = tlbSlot va
  · subst hslot
    by_cases hway : way = access
    · subst hway
      simp [setTlb]
    · simp [setTlb, hway]
  · simp [setTlb, hslot]

theorem tlbHit_setTlb {c : Cpu} {va va' : BitVec 64} (pa : BitVec 64)
    {access : Access} (hpage : va' >>> 12 = va >>> 12) :
    (c.setTlb va access (c.cachedEntry va pa)).tlbHit va' access = true := by
  have hentry : (c.setTlb va access (c.cachedEntry va pa)).tlb (tlbSlot va')
      access = c.cachedEntry va pa := by
    rw [setTlb_tlb, if_pos ⟨tlbSlot_congr hpage, rfl⟩]
  have hctx : (c.setTlb va access (c.cachedEntry va pa)).tlbCtx = c.tlbCtx :=
    rfl
  rw [tlbHit, hentry, hctx]
  simp [cachedEntry, setTlb, hpage]

theorem tlbHit_setTlb_other {c : Cpu} {va va' : BitVec 64} {access : Access}
    (e : TlbEntry) (hslot : tlbSlot va' ≠ tlbSlot va) :
    (c.setTlb va access e).tlbHit va' access = c.tlbHit va' access := by
  have hentry : (c.setTlb va access e).tlb (tlbSlot va') access =
      c.tlb (tlbSlot va') access := by
    rw [setTlb_tlb, if_neg (fun h => hslot h.1)]
  have hctx : (c.setTlb va access e).tlbCtx = c.tlbCtx := rfl
  rw [tlbHit, tlbHit, hentry, hctx]
  rfl

/-- An entry that a walk under the context of `c` put into the cache: the
walk ran over the tables of `c`, up to accessed and dirty bits. -/
def Filled (c : Cpu) (slot : Fin TLB_ENTRIES) (way : Access) (e : TlbEntry) :
    Prop :=
  ∃ profile va mem mem' pa,
    slot = tlbSlot va ∧
      SameTables (entrySize c.xlen) c.mem.dram mem.dram ∧
      c.walker va way profile mem = some (.ok pa, mem') ∧
      e = c.cachedEntry va pa

/-- From `c` to `c'` only the memory and the cache have moved, and the place
in the program; the tables are the same up to accessed and dirty bits, and
new entries come from walks. -/
structure Walked (c c' : Cpu) : Prop where
  frame : c' = { c with
    mem := c'.mem
    tlb := c'.tlb
    pc := c'.pc
    wroteInstret := c'.wroteInstret }
  tables : SameTables (entrySize c.xlen) c.mem.dram c'.mem.dram
  entries : ∀ slot way, (c'.tlb slot way).valid = true →
    c'.tlb slot way = c.tlb slot way ∨ Filled c slot way (c'.tlb slot way)

namespace Walked

variable {c c' c'' : Cpu}

theorem csrs (h : Walked c c') : c'.csrs = c.csrs :=
  (congrArg Cpu.csrs h.frame :)

theorem privMode (h : Walked c c') : c'.privMode = c.privMode :=
  (congrArg Cpu.privMode h.frame :)

theorem xlen (h : Walked c c') : c'.xlen = c.xlen :=
  (congrArg Cpu.xlen h.frame :)

theorem refl (c : Cpu) : Walked c c :=
  ⟨rfl, SameTables.refl _ _, fun _ _ _ => Or.inl rfl⟩

theorem trans (hfirst : Walked c c') (hsecond : Walked c' c'') :
    Walked c c'' := by
  refine ⟨?_, ?_, ?_⟩
  · rw [hsecond.frame, hfirst.frame]
  · have htables := hsecond.tables
    rw [hfirst.xlen] at htables
    exact hfirst.tables.trans htables
  · intro slot way hvalid
    rcases hsecond.entries slot way hvalid with hsame | hfilled
    · rw [hsame] at hvalid ⊢
      exact hfirst.entries slot way hvalid
    · right
      obtain ⟨profile, va, mem, mem', pa, hslot, htables, hwalk, hentry⟩ :=
        hfilled
      rw [hfirst.xlen] at htables
      refine ⟨profile, va, mem, mem', pa, hslot,
        hfirst.tables.trans htables, ?_, ?_⟩
      · rw [walker, hfirst.xlen, hfirst.csrs, hfirst.privMode] at hwalk
        exact hwalk
      · rw [hentry, cachedEntry, cachedEntry, tlbCtx, tlbCtx, hfirst.csrs,
          hfirst.privMode]

theorem of_dram {mem : Memory} (hdram : mem.dram = c.mem.dram) :
    Walked c { c with mem := mem } :=
  ⟨rfl, SameTables.of_eq hdram, fun _ _ _ => Or.inl rfl⟩

end Walked

def walkFrame : Frame Cpu where
  rel := Walked
  refl := Walked.refl
  trans := Walked.trans

/-- A translation walks, its page hits afterwards, and the hits of slots it
does not share survive. -/
theorem translate_ensures (va : BitVec 64) (access : Access)
    (profile : Profile) (c : Cpu) :
    (translate va access).Ensures profile c
      (fun _ c' => Walked c c' ∧ c'.tlbHit va access = true ∧
        ∀ va', c.tlbHit va' access = true →
          (tlbSlot va' = tlbSlot va → va' >>> 12 = va >>> 12) →
          c'.tlbHit va' access = true)
      (fun _ c' => ∃ mem, SameTables (entrySize c.xlen) c.mem.dram mem.dram ∧
        c' = { c with mem := mem }) := by
  intro outcome c' hrun
  cases hhit : c.tlbHit va access with
  | true =>
      rw [translate_hit hhit] at hrun
      cases hrun
      exact ⟨Walked.refl c, hhit, fun _ h _ => h⟩
  | false =>
      rw [translate_miss hhit] at hrun
      have htables := translate_sameTables c.xlen (c.csrs.read Csr.SATP)
        (c.csrs.read Csr.MSTATUS) c.privMode va access profile c.mem
      change (c.walker va access).Ensures profile c.mem _ _ at htables
      rcases hwalk : c.walker va access profile c.mem with
        _ | ⟨error | pa, mem⟩
      · simp [hwalk] at hrun
      · rw [hwalk] at hrun
        cases hrun
        exact ⟨mem, htables.error hwalk, rfl⟩
      · rw [hwalk] at hrun
        cases hrun
        have hentry : c.cachedEntry va pa =
            ({ c with mem := mem } : Cpu).cachedEntry va pa := rfl
        refine ⟨⟨rfl, htables.ok hwalk, ?_⟩, ?_, ?_⟩
        · intro slot way hvalid
          rw [setTlb_tlb] at hvalid ⊢
          split
          · next hplace =>
              obtain ⟨rfl, rfl⟩ := hplace
              exact Or.inr ⟨profile, va, c.mem, mem, pa, rfl,
                SameTables.refl _ _, hwalk, rfl⟩
          · exact Or.inl rfl
        · rw [hentry]
          exact tlbHit_setTlb pa rfl
        · intro va' hold hapart
          by_cases hslot : tlbSlot va' = tlbSlot va
          · rw [hentry]
            exact tlbHit_setTlb pa (hapart hslot)
          · rw [tlbHit_setTlb_other _ hslot]
            exact hold

theorem translate_keeps (va : BitVec 64) (access : Access) :
    (translate va access).Keeps walkFrame := by
  intro profile c
  apply (translate_ensures va access profile c).mono
  · exact fun _ _ h => h.1
  · rintro _ _ ⟨mem, htables, rfl⟩
    exact ⟨rfl, htables, fun _ _ _ => Or.inl rfl⟩

theorem physRead_keeps (fault : Exception) (pa : BitVec 64) (size : ℕ) :
    (physRead fault pa size).Keeps walkFrame := by
  intro profile c
  apply (physRead_ensures fault pa size profile c).mono
  · rintro _ _ ⟨mem, hdram, rfl⟩
    exact Walked.of_dram hdram
  · rintro _ _ ⟨-, mem, hdram, rfl⟩
    exact Walked.of_dram hdram

theorem readMem_keeps (va : BitVec 64) (size : ℕ) :
    (readMem va size).Keeps walkFrame :=
  (readMem_raises (fun addr => (translate_keeps addr .load).raises)
    (fun pa size => (physRead_keeps _ pa size).raises) size).keeps

theorem fetch_keeps : fetch.Keeps walkFrame :=
  fetch_frame (fun va => translate_keeps va .fetch) physRead_keeps

/-! ## Stores -/

/-- Translations followed by writes to memory. -/
def Accessed (c c' : Cpu) : Prop :=
  ∃ c₁ mem, Walked c c₁ ∧ mem.dram.len = c₁.mem.dram.len ∧
    c' = { c₁ with mem := mem }

theorem Walked.accessed {c c' : Cpu} (h : Walked c c') : Accessed c c' :=
  ⟨c', c'.mem, h, rfl, rfl⟩

theorem Walked.then_accessed {c c' c'' : Cpu} (hfirst : Walked c c')
    (hsecond : Accessed c' c'') : Accessed c c'' := by
  obtain ⟨c₁, mem, hwalked, hlen, rfl⟩ := hsecond
  exact ⟨c₁, mem, hfirst.trans hwalked, hlen, rfl⟩

theorem physWrite_ensures (fault : Exception) (pa : BitVec 64) {size : ℕ}
    (hsize : Memory.validSize size = true) (value : BitVec 64)
    (profile : Profile) (c : Cpu) :
    (physWrite fault pa size value).Ensures profile c
      (fun _ c' => ∃ mem, mem.dram.len = c.mem.dram.len ∧
        c' = { c with mem := mem })
      (fun error c' => error = fault ∧
        ∃ mem, mem.dram = c.mem.dram ∧ c' = { c with mem := mem }) := by
  apply onMemory_ensures
  apply Program.Ensures.mapError
  apply (Memory.write_ensures pa hsize value profile c.mem).mono
  · rintro _ mem (⟨-, rfl⟩ | ⟨-, hdram⟩)
    · exact ⟨_, by rw [Memory.stored_dram, Dram.storeLe_len], rfl⟩
    · exact ⟨mem, congrArg Dram.len hdram, rfl⟩
  · exact fun _ mem hdram => ⟨rfl, mem, hdram, rfl⟩

/-- Bytes of one access that share a slot of the cache share a page: the
access touches at most two pages, and those are neighbours. -/
theorem page_eq_of_slot_eq (va : BitVec 64) {j k : ℕ} (hj : j < 8) (hk : k < 8)
    (hslot : tlbSlot (va + BitVec.ofNat 64 j) =
      tlbSlot (va + BitVec.ofNat 64 k)) :
    (va + BitVec.ofNat 64 j) >>> 12 = (va + BitVec.ofNat 64 k) >>> 12 := by
  have hval := congrArg Fin.val hslot
  rw [tlbSlot_val, tlbSlot_val] at hval
  apply BitVec.eq_of_toNat_eq
  rw [BitVec.toNat_ushiftRight, BitVec.toNat_ushiftRight,
    Nat.shiftRight_eq_div_pow, Nat.shiftRight_eq_div_pow]
  rw [BitVec.toNat_add, BitVec.toNat_add, BitVec.toNat_ofNat,
    BitVec.toNat_ofNat] at hval ⊢
  have hva := va.isLt
  omega

theorem translateBytes_ensures (va : BitVec 64) (remaining k : ℕ)
    (hsize : k + remaining ≤ 8) (profile : Profile) (c : Cpu)
    (hdone : ∀ j < k, c.tlbHit (va + BitVec.ofNat 64 j) .store = true) :
    (translateBytes va remaining k).Ensures profile c
      (fun _ c' => Walked c c' ∧ ∀ j < k + remaining,
        c'.tlbHit (va + BitVec.ofNat 64 j) .store = true)
      (fun _ c' => Walked c c') := by
  induction remaining generalizing k c with
  | zero => exact Program.Ensures.pure ⟨Walked.refl c, hdone⟩
  | succ remaining ih =>
      apply Program.Ensures.bind
      apply Program.Ensures.check
      intro addr haddr
      rw [Checked.add_eq_some haddr]
      apply Program.Ensures.bind
      apply (translate_ensures _ .store profile c).mono
      · rintro _ c' ⟨hwalked, hhit, hkept⟩
        have hdone' : ∀ j < k + 1,
            c'.tlbHit (va + BitVec.ofNat 64 j) .store = true := by
          intro j hj
          rcases Nat.lt_succ_iff_lt_or_eq.mp hj with hlt | rfl
          · exact hkept _ (hdone j hlt)
              (page_eq_of_slot_eq va (by omega) (by omega))
          · exact hhit
        apply (ih (k + 1) (by omega) c' hdone').mono
        · rintro _ c'' ⟨hrest, hall⟩
          refine ⟨hwalked.trans hrest, fun j hj => hall j (by omega)⟩
        · exact fun _ _ hrest => hwalked.trans hrest
      · rintro _ _ ⟨mem, htables, rfl⟩
        exact ⟨rfl, htables, fun _ _ _ => Or.inl rfl⟩

theorem writeBytes_ensures (va value : BitVec 64) (remaining k : ℕ)
    (profile : Profile) (c : Cpu)
    (hhits : ∀ j < k + remaining,
      c.tlbHit (va + BitVec.ofNat 64 j) .store = true) :
    (writeBytes va value remaining k).Ensures profile c
      (fun _ c' => ∃ mem, mem.dram.len = c.mem.dram.len ∧
        c' = { c with mem := mem })
      (fun _ c' => ∃ mem, mem.dram.len = c.mem.dram.len ∧
        c' = { c with mem := mem }) := by
  induction remaining generalizing k c with
  | zero => exact Program.Ensures.pure ⟨c.mem, rfl, rfl⟩
  | succ remaining ih =>
      apply Program.Ensures.bind
      apply Program.Ensures.check
      intro addr haddr
      rw [Checked.add_eq_some haddr]
      apply Program.Ensures.bind
      have hhit := hhits k (by omega)
      intro outcome c' hrun
      rw [translate_hit hhit] at hrun
      cases hrun
      apply Program.Ensures.bind
      apply Program.Ensures.check
      intro shift _
      apply Program.Ensures.bind
      apply Program.Ensures.check
      intro byte _
      apply Program.Ensures.bind
      apply (physWrite_ensures _ _ rfl byte profile c).mono
      · rintro _ _ ⟨mem, hlen, rfl⟩
        apply (ih (k + 1) { c with mem := mem } ?_).mono
        · rintro _ _ ⟨mem', hlen', rfl⟩
          exact ⟨mem', hlen'.trans hlen, rfl⟩
        · rintro _ _ ⟨mem', hlen', rfl⟩
          exact ⟨mem', hlen'.trans hlen, rfl⟩
        · intro j hj
          rw [← hhits j (by omega)]
          exact tlbHit_congr rfl rfl rfl _ _
      · rintro _ _ ⟨-, mem, hdram, rfl⟩
        exact ⟨mem, congrArg Dram.len hdram, rfl⟩

theorem writeMem_ensures (va : BitVec 64) {size : ℕ}
    (hsize : Memory.validSize size = true) (value : BitVec 64)
    (profile : Profile) (c : Cpu) :
    (writeMem va size value).Ensures profile c
      (fun _ c' => Accessed c c') (fun _ c' => Accessed c c') := by
  have hle := Memory.size_le_of_valid hsize
  apply Program.Ensures.bind
  apply Program.Ensures.check
  intro fits _
  apply Program.Ensures.ite
  · intro _
    apply Program.Ensures.bind
    apply (translate_keeps va .store profile c).mono
    · intro pa c₁ hwalked
      apply (physWrite_ensures _ pa hsize value profile c₁).mono
      · rintro _ _ ⟨mem, hlen, rfl⟩
        exact ⟨c₁, mem, hwalked, hlen, rfl⟩
      · rintro _ _ ⟨-, mem, hdram, rfl⟩
        exact ⟨c₁, mem, hwalked, congrArg Dram.len hdram, rfl⟩
    · exact fun _ _ hwalked => Walked.accessed hwalked
  · intro _
    apply Program.Ensures.bind
    apply (translateBytes_ensures va size 0 (by omega) profile c
      (fun j hj => absurd hj (Nat.not_lt_zero j))).mono
    · rintro _ c₁ ⟨hwalked, hhits⟩
      apply (writeBytes_ensures va value size 0 profile c₁ hhits).mono
      · rintro _ _ ⟨mem, hlen, rfl⟩
        exact ⟨c₁, mem, hwalked, hlen, rfl⟩
      · rintro _ _ ⟨mem, hlen, rfl⟩
        exact ⟨c₁, mem, hwalked, hlen, rfl⟩
    · exact fun _ _ hwalked => hwalked.accessed

end Cpu

end Nanoemu
