import Nanoemu.StepCourse
import Nanoemu.SupervisorBoot
import Nanoemu.TableMemory

/-!
# Coherence of the translation cache

Every valid entry was left by a walk in some state since the cache was last
empty.  Where the words a walk reads have kept their value since then, and the
entry's tag tells the effective privilege, a hit answers what the walker would
answer now.
-/

namespace Nanoemu

open CheckedProgram BitFields Mmu

namespace Mmu

theorem entriesRead_dvd {scheme : Mode} (hscheme : scheme ≠ .bare)
    {dram : Dram} {va : BitVec 64} {remaining : ℕ} {table : BitVec 64}
    (htable : TableBase table) {addr : BitVec 64}
    (haddr : addr ∈ entriesRead scheme dram va remaining table) :
    scheme.pteSize ∣ Memory.offset addr := by
  induction remaining generalizing table with
  | zero => cases haddr
  | succ level ih =>
      rw [entriesRead] at haddr
      rcases List.mem_cons.mp haddr with rfl | hrest
      · exact offset_dvd hscheme htable va level
      · split at hrest
        · exact ih (nextTable_tableBase _ _) hrest
        · cases hrest

theorem translationReads_dvd {scheme : Mode} (hscheme : scheme ≠ .bare)
    {satp va : BitVec 64} {dram : Dram} {addr : BitVec 64}
    (haddr : addr ∈ translationReads scheme satp dram va) :
    scheme.pteSize ∣ Memory.offset addr := by
  rw [translationReads] at haddr
  split at haddr
  · cases haddr
  · exact entriesRead_dvd hscheme (rootTable_tableBase _ _) haddr

theorem translationReads_bare (satp va : BitVec 64) (dram : Dram) :
    translationReads .bare satp dram va = [] := rfl

end Mmu

namespace Cpu

theorem Filled.congr {c c' : Cpu} {slot : Fin TLB_ENTRIES} {way : Access}
    {e : TlbEntry} (h : Filled c' slot way e) (hxlen : c'.xlen = c.xlen)
    (hsatp : c'.csrs.read Csr.SATP = c.csrs.read Csr.SATP)
    (hstatus : c'.csrs.read Csr.MSTATUS = c.csrs.read Csr.MSTATUS)
    (hmode : c'.privMode = c.privMode)
    (hdram : c'.mem.dram = c.mem.dram) : Filled c slot way e := by
  obtain ⟨profile, va, mem, mem', pa, hslot, htables, hwalk, hentry⟩ := h
  rw [hxlen, hdram] at htables
  rw [walker, hxlen, hsatp, hstatus, hmode] at hwalk
  refine ⟨profile, va, mem, mem', pa, hslot, htables, hwalk, ?_⟩
  rw [hentry, cachedEntry, cachedEntry, tlbCtx, tlbCtx, hsatp, hstatus, hmode]

/-- The width and the size of DRAM are those of `c`, and every valid entry is
an old one or was filled in the context of `c`. -/
structure Cached (c c' : Cpu) : Prop where
  xlen : c'.xlen = c.xlen
  len : c'.mem.dram.len = c.mem.dram.len
  entries : ∀ slot way, (c'.tlb slot way).valid = true →
    c'.tlb slot way = c.tlb slot way ∨ Filled c slot way (c'.tlb slot way)

theorem Accessed.cached {c c₁ : Cpu} (h : Accessed c.ticked c₁) :
    Cached c c₁ := by
  obtain ⟨c₂, mem, hwalked, hlen, rfl⟩ := h
  have hticked := ticked_ticked c
  refine ⟨hwalked.xlen.trans hticked.xlenEq, ?_, fun slot way hvalid => ?_⟩
  · rw [hlen, hwalked.tables.len, hticked.dram]
  · rcases hwalked.entries slot way hvalid with hold | hfilled
    · left
      rw [hold, hticked.tlb]
    · right
      exact hfilled.congr hticked.xlenEq (hticked.read (by decide))
        (hticked.read (by decide)) hticked.privMode hticked.dram

/-- What only drops entries, and leaves the memory's size alone. -/
structure Drops (c c' : Cpu) : Prop where
  xlen : c'.xlen = c.xlen
  len : c'.mem.dram.len = c.mem.dram.len
  entries : ∀ slot way, (c'.tlb slot way).valid = true →
    c'.tlb slot way = c.tlb slot way

theorem Drops.trans {c c' c'' : Cpu} (hfirst : Drops c c')
    (hsecond : Drops c' c'') : Drops c c'' := by
  refine ⟨hsecond.xlen.trans hfirst.xlen, hsecond.len.trans hfirst.len,
    fun slot way hvalid => ?_⟩
  have hsame := hsecond.entries slot way hvalid
  rw [hsame] at hvalid ⊢
  exact hfirst.entries slot way hvalid

theorem Cached.drops {c c' c'' : Cpu} (hfirst : Cached c c')
    (hsecond : Drops c' c'') : Cached c c'' := by
  refine ⟨hsecond.xlen.trans hfirst.xlen, hsecond.len.trans hfirst.len,
    fun slot way hvalid => ?_⟩
  have hsame := hsecond.entries slot way hvalid
  rw [hsame] at hvalid ⊢
  exact hfirst.entries slot way hvalid

theorem Control.drops {c c' : Cpu} (h : Control c c') : Drops c c' := by
  cases h with
  | keep => exact ⟨rfl, rfl, fun _ _ _ => rfl⟩
  | csr addr value _ =>
      have hframe : c.writeCsr addr value = { c with
          csrs := (c.writeCsr addr value).csrs
          wroteInstret := (c.writeCsr addr value).wroteInstret } := by
        rw [writeCsr]
        dsimp only
        split <;> split <;> rfl
      rw [hframe]
      exact ⟨rfl, rfl, fun _ _ _ => rfl⟩
  | sret _ => exact ⟨rfl, rfl, fun _ _ _ => rfl⟩
  | mret _ => exact ⟨rfl, rfl, fun _ _ _ => rfl⟩
  | fence _ =>
      exact ⟨rfl, rfl, fun _ _ hvalid => absurd hvalid Bool.false_ne_true⟩

theorem Floats.drops {c c' : Cpu} (h : Floats c c') : Drops c c' := by
  rw [h.frame]
  exact ⟨rfl, rfl, fun _ _ _ => rfl⟩

theorem Answered.drops {c c' : Cpu} (h : Answered c c') : Drops c c' :=
  ⟨(congrArg Cpu.xlen h.frame :), congrArg Dram.len h.dram, h.entries⟩

theorem TrapTaken.drops {c c' : Cpu} {cause : ℕ} {tval epc : BitVec 64}
    {isInterrupt : Bool} (h : TrapTaken c cause tval epc isInterrupt c') :
    Drops c c' := by
  obtain ⟨entered, pc, -, rfl⟩ := h.spec
  exact ⟨rfl, rfl, fun _ _ _ => rfl⟩

theorem retire_drops (c : Cpu) : Drops c c.retire := by
  rw [retire]
  split <;> exact ⟨rfl, rfl, fun _ _ _ => rfl⟩

theorem Stepped.cached {c c' : Cpu} {outcome : Except Exception Unit}
    (h : Stepped c outcome c') : Cached c c' := by
  cases h with
  | interrupt _ htrap =>
      exact (Walked.refl c.ticked).accessed.cached.drops htrap.drops
  | @retired c₁ c₂ _ haccessed hcommitted =>
      obtain ⟨c₃, hcontrol, hfloats⟩ := hcommitted
      exact haccessed.cached.drops
        ((hcontrol.drops.trans hfloats.drops).trans (retire_drops c₂))
  | answered _ haccessed _ _ hanswered =>
      exact haccessed.cached.drops hanswered.drops
  | exception _ haccessed _ htrap =>
      exact haccessed.cached.drops htrap.drops

theorem Next.cached {profile : Profile} {c c' : Cpu} (h : Next profile c c') :
    Cached c c' := by
  cases h with
  | step hstep => exact (step_stepped hstep).cached
  | input bytes => exact ⟨rfl, rfl, fun _ _ _ => Or.inl rfl⟩

/-- No translation is cached, as after `flushTlb` and at the start. -/
def EmptyTlb (c : Cpu) : Prop :=
  ∀ slot way, (c.tlb slot way).valid = false

theorem Started.emptyTlb {profile : Profile} {c : Cpu}
    (h : Started profile c) : EmptyTlb c := by
  rcases h with hloaded | ⟨entry, hartid, dtb, hloaded⟩
  · exact hloaded.fresh.tlb
  · exact hloaded.fresh.tlb

theorem flushTlb_emptyTlb (c : Cpu) : EmptyTlb c.flushTlb :=
  fun _ _ => rfl

/-- SFENCE.VMA, whatever its operands. -/
def IsFence (inst : BitVec 32) : Prop :=
  (opcode inst).toNat = 0x73 ∧ funct3 inst = 0 ∧ inst >>> 20 >>> 5 = 0x09

theorem execute_fence {inst : BitVec 32} (hfence : IsFence inst)
    (instPc nextPc : BitVec 64) (profile : Profile) (c : Cpu) :
    execute inst instPc nextPc profile c =
      if c.supervisorTraps Mstatus.TVM = true then
        some (.error (.illegalInstruction inst),
          { c with pc := nextPc })
      else some (.ok (), ({ c with pc := nextPc } : Cpu).flushTlb) := by
  obtain ⟨hop, hf3, hfunct⟩ := hfence
  have hother : ∀ code : BitVec 32, code >>> 5 ≠ 0x09 → inst >>> 20 ≠ code :=
    fun code hcode heq => hcode (heq ▸ hfunct)
  have hplace : setPc nextPc profile c =
      some (.ok (), { c with pc := nextPc }) := rfl
  rw [execute, Program.bind_run_ok hplace, hop]
  change (if funct3 inst = 0 then executePriv inst
    else executeCsr inst) profile { c with pc := nextPc } = _
  rw [if_pos hf3, executePriv, Program.bind_run_ok (Program.read_run _ _ _),
    id, if_neg (hother 0x000 (by decide)), if_neg (hother 0x001 (by decide)),
    if_neg (hother 0x102 (by decide)), if_neg (hother 0x302 (by decide)),
    if_neg (hother 0x105 (by decide)), if_pos hfunct, Program.ite_run]
  rfl

theorem EmptyTlb.congr {c c' : Cpu} (h : EmptyTlb c) (htlb : c'.tlb = c.tlb) :
    EmptyTlb c' := by
  intro slot way
  rw [htlb]
  exact h slot way

theorem retire_tlb (c : Cpu) : c.retire.tlb = c.tlb := by
  rw [retire]
  split <;> rfl

/-- A step that retires SFENCE.VMA has flushed the cache. -/
theorem step_fence_emptyTlb {profile : Profile} {c c₁ c' : Cpu}
    {inst : BitVec 32} {len : BitVec 64}
    (hpending : c.ticked.pendingInterrupt = none)
    (hfetch : fetch profile c.fetching = some (.ok (inst, len), c₁))
    (hfence : IsFence inst) (hstep : step profile c = some (.ok (), c')) :
    EmptyTlb c' := by
  cases step_course hstep with
  | interrupt hinterrupt _ => cases hpending.symm.trans hinterrupt
  | @retired _ _ _ c₂ _ hword hexecute =>
      cases hfetch.symm.trans hword
      rw [execute_fence hfence] at hexecute
      split at hexecute
      · cases hexecute
      · cases hexecute
        exact (flushTlb_emptyTlb _).congr (retire_tlb _)
  | answered _ hfail hcalls _ =>
      rw [fetchExecute, Program.bind_run_ok hfetch] at hfail
      change execute inst _ _ profile c₁ = _ at hfail
      rw [execute_fence hfence] at hfail
      split at hfail
      · cases hfail
        obtain ⟨hcall, -⟩ := callsFirmware_eq_true hcalls
        cases hcall
      · cases hfail

/-- A call that asks for a remote fence. -/
def IsRemoteFence (x : Cpu) : Prop :=
  x.regs 17 = Sbi.LEGACY_REMOTE_FENCE_I ∨
    x.regs 17 = Sbi.LEGACY_REMOTE_SFENCE_VMA ∨
    x.regs 17 = Sbi.LEGACY_REMOTE_SFENCE_VMA_ASID ∨
    x.regs 17 = Sbi.EXT_RFENCE

/-- The firmware has but the one hart to fence. -/
theorem answerCall_fence_emptyTlb {profile : Profile} {x c' : Cpu}
    (hfence : IsRemoteFence x)
    (hanswer : answerCall profile x = some (.ok (), c')) : EmptyTlb c' := by
  have hflushed : ∃ regs, handleSbi profile x =
      some (.ok true, { x.flushTlb with regs := regs }) := by
    rw [handleSbi, Program.bind_run_ok (Program.read_run _ _ _), id]
    dsimp only
    rcases hfence with heid | heid | heid | heid <;> rw [heid] <;>
      exact ⟨_, rfl⟩
  obtain ⟨regs, hsbi⟩ := hflushed
  rw [answerCall, Program.bind_run_ok hsbi] at hanswer
  cases hanswer
  exact (flushTlb_emptyTlb x).congr rfl

/-- Steps that do not meet `fills` leave the entries for `way` alone, or drop
them. -/
def FilledBy (profile : Profile) (fills : Cpu → Prop) (way : Access) : Prop :=
  ∀ {c c' : Cpu}, ¬ fills c → Next profile c c' →
    ∀ slot, (c'.tlb slot way).valid = true → c'.tlb slot way = c.tlb slot way

theorem filledBy_any (profile : Profile) (way : Access) :
    FilledBy profile (fun _ => True) way :=
  fun hnot => absurd trivial hnot

/-- Along a run from an empty cache, every valid entry was filled in a state
of the run. -/
theorem Run.filled_by {profile : Profile} {P fills : Cpu → Prop} {f s : Cpu}
    {way : Access} (hfills : FilledBy profile fills way) (hempty : EmptyTlb f)
    (hrun : Run profile P f s) :
    ∀ slot, (s.tlb slot way).valid = true →
      ∃ x, P x ∧ fills x ∧ x.xlen = s.xlen ∧
        x.mem.dram.len = s.mem.dram.len ∧
        Filled x slot way (s.tlb slot way) := by
  induction hrun with
  | refl _ =>
      intro slot hvalid
      rw [hempty slot way] at hvalid
      cases hvalid
  | @tail c c' hrun hnext _ ih =>
      intro slot hvalid
      have hcached := hnext.cached
      have hkept : c'.tlb slot way = c.tlb slot way →
          ∃ x, P x ∧ fills x ∧ x.xlen = c'.xlen ∧
            x.mem.dram.len = c'.mem.dram.len ∧
            Filled x slot way (c'.tlb slot way) := by
        intro hold
        rw [hold] at hvalid ⊢
        obtain ⟨x, hx, hfill, hxlen, hlen, hfilled⟩ := ih slot hvalid
        exact ⟨x, hx, hfill, hxlen.trans hcached.xlen.symm,
          hlen.trans hcached.len.symm, hfilled⟩
      by_cases hfill : fills c
      · rcases hcached.entries slot way hvalid with hold | hfilled
        · exact hkept hold
        · exact ⟨c, hrun.last, hfill, hcached.xlen.symm, hcached.len.symm,
            hfilled⟩
      · exact hkept (hfills hfill hnext slot hvalid)

theorem Run.filled {profile : Profile} {P : Cpu → Prop} {f s : Cpu}
    (hempty : EmptyTlb f) (hrun : Run profile P f s)
    (slot : Fin TLB_ENTRIES) (way : Access)
    (hvalid : (s.tlb slot way).valid = true) :
    ∃ x, P x ∧ x.xlen = s.xlen ∧ x.mem.dram.len = s.mem.dram.len ∧
      Filled x slot way (s.tlb slot way) := by
  obtain ⟨x, hx, -, hfilled⟩ :=
    hrun.filled_by (filledBy_any profile way) hempty slot hvalid
  exact ⟨x, hx, hfilled⟩

theorem tlbCtx_agree {field : BitVec 64} (hfield : Within field TLB_STATUS_BITS)
    (hmode : ∀ mode : Priv, BitFields.Disjoint field mode.toBits) (c : Cpu) :
    Agree field c.tlbCtx (c.csrs.read Csr.MSTATUS) :=
  (Agree.or_right (hmode c.privMode)).trans (Agree.and_mask hfield)

theorem status_of_tlbCtx_eq {c c' : Cpu} (h : c'.tlbCtx = c.tlbCtx)
    {field : BitVec 64} (hfield : Within field TLB_STATUS_BITS)
    (hmode : ∀ mode : Priv, BitFields.Disjoint field mode.toBits) :
    Agree field (c'.csrs.read Csr.MSTATUS) (c.csrs.read Csr.MSTATUS) := by
  refine (tlbCtx_agree hfield hmode c').symm.trans ?_
  rw [h]
  exact tlbCtx_agree hfield hmode c

theorem privMode_of_tlbCtx_eq {c c' : Cpu} (h : c'.tlbCtx = c.tlbCtx) :
    c'.privMode = c.privMode := by
  have hbits : ∀ c : Cpu, Agree 0x3 c.tlbCtx c.privMode.toBits := by
    intro c
    rw [tlbCtx, BitVec.or_comm]
    apply Agree.or_right
    change 0x3 &&& (c.csrs.read Csr.MSTATUS &&& TLB_STATUS_BITS) = 0
    rw [BitVec.and_comm (c.csrs.read Csr.MSTATUS), ← BitVec.and_assoc]
    exact BitVec.zero_and
  have hmodes : Agree 0x3 c'.privMode.toBits c.privMode.toBits := by
    refine (hbits c').symm.trans ?_
    rw [h]
    exact hbits c
  revert hmodes
  cases c'.privMode <;> cases c.privMode <;> decide

/-- Where the words lie that a walk of `va` reads now. -/
def tableWords (c : Cpu) (va : BitVec 64) : List (BitVec 64) :=
  translationReads c.scheme (c.csrs.read Csr.SATP) c.mem.dram va

/-- The words a walk of `va` in `s` reads hold in `x` what they hold in `s`,
accessed and dirty bits apart. -/
def Kept (s : Cpu) (va : BitVec 64) (x : Cpu) : Prop :=
  ∀ addr ∈ s.tableWords va,
    Agree stableBits (entryAt s.scheme x.mem.dram addr)
      (entryAt s.scheme s.mem.dram addr)

def TablesInDram (c : Cpu) (va : BitVec 64) : Prop :=
  ∀ addr ∈ c.tableWords va, c.mem.InDram addr c.scheme.pteSize

theorem tlbHit_eq_true {c : Cpu} {va : BitVec 64} {access : Access}
    (h : c.tlbHit va access = true) :
    (c.tlb (tlbSlot va) access).valid = true ∧
      (c.tlb (tlbSlot va) access).vpn = va >>> 12 ∧
      (c.tlb (tlbSlot va) access).satp = c.csrs.read Csr.SATP ∧
      (c.tlb (tlbSlot va) access).ctx = c.tlbCtx := by
  simp only [tlbHit, Bool.and_eq_true, beq_iff_eq] at h
  exact ⟨h.1.1.1, h.1.1.2, h.1.2, h.2⟩

theorem walker_of_hit {s x : Cpu} {va : BitVec 64} {access : Access}
    (hhit : s.tlbHit va access = true)
    (hfilled : Filled x (tlbSlot va) access (s.tlb (tlbSlot va) access))
    (hxlen : x.xlen = s.xlen) (hlen : x.mem.dram.len = s.mem.dram.len)
    (hkept : Kept s va x) (hin : s.TablesInDram va)
    (heffective : x.tlbCtx = s.tlbCtx →
      x.effective access = s.effective access) (profile : Profile) :
    ∃ after, s.walker va access profile s.mem =
      some (.ok ((s.tlb (tlbSlot va) access).ppn ||| (va &&& 0xfff)),
        after) := by
  obtain ⟨-, hvpn, hsatp, hctx⟩ := tlbHit_eq_true hhit
  obtain ⟨profile', va', mem', after, pa, -, htables, hwalk, hentry⟩ := hfilled
  rw [hentry] at hvpn hsatp hctx ⊢
  change va' >>> 12 = va >>> 12 at hvpn
  change x.csrs.read Csr.SATP = s.csrs.read Csr.SATP at hsatp
  change x.tlbCtx = s.tlbCtx at hctx
  rw [walker, hxlen, hsatp] at hwalk
  refine translate_again (heffective hctx)
    (status_of_tlbCtx_eq hctx (by decide) (by intro mode; cases mode <;> decide))
    (status_of_tlbCtx_eq hctx (by decide) (by intro mode; cases mode <;> decide))
    hvpn hin (htables.len.trans hlen) ?_ hwalk profile
  intro addr haddr
  by_cases hpaged : s.scheme = .bare
  · change addr ∈ translationReads s.scheme _ _ _ at haddr
    rw [hpaged, translationReads_bare] at haddr
    cases haddr
  · refine Agree.trans ?_ (hkept addr haddr)
    have hsize : s.scheme.pteSize = entrySize x.xlen := by
      rw [hxlen]
      exact pteSize_eq_entrySize hpaged
    change Agree stableBits (mem'.dram.loadLe _ s.scheme.pteSize)
      (x.mem.dram.loadLe _ s.scheme.pteSize)
    rw [hsize]
    apply htables.entries
    · rw [← hsize]
      exact translationReads_dvd hpaged haddr
    · rw [← hsize, hlen]
      exact (hin addr haddr).2.1

/-- Along a run whose states since the cache was empty kept the words of the
walk, and where the tag tells the effective privilege, the cached translation
is the walker's. -/
theorem Run.translate_coherent {profile : Profile} {P fills : Cpu → Prop}
    {f s : Cpu} {access : Access} (hfills : FilledBy profile fills access)
    (hempty : EmptyTlb f) (hrun : Run profile P f s)
    {va : BitVec 64} (hin : s.TablesInDram va)
    (hkept : ∀ x, P x → Kept s va x)
    (heffective : ∀ x, P x → fills x → x.tlbCtx = s.tlbCtx →
      x.effective access = s.effective access) :
    (translate va access profile s).map Prod.fst =
      (s.walker va access profile s.mem).map Prod.fst := by
  cases hhit : s.tlbHit va access with
  | true =>
      obtain ⟨x, hx, hfill, hxlen, hlen, hfilled⟩ :=
        hrun.filled_by hfills hempty _ (tlbHit_eq_true hhit).1
      obtain ⟨after, hwalk⟩ := walker_of_hit hhit hfilled hxlen hlen
        (hkept x hx) hin (heffective x hx hfill) profile
      rw [translate_hit hhit, hwalk]
      rfl
  | false =>
      rw [translate_miss hhit]
      rcases s.walker va access profile s.mem with _ | ⟨_ | _, _⟩ <;> rfl

/-! ## Below machine mode -/

theorem Run.reachable {profile : Profile} {P : Cpu → Prop} {f s : Cpu}
    (hreach : Reachable profile (Started profile) f)
    (hrun : Run profile P f s) : Reachable profile (Started profile) s := by
  induction hrun with
  | refl _ => exact hreach
  | tail _ hnext _ ih => exact ih.next hnext

theorem effective_of_mprv_clear {c : Cpu}
    (h : c.csrs.read Csr.MSTATUS &&& Mstatus.MPRV = 0) (access : Access) :
    c.effective access = c.privMode := by
  rw [effective, effectivePriv, if_neg]
  exact fun hredirected => hredirected.2 h

/-- In user and supervisor mode the cache is transparent to every address whose
tables have kept their words since the cache was last flushed. -/
theorem translate_coherent_below_machine {profile : Profile} {f s : Cpu}
    (hreach : Reachable profile (Started profile) f) (hempty : EmptyTlb f)
    {va : BitVec 64} (hrun : Run profile (Kept s va) f s)
    (hbelow : s.privMode ≠ .machine) (hin : s.TablesInDram va)
    (access : Access) :
    (translate va access profile s).map Prod.fst =
      (s.walker va access profile s.mem).map Prod.fst := by
  apply hrun.translate_coherent (filledBy_any profile access) hempty hin
    fun _ hx => hx
  intro x _ _ hctx
  have hclear : s.csrs.read Csr.MSTATUS &&& Mstatus.MPRV = 0 :=
    CsrFile.mprv_clear (CsrFile.read_mstatus_agree (by decide) (by decide) _)
      ((hrun.reachable hreach).confined hbelow)
  have hclear' : x.csrs.read Csr.MSTATUS &&& Mstatus.MPRV = 0 :=
    CsrFile.mprv_clear (status_of_tlbCtx_eq hctx (by decide)
      (by intro mode; cases mode <;> decide)) hclear
  rw [effective_of_mprv_clear hclear, effective_of_mprv_clear hclear']
  exact privMode_of_tlbCtx_eq hctx

/-- A kernel that turns paging on over its own code, with a root table in the
word at `0x800`. -/
def pagingKernel : Cpu :=
  ((((Cpu.new 0x1000 .rv32).get rfl).placed 0
    ([0x18059073, 0x00000013].flatMap wordBytes)).placed 0x800
      (wordBytes 0x2000000b)).bootSupervisor DRAM_BASE 0 0x80080000

theorem pagingKernel_booted (profile : Profile) :
    Booted profile pagingKernel := by
  have hnew : Loaded profile ((Cpu.new 0x1000 .rv32).get rfl) :=
    .new (Option.some_get (rfl : (Cpu.new 0x1000 .rv32).isSome)).symm
  exact .boot _ _ _ ((hnew.placed DRAM_BASE (by decide +kernel)).placed
    0x80000800 (by decide +kernel))

/-- Its second instruction is fetched through the cache as the walker would
have it. -/
theorem translate_coherent_below_machine_fetch :
    (translate 0x80000004 .fetch .debug
        ((stepped .debug)^[2] pagingKernel)).map Prod.fst =
      (((stepped .debug)^[2] pagingKernel).walker 0x80000004 .fetch .debug
        ((stepped .debug)^[2] pagingKernel).mem).map Prod.fst := by
  have hstarted : Started .debug pagingKernel :=
    Or.inr (pagingKernel_booted .debug)
  have hwords : ((stepped .debug)^[2] pagingKernel).tableWords 0x80000004 =
      [0x80000800] := by decide +kernel
  have hrun : Run .debug (Kept ((stepped .debug)^[2] pagingKernel) 0x80000004)
      pagingKernel ((stepped .debug)^[2] pagingKernel) := by
    apply Run.iterate
    · decide +kernel
    · intro k hk
      rw [Kept, hwords, List.forall_mem_singleton]
      revert k
      decide +kernel
  refine translate_coherent_below_machine
    ⟨pagingKernel, hstarted, .refl trivial⟩ hstarted.emptyTlb hrun
    (by decide +kernel) ?_ .fetch
  rw [TablesInDram, hwords, List.forall_mem_singleton]
  decide +kernel

end Cpu

end Nanoemu
