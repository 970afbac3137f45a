import Nanoemu.TlbCoherence

/-!
# Accesses redirected by MPRV

The tag of a cached entry does not name the privilege that MPP redirects
machine mode to.  What is cached for loads and stores was put there by
instructions that load or store, and the cache is the walker's as long as MPP
named the same privilege at each of them.
-/

namespace Nanoemu

open CheckedProgram BitFields Mmu

namespace Cpu

variable {profile : Profile} {c c' : Cpu}

/-- The instruction the step from `c` fetches. -/
def nextInstruction (profile : Profile) (c : Cpu) : Option (BitVec 32) :=
  if c.ticked.pendingInterrupt.isSome then none
  else
    match fetch profile c.fetching with
    | some (.ok (inst, _), _) => some inst
    | _ => none

instance (inst : BitVec 32) : Decidable (IsAccess inst) :=
  inferInstanceAs (Decidable (_ ∈ _))

/-- The step from `c` comes to a load, a store or an atomic. -/
def AccessesData (profile : Profile) (c : Cpu) : Prop :=
  ∃ inst ∈ c.nextInstruction profile, IsAccess inst

instance (profile : Profile) (c : Cpu) : Decidable (AccessesData profile c) :=
  decidable_of_iff
    ((c.nextInstruction profile).any (fun inst => decide (IsAccess inst)) = true)
    (by simp only [AccessesData, Option.any_eq_true, Option.mem_def,
      decide_eq_true_eq])

theorem nextInstruction_eq {inst : BitVec 32} {len : BitVec 64} {c₁ : Cpu}
    (hpending : c.ticked.pendingInterrupt = none)
    (hfetch : fetch profile c.fetching = some (.ok (inst, len), c₁)) :
    c.nextInstruction profile = some inst := by
  rw [nextInstruction, hpending, hfetch]
  rfl

/-- Entries for loads and stores are left alone or dropped. -/
def DropsData (c c' : Cpu) : Prop :=
  ∀ slot way, way ≠ .fetch → (c'.tlb slot way).valid = true →
    c'.tlb slot way = c.tlb slot way

theorem DropsData.of_tlb (h : c'.tlb = c.tlb) : DropsData c c' := by
  intro slot way _ _
  rw [h]

theorem DropsData.trans {c'' : Cpu} (hfirst : DropsData c c')
    (hsecond : DropsData c' c'') : DropsData c c'' := by
  intro slot way hway hvalid
  have hsame := hsecond slot way hway hvalid
  rw [hsame] at hvalid ⊢
  exact hfirst slot way hway hvalid

theorem Drops.data (h : Drops c c') : DropsData c c' :=
  fun slot way _ => h.entries slot way

def dataFrame : Frame Cpu where
  rel := DropsData
  refl _ := .of_tlb rfl
  trans := DropsData.trans

theorem translate_fetch_drops (va : BitVec 64) :
    (translate va .fetch).Keeps dataFrame := by
  apply Program.Keeps.intro
  intro profile c outcome c' hrun slot way hway _
  cases hhit : c.tlbHit va .fetch with
  | true =>
      rw [translate_hit hhit] at hrun
      cases hrun
      rfl
  | false =>
      rw [translate_miss hhit] at hrun
      rcases hwalk : c.walker va .fetch profile c.mem with _ | ⟨e | pa, mem⟩
      · rw [hwalk] at hrun
        cases hrun
      · rw [hwalk] at hrun
        cases hrun
        rfl
      · rw [hwalk] at hrun
        cases hrun
        rw [setTlb_tlb, if_neg fun hplace => hway hplace.2]

theorem physRead_drops (fault : Exception) (pa : BitVec 64) (size : ℕ) :
    (physRead fault pa size).Keeps dataFrame := by
  intro profile c
  apply (physRead_ensures fault pa size profile c).mono
  · rintro _ _ ⟨mem, -, rfl⟩
    exact .of_tlb rfl
  · rintro _ _ ⟨-, mem, -, rfl⟩
    exact .of_tlb rfl

theorem fetch_drops : fetch.Keeps dataFrame :=
  fetch_frame translate_fetch_drops physRead_drops

theorem fetching_drops (c : Cpu) : DropsData c c.fetching :=
  .of_tlb (ticked_ticked c).tlb

theorem takeTrap_drops {cause : ℕ} {tval epc : BitVec 64} {isInterrupt : Bool}
    (htrap : takeTrap cause tval epc isInterrupt profile c =
      some (.ok (), c')) : DropsData c c' := by
  obtain ⟨entered, word, pc, -, -, rfl⟩ :=
    (takeTrap_enters cause tval epc isInterrupt profile c).ok htrap
  exact .of_tlb rfl

theorem Committed.drops (h : Committed c c') : Drops c c' := by
  obtain ⟨c₁, hcontrol, hfloats⟩ := h
  exact hcontrol.drops.trans hfloats.drops

/-- A fetch, or an instruction that does not load or store, fails without
filling an entry for loads and stores. -/
theorem fetchExecute_drops {e : Exception} {c₁ : Cpu}
    (hquiet : ¬ AccessesData profile c)
    (hpending : c.ticked.pendingInterrupt = none)
    (hfail : fetchExecute c.ticked.pc profile c.fetching =
      some (.error e, c₁)) : DropsData c c₁ := by
  apply (fetching_drops c).trans
  rcases Program.bind_cases hfail with
    ⟨e', hfetch, -⟩ | ⟨⟨inst, len⟩, c₂, hfetch, hexecute⟩
  · exact fetch_drops.of_run hfetch
  · have hother : ¬ IsAccess inst := fun haccess =>
      hquiet ⟨inst, nextInstruction_eq hpending hfetch, haccess⟩
    change execute inst c.ticked.pc (c₂.pc + len) profile c₂ = _ at hexecute
    obtain rfl := (execute_commits hother _ _ profile c₂).error hexecute
    exact (fetch_drops.of_run hfetch).trans (.of_tlb rfl)

theorem step_drops {outcome : Except Exception Unit}
    (hquiet : ¬ AccessesData profile c)
    (hstep : step profile c = some (outcome, c')) : DropsData c c' := by
  cases step_course hstep with
  | interrupt _ htrap =>
      have hticked : DropsData c c.ticked := .of_tlb (ticked_ticked c).tlb
      exact hticked.trans (takeTrap_drops htrap)
  | @retired inst len c₁ c₂ hpending hfetch hexecute =>
      have hother : ¬ IsAccess inst := fun haccess =>
        hquiet ⟨inst, nextInstruction_eq hpending hfetch, haccess⟩
      have hfetched : DropsData c c₁ :=
        (fetching_drops c).trans (fetch_drops.of_run hfetch)
      have hcommitted :=
        (execute_commits hother _ _ profile c₁).ok hexecute
      have hplaced : DropsData c { c₁ with pc := c₁.pc + len } :=
        hfetched.trans (.of_tlb rfl)
      exact (hplaced.trans hcommitted.drops.data).trans (retire_drops c₂).data
  | answered hpending hfail _ hanswer =>
      have hanswered := (answerCall_answers profile _).ok hanswer
      exact (fetchExecute_drops hquiet hpending hfail).trans
        hanswered.drops.data
  | exception hpending hfail _ htrap =>
      exact (fetchExecute_drops hquiet hpending hfail).trans
        (takeTrap_drops htrap)

/-- Only instructions that load or store fill the entries for loads and
stores. -/
theorem filledBy_accesses {access : Access} (haccess : access ≠ .fetch) :
    FilledBy profile (AccessesData profile) access := by
  intro c c' hquiet hnext slot
  cases hnext with
  | step hstep => exact step_drops hquiet hstep slot access haccess
  | input bytes => exact fun _ => rfl

/-- In `x`, if machine mode redirects its accesses there too, MPP names the
privilege it names in `s`. -/
def SamePrevious (s x : Cpu) : Prop :=
  x.privMode = .machine → x.csrs.read Csr.MSTATUS &&& Mstatus.MPRV ≠ 0 →
    Priv.fromBits ((x.csrs.read Csr.MSTATUS &&& Mstatus.MPP) >>>
        Mstatus.MPP_SHIFT) =
      Priv.fromBits ((s.csrs.read Csr.MSTATUS &&& Mstatus.MPP) >>>
        Mstatus.MPP_SHIFT)

/-- Redirected accesses are translated at the privilege MPP names now, as long
as it named the same one whenever an instruction loaded or stored redirected
since the last flush. -/
theorem translate_coherent_redirected {profile : Profile} {f s : Cpu}
    (hempty : EmptyTlb f) {va : BitVec 64}
    (hrun : Run profile (fun x => Kept s va x ∧
      (AccessesData profile x → SamePrevious s x)) f s)
    (hmachine : s.privMode = .machine)
    (hmprv : s.csrs.read Csr.MSTATUS &&& Mstatus.MPRV ≠ 0)
    (hin : s.TablesInDram va) {access : Access} (haccess : access ≠ .fetch) :
    (translate va access profile s).map Prod.fst =
      (s.walker va access profile s.mem).map Prod.fst := by
  apply hrun.translate_coherent (filledBy_accesses haccess) hempty hin
    fun _ hx => hx.1
  intro x hx haccesses hctx
  have hmachine' : x.privMode = .machine :=
    (privMode_of_tlbCtx_eq hctx).trans hmachine
  have hmprv' : x.csrs.read Csr.MSTATUS &&& Mstatus.MPRV ≠ 0 := by
    rw [show x.csrs.read Csr.MSTATUS &&& Mstatus.MPRV =
      s.csrs.read Csr.MSTATUS &&& Mstatus.MPRV from
        status_of_tlbCtx_eq hctx (by decide)
          (by intro mode; cases mode <;> decide)]
    exact hmprv
  rw [effective, effectivePriv, if_pos ⟨haccess, hmprv'⟩, effective,
    effectivePriv, if_pos ⟨haccess, hmprv⟩]
  exact hx.2 haccesses hmachine' hmprv'

/-- Machine-mode code that reads a page of user mode through MPRV, names
supervisor mode in MPP and then user mode again; the root table has one user
page, in the word after the code. -/
def redirectingHart : Cpu :=
  ((Cpu.new 0x80000 .rv32).get rfl).placed 0
    ([ -- csrrw x0, satp, sp
      0x18011073,
      -- lui t1, 0x20; csrrw x0, mstatus, t1
      0x00020337, 0x30031073,
      -- lui t2, 0x3000; lw t3, 0(t2)
      0x030003b7, 0x0003ae03,
      -- lui t1, 0x21; addi t1, t1, -0x800; csrrw x0, mstatus, t1
      0x00021337, 0x80030313, 0x30031073,
      -- lui t1, 0x20; csrrw x0, mstatus, t1
      0x00020337, 0x30031073,
      0, 0,
      -- the entry of the page
      0x20000013].flatMap wordBytes)

theorem redirectingHart_started (profile : Profile) :
    Started profile redirectingHart := by
  have hnew : Loaded profile ((Cpu.new 0x80000 .rv32).get rfl) :=
    .new (Option.some_get (rfl : (Cpu.new 0x80000 .rv32).isSome)).symm
  exact Or.inl (hnew.placed DRAM_BASE (by decide +kernel))

/-- With user mode named again the cache answers as it did at the load. -/
theorem translate_coherent_redirected_again :
    (translate 0x03000000 .load .debug
        ((stepped .debug)^[10] redirectingHart)).map Prod.fst =
      (((stepped .debug)^[10] redirectingHart).walker 0x03000000 .load .debug
        ((stepped .debug)^[10] redirectingHart).mem).map Prod.fst := by
  have hwords : ((stepped .debug)^[10] redirectingHart).tableWords
      0x03000000 = [0x80000030] := by decide +kernel
  have hrun : Run .debug
      (fun x => Kept ((stepped .debug)^[10] redirectingHart) 0x03000000 x ∧
        (AccessesData .debug x →
          SamePrevious ((stepped .debug)^[10] redirectingHart) x))
      redirectingHart ((stepped .debug)^[10] redirectingHart) := by
    apply Run.iterate
    · decide +kernel
    · intro k hk
      rw [Kept, SamePrevious, hwords, List.forall_mem_singleton]
      revert k
      decide +kernel
  refine translate_coherent_redirected
    (redirectingHart_started .debug).emptyTlb hrun (by decide +kernel)
    (by decide +kernel) ?_ (by decide)
  rw [TablesInDram, hwords, List.forall_mem_singleton]
  decide +kernel

/-- Once MPP names supervisor mode the walker refuses the user page, and the
cache still grants it. -/
theorem translate_incoherent_redirected :
    ∃ f s, Reachable .debug (Started .debug) f ∧ EmptyTlb f ∧
      Run .debug (Kept s 0x03000000) f s ∧ s.TablesInDram 0x03000000 ∧
      s.privMode = .machine ∧ s.csrs.read Csr.MSTATUS &&& Mstatus.MPRV ≠ 0 ∧
      (translate 0x03000000 .load .debug s).map Prod.fst =
        some (.ok 0x80000000) ∧
      (s.walker 0x03000000 .load .debug s.mem).map Prod.fst =
        some (.error (.loadPageFault 0x03000000)) := by
  have hstarted := redirectingHart_started .debug
  have hwords : ((stepped .debug)^[8] redirectingHart).tableWords 0x03000000 =
      [0x80000030] := by decide +kernel
  refine ⟨redirectingHart, (stepped .debug)^[8] redirectingHart,
    ⟨redirectingHart, hstarted, .refl trivial⟩, hstarted.emptyTlb, ?_, ?_,
    by decide +kernel, by decide +kernel, by decide +kernel,
    by decide +kernel⟩
  · apply Run.iterate
    · decide +kernel
    · intro k hk
      rw [Kept, hwords, List.forall_mem_singleton]
      revert k
      decide +kernel
  · rw [TablesInDram, hwords, List.forall_mem_singleton]
    decide +kernel

end Cpu

end Nanoemu
