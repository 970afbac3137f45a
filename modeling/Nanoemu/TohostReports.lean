import Nanoemu.RunLoop
import Nanoemu.SoundDevices
import Nanoemu.StoreRequests

/-!
# What a run reports

A run ends with the verdict that was recorded at `tohost`.  As long as every
store fits what it stores there, a store reports its low bytes, and a verdict is
a word that memory holds at `tohost`.
-/

namespace Nanoemu

open CheckedProgram Mmu

namespace Cpu

/-- The store of the instruction that the step from `c` executes, and the hart
once the store is translated. -/
def stepStore (profile : Profile) (c : Cpu) : Option (StoreRequest × Cpu) :=
  match c.ticked.pendingInterrupt, fetch profile c.fetching with
  | none, some (.ok (inst, len), c₁) =>
      match storeRequest profile inst { c₁ with pc := c₁.pc + len } with
      | none => none
      | some s =>
          match translateStore s.va s.size profile s.hart with
          | some (.ok (), z) => some (s, z)
          | _ => none
  | _, _ => none

/-- The store of the step, if there is one, fits what it stores. -/
def StoresFit (profile : Profile) (c : Cpu) : Prop :=
  ∀ s z, stepStore profile c = some (s, z) → z.StoreFits s.va s.size s.value

instance (profile : Profile) (c : Cpu) : Decidable (StoresFit profile c) :=
  decidable_of_iff (∀ p ∈ stepStore profile c,
    p.2.StoreFits p.1.va p.1.size p.1.value)
    ⟨fun h s z hstore => h (s, z) hstore, fun h p hp => h p.1 p.2 hp⟩

/-- A store that completes at `tohost` has reported its low bytes, and what is
recorded is there. -/
structure Reports (profile : Profile) (c c' : Cpu) : Prop where
  store : ∀ s z, stepStore profile c = some (s, z) →
    (c.retiredInst profile).isSome → c.mem.tohost = some (z.storeTarget s.va) →
    c'.mem.tohostValue = reported s.size s.value
  honest : c'.mem.Honest

variable {profile : Profile} {c c' : Cpu} {outcome : Except Exception Unit}

theorem atomicRequest_size {inst : BitVec 32} {s : StoreRequest}
    (hsome : atomicRequest profile inst c = some s) :
    Memory.validSize s.size = true := by
  unfold atomicRequest at hsome
  cases hwidth : amoWidth (funct3 inst) c.xlen with
  | none => simp [hwidth] at hsome
  | some width =>
      have hvalid : Memory.validSize (width / 8) = true := by
        rcases amoWidth_cases hwidth with rfl | rfl <;> rfl
      simp only [hwidth] at hsome
      split_ifs at hsome
      · cases hsome
        exact hvalid
      · unfold rmwRequest at hsome
        split at hsome
        · split at hsome
          · cases hsome
            exact hvalid
          · cases hsome
        · cases hsome

theorem storeRequest_size {inst : BitVec 32} {s : StoreRequest}
    (hsome : storeRequest profile inst c = some s) :
    Memory.validSize s.size = true := by
  unfold storeRequest at hsome
  split at hsome
  · obtain ⟨size, hsize, rfl⟩ := Option.map_eq_some_iff.mp hsome
    exact storeSize_valid hsize
  · split_ifs at hsome
    · cases hsome
      rfl
    · cases hsome
      rfl
  · exact atomicRequest_size hsome
  · cases hsome

theorem ticked_noStore (c : Cpu) : Memory.NoStore c.mem c.ticked.mem := by
  have hclint : ∀ x : Cpu, Memory.NoStore x.mem x.tickClint.mem := by
    intro x
    unfold tickClint
    dsimp only
    split_ifs <;> exact ⟨rfl, rfl, rfl⟩
  have hcounted : Memory.NoStore c.mem c.counted.tickClint.mem :=
    hclint c.counted
  unfold ticked tickTimer
  dsimp only
  split
  · exact hcounted
  · exact hcounted.trans ⟨rfl, rfl, rfl⟩

theorem answerCall_noStore (hanswer : answerCall profile c = some (.ok (), c')) :
    Memory.NoStore c.mem c'.mem := by
  have hcalls : IgnoresCalls Memory.noStoreFrame :=
    ⟨fun _ _ => ⟨rfl, rfl, rfl⟩, fun _ _ => ⟨rfl, rfl, rfl⟩,
      Memory.read_noStore⟩
  exact answerCall_memory hcalls hanswer

/-- The cache is aligned and nothing is recorded, as the loop has it before
each step. -/
structure Ready (c : Cpu) : Prop where
  aligned : AlignedTlb c
  silent : c.mem.tohostValue = none

theorem Ready.fetching (h : Ready c) : Walking c.fetching := by
  have hkept := ticked_noStore c
  constructor
  · intro slot way hvalid
    have htlb : c.fetching.tlb = c.tlb := (ticked_ticked c).tlb
    rw [htlb] at hvalid ⊢
    exact h.aligned slot way hvalid
  · intro v hv
    have hnone : c.fetching.mem.tohostValue = none := hkept.value.trans h.silent
    rw [hnone] at hv
    cases hv

theorem executed_reports {inst : BitVec 32} {len : BitVec 64} {c₁ c₂ : Cpu}
    (hready : Ready c) (hfits : StoresFit profile c)
    (hpending : c.ticked.pendingInterrupt = none)
    (hfetch : fetch profile c.fetching = some (.ok (inst, len), c₁))
    (hexecute : execute inst c.ticked.pc (c₁.pc + len) profile c₁ =
      some (outcome, c₂)) :
    c₂.mem.Honest ∧ (outcome = .ok () → ∀ s z,
      stepStore profile c = some (s, z) →
      c.mem.tohost = some (z.storeTarget s.va) →
      c₂.mem.tohostValue = reported s.size s.value) := by
  obtain ⟨htohost, hwalk⟩ := fetch_walking.of_run hfetch
  have hwalking : Walking { c₁ with pc := c₁.pc + len } := by
    obtain ⟨haligned, hheld⟩ := hwalk hready.fetching
    exact ⟨haligned, hheld⟩
  have hcourse := execute_course hexecute
  revert hcourse
  generalize c₂.mem = mem
  intro hcourse
  cases hcourse with
  | @loaded _ y hnone hwalked =>
      constructor
      · exact (hwalked.2 hwalking).held.honest (entrySize_bounds _).2
      · intro _ s z hstore
        simp only [stepStore, hpending, hfetch, hnone] at hstore
        cases hstore
  | @stored s _ result y hsome hwalked hwrite hok =>
      have hstore : ∀ z, translateStore s.va s.size profile s.hart =
          some (.ok (), z) → stepStore profile c = some (s, z) := by
        intro z hz
        simp only [stepStore, hpending, hfetch, hsome, hz]
      obtain ⟨hhonest, hreported⟩ := writeMem_reports (hwalked.2 hwalking)
        (storeRequest_size hsome) (fun z hz => hfits s z (hstore z hz)) hwrite
      refine ⟨hhonest, fun hdone s' z hstep hplace => ?_⟩
      simp only [stepStore, hpending, hfetch, hsome] at hstep
      split at hstep
      · next z' hz =>
          cases hstep
          apply hreported (hok hdone) z hz
          have hkept := ((translateStore_walking _ _).of_run hz).1
          rw [hkept, hwalked.1, ← hplace]
          exact htohost.trans (ticked_noStore c).tohost
      · cases hstep

theorem Ready.fetchExecute_honest {e : Exception} {c₁ : Cpu} (hready : Ready c)
    (hfits : StoresFit profile c)
    (hpending : c.ticked.pendingInterrupt = none)
    (hfail : fetchExecute c.ticked.pc profile c.fetching =
      some (.error e, c₁)) : c₁.mem.Honest := by
  rcases Program.bind_cases hfail with
    ⟨_, hfetch, -⟩ | ⟨⟨inst, len⟩, c₂, hfetch, hexecute⟩
  · have hwalking := (fetch_walking.of_run hfetch).2 hready.fetching
    exact hwalking.held.honest (entrySize_bounds _).2
  · exact (executed_reports hready hfits hpending hfetch hexecute).1

/-- A step whose store fits reports it, and records nothing else that is not
there. -/
theorem step_reports (hready : Ready c) (hfits : StoresFit profile c)
    (hstep : step profile c = some (outcome, c')) : Reports profile c c' := by
  cases step_course hstep with
  | interrupt hpending htrap =>
      have hmem := takeTrap_mem htrap
      constructor
      · intro s z hstore
        simp only [stepStore, hpending] at hstore
        cases hstore
      · rw [hmem]
        exact (ticked_noStore c).honest (Memory.honest_of_none hready.silent)
  | @retired inst len c₁ c₂ hpending hfetch hexecute =>
      obtain ⟨hhonest, hreported⟩ :=
        executed_reports hready hfits hpending hfetch hexecute
      constructor
      · intro s z hstore _ hplace
        rw [retire_mem]
        exact hreported rfl s z hstore hplace
      · rw [retire_mem]
        exact hhonest
  | @answered e c₁ _ hpending hfail _ hanswer =>
      constructor
      · intro s z _ hretired
        rw [retiredInst_of_error hfail] at hretired
        cases hretired
      · exact (answerCall_noStore hanswer).honest
          (hready.fetchExecute_honest hfits hpending hfail)
  | @exception e c₁ _ hpending hfail _ htrap =>
      constructor
      · intro s z _ hretired
        rw [retiredInst_of_error hfail] at hretired
        cases hretired
      · rw [takeTrap_mem htrap]
        exact hready.fetchExecute_honest hfits hpending hfail

theorem step_aligned (haligned : AlignedTlb c)
    (hstep : step profile c = some (outcome, c')) : AlignedTlb c' := by
  intro slot way hvalid
  rcases (step_stepped hstep).cached.entries slot way hvalid with hsame | hfilled
  · rw [hsame] at hvalid ⊢
    exact haligned slot way hvalid
  · exact hfilled.aligned

/-! ## A run -/

/-- The harts that `run` is called on: it has used up its steps before, and
input has arrived, since the start. -/
inductive Driven (profile : Profile) : Cpu → Prop where
  | start {c : Cpu} : Started profile c → Driven profile c
  | run {c c' : Cpu} {maxSteps : ℕ} : Driven profile c →
      (∀ x ∈ heads profile maxSteps c, StoresFit profile x) →
      Cpu.run maxSteps profile c = some (.ok .stepLimit, c') →
      Driven profile c'
  | input {c : Cpu} (bytes : List (BitVec 8)) : Driven profile c →
      Driven profile (c.pushInput bytes)

theorem turn_ready (hready : Ready c) {stop : Option Exit}
    (hturn : turn profile c = some (.ok stop, c'))
    (hlimit : stop = none ∨ stop = some .stepLimit) :
    stop = none ∧ Ready c' := by
  obtain ⟨outcome, c₁, hstep, hcases⟩ := turn_cases hturn
  rcases hcases with ⟨rfl, -⟩ | ⟨v, -, -, rfl, -⟩ | ⟨rfl, rfl⟩
  · simp at hlimit
  · unfold Exit.ofTohost at hlimit
    split_ifs at hlimit <;> simp at hlimit
  · rcases hlimit with hnone | hsome
    · have haligned : AlignedTlb c₁ := step_aligned hready.aligned hstep
      exact ⟨hnone, haligned, rfl⟩
    · rcases stopping_cases hsome with h | ⟨e, h⟩ <;> cases h

theorem run_ready {maxSteps : ℕ} (hready : Ready c)
    (hrun : run maxSteps profile c = some (.ok .stepLimit, c')) : Ready c' := by
  induction maxSteps generalizing c with
  | zero =>
      cases hrun
      exact hready
  | succ remaining ih =>
      rcases run_succ_ok hrun with hturn | ⟨c₁, hturn, hrest⟩
      · cases (turn_ready hready hturn (Or.inr rfl)).1
      · exact ih (turn_ready hready hturn (Or.inl rfl)).2 hrest

def recordFrame : Frame Memory where
  rel mem mem' := mem'.tohostValue = mem.tohostValue
  refl _ := rfl
  trans hfirst hsecond := hsecond.trans hfirst

theorem Started.ready (h : Started profile c) : Ready c := by
  constructor
  · intro slot way hvalid
    rw [h.emptyTlb slot way] at hvalid
    cases hvalid
  · have hloads : IgnoresLoads recordFrame :=
      ⟨fun _ _ => rfl, fun _ _ => rfl⟩
    exact h.memory hloads (fun hsame hnone => hsame.trans hnone) fun _ => rfl

theorem Driven.ready (h : Driven profile c) : Ready c := by
  induction h with
  | start hstarted => exact hstarted.ready
  | run _ _ hrun ih => exact run_ready ih hrun
  | input bytes _ ih => exact ⟨ih.aligned, ih.silent⟩

theorem turn_holds {exit : Exit} {v : BitVec 64} (hready : Ready c)
    (hfits : StoresFit profile c)
    (hturn : turn profile c = some (.ok (some exit), c'))
    (hwritten : exit.written = some v) : c'.mem.Holds v := by
  obtain ⟨outcome, c₁, hstep, hcases⟩ := turn_cases hturn
  rcases hcases with ⟨hstop, -⟩ | ⟨v', hvalue, hodd, hstop, rfl⟩ | ⟨hstop, -⟩
  · cases hstop
    cases hwritten
  · cases hstop
    rw [Exit.written_ofTohost hodd] at hwritten
    cases hwritten
    exact (step_reports hready hfits hstep).honest v hvalue
  · rcases stopping_cases hstop.symm with rfl | ⟨e, rfl⟩ <;> cases hwritten

theorem run_holds {maxSteps : ℕ} {exit : Exit} {v : BitVec 64}
    (hready : Ready c)
    (hfits : ∀ x ∈ heads profile maxSteps c, StoresFit profile x)
    (hrun : run maxSteps profile c = some (.ok exit, c'))
    (hwritten : exit.written = some v) : c'.mem.Holds v := by
  induction maxSteps generalizing c with
  | zero =>
      cases hrun
      cases hwritten
  | succ remaining ih =>
      rcases run_succ_ok hrun with hturn | ⟨c₁, hturn, hrest⟩
      · exact turn_holds hready (hfits c List.mem_cons_self) hturn hwritten
      · rw [heads_succ_none hturn] at hfits
        exact ih (turn_ready hready hturn (Or.inl rfl)).2
          (fun x hx => hfits x (List.mem_cons_of_mem c hx)) hrest

theorem heads_report {maxSteps : ℕ} (hready : Ready c)
    (hfits : ∀ x ∈ heads profile maxSteps c, StoresFit profile x) :
    ∀ x ∈ heads profile maxSteps c, ∀ outcome x',
      step profile x = some (outcome, x') → Reports profile x x' := by
  induction maxSteps generalizing c with
  | zero =>
      intro x hx
      cases hx
  | succ remaining ih =>
      intro x hx outcome x' hstep
      rcases mem_heads_succ hx with rfl | ⟨c₁, hturn, hrest⟩
      · exact step_reports hready (hfits x List.mem_cons_self) hstep
      · rw [heads_succ_none hturn] at hfits
        exact ih (turn_ready hready hturn (Or.inl rfl)).2
          (fun x hx => hfits x (List.mem_cons_of_mem c hx)) x hrest outcome x'
          hstep

/-- In a run whose stores all fit, every store that completes at `tohost`
reports its low bytes, and a verdict is a word that memory holds there. -/
theorem run_reports {maxSteps : ℕ} (hdriven : Driven profile c)
    (hfits : ∀ x ∈ heads profile maxSteps c, StoresFit profile x) :
    (∀ x ∈ heads profile maxSteps c, ∀ outcome x',
      step profile x = some (outcome, x') → Reports profile x x') ∧
    ∀ exit c' v, run maxSteps profile c = some (.ok exit, c') →
      exit.written = some v → c'.mem.Holds v :=
  ⟨heads_report hdriven.ready hfits,
    fun _ _ _ hrun hwritten => run_holds hdriven.ready hfits hrun hwritten⟩

/-- An image without segments, which reports at `0x80000100`. -/
def reportingElf : Elf where
  segments := []
  entry := DRAM_BASE
  symbols := fun _ => some 0x80000100
  is64 := true

/-- A hart that loads `value` into a register and then makes the store `inst`,
with the address of the program in the base register. -/
def reportingHart (value inst : BitVec 32) : Cpu :=
  let c := programmedHart .rv64
    [0x00000117, 0x00000093 ||| (value <<< 20), inst]
  { c with
    csrs := c.csrs.setXlen .rv64
    regs := Function.update c.regs 2 (trunc (c.regs 2) 64)
    mem := { c.mem with tohost := some 0x80000100 } }

theorem reportingHart_driven (profile : Profile) (value inst : BitVec 32) :
    Driven profile (reportingHart value inst) := by
  have hprogrammed : Loaded profile (programmedHart .rv64
      [0x00000117, 0x00000093 ||| (value <<< 20), inst]) :=
    programmedHart_loaded profile .rv64 (by simp [wordBytes])
  have hloaded : Loaded profile (reportingHart value inst) :=
    @Loaded.loadElf profile reportingElf _ _ hprogrammed rfl
  exact .start (Or.inl hloaded)

/-- The word 1 passes, and is there. -/
theorem wordStore_reports :
    ∃ r ∈ run 3 .debug (reportingHart 1 0x10112023),
      r.1 = .ok .pass ∧ r.2.mem.Holds 1 := by
  have hfits : ∀ x ∈ heads .debug 3 (reportingHart 1 0x10112023),
      StoresFit .debug x := by decide +kernel
  obtain ⟨⟨result, c'⟩, hrun, hpass⟩ :
      ∃ r ∈ run 3 .debug (reportingHart 1 0x10112023), r.1 = .ok .pass := by
    decide +kernel
  have hreports := run_reports (reportingHart_driven .debug 1 0x10112023) hfits
  cases hpass
  exact ⟨_, hrun, rfl, hreports.2 .pass c' 1 hrun rfl⟩

/-- A byte store from a register that holds `0x101` stores the byte 1, and ends
the run with the verdict of `0x101`, which is not there. -/
theorem byteStore_misreports :
    Driven .debug (reportingHart 0x101 0x10110023) ∧
    (∃ x ∈ heads .debug 3 (reportingHart 0x101 0x10110023),
      ∃ p ∈ stepStore .debug x, p.1.size = 1 ∧
        x.mem.tohost = some (p.2.storeTarget p.1.va) ∧
        reported p.1.size p.1.value = some 1 ∧
        (step .debug x).map (fun r => (r.1, r.2.mem.tohostValue)) =
          some (.ok (), some 0x101)) ∧
    ∃ r ∈ run 3 .debug (reportingHart 0x101 0x10110023),
      r.1 = .ok (.fail 0x80) ∧ ¬ r.2.mem.Holds 0x101 := by
  refine ⟨reportingHart_driven .debug 0x101 0x10110023, by decide +kernel, ?_⟩
  obtain ⟨r, hrun, hfail, htohost, hbytes⟩ :
      ∃ r ∈ run 3 .debug (reportingHart 0x101 0x10110023),
        r.1 = .ok (.fail 0x80) ∧ r.2.mem.tohost = some 0x80000100 ∧
        ∀ count < 9, r.2.mem.dram.loadLe 0x100 count ≠ 0x101 := by
    decide +kernel
  refine ⟨r, hrun, hfail, ?_⟩
  rintro ⟨t, count, ht, hcount, -, hword⟩
  rw [htohost] at ht
  cases ht
  exact hbytes count (Nat.lt_succ_of_le hcount) hword

end Cpu

end Nanoemu
