import Nanoemu.Plic
import Nanoemu.StrictMaximum

/-!
# Arbitration of interrupt sources

What a claim returns, over every history of register accesses and line
changes.  The scan over the sources is a strict maximum, and the `claimed` set
keeps a claimed source out of every later arbitration until it is completed.
-/

namespace Nanoemu

namespace Plic

theorem getLsbD_sourceBit (source : Source) (i : ℕ) :
    (sourceBit source).getLsbD i = decide (i = source.val) := by
  have hlt : source.val < 32 := source.isLt
  simp only [sourceBit, BitVec.getLsbD_shiftLeft]
  rw [BitVec.getLsbD_one]
  by_cases hi : i = source.val
  · simp [hi, hlt]
  · by_cases hbelow : i < source.val
    · simp [hi, hbelow]
    · have hpos : i - source.val ≠ 0 := by omega
      simp [hi, hpos]

theorem and_sourceBit_eq_zero (bits : BitVec 32) (source : Source) :
    bits &&& sourceBit source = 0 ↔ bits.getLsbD source.val = false := by
  constructor
  · intro hzero
    have hbit := congrArg (fun word => word.getLsbD source.val) hzero
    simpa only [BitVec.getLsbD_and, getLsbD_sourceBit, decide_true,
      Bool.and_true, BitVec.ofNat_eq_ofNat, BitVec.getLsbD_zero] using hbit
  · intro hbit
    apply BitVec.eq_of_getLsbD_eq
    intro i _
    rw [BitVec.getLsbD_and, getLsbD_sourceBit, BitVec.ofNat_eq_ofNat,
      BitVec.getLsbD_zero]
    by_cases hi : i = source.val
    · rw [hi, hbit, Bool.false_and]
    · rw [decide_eq_false hi, Bool.and_false]

theorem mem_sources (source : Source) : source ∈ sources ↔ source ≠ 0 := by
  revert source
  decide

theorem sources_pairwise : sources.Pairwise (· < ·) := by decide

/-- A source that may interrupt a context. -/
structure Eligible (plic : Plic) (context : Context) (source : Source) :
    Prop where
  asserting : plic.levels.getLsbD source.val = true
  unclaimed : plic.claimed.getLsbD source.val = false
  enabled : (plic.enable context).getLsbD source.val = true
  above_threshold : plic.threshold context < plic.priority source

/-- An eligible source of maximal priority, the lowest-numbered of its
equals. -/
structure Chosen (plic : Plic) (context : Context) (source : Source) :
    Prop where
  eligible : plic.Eligible context source
  maximal : ∀ other, plic.Eligible context other →
    plic.priority other ≤ plic.priority source
  lowest : ∀ other, plic.Eligible context other →
    plic.priority other = plic.priority source → source ≤ other

/-- Priorities compare as the numbers they read as. -/
instance : LinearOrder (BitVec 32) where
  le_refl a := BitVec.le_refl a
  le_trans _ _ _ := BitVec.le_trans
  le_antisymm _ _ := BitVec.le_antisymm
  lt_iff_le_not_ge _ _ := by simp only [BitVec.lt_def, BitVec.le_def]; omega
  le_total a b := BitVec.le_total a b
  toDecidableLE := inferInstance

/-- The sources asserting, unclaimed and enabled, as the scan sees them. -/
def Candidate (plic : Plic) (context : Context) (source : Source) : Prop :=
  (plic.pending &&& plic.enable context) &&& sourceBit source ≠ 0

instance (plic : Plic) (context : Context) :
    DecidablePred (plic.Candidate context) :=
  fun _ => inferInstanceAs (Decidable (_ ≠ _))

theorem eligible_iff_beats (plic : Plic) (context : Context)
    (source : Source) :
    plic.Eligible context source ↔
      StrictMaximum.Beats (plic.Candidate context) plic.priority
        (plic.threshold context) source := by
  have hlt : source.val < 32 := source.isLt
  have hcandidate :
      plic.Candidate context source ↔
        plic.levels.getLsbD source.val = true ∧
          plic.claimed.getLsbD source.val = false ∧
            (plic.enable context).getLsbD source.val = true := by
    rw [Candidate, ne_eq, and_sourceBit_eq_zero]
    simp [pending, hlt]
  constructor
  · intro h
    exact ⟨hcandidate.mpr ⟨h.asserting, h.unclaimed, h.enabled⟩,
      h.above_threshold⟩
  · intro ⟨h, habove⟩
    obtain ⟨hasserting, hunclaimed, henabled⟩ := hcandidate.mp h
    exact ⟨hasserting, hunclaimed, henabled, habove⟩

theorem best_eq_foldl (plic : Plic) (context : Context) :
    plic.best context =
      (sources.foldl
        (StrictMaximum.keepBest (plic.Candidate context) plic.priority)
        (0, plic.threshold context)).1 := by
  have hround :
      plic.bestStep (plic.pending &&& plic.enable context) =
        StrictMaximum.keepBest (plic.Candidate context) plic.priority := by
    funext best source
    by_cases hcandidate : plic.Candidate context source
    · have hbit : ¬ plic.pending &&& plic.enable context &&&
          sourceBit source = 0 := hcandidate
      simp only [bestStep, StrictMaximum.keepBest, if_neg hbit, hcandidate,
        true_and]
    · have hbit : plic.pending &&& plic.enable context &&&
          sourceBit source = 0 := not_not.mp hcandidate
      simp only [bestStep, StrictMaximum.keepBest, if_pos hbit, hcandidate,
        false_and, if_false]
  rw [best, hround]

theorem best_spec (plic : Plic) (context : Context) :
    (plic.best context = 0 ∧
        ∀ source, source ≠ 0 → ¬ plic.Eligible context source) ∨
      (plic.best context ≠ 0 ∧
        plic.Eligible context (plic.best context) ∧
        (∀ other, other ≠ 0 → plic.Eligible context other →
          plic.priority other ≤ plic.priority (plic.best context)) ∧
        ∀ other, other ≠ 0 → plic.Eligible context other →
          plic.priority other = plic.priority (plic.best context) →
            plic.best context ≤ other) := by
  have hscanned :
      StrictMaximum.Scanned (plic.Candidate context) plic.priority 0
        (plic.threshold context) sources
        (sources.foldl
          (StrictMaximum.keepBest (plic.Candidate context) plic.priority)
          (0, plic.threshold context)) :=
    StrictMaximum.scanned_foldl sources sources_pairwise
  rw [best_eq_foldl]
  rcases hscanned with ⟨hbest, hnone⟩ | hpicked
  · refine Or.inl ⟨by rw [hbest], fun source hsource heligible => ?_⟩
    exact hnone source ((mem_sources source).mpr hsource)
      ((eligible_iff_beats plic context source).mp heligible)
  · refine Or.inr
      ⟨(mem_sources _).mp hpicked.mem,
        (eligible_iff_beats plic context _).mpr hpicked.beats, ?_, ?_⟩
    · intro other hother heligible
      have hbeats := (eligible_iff_beats plic context other).mp heligible
      rw [← hpicked.priority_eq]
      exact hpicked.maximal other ((mem_sources other).mpr hother) hbeats.1
    · intro other hother heligible heq
      have hbeats := (eligible_iff_beats plic context other).mp heligible
      rw [← hpicked.priority_eq] at heq
      exact hpicked.least other ((mem_sources other).mpr hother) hbeats.1 heq

/-- What can happen to the controller. -/
inductive Operation where
  | read (offset : BitVec 64)
  | write (offset value : BitVec 64)
  | setLevel (source : BitVec 32) (asserted : Bool)
deriving DecidableEq, Repr

def after (plic : Plic) : Operation → Plic
  | .read offset => (plic.read offset).2
  | .write offset value => plic.write offset value
  | .setLevel source asserted => plic.setLevel source asserted

def run (plic : Plic) (history : List Operation) : Plic :=
  history.foldl after plic

theorem run_append (plic : Plic) (history later : List Operation) :
    plic.run (history ++ later) = (plic.run history).run later :=
  List.foldl_append

/-- An offset whose reads claim for `context` and whose writes complete. -/
def ClaimRegister (offset : BitVec 64) (context : Context) : Prop :=
  decode offset = .control context.val 4

/-- A completion write that names `source`. -/
def Operation.Completes (source : Source) : Operation → Prop
  | .write offset value =>
      (∃ context, ClaimRegister offset context) ∧
        source? (value.setWidth 32) = some source
  | _ => False

/-- A read of a claim register that is answered with `source`. -/
def Operation.Claims (plic : Plic) (source : Source) : Operation → Prop
  | .read offset =>
      (∃ context, ClaimRegister offset context) ∧ source ≠ 0 ∧
        (plic.read offset).1 = BitVec.ofNat 64 source.val
  | _ => False

/-! ## One operation -/

theorem read_of_claimRegister (plic : Plic) {offset : BitVec 64}
    {context : Context} (hclaim : ClaimRegister offset context) :
    plic.read offset =
      (BitVec.ofNat 64 (plic.claim context).1.val,
        (plic.claim context).2) := by
  have hdecode : decode offset = .control context.val 4 := hclaim
  simp [read, hdecode, context.isLt]

theorem write_of_claimRegister (plic : Plic) {offset : BitVec 64}
    {context : Context} (hclaim : ClaimRegister offset context)
    (value : BitVec 64) :
    plic.write offset value = plic.complete (value.setWidth 32) := by
  have hdecode : decode offset = .control context.val 4 := hclaim
  simp [write, hdecode, context.isLt]

theorem read_cases (plic : Plic) (offset : BitVec 64) :
    (∃ context, ClaimRegister offset context) ∨
      (plic.read offset).2 = plic := by
  rw [read]
  cases hdecode : decode offset with
  | priority source => right; dsimp only; split <;> rfl
  | pending offset => right; dsimp only; split <;> rfl
  | enable context word => right; dsimp only; split <;> rfl
  | control context field =>
      dsimp only
      by_cases hcontext : context < CONTEXTS
      · by_cases hfield : field = 4
        · left
          exact ⟨⟨context, hcontext⟩, by rw [ClaimRegister, hdecode, hfield]⟩
        · right
          rw [dif_pos hcontext]
          split
          · rfl
          · rfl
      · right
        rw [dif_neg hcontext]

theorem write_claimed (plic : Plic) (offset value : BitVec 64) :
    (∃ source, (Operation.write offset value).Completes source ∧
        (plic.write offset value).claimed =
          plic.claimed &&& ~~~sourceBit source) ∨
      (plic.write offset value).claimed = plic.claimed := by
  rw [write]
  cases hdecode : decode offset with
  | priority source => right; dsimp only; split <;> rfl
  | pending offset => exact Or.inr rfl
  | enable context word => right; dsimp only; split <;> rfl
  | control context field =>
      dsimp only
      by_cases hcontext : context < CONTEXTS
      · rw [dif_pos hcontext]
        by_cases hfield : field = 4
        · rw [if_neg (by omega), if_pos hfield, complete]
          cases hsource : source? (value.setWidth 32) with
          | none => exact Or.inr rfl
          | some source =>
              have hregister : ClaimRegister offset ⟨context, hcontext⟩ := by
                rw [ClaimRegister, hdecode, hfield]
              exact Or.inl ⟨source, ⟨⟨_, hregister⟩, hsource⟩, rfl⟩
        · right
          rw [if_neg hfield]
          split <;> rfl
      · right
        rw [dif_neg hcontext]

theorem write_levels (plic : Plic) (offset value : BitVec 64) :
    (plic.write offset value).levels = plic.levels := by
  rw [write]
  cases decode offset <;> dsimp only
  case control context field =>
    split
    · split
      · rfl
      · split
        · rw [complete]
          split <;> rfl
        · rfl
    · rfl
  all_goals try split <;> rfl

theorem read_levels (plic : Plic) (offset : BitVec 64) :
    (plic.read offset).2.levels = plic.levels := by
  rcases plic.read_cases offset with ⟨context, hclaim⟩ | hsame
  · rw [read_of_claimRegister plic hclaim]
    dsimp only [claim]
    split <;> rfl
  · rw [hsame]

theorem setLevel_claimed (plic : Plic) (source : BitVec 32)
    (asserted : Bool) : (plic.setLevel source asserted).claimed =
      plic.claimed := by
  rw [setLevel]
  split
  · rfl
  · split
    · rfl
    · split <;> rfl

theorem setLevel_levels_zero (plic : Plic) (source : BitVec 32)
    (asserted : Bool) (hzero : plic.levels.getLsbD 0 = false) :
    (plic.setLevel source asserted).levels.getLsbD 0 = false := by
  rw [setLevel]
  split
  · exact hzero
  · next source _ =>
      by_cases hsource : source = 0
      · rw [if_pos hsource]
        exact hzero
      · have hval : (0 : ℕ) ≠ source.val := fun h => hsource (Fin.ext h.symm)
        rw [if_neg hsource]
        split
        · rw [BitVec.getLsbD_or, hzero, getLsbD_sourceBit]
          simp [hval]
        · rw [BitVec.getLsbD_and, hzero, Bool.false_and]

theorem after_levels_zero (plic : Plic) (operation : Operation)
    (hzero : plic.levels.getLsbD 0 = false) :
    (plic.after operation).levels.getLsbD 0 = false := by
  cases operation with
  | read offset => rw [after, read_levels, hzero]
  | write offset value => rw [after, write_levels, hzero]
  | setLevel source asserted =>
      exact plic.setLevel_levels_zero source asserted hzero

theorem after_claimed (plic : Plic) (operation : Operation) (source : Source)
    (hclaimed : plic.claimed.getLsbD source.val = true)
    (hopen : ¬ operation.Completes source) :
    (plic.after operation).claimed.getLsbD source.val = true := by
  cases operation with
  | read offset =>
      rw [after]
      rcases plic.read_cases offset with ⟨context, hclaim⟩ | hsame
      · rw [read_of_claimRegister plic hclaim]
        dsimp only [claim]
        split
        · exact hclaimed
        · rw [BitVec.getLsbD_or, hclaimed, Bool.true_or]
      · rw [hsame, hclaimed]
  | write offset value =>
      rw [after]
      rcases plic.write_claimed offset value with ⟨other, hother, heq⟩ | hsame
      · have hne : source.val ≠ other.val := fun h =>
          hopen (Fin.ext h ▸ hother)
        have hlt : source.val < 32 := source.isLt
        rw [heq, BitVec.getLsbD_and, hclaimed, BitVec.getLsbD_not,
          getLsbD_sourceBit]
        simp [hlt, hne]
      · rw [hsame, hclaimed]
  | setLevel source asserted => rw [after, setLevel_claimed, hclaimed]

/-! ## Whole histories -/

theorem run_levels_zero (history : List Operation) :
    (default.run history).levels.getLsbD 0 = false := by
  induction history using List.reverseRecOn with
  | nil => rfl
  | append_singleton history operation ih =>
      rw [run_append]
      exact after_levels_zero _ operation ih

theorem run_claimed (plic : Plic) (history : List Operation) (source : Source)
    (hclaimed : plic.claimed.getLsbD source.val = true)
    (hopen : ∀ operation ∈ history, ¬ operation.Completes source) :
    (plic.run history).claimed.getLsbD source.val = true := by
  induction history generalizing plic with
  | nil => exact hclaimed
  | cons operation history ih =>
      obtain ⟨hfirst, hrest⟩ := List.forall_mem_cons.mp hopen
      exact ih (plic.after operation)
        (plic.after_claimed operation source hclaimed hfirst) hrest

theorem not_eligible_zero {plic : Plic}
    (hzero : plic.levels.getLsbD 0 = false) (context : Context) :
    ¬ plic.Eligible context 0 := by
  intro heligible
  have hline : plic.levels.getLsbD 0 = true := heligible.asserting
  rw [hzero] at hline
  cases hline

/-- Arbitration, where no line of source 0 can be asserted. -/
theorem best_chosen {plic : Plic} (hzero : plic.levels.getLsbD 0 = false)
    (context : Context) :
    (plic.best context = 0 ∧ ∀ source, ¬ plic.Eligible context source) ∨
      (plic.best context ≠ 0 ∧ plic.Chosen context (plic.best context)) := by
  have hnonzero : ∀ source, plic.Eligible context source → source ≠ 0 := by
    rintro source heligible rfl
    exact not_eligible_zero hzero context heligible
  rcases plic.best_spec context with ⟨hbest, hnone⟩ |
    ⟨hbest, heligible, hmaximal, hlowest⟩
  · exact Or.inl ⟨hbest, fun source h => hnone source (hnonzero source h) h⟩
  · exact Or.inr ⟨hbest, heligible,
      fun other h => hmaximal other (hnonzero other h) h,
      fun other h => hlowest other (hnonzero other h) h⟩

theorem ofNat_source_eq_zero (source : Source) :
    BitVec.ofNat 64 source.val = 0 ↔ source = 0 := by
  revert source
  decide

theorem ofNat_source_inj (source other : Source) :
    BitVec.ofNat 64 source.val = BitVec.ofNat 64 other.val ↔
      source = other := by
  revert source other
  decide

theorem best_of_answer (plic : Plic) {offset : BitVec 64} {context : Context}
    {source : Source} (hclaim : ClaimRegister offset context)
    (hanswer : (plic.read offset).1 = BitVec.ofNat 64 source.val) :
    plic.best context = source := by
  have hfirst : (plic.claim context).1 = plic.best context := by
    rw [claim]
    split <;> rfl
  rw [read_of_claimRegister plic hclaim, ofNat_source_inj, hfirst] at hanswer
  exact hanswer

/-- A source is claimed by an operation that hands it out, or before, and then
not by one that completes it. -/
theorem after_claimed_iff (plic : Plic) (operation : Operation)
    (source : Source) :
    (plic.after operation).claimed.getLsbD source.val = true ↔
      operation.Claims plic source ∨
        plic.claimed.getLsbD source.val = true ∧
          ¬ operation.Completes source := by
  constructor
  · intro hafter
    by_cases hclaimed : plic.claimed.getLsbD source.val = true
    · refine Or.inr ⟨hclaimed, fun hcompletes => ?_⟩
      cases operation with
      | read offset => exact hcompletes
      | setLevel level asserted => exact hcompletes
      | write offset value =>
          obtain ⟨⟨context, hclaim⟩, hnames⟩ := hcompletes
          rw [after, write_of_claimRegister plic hclaim, complete, hnames, BitVec.getLsbD_and,
            BitVec.getLsbD_not, getLsbD_sourceBit] at hafter
          simp at hafter
    · left
      cases operation with
      | read offset =>
          rw [after] at hafter
          rcases plic.read_cases offset with ⟨context, hclaim⟩ | hsame
          · rw [read_of_claimRegister plic hclaim, claim] at hafter
            dsimp only at hafter
            split at hafter
            · exact absurd hafter hclaimed
            · next hsome =>
                rw [BitVec.getLsbD_or, Bool.eq_false_iff.mpr hclaimed,
                  Bool.false_or, getLsbD_sourceBit] at hafter
                obtain rfl : plic.best context = source :=
                  Fin.ext (of_decide_eq_true hafter).symm
                refine ⟨⟨context, hclaim⟩, hsome, ?_⟩
                rw [read_of_claimRegister plic hclaim, claim]
                dsimp only
                rw [if_neg hsome]
          · rw [hsame] at hafter
            exact absurd hafter hclaimed
      | write offset value =>
          rw [after] at hafter
          rcases plic.write_claimed offset value with ⟨other, -, heq⟩ | hsame
          · rw [heq, BitVec.getLsbD_and, Bool.and_eq_true] at hafter
            exact absurd hafter.1 hclaimed
          · rw [hsame] at hafter
            exact absurd hafter hclaimed
      | setLevel level asserted =>
          rw [after, setLevel_claimed] at hafter
          exact absurd hafter hclaimed
  · rintro (hclaims | ⟨hclaimed, hopen⟩)
    · cases operation with
      | read offset =>
          obtain ⟨⟨context, hclaim⟩, hsome, hanswer⟩ := hclaims
          have hbest := best_of_answer plic hclaim hanswer
          rw [after, read_of_claimRegister plic hclaim, claim]
          dsimp only
          rw [hbest, if_neg hsome, BitVec.getLsbD_or, getLsbD_sourceBit]
          simp
      | write offset value => exact hclaims.elim
      | setLevel level asserted => exact hclaims.elim
    · exact plic.after_claimed operation source hclaimed hopen

/-- The claimed sources are those that were handed out and not completed
since. -/
theorem claimed_iff_history (history : List Operation) (source : Source) :
    (default.run history).claimed.getLsbD source.val = true ↔
      ∃ before operation later, history = before ++ operation :: later ∧
        operation.Claims (default.run before) source ∧
        ∀ other ∈ later, ¬ other.Completes source := by
  induction history using List.reverseRecOn with
  | nil =>
      constructor
      · intro hclaimed
        exact absurd hclaimed (by simp [run, default])
      · rintro ⟨before, operation, later, hsplit, -⟩
        cases before <;> cases hsplit
  | append_singleton history operation ih =>
      rw [run_append]
      change ((default.run history).after operation).claimed.getLsbD
        source.val = true ↔ _
      rw [after_claimed_iff, ih]
      constructor
      · rintro (hclaims | ⟨⟨before, first, later, rfl, hfirst, hlater⟩, hopen⟩)
        · exact ⟨history, operation, [], rfl, hclaims, fun _ h => (nomatch h)⟩
        · refine ⟨before, first, later ++ [operation], by simp, hfirst, ?_⟩
          rw [List.forall_mem_append, List.forall_mem_singleton]
          exact ⟨hlater, hopen⟩
      · rintro ⟨before, first, later, hsplit, hfirst, hlater⟩
        rcases List.eq_nil_or_concat later with rfl | ⟨later, last, rfl⟩
        · obtain ⟨rfl, hlast⟩ := List.append_inj' hsplit rfl
          cases hlast
          exact Or.inl hfirst
        · right
          rw [List.concat_eq_append, ← List.cons_append,
            ← List.append_assoc] at hsplit
          obtain ⟨rfl, hlast⟩ := List.append_inj' hsplit rfl
          cases hlast
          rw [List.concat_eq_append, List.forall_mem_append,
            List.forall_mem_singleton] at hlater
          exact ⟨⟨before, first, later, rfl, hfirst, hlater.1⟩, hlater.2⟩

/-- A claim answers 0 exactly when nothing may interrupt the context, and
otherwise with the chosen source. -/
theorem answer_spec (history : List Operation) {offset : BitVec 64}
    {context : Context} (hclaim : ClaimRegister offset context) :
    (((default.run history).read offset).1 = 0 ↔
        ∀ source, ¬ (default.run history).Eligible context source) ∧
      (((default.run history).read offset).1 ≠ 0 →
        ∃ source, source ≠ 0 ∧
          ((default.run history).read offset).1 =
            BitVec.ofNat 64 source.val ∧
          (default.run history).Chosen context source) := by
  set plic := default.run history
  have hanswer : (plic.read offset).1 =
      BitVec.ofNat 64 (plic.best context).val := by
    rw [read_of_claimRegister plic hclaim, claim]
    dsimp only
    split <;> rfl
  rw [hanswer, ne_eq, ofNat_source_eq_zero]
  rcases best_chosen (run_levels_zero history) context with
    ⟨hbest, hnone⟩ | ⟨hbest, hchosen⟩
  · exact ⟨⟨fun _ => hnone, fun _ => hbest⟩, fun h => absurd hbest h⟩
  · exact ⟨⟨fun h => absurd h hbest,
        fun hnone => absurd hchosen.eligible (hnone _)⟩,
      fun _ => ⟨_, hbest, rfl, hchosen⟩⟩

theorem completed_between (before between : List Operation)
    {offset offset' : BitVec 64} {context context' : Context}
    {source : Source} (hsource : source ≠ 0)
    (hfirst : ClaimRegister offset context)
    (hsecond : ClaimRegister offset' context')
    (hanswer : ((default.run before).read offset).1 =
      BitVec.ofNat 64 source.val)
    (hanswer' :
      ((default.run (before ++ .read offset :: between)).read offset').1 =
        BitVec.ofNat 64 source.val) :
    ∃ operation ∈ between, operation.Completes source := by
  by_contra hnone
  push Not at hnone
  have hbest := best_of_answer _ hfirst hanswer
  have hclaimed : ((default.run before).after (.read offset)).claimed.getLsbD
      source.val = true := by
    rw [after, read_of_claimRegister _ hfirst, claim]
    dsimp only
    rw [hbest, if_neg hsource, BitVec.getLsbD_or, getLsbD_sourceBit]
    simp
  have hlater :=
    run_claimed ((default.run before).after (.read offset)) between source
      hclaimed hnone
  have hsplit : default.run (before ++ .read offset :: between) =
      ((default.run before).after (.read offset)).run between := by
    rw [run_append]
    rfl
  rw [hsplit] at hanswer'
  have hbest' := best_of_answer _ hsecond hanswer'
  rcases best_spec (((default.run before).after (.read offset)).run between)
    context' with ⟨hzero, -⟩ | ⟨-, heligible, -⟩
  · exact hsource (hbest'.symm.trans hzero)
  · rw [hbest'] at heligible
    exact absurd (hlater.symm.trans heligible.unclaimed) (by decide)

theorem write_pending_region (plic : Plic) {offset : BitVec 64}
    (value : BitVec 64) (hbase : PENDING_BASE ≤ offset)
    (hend : offset < ENABLE_BASE) : plic.write offset value = plic := by
  have hnot : ¬ offset < PENDING_BASE := BitVec.not_lt.mpr hbase
  have hdecode : decode offset = .pending offset := by
    rw [decode, if_neg hnot, if_pos hend]
  rw [write, hdecode]

/-- Over every history of reads, writes and line changes: what a claim
answers, that a source is not delivered twice without a completion, that a
delivered source has a priority, and that the pending set cannot be written. -/
theorem arbitration_of_every_history :
    (∀ (history : List Operation) (offset : BitVec 64) (context : Context),
      ClaimRegister offset context →
        (((default.run history).read offset).1 = 0 ↔
            ∀ source, ¬ (default.run history).Eligible context source) ∧
          (((default.run history).read offset).1 ≠ 0 →
            ∃ source, source ≠ 0 ∧
              (default.run history).priority source ≠ 0 ∧
              ((default.run history).read offset).1 =
                BitVec.ofNat 64 source.val ∧
              (default.run history).Chosen context source)) ∧
      (∀ (before between : List Operation) (offset offset' : BitVec 64)
          (context context' : Context) (source : Source),
        source ≠ 0 → ClaimRegister offset context →
          ClaimRegister offset' context' →
          ((default.run before).read offset).1 =
            BitVec.ofNat 64 source.val →
          ((default.run (before ++ .read offset :: between)).read offset').1 =
            BitVec.ofNat 64 source.val →
          ∃ operation ∈ between, operation.Completes source) ∧
      ∀ (history : List Operation) (offset value : BitVec 64),
        PENDING_BASE ≤ offset → offset < ENABLE_BASE →
          ((default.run history).write offset value).pending =
            (default.run history).pending := by
  refine ⟨fun history offset context hclaim => ?_, ?_, ?_⟩
  · obtain ⟨hzero, hsource⟩ := answer_spec history hclaim
    refine ⟨hzero, fun hanswer => ?_⟩
    obtain ⟨source, hnonzero, heq, hchosen⟩ := hsource hanswer
    have habove := hchosen.eligible.above_threshold
    have hpriority : (default.run history).priority source ≠ 0 := by
      intro h
      rw [h] at habove
      exact absurd habove (by simp)
    exact ⟨source, hnonzero, hpriority, heq, hchosen⟩
  · intro before between offset offset' context context' source hsource
      hfirst hsecond hanswer hanswer'
    exact completed_between before between hsource hfirst hsecond hanswer
      hanswer'
  · intro history offset value hbase hend
    rw [write_pending_region _ value hbase hend]

/-- A device line is raised, given a priority and enabled in context 0. -/
def wiredHistory : List Operation :=
  [.setLevel 10 true, .write 0x28 1, .write 0x2000 (1#64 <<< 10)]

/-- The source of `wiredHistory` is claimed, completed and claimed again. -/
theorem arbitration_of_wired_history :
    ((default.run wiredHistory).read 0x200004).1 = 10 ∧
      (∃ source, source ≠ 0 ∧ (default.run wiredHistory).priority source ≠ 0 ∧
        ((default.run wiredHistory).read 0x200004).1 =
          BitVec.ofNat 64 source.val ∧
        (default.run wiredHistory).Chosen 0 source) ∧
      ∃ operation ∈ [Operation.write 0x200004 10], operation.Completes 10 :=
  ⟨by decide,
    (arbitration_of_every_history.1 wiredHistory 0x200004 0 rfl).2 (by decide),
    arbitration_of_every_history.2.1 wiredHistory [.write 0x200004 10]
      0x200004 0x200004 0 0 10 (by decide) rfl rfl (by decide) (by decide)⟩

end Plic

end Nanoemu
