import Nanoemu.PlicArbitration

/-!
# Who may complete an interrupt

A claim takes a source that is routed to the context that claims it.  A
completion is written by a context as well, but `complete` is not told which.
-/

namespace Nanoemu

namespace Plic

/-- The claimed status of a source changes only by a context it is routed
to. -/
def CompletesRouted (plic : Plic) (context : Context)
    (offset value : BitVec 64) : Prop :=
  ∀ source : Source,
    (plic.write offset value).claimed.getLsbD source.val ≠
        plic.claimed.getLsbD source.val →
      (plic.enable context).getLsbD source.val = true

/-- The source that a completion names is not claimed, or is routed to the
context that writes it. -/
def NamesRouted (plic : Plic) (context : Context) (value : BitVec 64) : Prop :=
  ∀ source : Source, source? (value.setWidth 32) = some source →
    plic.claimed.getLsbD source.val = true →
      (plic.enable context).getLsbD source.val = true

theorem complete_claimed (plic : Plic) (value : BitVec 32) (source : Source) :
    (plic.complete value).claimed.getLsbD source.val =
      (plic.claimed.getLsbD source.val &&
        !decide (source? value = some source)) := by
  have hlt : source.val < 32 := source.isLt
  unfold complete
  cases hsource : source? value with
  | none => simp
  | some other =>
      rw [BitVec.getLsbD_and, BitVec.getLsbD_not, getLsbD_sourceBit]
      by_cases hsame : other = source
      · simp [hsame]
      · have hval : source.val ≠ other.val := fun h => hsame (Fin.ext h.symm)
        simp [hlt, hsame, hval]

theorem completesRouted_iff (plic : Plic) {context : Context}
    {offset : BitVec 64} (hclaim : ClaimRegister offset context)
    (value : BitVec 64) :
    plic.CompletesRouted context offset value ↔
      plic.NamesRouted context value := by
  unfold CompletesRouted NamesRouted
  rw [write_of_claimRegister plic hclaim]
  constructor
  · intro hrouted source hnames hclaimed
    apply hrouted source
    rw [complete_claimed, hnames, hclaimed]
    simp
  · intro hrouted source hchanged
    rw [complete_claimed] at hchanged
    by_cases hnames : source? (value.setWidth 32) = some source
    · cases hclaimed : plic.claimed.getLsbD source.val with
      | false =>
          rw [hclaimed, Bool.false_and] at hchanged
          exact absurd rfl hchanged
      | true => exact hrouted source hnames hclaimed
    · simp [hnames] at hchanged

/-! ## Histories of completions -/

/-- An operation that completes nothing out of its reach. -/
def Operation.Routed (plic : Plic) : Operation → Prop
  | .write offset value =>
      ∀ context, ClaimRegister offset context → plic.NamesRouted context value
  | _ => True

def RoutedRun : Plic → List Operation → Prop
  | _, [] => True
  | plic, operation :: history =>
      operation.Routed plic ∧ RoutedRun (plic.after operation) history

/-- A completion of the source by a context it is routed to. -/
def Operation.Releases (plic : Plic) (source : Source) : Operation → Prop
  | .write offset value =>
      ∃ context, ClaimRegister offset context ∧
        source? (value.setWidth 32) = some source ∧
        (plic.enable context).getLsbD source.val = true
  | _ => False

theorem releases_of_after {plic : Plic} {operation : Operation}
    {source : Source} (hrouted : operation.Routed plic)
    (hclaimed : plic.claimed.getLsbD source.val = true)
    (hreleased : (plic.after operation).claimed.getLsbD source.val = false) :
    operation.Releases plic source := by
  by_cases hcompletes : operation.Completes source
  · cases operation with
    | write offset value =>
        obtain ⟨⟨context, hclaim⟩, hnames⟩ := hcompletes
        exact ⟨context, hclaim, hnames,
          hrouted context hclaim source hnames hclaimed⟩
    | read offset => exact hcompletes.elim
    | setLevel level asserted => exact hcompletes.elim
  · have hkept := plic.after_claimed operation source hclaimed hcompletes
    rw [hreleased] at hkept
    cases hkept

theorem released_within {plic : Plic} {history : List Operation}
    {source : Source} (hrouted : RoutedRun plic history)
    (hclaimed : plic.claimed.getLsbD source.val = true)
    (hreleased : (plic.run history).claimed.getLsbD source.val = false) :
    ∃ before operation later, history = before ++ operation :: later ∧
      operation.Releases (plic.run before) source := by
  induction history generalizing plic with
  | nil =>
      have hsame : plic.claimed.getLsbD source.val = false := hreleased
      rw [hclaimed] at hsame
      cases hsame
  | cons operation history ih =>
      cases hnext : (plic.after operation).claimed.getLsbD source.val with
      | false =>
          exact ⟨[], operation, history, rfl,
            releases_of_after hrouted.1 hclaimed hnext⟩
      | true =>
          obtain ⟨before, release, later, hsplit, hrelease⟩ :=
            ih hrouted.2 hnext hreleased
          exact ⟨operation :: before, release, later, by rw [hsplit]; rfl,
            hrelease⟩

/-- A completion changes only sources routed to its context exactly where it
names no claimed source that is routed elsewhere, and in every history of such
operations a claimed source stays claimed until a context it is routed to
completes it. -/
theorem completion_routed_iff (plic : Plic) :
    (∀ (context : Context) (offset value : BitVec 64),
      ClaimRegister offset context →
        (plic.CompletesRouted context offset value ↔
          plic.NamesRouted context value)) ∧
    (∀ (history : List Operation) (source : Source),
      RoutedRun plic history → plic.claimed.getLsbD source.val = true →
        (plic.run history).claimed.getLsbD source.val = false →
          ∃ before operation later,
            history = before ++ operation :: later ∧
              operation.Releases (plic.run before) source) := by
  constructor
  · intro context offset value hclaim
    exact completesRouted_iff plic hclaim value
  · intro history source hrouted hclaimed hreleased
    exact released_within hrouted hclaimed hreleased

/-- The controller of `wiredHistory` once context 0 has claimed. -/
def served : Plic := ((default.run wiredHistory).read 0x200004).2

theorem served_routed : RoutedRun served [.write 0x200004 10] := by
  refine ⟨fun context hclaim source hnames _ => ?_, trivial⟩
  have hcontext : Register.control 0 4 = .control context.val 4 := hclaim
  have hsource : some (10 : Source) = some source := hnames
  injection hcontext with hcontext
  injection hsource with hsource
  rw [← hsource, show context = 0 from Fin.ext hcontext.symm]
  decide

/-- The context that claimed completes. -/
theorem completion_routed_served :
    ClaimRegister 0x200004 0 ∧
      (served.CompletesRouted 0 0x200004 10 ↔ served.NamesRouted 0 10) ∧
      ∃ before operation later,
        [Operation.write 0x200004 10] = before ++ operation :: later ∧
          operation.Releases (served.run before) 10 :=
  ⟨rfl, (completion_routed_iff served).1 0 0x200004 10 rfl,
    (completion_routed_iff served).2 [.write 0x200004 10] 10
      served_routed (by decide) (by decide)⟩

/-- Context 1 completes what context 0 has claimed, and context 0 is given the
same source again. -/
theorem not_completion_routed :
    ((default.run wiredHistory).read 0x200004).1 = 10 ∧
      ClaimRegister 0x201004 1 ∧ ¬ served.CompletesRouted 1 0x201004 10 ∧
      ((served.write 0x201004 10).read 0x200004).1 = 10 := by
  refine ⟨by decide, rfl, fun hrouted => ?_, by decide⟩
  exact absurd (hrouted 10 (by decide)) (by decide)

end Plic

end Nanoemu
