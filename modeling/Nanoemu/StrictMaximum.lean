import Mathlib.Tactic

/-!
# Scanning for a strict maximum

A scan keeps the best candidate seen so far and replaces it only by a strictly
better one.  Over an increasing list the result is therefore the least of the
candidates of maximal priority, or the starting value when no candidate beats
the threshold.
-/

namespace StrictMaximum

variable {α β : Type} [LinearOrder α] [LinearOrder β]
  {eligible : α → Prop} {priority : α → β} {start : α} {threshold : β}
  {visited : List α}

/-- One round of the scan. -/
def keepBest (eligible : α → Prop) [DecidablePred eligible]
    (priority : α → β) (best : α × β) (candidate : α) : α × β :=
  if eligible candidate ∧ best.2 < priority candidate then
    (candidate, priority candidate)
  else best

/-- A candidate that may be picked at all. -/
def Beats (eligible : α → Prop) (priority : α → β) (threshold : β)
    (candidate : α) : Prop :=
  eligible candidate ∧ threshold < priority candidate

/-- What the scan knows of its best candidate once a list is `visited`. -/
structure Picked (eligible : α → Prop) (priority : α → β) (threshold : β)
    (visited : List α) (best : α × β) : Prop where
  mem : best.1 ∈ visited
  beats : Beats eligible priority threshold best.1
  priority_eq : best.2 = priority best.1
  maximal : ∀ other ∈ visited, eligible other → priority other ≤ best.2
  least : ∀ other ∈ visited, eligible other → priority other = best.2 →
    best.1 ≤ other

/-- The state of a scan: nothing picked yet, or a picked candidate. -/
def Scanned (eligible : α → Prop) (priority : α → β) (start : α)
    (threshold : β) (visited : List α) (best : α × β) : Prop :=
  (best = (start, threshold) ∧
      ∀ other ∈ visited, ¬ Beats eligible priority threshold other) ∨
    Picked eligible priority threshold visited best

theorem Scanned.threshold_le {best : α × β}
    (hscanned : Scanned eligible priority start threshold visited best) :
    threshold ≤ best.2 := by
  rcases hscanned with ⟨rfl, -⟩ | hpicked
  · exact le_refl _
  · rw [hpicked.priority_eq]
    exact hpicked.beats.2.le

theorem Scanned.eligible_le {best : α × β}
    (hscanned : Scanned eligible priority start threshold visited best)
    {other : α} (hother : other ∈ visited) (heligible : eligible other) :
    priority other ≤ best.2 := by
  rcases hscanned with ⟨rfl, hnone⟩ | hpicked
  · by_contra hlt
    exact hnone other hother ⟨heligible, not_le.mp hlt⟩
  · exact hpicked.maximal other hother heligible

theorem Scanned.replace {best : α × β} {candidate : α}
    (hscanned : Scanned eligible priority start threshold visited best)
    (heligible : eligible candidate) (hlt : best.2 < priority candidate) :
    Scanned eligible priority start threshold (visited ++ [candidate])
      (candidate, priority candidate) := by
  refine Or.inr
    { mem := by simp
      beats := ⟨heligible, hscanned.threshold_le.trans_lt hlt⟩
      priority_eq := rfl
      maximal := ?_
      least := ?_ }
  · intro other hother hotherEligible
    rcases List.mem_append.mp hother with hold | hnew
    · exact ((hscanned.eligible_le hold hotherEligible).trans_lt hlt).le
    · rw [List.mem_singleton.mp hnew]
  · intro other hother hotherEligible heq
    rcases List.mem_append.mp hother with hold | hnew
    · have hle := hscanned.eligible_le hold hotherEligible
      exact absurd heq (hle.trans_lt hlt).ne
    · exact (List.mem_singleton.mp hnew).ge

/-- A candidate that is not strictly better changes nothing, and a tie stays
with the candidate visited first. -/
theorem Scanned.keep {best : α × β} {candidate : α}
    (hscanned : Scanned eligible priority start threshold visited best)
    (hafter : ∀ other ∈ visited, other < candidate)
    (hnot : ¬ (eligible candidate ∧ best.2 < priority candidate)) :
    Scanned eligible priority start threshold (visited ++ [candidate])
      best := by
  rcases hscanned with ⟨rfl, hnone⟩ | hpicked
  · refine Or.inl ⟨rfl, fun other hother => ?_⟩
    rcases List.mem_append.mp hother with hold | hnew
    · exact hnone other hold
    · rw [List.mem_singleton.mp hnew]
      exact hnot
  · refine Or.inr
      { mem := List.mem_append_left _ hpicked.mem
        beats := hpicked.beats
        priority_eq := hpicked.priority_eq
        maximal := ?_
        least := ?_ }
    · intro other hother hotherEligible
      rcases List.mem_append.mp hother with hold | hnew
      · exact hpicked.maximal other hold hotherEligible
      · rw [List.mem_singleton.mp hnew] at hotherEligible ⊢
        exact not_lt.mp fun hlt => hnot ⟨hotherEligible, hlt⟩
    · intro other hother hotherEligible heq
      rcases List.mem_append.mp hother with hold | hnew
      · exact hpicked.least other hold hotherEligible heq
      · rw [List.mem_singleton.mp hnew]
        exact (hafter best.1 hpicked.mem).le

theorem scanned_foldl [DecidablePred eligible] (candidates : List α)
    (hincreasing : candidates.Pairwise (· < ·)) :
    Scanned eligible priority start threshold candidates
      (candidates.foldl (keepBest eligible priority) (start, threshold)) := by
  induction candidates using List.reverseRecOn with
  | nil => exact Or.inl ⟨rfl, by simp⟩
  | append_singleton visited candidate ih =>
      obtain ⟨hvisited, -, hafter⟩ := List.pairwise_append.mp hincreasing
      have hscanned := ih hvisited
      rw [List.foldl_append, List.foldl_cons, List.foldl_nil, keepBest]
      split
      · next hbetter => exact hscanned.replace hbetter.1 hbetter.2
      · next hnot =>
          exact hscanned.keep
            (fun other hother => hafter other hother candidate (by simp)) hnot

end StrictMaximum
