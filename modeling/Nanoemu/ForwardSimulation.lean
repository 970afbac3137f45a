import Mathlib.Tactic

/-!
# Forward simulations

One transition system simulates another if it answers every step of it with a
step of its own and stays related.  The relation may say for how many more
steps it is good, so that a system with a bound on its runs can simulate one
without.
-/

namespace ForwardSimulation

variable {α β : Type} {concrete : α → α → Prop} {abstract : β → β → Prop}

/-- A run of a number of steps. -/
inductive Steps (step : α → α → Prop) : ℕ → α → α → Prop where
  | refl (a : α) : Steps step 0 a a
  | head {n : ℕ} {a b c : α} :
      step a b → Steps step n b c → Steps step (n + 1) a c

namespace Steps

variable {step : α → α → Prop} {a b : α}

theorem single (h : step a b) : Steps step 1 a b :=
  .head h (.refl b)

end Steps

/-- Whatever is related for one more step answers that step. -/
def Simulates (rel : ℕ → α → β → Prop) (concrete : α → α → Prop)
    (abstract : β → β → Prop) : Prop :=
  ∀ {n : ℕ} {a : α} {b b' : β}, rel (n + 1) a b → abstract b b' →
    ∃ a', concrete a a' ∧ rel n a' b'

/-- A simulation answers every run it is good for. -/
theorem Simulates.run {rel : ℕ → α → β → Prop}
    (h : Simulates rel concrete abstract) {m n : ℕ} {a : α} {b b' : β}
    (hrel : rel (m + n) a b) (hrun : Steps abstract n b b') :
    ∃ a', Steps concrete n a a' ∧ rel m a' b' := by
  induction hrun generalizing a with
  | refl b => exact ⟨a, .refl a, hrel⟩
  | head hstep _ ih =>
      obtain ⟨a₁, hfirst, hrel₁⟩ := h hrel hstep
      obtain ⟨a₂, hrest, hrel₂⟩ := ih hrel₁
      exact ⟨a₂, .head hfirst hrest, hrel₂⟩

end ForwardSimulation
