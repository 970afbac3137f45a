import Nanoemu.BitFields

/-!
# A stack of one in a machine word

A status word keeps an enable bit, the bit it had before, and a field for the
mode that was left.  Pushing saves the bit and the mode and clears the bit;
popping brings the bit back.  Whatever else the word holds is seen by neither.
-/

open BitFields

/-- The fields of a stack; the two bits are single bits, and no two fields
meet. -/
structure EnableStack (w : ℕ) where
  enable : BitVec w
  previous : BitVec w
  mode : BitVec w
  enable_single : ∀ word, word &&& enable = 0 ∨ word &&& enable = enable
  previous_ne_zero : previous ≠ 0
  enable_previous : BitFields.Disjoint enable previous
  enable_mode : BitFields.Disjoint enable mode
  previous_mode : BitFields.Disjoint previous mode

namespace EnableStack

variable {w : ℕ} (stack : EnableStack w) {field saved : BitVec w}

/-- Saves the enable bit and `saved` in their fields, and clears the bit. -/
def push (word saved : BitVec w) : BitVec w :=
  let cleared := word &&& ~~~(stack.previous ||| stack.enable ||| stack.mode)
  (if word &&& stack.enable ≠ 0 then cleared ||| stack.previous else cleared)
    ||| saved

/-- Brings the enable bit back, and leaves the saved one set and the saved
mode zero. -/
def pop (word : BitVec w) : BitVec w :=
  let cleared := word &&& ~~~(stack.enable ||| stack.mode)
  (if word &&& stack.previous ≠ 0 then cleared ||| stack.enable else cleared)
    ||| stack.previous

theorem getLsbD_push (word saved : BitVec w) {i : ℕ} (hi : i < w) :
    (stack.push word saved).getLsbD i =
      ((word.getLsbD i && !(stack.previous.getLsbD i ||
          stack.enable.getLsbD i || stack.mode.getLsbD i) ||
        (decide (word &&& stack.enable ≠ 0) && stack.previous.getLsbD i)) ||
        saved.getLsbD i) := by
  rw [push]
  split
  · next henabled =>
      rw [decide_eq_true henabled]
      simp [hi]
  · next henabled =>
      rw [decide_eq_false henabled]
      simp [hi]

theorem getLsbD_pop (word : BitVec w) {i : ℕ} (hi : i < w) :
    (stack.pop word).getLsbD i =
      ((word.getLsbD i && !(stack.enable.getLsbD i || stack.mode.getLsbD i) ||
        (decide (word &&& stack.previous ≠ 0) && stack.enable.getLsbD i)) ||
        stack.previous.getLsbD i) := by
  rw [pop]
  split
  · next henabled =>
      rw [decide_eq_true henabled]
      simp [hi]
  · next henabled =>
      rw [decide_eq_false henabled]
      simp [hi]

theorem push_mode (hsaved : Within saved stack.mode) (word : BitVec w) :
    stack.push word saved &&& stack.mode = saved := by
  apply BitVec.eq_of_getLsbD_eq
  intro i hi
  rw [BitVec.getLsbD_and, stack.getLsbD_push word saved hi]
  cases hmode : stack.mode.getLsbD i with
  | true =>
      have hprevious : stack.previous.getLsbD i = false := by
        cases hbit : stack.previous.getLsbD i with
        | false => rfl
        | true => rw [stack.previous_mode.bit hbit] at hmode; cases hmode
      simp [hprevious]
  | false =>
      cases hbit : saved.getLsbD i with
      | false => simp
      | true => rw [hsaved.bit hbit] at hmode; cases hmode

theorem push_previous (hsaved : Within saved stack.mode) (word : BitVec w) :
    stack.push word saved &&& stack.previous =
      if word &&& stack.enable ≠ 0 then stack.previous else 0 := by
  apply BitVec.eq_of_getLsbD_eq
  intro i hi
  rw [BitVec.getLsbD_and, stack.getLsbD_push word saved hi]
  cases hprevious : stack.previous.getLsbD i with
  | false => split <;> simp [hprevious]
  | true =>
      have hsav : saved.getLsbD i = false := by
        cases hbit : saved.getLsbD i with
        | false => rfl
        | true =>
            have hmode := stack.previous_mode.bit hprevious
            rw [hsaved.bit hbit] at hmode
            cases hmode
      split
      · next henabled =>
          rw [decide_eq_true henabled, hprevious, hsav]
          simp
      · next henabled =>
          rw [decide_eq_false henabled, hsav]
          simp

theorem push_previous_ne_zero (hsaved : Within saved stack.mode)
    (word : BitVec w) :
    stack.push word saved &&& stack.previous ≠ 0 ↔
      word &&& stack.enable ≠ 0 := by
  rw [stack.push_previous hsaved]
  split
  · next henabled => exact ⟨fun _ => henabled, fun _ => stack.previous_ne_zero⟩
  · next henabled => exact ⟨fun h => absurd rfl h, fun h => absurd h henabled⟩

/-- Popping what was pushed changes nothing outside the saved bit and the
saved mode. -/
theorem pop_push (hsaved : Within saved stack.mode)
    (hprevious : BitFields.Disjoint field stack.previous)
    (hmode : BitFields.Disjoint field stack.mode) (word : BitVec w) :
    Agree field (stack.pop (stack.push word saved)) word := by
  rw [agree_iff]
  intro i hfield
  have hi : i < w := BitVec.lt_of_getLsbD hfield
  have hprev := hprevious.bit hfield
  have hmod := hmode.bit hfield
  have hsav : saved.getLsbD i = false := by
    cases hbit : saved.getLsbD i with
    | false => rfl
    | true => rw [hsaved.bit hbit] at hmod; cases hmod
  have hsame : decide (stack.push word saved &&& stack.previous ≠ 0) =
      decide (word &&& stack.enable ≠ 0) :=
    decide_eq_decide.mpr (stack.push_previous_ne_zero hsaved word)
  rw [stack.getLsbD_pop _ hi, stack.getLsbD_push word saved hi, hprev, hmod,
    hsav, hsame]
  cases henable : stack.enable.getLsbD i with
  | false => simp
  | true =>
      -- A single bit is set in the word or it is not.
      have hbit : (word &&& stack.enable).getLsbD i = word.getLsbD i := by
        rw [BitVec.getLsbD_and, henable, Bool.and_true]
      rcases stack.enable_single word with hclear | hset
      · rw [hclear] at hbit ⊢
        rw [decide_eq_false (not_not.mpr rfl), ← hbit]
        simp
      · have hne : stack.enable ≠ 0 := by
          intro hzero
          rw [hzero] at henable
          simp at henable
        rw [hset, henable] at hbit
        rw [hset, decide_eq_true hne, ← hbit]
        simp

theorem pop_other (henable : BitFields.Disjoint field stack.enable)
    (hprevious : BitFields.Disjoint field stack.previous)
    (hmode : BitFields.Disjoint field stack.mode) (word : BitVec w) :
    Agree field (stack.pop word) word := by
  rw [agree_iff]
  intro i hfield
  rw [stack.getLsbD_pop _ (BitVec.lt_of_getLsbD hfield), henable.bit hfield,
    hprevious.bit hfield, hmode.bit hfield]
  simp

theorem pop_previous (word : BitVec w) :
    stack.pop word &&& stack.previous = stack.previous :=
  or_and_self _ _

theorem pop_mode (word : BitVec w) : stack.pop word &&& stack.mode = 0 := by
  apply BitVec.eq_of_getLsbD_eq
  intro i hi
  rw [BitVec.getLsbD_and, stack.getLsbD_pop word hi]
  cases henable : stack.enable.getLsbD i with
  | true => simp [stack.enable_mode.bit henable]
  | false =>
      cases hprevious : stack.previous.getLsbD i with
      | true => simp [stack.previous_mode.bit hprevious]
      | false => cases stack.mode.getLsbD i <;> simp

end EnableStack
