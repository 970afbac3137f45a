import Nanoemu.CheckedProgram

/-!
# Programs that return

A run that panics has no result.  A program returns from a state if its run
does not, and is total if it returns from every state.
-/

namespace CheckedProgram

namespace Program

variable {σ τ ε ε' α β : Type}

/-- The run from `state` does not panic. -/
def Returns (prog : Program σ ε α) (profile : Profile) (state : σ) : Prop :=
  (prog profile state).isSome = true

section Returns

variable {profile : Profile} {state : σ}

theorem returns_of_run {prog : Program σ ε α} {result : Except ε α × σ}
    (hrun : prog profile state = some result) : prog.Returns profile state := by
  rw [Returns, hrun]
  rfl

theorem not_returns_of_run {prog : Program σ ε α}
    (hrun : prog profile state = none) : ¬ prog.Returns profile state := by
  rw [Returns, hrun]
  exact Bool.false_ne_true

theorem returns_pure (value : α) :
    (pure value : Program σ ε α).Returns profile state := rfl

theorem returns_fail (error : ε) :
    (fail error : Program σ ε α).Returns profile state := rfl

theorem returns_read (project : σ → α) :
    (read project : Program σ ε α).Returns profile state := rfl

theorem returns_update (change : σ → σ) :
    (update change : Program σ ε Unit).Returns profile state := rfl

theorem returns_check_iff (value : Checked α) :
    (check value : Program σ ε α).Returns profile state ↔
      (value profile).isSome = true := by
  unfold Returns check
  cases value profile <;> simp

theorem returns_bind_iff {first : Program σ ε α} {next : α → Program σ ε β} :
    (first >>= next).Returns profile state ↔
      first.Returns profile state ∧
        ∀ value middle, first profile state = some (.ok value, middle) →
          (next value).Returns profile middle := by
  rcases hfirst : first profile state with _ | ⟨error | value, middle⟩
  · have hnone : ¬ (first >>= next).Returns profile state :=
      not_returns_of_run (bind_run_none hfirst)
    exact ⟨fun h => absurd h hnone,
      fun h => absurd h.1 (not_returns_of_run hfirst)⟩
  · refine ⟨fun _ => ⟨returns_of_run hfirst, ?_⟩,
      fun _ => returns_of_run (bind_run_error hfirst)⟩
    intro _ _ hok
    cases hok
  · rw [Returns, bind_run_ok hfirst]
    constructor
    · intro hnext
      refine ⟨returns_of_run hfirst, ?_⟩
      intro _ _ hok
      cases hok
      exact hnext
    · exact fun h => h.2 value middle rfl

theorem returns_bind {first : Program σ ε α} {next : α → Program σ ε β}
    (hfirst : first.Returns profile state)
    (hnext : ∀ value middle, (next value).Returns profile middle) :
    (first >>= next).Returns profile state :=
  returns_bind_iff.mpr ⟨hfirst, fun value middle _ => hnext value middle⟩

theorem returns_read_bind_iff {project : σ → α} {next : α → Program σ ε β} :
    (read project >>= next).Returns profile state ↔
      (next (project state)).Returns profile state := Iff.rfl

theorem returns_update_bind_iff {change : σ → σ} {next : Unit → Program σ ε β} :
    (update change >>= next).Returns profile state ↔
      (next ()).Returns profile (change state) := Iff.rfl

theorem returns_check_bind_iff {value : Checked α} {next : α → Program σ ε β} :
    (check value >>= next).Returns profile state ↔
      ∃ v, value profile = some v ∧ (next v).Returns profile state := by
  cases hvalue : value profile with
  | none =>
      have hnone : ¬ (check value >>= next).Returns profile state :=
        not_returns_of_run (bind_run_none (check_run_none hvalue state))
      refine iff_of_false hnone ?_
      rintro ⟨_, h, -⟩
      cases h
  | some v =>
      rw [Returns, bind_run_ok (check_run_some hvalue state)]
      constructor
      · exact fun h => ⟨v, rfl, h⟩
      · rintro ⟨_, h, hnext⟩
        cases h
        exact hnext

theorem returns_add_iff {w : ℕ} {a b : BitVec w}
    {next : BitVec w → Program σ ε β} :
    (check (Checked.add a b) >>= next).Returns .debug state ↔
      a.toNat + b.toNat < 2 ^ w ∧ (next (a + b)).Returns .debug state := by
  rw [returns_check_bind_iff]
  unfold Checked.add
  split
  · next h =>
      constructor
      · rintro ⟨_, hsum, hnext⟩
        cases hsum
        exact ⟨h, hnext⟩
      · exact fun hnext => ⟨_, rfl, hnext.2⟩
  · next h =>
      refine iff_of_false ?_ fun hnext => h hnext.1
      rintro ⟨_, hsum, -⟩
      cases hsum

theorem returns_ite {condition : Prop} [Decidable condition]
    {yes no : Program σ ε α} (hyes : condition → yes.Returns profile state)
    (hno : ¬ condition → no.Returns profile state) :
    (if condition then yes else no).Returns profile state := by
  split
  · next h => exact hyes h
  · next h => exact hno h

theorem returns_attempt_iff {body : Program σ ε' α} :
    (attempt body : Program σ ε (Except ε' α)).Returns profile state ↔
      body.Returns profile state := by
  unfold Returns attempt
  cases body profile state <;> simp

theorem returns_mapError_iff {relabel : ε → ε'} {body : Program σ ε α} :
    (mapError relabel body).Returns profile state ↔
      body.Returns profile state := by
  unfold Returns mapError
  rcases body profile state with _ | ⟨error | value, state'⟩ <;> simp

theorem mapError_eq_ok_iff {relabel : ε → ε'} {body : Program σ ε α}
    {value : α} {state' : σ} :
    mapError relabel body profile state = some (.ok value, state') ↔
      body profile state = some (.ok value, state') := by
  unfold mapError
  rcases body profile state with _ | ⟨error | value', middle⟩ <;> simp

theorem attempt_eq_ok_iff {body : Program σ ε' α} {outcome : Except ε' α}
    {state' : σ} :
    (attempt body : Program σ ε (Except ε' α)) profile state =
        some (.ok outcome, state') ↔
      body profile state = some (outcome, state') := by
  unfold attempt
  rcases body profile state with _ | ⟨result, middle⟩ <;> simp

theorem returns_zoom_iff {project : σ → τ} {replace : τ → σ → σ}
    {body : Program τ ε α} :
    (zoom project replace body).Returns profile state ↔
      body.Returns profile (project state) := by
  unfold Returns zoom
  cases body profile (project state) <;> simp

end Returns

/-- No run panics. -/
def Total (prog : Program σ ε α) (profile : Profile) : Prop :=
  ∀ state, prog.Returns profile state

section Total

variable {profile : Profile}

theorem Total.pure (value : α) :
    (Pure.pure value : Program σ ε α).Total profile :=
  fun _ => returns_pure value

theorem Total.read (project : σ → α) :
    (Program.read project : Program σ ε α).Total profile :=
  fun _ => returns_read project

theorem Total.update (change : σ → σ) :
    (Program.update change : Program σ ε Unit).Total profile :=
  fun _ => returns_update change

theorem Total.fail (error : ε) :
    (Program.fail error : Program σ ε α).Total profile :=
  fun _ => returns_fail error

theorem Total.check {value : Checked α}
    (hvalue : (value profile).isSome = true) :
    (Program.check value : Program σ ε α).Total profile :=
  fun _ => (returns_check_iff value).mpr hvalue

theorem Total.bind {first : Program σ ε α} {next : α → Program σ ε β}
    (hfirst : first.Total profile)
    (hnext : ∀ value, (next value).Total profile) :
    (first >>= next).Total profile :=
  fun state => returns_bind (hfirst state) fun value => hnext value

theorem Total.ite {condition : Prop} [Decidable condition]
    {yes no : Program σ ε α} (hyes : yes.Total profile)
    (hno : no.Total profile) :
    (if condition then yes else no).Total profile :=
  fun state => returns_ite (fun _ => hyes state) fun _ => hno state

end Total

end Program

end CheckedProgram
