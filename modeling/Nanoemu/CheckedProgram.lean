import Mathlib.Tactic

/-!
# Programs whose arithmetic may panic

A build with overflow checks stops at the first integer operation that leaves
its type; a build without them wraps and goes on.  `Checked` is a computation
under either build, and `Program` adds a state and a recoverable error.  The
rules below are the ones every later proof uses: how an outcome of a composed
program splits, what all outcomes satisfy, and when no outcome is a panic.
-/

namespace CheckedProgram

/-- How a build treats an integer operation that leaves its type. -/
inductive Profile where
  | debug
  | release
deriving DecidableEq, Repr

/-- The value of an overflowing operation: none under overflow checks, the
wrapped one without them. -/
def Profile.overflow {α : Type} (profile : Profile) (wrapped : α) : Option α :=
  match profile with
  | .debug => none
  | .release => some wrapped

/-- A computation that returns a value or panics. -/
def Checked (α : Type) : Type :=
  Profile → Option α

instance : Monad Checked where
  pure value := fun _ => some value
  bind first next := fun profile =>
    match first profile with
    | none => none
    | some value => next value profile

/-- A computation over a state `σ` which returns, fails with a recoverable
error (the state reached so far is kept), or panics. -/
def Program (σ ε α : Type) : Type :=
  Profile → σ → Option (Except ε α × σ)

instance {σ ε : Type} : Monad (Program σ ε) where
  pure value := fun _ state => some (.ok value, state)
  bind first next := fun profile state =>
    match first profile state with
    | none => none
    | some (.error error, state') => some (.error error, state')
    | some (.ok value, state') => next value profile state'

instance : LawfulMonad Checked := LawfulMonad.mk' Checked
  (by
    intro α first
    funext profile
    change (first >>= pure) profile = first profile
    change (match first profile with
      | none => none
      | some value => some value) = first profile
    cases first profile <;> rfl)
  (by intros; rfl)
  (by
    intro α β γ first second third
    funext profile
    change (match (match first profile with
        | none => none
        | some value => second value profile) with
      | none => none
      | some value => third value profile) =
      match first profile with
      | none => none
      | some value => (second value >>= third) profile
    cases first profile <;> rfl)

instance {σ ε : Type} : LawfulMonad (Program σ ε) :=
  LawfulMonad.mk' (Program σ ε)
    (by
      intro α first
      funext profile state
      change (first >>= pure) profile state = first profile state
      change (match first profile state with
        | none => none
        | some (Except.error error, state') => some (Except.error error, state')
        | some (Except.ok value, state') => some (Except.ok value, state')) =
          first profile state
      rcases first profile state with _ | ⟨_ | _, _⟩ <;> rfl)
    (by intros; rfl)
    (by
      intro α β γ first second third
      funext profile state
      change (match (match first profile state with
          | none => none
          | some (Except.error error, state') =>
              some (Except.error error, state')
          | some (Except.ok value, state') => second value profile state') with
        | none => none
        | some (Except.error error, state') => some (Except.error error, state')
        | some (Except.ok value, state') => third value profile state') =
        match first profile state with
        | none => none
        | some (Except.error error, state') => some (Except.error error, state')
        | some (Except.ok value, state') =>
            (second value >>= third) profile state'
      rcases first profile state with _ | ⟨_ | _, _⟩ <;> rfl)

namespace Checked

/-- An operation with no defined value under either build, such as an index
outside an array. -/
def panic {α : Type} : Checked α :=
  fun _ => none

def unsigned (width value : ℕ) : Checked ℕ := fun profile =>
  if value < 2 ^ width then some value
  else profile.overflow (value % 2 ^ width)

def signed (width : ℕ) (value : ℤ) : Checked ℤ := fun profile =>
  if -2 ^ (width - 1) ≤ value ∧ value < 2 ^ (width - 1) then some value
  else profile.overflow (value.bmod (2 ^ width))

def uadd (width a b : ℕ) : Checked ℕ :=
  unsigned width (a + b)

def umul (width a b : ℕ) : Checked ℕ :=
  unsigned width (a * b)

def usub (width a b : ℕ) : Checked ℕ := fun profile =>
  if b ≤ a then some (a - b)
  else profile.overflow ((a + 2 ^ width - b) % 2 ^ width)

/-- Unsigned division; a zero divisor panics under either build. -/
def udiv (a b : ℕ) : Checked ℕ := fun _ =>
  if b = 0 then none else some (a / b)

/-- A left shift drops the bits it pushes out; only a shift count that
reaches the width overflows. -/
def ushl (width a count : ℕ) : Checked ℕ := fun profile =>
  if count < width then some (a <<< count % 2 ^ width)
  else profile.overflow (a <<< (count % width) % 2 ^ width)

def ushr (width a count : ℕ) : Checked ℕ := fun profile =>
  if count < width then some (a >>> count)
  else profile.overflow (a >>> (count % width))

def iadd (width : ℕ) (a b : ℤ) : Checked ℤ :=
  signed width (a + b)

def isub (width : ℕ) (a b : ℤ) : Checked ℤ :=
  signed width (a - b)

def imul (width : ℕ) (a b : ℤ) : Checked ℤ :=
  signed width (a * b)

def ineg (width : ℕ) (a : ℤ) : Checked ℤ :=
  signed width (-a)

variable {w : ℕ}

def add (a b : BitVec w) : Checked (BitVec w) := fun profile =>
  if a.toNat + b.toNat < 2 ^ w then some (a + b)
  else profile.overflow (a + b)

def sub (a b : BitVec w) : Checked (BitVec w) := fun profile =>
  if b.toNat ≤ a.toNat then some (a - b)
  else profile.overflow (a - b)

def mul (a b : BitVec w) : Checked (BitVec w) := fun profile =>
  if a.toNat * b.toNat < 2 ^ w then some (a * b)
  else profile.overflow (a * b)

def shl (a : BitVec w) (count : ℕ) : Checked (BitVec w) := fun profile =>
  if count < w then some (a <<< count)
  else profile.overflow (a <<< (count % w))

def shr (a : BitVec w) (count : ℕ) : Checked (BitVec w) := fun profile =>
  if count < w then some (a >>> count)
  else profile.overflow (a >>> (count % w))

def sshr (a : BitVec w) (count : ℕ) : Checked (BitVec w) := fun profile =>
  if count < w then some (a.sshiftRight count)
  else profile.overflow (a.sshiftRight (count % w))

/-! ## Operations that stay in range

Such an operation is the pure computation of its exact value. -/

section InRange

theorem pure_run {α : Type} (value : α) (profile : Profile) :
    (pure value : Checked α) profile = some value := rfl

theorem bind_eq_some {α β : Type} {first : Checked α} {next : α → Checked β}
    {profile : Profile} {result : β}
    (h : (first >>= next) profile = some result) :
    ∃ value, first profile = some value ∧ next value profile = some result := by
  change (match first profile with
    | none => none
    | some value => next value profile) = some result at h
  cases hfirst : first profile with
  | none =>
      rw [hfirst] at h
      cases h
  | some value =>
      rw [hfirst] at h
      exact ⟨value, rfl, h⟩

theorem bind_of_some {α β : Type} {first : Checked α} {next : α → Checked β}
    {profile : Profile} {value : α} (hfirst : first profile = some value) :
    (first >>= next) profile = next value profile := by
  change (match first profile with
    | none => none
    | some value => next value profile) = next value profile
  rw [hfirst]

theorem bind_of_none {α β : Type} {first : Checked α} {next : α → Checked β}
    {profile : Profile} (hfirst : first profile = none) :
    (first >>= next) profile = none := by
  cases hresult : (first >>= next) profile with
  | none => rfl
  | some result =>
      obtain ⟨value, hvalue, -⟩ := bind_eq_some hresult
      rw [hfirst] at hvalue
      cases hvalue

theorem unsigned_eq_pure {width value : ℕ} (h : value < 2 ^ width) :
    unsigned width value = pure value := by
  funext profile
  rw [unsigned, if_pos h, pure_run]

theorem signed_eq_pure {width : ℕ} {value : ℤ}
    (hlow : -2 ^ (width - 1) ≤ value) (hhigh : value < 2 ^ (width - 1)) :
    signed width value = pure value := by
  funext profile
  rw [signed, if_pos ⟨hlow, hhigh⟩, pure_run]

theorem uadd_eq_pure {width a b : ℕ} (h : a + b < 2 ^ width) :
    uadd width a b = pure (a + b) :=
  unsigned_eq_pure h

theorem umul_eq_pure {width a b : ℕ} (h : a * b < 2 ^ width) :
    umul width a b = pure (a * b) :=
  unsigned_eq_pure h

theorem usub_eq_pure {width a b : ℕ} (h : b ≤ a) :
    usub width a b = pure (a - b) := by
  funext profile
  rw [usub, if_pos h, pure_run]

theorem udiv_eq_pure {a b : ℕ} (h : b ≠ 0) : udiv a b = pure (a / b) := by
  funext profile
  rw [udiv, if_neg h, pure_run]

theorem ushl_eq_pure {width a count : ℕ} (h : count < width) :
    ushl width a count = pure (a <<< count % 2 ^ width) := by
  funext profile
  rw [ushl, if_pos h, pure_run]

theorem ushr_eq_pure {width a count : ℕ} (h : count < width) :
    ushr width a count = pure (a >>> count) := by
  funext profile
  rw [ushr, if_pos h, pure_run]

theorem iadd_eq_pure {width : ℕ} {a b : ℤ} (hlow : -2 ^ (width - 1) ≤ a + b)
    (hhigh : a + b < 2 ^ (width - 1)) : iadd width a b = pure (a + b) :=
  signed_eq_pure hlow hhigh

theorem isub_eq_pure {width : ℕ} {a b : ℤ} (hlow : -2 ^ (width - 1) ≤ a - b)
    (hhigh : a - b < 2 ^ (width - 1)) : isub width a b = pure (a - b) :=
  signed_eq_pure hlow hhigh

theorem imul_eq_pure {width : ℕ} {a b : ℤ} (hlow : -2 ^ (width - 1) ≤ a * b)
    (hhigh : a * b < 2 ^ (width - 1)) : imul width a b = pure (a * b) :=
  signed_eq_pure hlow hhigh

theorem ineg_eq_pure {width : ℕ} {a : ℤ} (hlow : -2 ^ (width - 1) ≤ -a)
    (hhigh : -a < 2 ^ (width - 1)) : ineg width a = pure (-a) :=
  signed_eq_pure hlow hhigh

variable {w : ℕ} {a b : BitVec w} {count : ℕ}

theorem add_eq_pure (h : a.toNat + b.toNat < 2 ^ w) :
    add a b = pure (a + b) := by
  funext profile
  rw [add, if_pos h, pure_run]

theorem sub_eq_pure (h : b.toNat ≤ a.toNat) : sub a b = pure (a - b) := by
  funext profile
  rw [sub, if_pos h, pure_run]

theorem mul_eq_pure (h : a.toNat * b.toNat < 2 ^ w) :
    mul a b = pure (a * b) := by
  funext profile
  rw [mul, if_pos h, pure_run]

theorem shl_eq_pure (h : count < w) : shl a count = pure (a <<< count) := by
  funext profile
  rw [shl, if_pos h, pure_run]

theorem shr_eq_pure (h : count < w) : shr a count = pure (a >>> count) := by
  funext profile
  rw [shr, if_pos h, pure_run]

theorem sshr_eq_pure (h : count < w) :
    sshr a count = pure (a.sshiftRight count) := by
  funext profile
  rw [sshr, if_pos h, pure_run]

theorem add_eq_some {profile : Profile} {sum : BitVec w}
    (hsum : add a b profile = some sum) : sum = a + b := by
  rw [add] at hsum
  split at hsum
  · exact (Option.some.inj hsum).symm
  · cases profile with
    | debug => cases hsum
    | release => exact (Option.some.inj hsum).symm

theorem mul_eq_some {profile : Profile} {product : BitVec w}
    (hproduct : mul a b profile = some product) : product = a * b := by
  rw [mul] at hproduct
  split at hproduct
  · exact (Option.some.inj hproduct).symm
  · cases profile with
    | debug => cases hproduct
    | release => exact (Option.some.inj hproduct).symm

end InRange

/-! ## Whether there is a result

Under overflow checks an operation has its exact value or none. -/

section Results

variable {α β : Type} {profile : Profile}

theorem bind_guard {p : Prop} [Decidable p] {first : Checked α}
    {value : α} (hfirst : first profile = if p then some value else none)
    (next : α → Checked β) :
    ((first >>= next) profile).isSome ↔
      p ∧ (next value profile).isSome := by
  by_cases hp : p
  · rw [if_pos hp] at hfirst
    simp [bind_of_some hfirst, hp]
  · rw [if_neg hp] at hfirst
    simp [bind_of_none hfirst, hp]

theorem bind_isSome {P : Prop} {first : Checked α} {next : α → Checked β}
    (hnext : ∀ value, (next value profile).isSome ↔ P) :
    ((first >>= next) profile).isSome ↔ (first profile).isSome ∧ P := by
  cases hfirst : first profile with
  | none => simp [bind_of_none hfirst]
  | some value => simp [bind_of_some hfirst, hnext]

theorem uadd_debug (width a b : ℕ) : uadd width a b .debug =
    if a + b < 2 ^ width then some (a + b) else none := rfl

theorem umul_debug (width a b : ℕ) : umul width a b .debug =
    if a * b < 2 ^ width then some (a * b) else none := rfl

theorem iadd_debug (width : ℕ) (a b : ℤ) : iadd width a b .debug =
    if -2 ^ (width - 1) ≤ a + b ∧ a + b < 2 ^ (width - 1) then some (a + b)
    else none := rfl

theorem isub_debug (width : ℕ) (a b : ℤ) : isub width a b .debug =
    if -2 ^ (width - 1) ≤ a - b ∧ a - b < 2 ^ (width - 1) then some (a - b)
    else none := rfl

theorem unsigned_release (width value : ℕ) :
    unsigned width value .release = some (value % 2 ^ width) := by
  unfold unsigned
  by_cases hfits : value < 2 ^ width
  · rw [if_pos hfits, Nat.mod_eq_of_lt hfits]
  · rw [if_neg hfits]
    rfl

theorem bind_returns {first : Checked α} {next : α → Checked β}
    (hfirst : (first profile).isSome) (hnext : ∀ v, (next v profile).isSome) :
    ((first >>= next) profile).isSome := by
  rw [bind_isSome fun v => iff_true_intro (hnext v)]
  exact ⟨hfirst, trivial⟩

theorem unsigned_returns (width value : ℕ) :
    (unsigned width value .release).isSome := by
  rw [unsigned_release]
  rfl

end Results

end Checked

namespace Program

variable {σ τ ε ε' α β : Type}

def read (project : σ → α) : Program σ ε α :=
  fun _ state => some (.ok (project state), state)

def update (change : σ → σ) : Program σ ε Unit :=
  fun _ state => some (.ok (), change state)

def fail (error : ε) : Program σ ε α :=
  fun _ state => some (.error error, state)

def check (value : Checked α) : Program σ ε α := fun profile state =>
  match value profile with
  | none => none
  | some result => some (.ok result, state)

/-- Run a program and hand its outcome, value or error, to the caller. -/
def attempt (body : Program σ ε α) : Program σ ε' (Except ε α) :=
  fun profile state =>
    match body profile state with
    | none => none
    | some (outcome, state') => some (.ok outcome, state')

def mapError (relabel : ε → ε') (body : Program σ ε α) : Program σ ε' α :=
  fun profile state =>
    match body profile state with
    | none => none
    | some (.error error, state') => some (.error (relabel error), state')
    | some (.ok value, state') => some (.ok value, state')

def zoom (project : σ → τ) (replace : τ → σ → σ) (body : Program τ ε α) :
    Program σ ε α :=
  fun profile state =>
    match body profile (project state) with
    | none => none
    | some (outcome, part) => some (outcome, replace part state)

@[simp] theorem pure_run (value : α) (profile : Profile) (state : σ) :
    (pure value : Program σ ε α) profile state = some (.ok value, state) := rfl

@[simp] theorem read_run (project : σ → α) (profile : Profile) (state : σ) :
    (read project : Program σ ε α) profile state =
      some (.ok (project state), state) := rfl

@[simp] theorem update_run (change : σ → σ) (profile : Profile) (state : σ) :
    (update change : Program σ ε Unit) profile state =
      some (.ok (), change state) := rfl

@[simp] theorem fail_run (error : ε) (profile : Profile) (state : σ) :
    (fail error : Program σ ε α) profile state = some (.error error, state) :=
  rfl

theorem bind_run (first : Program σ ε α) (next : α → Program σ ε β)
    (profile : Profile) (state : σ) :
    (first >>= next) profile state =
      match first profile state with
      | none => none
      | some (.error error, state') => some (.error error, state')
      | some (.ok value, state') => next value profile state' := rfl

theorem bind_run_ok {first : Program σ ε α} {next : α → Program σ ε β}
    {profile : Profile} {state state' : σ} {value : α}
    (hfirst : first profile state = some (.ok value, state')) :
    (first >>= next) profile state = next value profile state' := by
  rw [bind_run, hfirst]

theorem bind_run_none {first : Program σ ε α} {next : α → Program σ ε β}
    {profile : Profile} {state : σ} (hfirst : first profile state = none) :
    (first >>= next) profile state = none := by
  rw [bind_run, hfirst]

theorem bind_run_error {first : Program σ ε α} {next : α → Program σ ε β}
    {profile : Profile} {state state' : σ} {error : ε}
    (hfirst : first profile state = some (.error error, state')) :
    (first >>= next) profile state = some (.error error, state') := by
  rw [bind_run, hfirst]

theorem bind_cases {first : Program σ ε α} {next : α → Program σ ε β}
    {profile : Profile} {state state' : σ} {outcome : Except ε β}
    (hrun : (first >>= next) profile state = some (outcome, state')) :
    (∃ error, first profile state = some (.error error, state') ∧
      outcome = .error error) ∨
    ∃ value middle, first profile state = some (.ok value, middle) ∧
      next value profile middle = some (outcome, state') := by
  rcases hfirst : first profile state with _ | ⟨error | value, middle⟩
  · rw [bind_run_none hfirst] at hrun
    cases hrun
  · rw [bind_run_error hfirst] at hrun
    cases hrun
    exact Or.inl ⟨error, rfl, rfl⟩
  · rw [bind_run_ok hfirst] at hrun
    exact Or.inr ⟨value, middle, rfl, hrun⟩

theorem bind_ok {first : Program σ ε α} {next : α → Program σ ε β}
    {profile : Profile} {state state' : σ} {value : β}
    (hrun : (first >>= next) profile state = some (.ok value, state')) :
    ∃ result middle, first profile state = some (.ok result, middle) ∧
      next result profile middle = some (.ok value, state') := by
  rcases bind_cases hrun with ⟨error, -, herror⟩ | hboth
  · cases herror
  · exact hboth

theorem bind_congr {first : Program σ ε α} {next next' : α → Program σ ε β}
    {profile : Profile} {state : σ}
    (hnext : ∀ value middle, first profile state = some (.ok value, middle) →
      next value profile middle = next' value profile middle) :
    (first >>= next) profile state = (first >>= next') profile state := by
  rcases hfirst : first profile state with _ | ⟨error | value, middle⟩
  · rw [bind_run_none hfirst, bind_run_none hfirst]
  · rw [bind_run_error hfirst, bind_run_error hfirst]
  · rw [bind_run_ok hfirst, bind_run_ok hfirst, hnext value middle hfirst]

theorem attempt_run_some {body : Program σ ε' α} {profile : Profile}
    {state state' : σ} {outcome : Except ε' α}
    (hbody : body profile state = some (outcome, state')) :
    (attempt body : Program σ ε (Except ε' α)) profile state =
      some (.ok outcome, state') := by
  simp [attempt, hbody]

theorem attempt_run_none {body : Program σ ε' α} {profile : Profile}
    {state : σ} (hbody : body profile state = none) :
    (attempt body : Program σ ε (Except ε' α)) profile state = none := by
  simp [attempt, hbody]

theorem ite_run {condition : Prop} [Decidable condition]
    (yes no : Program σ ε α) (profile : Profile) (state : σ) :
    (if condition then yes else no) profile state =
      if condition then yes profile state else no profile state := by
  split <;> rfl

theorem check_run_some {value : Checked α} {profile : Profile} {result : α}
    (hvalue : value profile = some result) (state : σ) :
    (check value : Program σ ε α) profile state = some (.ok result, state) := by
  simp [check, hvalue]

theorem check_run_none {value : Checked α} {profile : Profile}
    (hvalue : value profile = none) (state : σ) :
    (check value : Program σ ε α) profile state = none := by
  simp [check, hvalue]

theorem check_cases {value : Checked α} {profile : Profile} {state state' : σ}
    {outcome : Except ε α}
    (hrun : (check value : Program σ ε α) profile state =
      some (outcome, state')) :
    ∃ result, value profile = some result ∧ outcome = .ok result ∧
      state' = state := by
  cases hvalue : value profile with
  | none =>
      rw [check_run_none hvalue] at hrun
      cases hrun
  | some result =>
      rw [check_run_some hvalue] at hrun
      cases hrun
      exact ⟨result, rfl, rfl, rfl⟩

@[simp] theorem check_pure (value : α) :
    (check (pure value) : Program σ ε α) = pure value := rfl

theorem check_isSome {profile : Profile} {state : σ} (value : Checked α)
    (f : α → β) :
    (((Program.check value >>= fun v => pure (f v)) : Program σ ε β)
      profile state).isSome ↔ (value profile).isSome := by
  cases hvalue : value profile with
  | none =>
      rw [bind_run_none (check_run_none hvalue state)]
      simp
  | some v =>
      rw [bind_run_ok (check_run_some hvalue state)]
      simp

/-- Every outcome of `prog` other than a panic meets its postcondition. -/
def Ensures (prog : Program σ ε α) (profile : Profile) (state : σ)
    (onOk : α → σ → Prop) (onError : ε → σ → Prop) : Prop :=
  ∀ outcome state', prog profile state = some (outcome, state') →
    match outcome with
    | .ok value => onOk value state'
    | .error error => onError error state'

section Ensures

variable {profile : Profile} {state : σ} {onOk : α → σ → Prop}
  {onError : ε → σ → Prop}

theorem Ensures.ok {prog : Program σ ε α}
    (hprog : prog.Ensures profile state onOk onError)
    {value : α} {state' : σ}
    (hrun : prog profile state = some (.ok value, state')) :
    onOk value state' :=
  hprog (.ok value) state' hrun

theorem Ensures.error {prog : Program σ ε α}
    (hprog : prog.Ensures profile state onOk onError)
    {error : ε} {state' : σ}
    (hrun : prog profile state = some (.error error, state')) :
    onError error state' :=
  hprog (.error error) state' hrun

theorem Ensures.mono {prog : Program σ ε α}
    {onOk' : α → σ → Prop} {onError' : ε → σ → Prop}
    (hprog : prog.Ensures profile state onOk' onError')
    (hok : ∀ value state', onOk' value state' → onOk value state')
    (herror : ∀ error state', onError' error state' → onError error state') :
    prog.Ensures profile state onOk onError := by
  intro outcome state' hrun
  have hpost := hprog outcome state' hrun
  cases outcome with
  | ok value => exact hok value state' hpost
  | error error => exact herror error state' hpost

theorem Ensures.pure {value : α} (hvalue : onOk value state) :
    (Pure.pure value : Program σ ε α).Ensures profile state onOk onError := by
  intro outcome state' hrun
  cases hrun
  exact hvalue

theorem Ensures.fail {error : ε} (herror : onError error state) :
    (Program.fail error : Program σ ε α).Ensures profile state onOk onError := by
  intro outcome state' hrun
  cases hrun
  exact herror

theorem Ensures.read {project : σ → α}
    (hvalue : onOk (project state) state) :
    (Program.read project : Program σ ε α).Ensures profile state
      onOk onError := by
  intro outcome state' hrun
  cases hrun
  exact hvalue

theorem Ensures.update {change : σ → σ} {onOk : Unit → σ → Prop}
    (hvalue : onOk () (change state)) :
    (Program.update change : Program σ ε Unit).Ensures profile state
      onOk onError := by
  intro outcome state' hrun
  cases hrun
  exact hvalue

theorem Ensures.check {value : Checked α}
    (hvalue : ∀ result, value profile = some result → onOk result state) :
    (Program.check value : Program σ ε α).Ensures profile state
      onOk onError := by
  intro outcome state' hrun
  cases hresult : value profile with
  | none => simp [Program.check, hresult] at hrun
  | some result =>
      rw [check_run_some hresult] at hrun
      cases hrun
      exact hvalue result hresult

theorem Ensures.bind {first : Program σ ε α} {next : α → Program σ ε β}
    {onOk : β → σ → Prop}
    (hfirst : first.Ensures profile state
      (fun value state' =>
        (next value).Ensures profile state' onOk onError) onError) :
    (first >>= next).Ensures profile state onOk onError := by
  intro outcome state' hrun
  rcases hresult : first profile state with _ | ⟨_ | value, middle⟩
  · simp [bind_run, hresult] at hrun
  · rw [bind_run_error hresult] at hrun
    cases hrun
    exact hfirst.error hresult
  · rw [bind_run_ok hresult] at hrun
    exact hfirst.ok hresult outcome state' hrun

theorem Ensures.ite {condition : Prop} [Decidable condition]
    {yes no : Program σ ε α}
    (hyes : condition → yes.Ensures profile state onOk onError)
    (hno : ¬ condition → no.Ensures profile state onOk onError) :
    (if condition then yes else no).Ensures profile state onOk onError := by
  by_cases hcondition : condition
  · rw [if_pos hcondition]
    exact hyes hcondition
  · rw [if_neg hcondition]
    exact hno hcondition

theorem Ensures.attempt {body : Program σ ε' α}
    {onOk : Except ε' α → σ → Prop}
    (hbody : body.Ensures profile state
      (fun value => onOk (.ok value)) (fun error => onOk (.error error))) :
    (Program.attempt body : Program σ ε (Except ε' α)).Ensures profile state
      onOk onError := by
  intro outcome state' hrun
  rcases hresult : body profile state with _ | ⟨inner, middle⟩
  · simp [Program.attempt, hresult] at hrun
  · simp only [Program.attempt, hresult, Option.some.injEq,
      Prod.mk.injEq] at hrun
    obtain ⟨rfl, rfl⟩ := hrun
    cases inner with
    | ok value => exact hbody.ok hresult
    | error error => exact hbody.error hresult

theorem Ensures.mapError {relabel : ε' → ε} {body : Program σ ε' α}
    (hbody : body.Ensures profile state onOk
      (fun error => onError (relabel error))) :
    (Program.mapError relabel body).Ensures profile state onOk onError := by
  intro outcome state' hrun
  rcases hresult : body profile state with _ | ⟨_ | value, middle⟩
  · simp [Program.mapError, hresult] at hrun
  · simp only [Program.mapError, hresult] at hrun
    cases hrun
    exact hbody.error hresult
  · simp only [Program.mapError, hresult] at hrun
    cases hrun
    exact hbody.ok hresult

theorem Ensures.zoom {project : σ → τ} {replace : τ → σ → σ}
    {body : Program τ ε α}
    (hbody : body.Ensures profile (project state)
      (fun value part => onOk value (replace part state))
      (fun error part => onError error (replace part state))) :
    (Program.zoom project replace body).Ensures profile state
      onOk onError := by
  intro outcome state' hrun
  rcases hresult : body profile (project state) with _ | ⟨inner, part⟩
  · simp [Program.zoom, hresult] at hrun
  · simp only [Program.zoom, hresult, Option.some.injEq,
      Prod.mk.injEq] at hrun
    obtain ⟨rfl, rfl⟩ := hrun
    cases inner with
    | ok value => exact hbody.ok hresult
    | error error => exact hbody.error hresult

end Ensures

end Program

/-! ## Frames -/

/-- A reflexive and transitive account of what a program may change. -/
structure Frame (σ : Type) where
  rel : σ → σ → Prop
  refl : ∀ state, rel state state
  trans : ∀ {first second third},
    rel first second → rel second third → rel first third

/-- The frame that leaves nothing out. -/
def Frame.all {σ : Type} : Frame σ where
  rel _ _ := True
  refl _ := trivial
  trans _ _ := trivial

/-- Within both frames. -/
def Frame.and {σ : Type} (left right : Frame σ) : Frame σ where
  rel state state' := left.rel state state' ∧ right.rel state state'
  refl state := ⟨left.refl state, right.refl state⟩
  trans hfirst hsecond :=
    ⟨left.trans hfirst.1 hsecond.1, right.trans hfirst.2 hsecond.2⟩

namespace Program

variable {σ τ ε ε' α β : Type}

/-- Every outcome of `prog` stays within the frame. -/
def Keeps (frame : Frame σ) (prog : Program σ ε α) : Prop :=
  ∀ profile state, prog.Ensures profile state
    (fun _ state' => frame.rel state state')
    (fun _ state' => frame.rel state state')

section Keeps

variable {frame : Frame σ}

theorem Keeps.intro {prog : Program σ ε α}
    (hprog : ∀ profile state outcome state',
      prog profile state = some (outcome, state') → frame.rel state state') :
    prog.Keeps frame := by
  intro profile state outcome state' hrun
  cases outcome with
  | ok value => exact hprog profile state _ state' hrun
  | error error => exact hprog profile state _ state' hrun

theorem Keeps.of_run {prog : Program σ ε α} (hprog : prog.Keeps frame)
    {profile : Profile} {state state' : σ} {outcome : Except ε α}
    (hrun : prog profile state = some (outcome, state')) :
    frame.rel state state' := by
  cases outcome with
  | ok value => exact (hprog profile state).ok hrun
  | error error => exact (hprog profile state).error hrun

theorem Keeps.and {other : Frame σ} {prog : Program σ ε α}
    (hleft : prog.Keeps frame) (hright : prog.Keeps other) :
    prog.Keeps (frame.and other) :=
  Keeps.intro fun _ _ _ _ hrun => ⟨hleft.of_run hrun, hright.of_run hrun⟩

theorem Keeps.pure (value : α) :
    (Pure.pure value : Program σ ε α).Keeps frame :=
  fun _ state => Ensures.pure (frame.refl state)

theorem Keeps.fail (error : ε) :
    (Program.fail error : Program σ ε α).Keeps frame :=
  fun _ state => Ensures.fail (frame.refl state)

theorem Keeps.read (project : σ → α) :
    (Program.read project : Program σ ε α).Keeps frame :=
  fun _ state => Ensures.read (frame.refl state)

theorem Keeps.check (value : Checked α) :
    (Program.check value : Program σ ε α).Keeps frame :=
  fun _ state => Ensures.check fun _ _ => frame.refl state

theorem Keeps.update {change : σ → σ}
    (hchange : ∀ state, frame.rel state (change state)) :
    (Program.update change : Program σ ε Unit).Keeps frame :=
  fun _ state => Ensures.update (hchange state)

theorem Keeps.bind {first : Program σ ε α} {next : α → Program σ ε β}
    (hfirst : first.Keeps frame) (hnext : ∀ value, (next value).Keeps frame) :
    (first >>= next).Keeps frame := by
  intro profile state
  apply Ensures.bind
  refine (hfirst profile state).mono ?_ (fun _ _ hrel => hrel)
  intro value middle hmiddle
  exact (hnext value profile middle).mono
    (fun _ _ hrel => frame.trans hmiddle hrel)
    (fun _ _ hrel => frame.trans hmiddle hrel)

theorem Keeps.ite {condition : Prop} [Decidable condition]
    {yes no : Program σ ε α} (hyes : yes.Keeps frame)
    (hno : no.Keeps frame) :
    (if condition then yes else no).Keeps frame := by
  split
  · exact hyes
  · exact hno

theorem Keeps.mapError {relabel : ε' → ε} {body : Program σ ε' α}
    (hbody : body.Keeps frame) :
    (Program.mapError relabel body).Keeps frame :=
  fun profile state => Ensures.mapError (hbody profile state)

theorem Keeps.zoom {project : σ → τ} {replace : τ → σ → σ}
    {inner : Frame τ} {body : Program τ ε α} (hbody : body.Keeps inner)
    (hreplace : ∀ state part, inner.rel (project state) part →
      frame.rel state (replace part state)) :
    (Program.zoom project replace body).Keeps frame :=
  fun profile state => Ensures.zoom <|
    (hbody profile (project state)).mono
      (fun _ part hrel => hreplace state part hrel)
      (fun _ part hrel => hreplace state part hrel)

end Keeps

/-- Every outcome of `prog` is a value, and stays within the frame. -/
def Moves (frame : Frame σ) (prog : Program σ ε α) : Prop :=
  ∀ profile state, prog.Ensures profile state
    (fun _ state' => frame.rel state state') (fun _ _ => False)

section Moves

variable {frame : Frame σ}

theorem Moves.pure (value : α) :
    (Pure.pure value : Program σ ε α).Moves frame :=
  fun _ state => Ensures.pure (frame.refl state)

theorem Moves.read (project : σ → α) :
    (Program.read project : Program σ ε α).Moves frame :=
  fun _ state => Ensures.read (frame.refl state)

theorem Moves.check (value : Checked α) :
    (Program.check value : Program σ ε α).Moves frame :=
  fun _ state => Ensures.check fun _ _ => frame.refl state

theorem Moves.update {change : σ → σ}
    (hchange : ∀ state, frame.rel state (change state)) :
    (Program.update change : Program σ ε Unit).Moves frame :=
  fun _ state => Ensures.update (hchange state)

theorem Moves.bind {first : Program σ ε α} {next : α → Program σ ε β}
    (hfirst : first.Moves frame) (hnext : ∀ value, (next value).Moves frame) :
    (first >>= next).Moves frame := by
  intro profile state
  apply Ensures.bind
  refine (hfirst profile state).mono ?_ (fun _ _ h => h)
  intro value middle hmiddle
  exact (hnext value profile middle).mono
    (fun _ _ hrel => frame.trans hmiddle hrel) (fun _ _ h => h)

theorem Moves.ite {condition : Prop} [Decidable condition]
    {yes no : Program σ ε α} (hyes : yes.Moves frame)
    (hno : no.Moves frame) :
    (if condition then yes else no).Moves frame := by
  split
  · exact hyes
  · exact hno

theorem Moves.attempt {body : Program σ ε' α} (hbody : body.Keeps frame) :
    (Program.attempt body : Program σ ε (Except ε' α)).Moves frame :=
  fun profile state => Ensures.attempt (hbody profile state)

end Moves

/-- Every outcome of `prog` stays within the frame, and every error is of the
kind. -/
def Raises (frame : Frame σ) (kind : ε → Prop) (prog : Program σ ε α) :
    Prop :=
  ∀ profile state, prog.Ensures profile state
    (fun _ state' => frame.rel state state')
    (fun error state' => frame.rel state state' ∧ kind error)

section Raises

variable {frame : Frame σ} {kind : ε → Prop}

theorem Raises.keeps {prog : Program σ ε α} (hprog : prog.Raises frame kind) :
    prog.Keeps frame :=
  fun profile state => (hprog profile state).mono (fun _ _ h => h)
    fun _ _ h => h.1

theorem Keeps.raises {prog : Program σ ε α} (hprog : prog.Keeps frame) :
    prog.Raises frame fun _ => True :=
  fun profile state => (hprog profile state).mono (fun _ _ h => h)
    fun _ _ h => ⟨h, trivial⟩

theorem Raises.pure (value : α) :
    (Pure.pure value : Program σ ε α).Raises frame kind :=
  fun _ state => Ensures.pure (frame.refl state)

theorem Raises.fail {error : ε} (herror : kind error) :
    (Program.fail error : Program σ ε α).Raises frame kind :=
  fun _ state => Ensures.fail ⟨frame.refl state, herror⟩

theorem Raises.read (project : σ → α) :
    (Program.read project : Program σ ε α).Raises frame kind :=
  fun _ state => Ensures.read (frame.refl state)

theorem Raises.check (value : Checked α) :
    (Program.check value : Program σ ε α).Raises frame kind :=
  fun _ state => Ensures.check fun _ _ => frame.refl state

theorem Raises.update {change : σ → σ}
    (hchange : ∀ state, frame.rel state (change state)) :
    (Program.update change : Program σ ε Unit).Raises frame kind :=
  fun _ state => Ensures.update (hchange state)

theorem Raises.bind {first : Program σ ε α} {next : α → Program σ ε β}
    (hfirst : first.Raises frame kind)
    (hnext : ∀ value, (next value).Raises frame kind) :
    (first >>= next).Raises frame kind := by
  intro profile state
  apply Ensures.bind
  refine (hfirst profile state).mono ?_ (fun _ _ h => h)
  intro value middle hmiddle
  exact (hnext value profile middle).mono
    (fun _ _ hrel => frame.trans hmiddle hrel)
    (fun _ _ h => ⟨frame.trans hmiddle h.1, h.2⟩)

theorem Raises.ite {condition : Prop} [Decidable condition]
    {yes no : Program σ ε α} (hyes : yes.Raises frame kind)
    (hno : no.Raises frame kind) :
    (if condition then yes else no).Raises frame kind := by
  split
  · exact hyes
  · exact hno

theorem Raises.mapError {relabel : ε' → ε} {body : Program σ ε' α}
    (hbody : body.Keeps frame) (hrelabel : ∀ error, kind (relabel error)) :
    (Program.mapError relabel body).Raises frame kind :=
  fun profile state => Ensures.mapError <|
    (hbody profile state).mono (fun _ _ h => h)
      fun error _ h => ⟨h, hrelabel error⟩

theorem Raises.zoom {project : σ → τ} {replace : τ → σ → σ}
    {inner : Frame τ} {body : Program τ ε α} (hbody : body.Raises inner kind)
    (hreplace : ∀ state part, inner.rel (project state) part →
      frame.rel state (replace part state)) :
    (Program.zoom project replace body).Raises frame kind :=
  fun profile state => Ensures.zoom <|
    (hbody profile (project state)).mono
      (fun _ part hrel => hreplace state part hrel)
      (fun _ part h => ⟨hreplace state part h.1, h.2⟩)

end Raises

/-- `prog` gets where `full` gets, or it panics. -/
def Approximates (prog full : Program σ ε α) : Prop :=
  ∀ profile state result, prog profile state = some result →
    full profile state = some result

section Approximates

theorem Approximates.refl (prog : Program σ ε α) : prog.Approximates prog :=
  fun _ _ _ h => h

theorem Approximates.bind {first first' : Program σ ε α}
    {next next' : α → Program σ ε β} (hfirst : first.Approximates first')
    (hnext : ∀ value, (next value).Approximates (next' value)) :
    (first >>= next).Approximates (first' >>= next') := by
  rintro profile state ⟨outcome, state'⟩ hrun
  rcases bind_cases hrun with
    ⟨error, herror, rfl⟩ | ⟨value, middle, hvalue, hrest⟩
  · exact bind_run_error (hfirst _ _ _ herror)
  · rw [bind_run_ok (hfirst _ _ _ hvalue)]
    exact hnext value _ _ _ hrest

theorem Approximates.ite {condition : Prop} [Decidable condition]
    {yes yes' no no' : Program σ ε α} (hyes : yes.Approximates yes')
    (hno : no.Approximates no') :
    (if condition then yes else no).Approximates
      (if condition then yes' else no') := by
  split
  · exact hyes
  · exact hno

end Approximates

end Program

end CheckedProgram
