import Nanoemu.Step

/-!
# The loop around the step

`run` steps until the payload reports through `tohost`, the guest powers off or
a trap has no handler to go to.
-/

namespace Nanoemu

open CheckedProgram

/-- Why a program stopped. -/
inductive Exit where
  /-- The payload wrote 1 to `tohost`. -/
  | pass
  /-- The payload wrote `(n << 1) | 1`. -/
  | fail (n : BitVec 64)
  /-- An ECALL with no `tohost` symbol to interpret it. -/
  | ecall
  /-- A trap was raised with no handler installed. -/
  | unhandledTrap (e : Exception)
  /-- Ran past the step budget. -/
  | stepLimit
  /-- The guest asked the firmware to power off. -/
  | shutdown
deriving DecidableEq, Repr

/-- Bit 0 set means "terminate"; the rest is the payload's status. -/
def Exit.ofTohost (v : BitVec 64) : Exit :=
  if v >>> 1 = 0 then .pass else .fail (v >>> 1)

/-- The word the payload wrote, where the exit says so. -/
def Exit.written : Exit → Option (BitVec 64)
  | .pass => some 1
  | .fail n => some ((n <<< 1) ||| 1)
  | _ => none

theorem Exit.written_ofTohost {v : BitVec 64} (hodd : v &&& 1 = 1) :
    (Exit.ofTohost v).written = some v := by
  have hjoin : (v >>> 1) <<< 1 ||| 1 = v := by
    apply BitVec.eq_of_getLsbD_eq
    intro i hi
    have hlow : v.getLsbD 0 = true := by
      have hbit := congrArg (fun word : BitVec 64 => word.getLsbD 0) hodd
      simpa using hbit
    cases i with
    | zero => simp [hlow]
    | succ i => simp [hi, Nat.add_comm 1 i]
  unfold ofTohost
  split
  · next hzero =>
      rw [hzero] at hjoin
      rw [← hjoin]
      rfl
  · exact congrArg some hjoin

namespace Cpu

/-- Whether a trap would vector to address zero.  Under SBI the vector that
matters is the supervisor's. -/
def noHandler (c : Cpu) : Bool :=
  c.csrs.read (if c.sbi then Csr.STVEC else Csr.MTVEC) == 0

/-- What the outcome of a step ends the run with, when nothing was reported. -/
def stopping (c : Cpu) : Except Exception Unit → Option Exit
  | .ok () => none
  | .error e =>
      if e = .environmentCall ∧ !c.sbi ∧ c.mem.tohost.isNone then some .ecall
      else if c.noHandler then some (.unhandledTrap e)
      else none

def clearTohost (c : Cpu) : Cpu :=
  { c with mem := { c.mem with tohostValue := none } }

def turn : Hart (Option Exit) := do
  let result : Except Exception Unit ← Program.attempt step
  let c ← Program.read id
  if c.shutdown then pure (some .shutdown)
  else
    match c.mem.tohostValue with
    | some v =>
        if v &&& 1 = 1 then pure (some (Exit.ofTohost v))
        else do
          -- An even value is a syscall request, which bare tests do not use.
          Program.update clearTohost
          pure (c.stopping result)
    | none => pure (c.stopping result)

/-- Steps until the program stops, for at most `maxSteps` instructions. -/
def run : (maxSteps : ℕ) → Hart Exit
  | 0 => pure .stepLimit
  | remaining + 1 => do
      match ← turn with
      | some exit => pure exit
      | none => run remaining

/-- The states the steps of a run set out from. -/
def heads (profile : Profile) : (maxSteps : ℕ) → Cpu → List Cpu
  | 0, _ => []
  | remaining + 1, c =>
      c :: match turn profile c with
        | some (.ok none, c') => heads profile remaining c'
        | _ => []

/-! ## The turns of a run -/

variable {profile : Profile} {c c' : Cpu}

theorem run_succ_ok {remaining : ℕ} {exit : Exit}
    (hrun : run (remaining + 1) profile c = some (.ok exit, c')) :
    turn profile c = some (.ok (some exit), c') ∨
      ∃ c₁, turn profile c = some (.ok none, c₁) ∧
        run remaining profile c₁ = some (.ok exit, c') := by
  obtain ⟨result, c₁, hturn, hrest⟩ := Program.bind_ok hrun
  cases result with
  | some ended =>
      cases hrest
      exact Or.inl hturn
  | none => exact Or.inr ⟨c₁, hturn, hrest⟩

theorem heads_succ_none {remaining : ℕ} {c₁ : Cpu}
    (hturn : turn profile c = some (.ok none, c₁)) :
    heads profile (remaining + 1) c = c :: heads profile remaining c₁ := by
  simp only [heads, hturn]

theorem mem_heads_succ {remaining : ℕ} {x : Cpu}
    (hmem : x ∈ heads profile (remaining + 1) c) :
    x = c ∨ ∃ c₁, turn profile c = some (.ok none, c₁) ∧
      x ∈ heads profile remaining c₁ := by
  unfold heads at hmem
  rcases List.mem_cons.mp hmem with rfl | hrest
  · exact Or.inl rfl
  · split at hrest
    · next c₁ hturn => exact Or.inr ⟨c₁, hturn, hrest⟩
    · cases hrest

/-- A turn takes a step; it ends with the value that was reported, or with
nothing reported in a hart that is otherwise as the step left it. -/
theorem turn_cases {stop : Option Exit}
    (hturn : turn profile c = some (.ok stop, c')) :
    ∃ outcome c₁, step profile c = some (outcome, c₁) ∧
      (stop = some .shutdown ∧ c' = c₁ ∨
        (∃ v, c₁.mem.tohostValue = some v ∧ v &&& 1 = 1 ∧
          stop = some (Exit.ofTohost v) ∧ c' = c₁) ∨
        stop = c₁.stopping outcome ∧ c' = c₁.clearTohost) := by
  rw [turn] at hturn
  rcases hstep : step profile c with _ | ⟨outcome, c₁⟩
  · rw [Program.bind_run_none (Program.attempt_run_none hstep)] at hturn
    cases hturn
  · rw [Program.bind_run_ok (Program.attempt_run_some hstep),
      Program.bind_run_ok (Program.read_run _ _ _), id,
      Program.ite_run] at hturn
    refine ⟨outcome, c₁, rfl, ?_⟩
    by_cases hshutdown : c₁.shutdown = true
    · rw [if_pos hshutdown] at hturn
      cases hturn
      exact Or.inl ⟨rfl, rfl⟩
    rw [if_neg hshutdown] at hturn
    cases hvalue : c₁.mem.tohostValue with
    | none =>
        simp only [hvalue, Program.pure_run, Option.some.injEq, Prod.mk.injEq,
          Except.ok.injEq] at hturn
        have hclear : c₁.clearTohost = c₁ := by
          unfold clearTohost
          rw [← hvalue]
        exact Or.inr (Or.inr ⟨hturn.1.symm, by rw [hclear, hturn.2]⟩)
    | some v =>
        simp only [hvalue, Program.ite_run] at hturn
        by_cases hodd : v &&& 1 = 1
        · rw [if_pos hodd] at hturn
          cases hturn
          exact Or.inr (Or.inl ⟨v, rfl, hodd, rfl, rfl⟩)
        · rw [if_neg hodd] at hturn
          cases hturn
          exact Or.inr (Or.inr ⟨rfl, rfl⟩)

theorem stopping_cases {outcome : Except Exception Unit} {exit : Exit}
    (hstop : c.stopping outcome = some exit) :
    exit = .ecall ∨ ∃ e, exit = .unhandledTrap e := by
  unfold stopping at hstop
  cases outcome with
  | ok value => cases hstop
  | error e =>
      simp only at hstop
      split_ifs at hstop
      · exact Or.inl (Option.some.inj hstop).symm
      · exact Or.inr ⟨e, (Option.some.inj hstop).symm⟩

end Cpu

end Nanoemu
