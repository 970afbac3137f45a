import Nanoemu.StepCourse

/-!
# What a run has done

Whether a step retires an instruction, and which one, is settled by the state
it sets out from.  A run that remembers these states has its history.
-/

namespace Nanoemu

open CheckedProgram

namespace Cpu

/-- The instruction that the step from `c` retires, if it retires one. -/
def retiredInst (profile : Profile) (c : Cpu) : Option (BitVec 32) :=
  match c.ticked.pendingInterrupt, fetch profile c.fetching with
  | none, some (.ok (inst, len), c₁) =>
      match execute inst c.ticked.pc (c₁.pc + len) profile c₁ with
      | some (.ok _, _) => some inst
      | _ => none
  | _, _ => none

variable {profile : Profile} {c c' : Cpu} {outcome : Except Exception Unit}

/-- The run of an instruction that retires. -/
structure Retires (profile : Profile) (c : Cpu) (inst : BitVec 32)
    (len : BitVec 64) (c₁ c₂ : Cpu) : Prop where
  pending : c.ticked.pendingInterrupt = none
  fetched : fetch profile c.fetching = some (.ok (inst, len), c₁)
  executed : execute inst c.ticked.pc (c₁.pc + len) profile c₁ =
    some (.ok (), c₂)

theorem Retires.retiredInst {inst : BitVec 32} {len : BitVec 64}
    {c₁ c₂ : Cpu} (h : Retires profile c inst len c₁ c₂) :
    c.retiredInst profile = some inst := by
  simp only [Cpu.retiredInst, h.pending, h.fetched, h.executed]

theorem retiredInst_of_error {e : Exception} {c₁ : Cpu}
    (hfail : fetchExecute c.ticked.pc profile c.fetching =
      some (.error e, c₁)) : c.retiredInst profile = none := by
  cases hpending : c.ticked.pendingInterrupt with
  | some cause => simp only [retiredInst, hpending]
  | none =>
      rcases Program.bind_cases hfail with
        ⟨_, hfetch, -⟩ | ⟨fetched, c₂, hfetch, hexecute⟩
      · simp only [retiredInst, hpending, hfetch]
      · have hexecute : execute fetched.1 c.ticked.pc (c₂.pc + fetched.2)
            profile c₂ = some (.error e, c₁) := hexecute
        simp only [retiredInst, hpending, hfetch, hexecute]

theorem step_retires {inst : BitVec 32}
    (hstep : step profile c = some (outcome, c'))
    (hretired : c.retiredInst profile = some inst) :
    ∃ len c₁ c₂, Retires profile c inst len c₁ c₂ ∧ c' = c₂.retire := by
  cases step_course hstep with
  | interrupt hpending _ =>
      simp only [retiredInst, hpending] at hretired
      cases hretired
  | retired hpending hfetch hexecute =>
      have hretires := Retires.mk hpending hfetch hexecute
      obtain rfl := Option.some.inj (hretires.retiredInst.symm.trans hretired)
      exact ⟨_, _, _, hretires, rfl⟩
  | answered _ hfail _ _ =>
      cases (retiredInst_of_error hfail).symm.trans hretired
  | exception _ hfail _ _ =>
      cases (retiredInst_of_error hfail).symm.trans hretired

theorem step_idle (hstep : step profile c = some (outcome, c'))
    (hnone : c.retiredInst profile = none) :
    (∃ x cause tval isInterrupt, Reached c x ∧
      takeTrap cause tval c.ticked.pc isInterrupt profile x =
        some (.ok (), c')) ∨
    ∃ x, Reached c x ∧ answerCall profile x = some (.ok (), c') := by
  cases step_course hstep with
  | interrupt _ htrap => exact Or.inl ⟨_, _, _, _, Reached.refl c, htrap⟩
  | retired hpending hfetch hexecute =>
      have hretires := Retires.mk hpending hfetch hexecute
      cases hnone.symm.trans hretires.retiredInst
  | answered _ hfail _ hanswer =>
      exact Or.inr ⟨_, fetchExecute_reached hfail, hanswer⟩
  | exception _ hfail _ htrap =>
      exact Or.inl ⟨_, _, _, _, fetchExecute_reached hfail, htrap⟩

/-- A run with the states its steps set out from, the latest first. -/
inductive History (profile : Profile) (c₀ : Cpu) : List Cpu → Cpu → Prop where
  | start : History profile c₀ [] c₀
  | step {past : List Cpu} {c c' : Cpu} {outcome : Except Exception Unit} :
      History profile c₀ past c → Cpu.step profile c = some (outcome, c') →
      History profile c₀ (c :: past) c'
  | input {past : List Cpu} {c : Cpu} (bytes : List (BitVec 8)) :
      History profile c₀ past c → History profile c₀ past (c.pushInput bytes)

theorem History.run {c₀ : Cpu} {past : List Cpu}
    (h : History profile c₀ past c) : Run profile (fun _ => True) c₀ c := by
  induction h with
  | start => exact .refl trivial
  | step _ hstep ih => exact ih.tail (.step hstep) trivial
  | input bytes _ ih => exact ih.tail (.input bytes) trivial

/-- What the start has, and every step that meets a condition and every input
keep, holds all along a run whose steps meet the condition. -/
theorem History.invariant {c₀ : Cpu} {past : List Cpu} {P Q : Cpu → Prop}
    (hrun : History profile c₀ past c) (hstart : P c₀)
    (hstep : ∀ {x x' : Cpu} {outcome : Except Exception Unit}, P x → Q x →
      Cpu.step profile x = some (outcome, x') → P x')
    (hinput : ∀ {x : Cpu} (bytes : List (BitVec 8)), P x →
      P (x.pushInput bytes))
    (hpast : ∀ x ∈ past, Q x) : P c ∧ ∀ x ∈ past, P x := by
  induction hrun with
  | start => exact ⟨hstart, List.forall_mem_nil P⟩
  | @step past x c' outcome _ hnext ih =>
      rw [List.forall_mem_cons] at hpast
      obtain ⟨hlast, hbefore⟩ := ih hpast.2
      exact ⟨hstep hlast hpast.1 hnext, List.forall_mem_cons.mpr
        ⟨hlast, hbefore⟩⟩
  | input bytes _ ih =>
      obtain ⟨hlast, hbefore⟩ := ih hpast
      exact ⟨hinput bytes hlast, hbefore⟩

end Cpu

end Nanoemu
