import Deliberation.Proofs.Step.Structure
import Deliberation.Step.Run

/-!
# What one step of a body does

The run of a body is opened here once, at its first step: a fault ends it, so
does a false truth, and otherwise the rest runs after the truths so far.
-/

namespace Deliberation

set_option autoImplicit false

namespace Step

variable (call : Proxy → Action)

theorem run_all_nil (truth : Truth) (state : State) (outcome : Outcome) (after : State) :
    Step.runAll call [] truth state = some (outcome, after) ↔
      outcome = .ok truth ∧ after = state := by
  rw [Step.runAll]
  simp only [Option.some.injEq, Prod.mk.injEq]
  exact and_congr eq_comm eq_comm

theorem run_all_cons (step : Step) (rest : List Step) (truth : Truth) (state : State)
    (outcome : Outcome) (after : State) :
    Step.runAll call (step :: rest) truth state = some (outcome, after) ↔
      (∃ fault, step.run call state = some (.error fault, after) ∧ outcome = .error fault) ∨
      (∃ next, step.run call state = some (.ok next, after) ∧ (truth * next).value = false ∧
        outcome = .ok (truth * next)) ∨
      ∃ next between, step.run call state = some (.ok next, between) ∧
        (truth * next).value = true ∧
        Step.runAll call rest (truth * next) between = some (outcome, after) := by
  constructor
  · intro ended
    rw [Step.runAll] at ended
    split at ended
    next => simp at ended
    next fault between found =>
      obtain ⟨rfl, rfl⟩ := Prod.mk.inj (Option.some.inj ended)
      exact .inl ⟨fault, found, rfl⟩
    next next between found =>
      split at ended
      next holds => exact .inr (.inr ⟨next, between, found, holds, ended⟩)
      next fails =>
        obtain ⟨rfl, rfl⟩ := Prod.mk.inj (Option.some.inj ended)
        exact .inr (.inl ⟨next, found, (Bool.not_eq_true _).mp fails, rfl⟩)
  · intro told
    rcases told with ⟨fault, found, rfl⟩ | ⟨next, found, fails, rfl⟩ |
      ⟨next, between, found, holds, ended⟩
    · rw [Step.runAll, found]
    · rw [Step.runAll, found]
      simp [fails]
    · rw [Step.runAll, found]
      simp [holds, ended]

end Step

end Deliberation
