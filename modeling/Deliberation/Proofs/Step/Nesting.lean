import Deliberation.Agent
import Deliberation.Proofs.Truth
import Mathlib.Tactic.SplitIfs

/-!
# Bodies within bodies

A body in two parts runs the second behind the first, unless that ends false or with a
fault. The truth before a body is a factor of what the body ends with and does not change
its course, as long as it is true. So a rule that stands in a body does what its steps would
do in its place.
-/

namespace Deliberation

set_option autoImplicit false

/-- Goes on behind what has ended true. -/
def proceed (behind : Truth → Action) (ended : Outcome × State) : Option (Outcome × State) :=
  match ended.1 with
  | .error _ => some ended
  | .ok truth => if truth.value then behind truth ended.2 else some ended

/-- A true truth is no factor of the value. -/
theorem Truth.mul_value {truth : Truth} (holds : truth.value = true) (next : Truth) :
    (truth * next).value = next.value := by
  change (truth.value && next.value) = next.value
  rw [holds, Bool.true_and]

namespace Step

variable (call : Proxy → Action)

theorem run_all_append (before behind : List Step) {truth : Truth} (holds : truth.value = true)
    (state : State) :
    Step.runAll call (before ++ behind) truth state =
      (Step.runAll call before truth state).bind (proceed (Step.runAll call behind)) := by
  induction before generalizing truth state with
  | nil =>
      rw [Step.runAll, List.nil_append, Option.bind_some, proceed]
      exact (if_pos holds).symm
  | cons step rest ih =>
      rw [List.cons_append, Step.runAll, Step.runAll]
      cases step.run call state with
      | none => rfl
      | some ending =>
          rcases ending with ⟨fault | next, after⟩
          · rfl
          · dsimp only
            split_ifs with goesOn
            · exact ih goesOn after
            · rw [Option.bind_some, proceed]
              exact (if_neg goesOn).symm

/-- The truth before a body is a factor of what it ends with. -/
theorem run_all_factor (steps : List Step) {truth : Truth} (holds : truth.value = true)
    (started : Truth) (state : State) :
    Step.runAll call steps (truth * started) state =
      (Step.runAll call steps started state).map fun ended =>
        (ended.1.map (truth * ·), ended.2) := by
  induction steps generalizing started state with
  | nil =>
      rw [Step.runAll, Step.runAll]
      rfl
  | cons step rest ih =>
      rw [Step.runAll, Step.runAll]
      cases step.run call state with
      | none => rfl
      | some ending =>
          rcases ending with ⟨fault | next, after⟩
          · rfl
          · dsimp only
            rw [Truth.mul_assoc, Truth.mul_value holds, ih]
            split_ifs <;> rfl

/-- A rule at the head of what is left of a body gives way to its steps. -/
theorem run_all_nested (inner : Literal) (within behind : List Step) {truth : Truth}
    (holds : truth.value = true) (state : State) :
    Step.runAll call (.rule inner within :: behind) truth state =
      Step.runAll call (within ++ behind) truth state := by
  have started := run_all_factor call within holds Truth.one state
  rw [Truth.mul_one] at started
  rw [run_all_append call within behind holds, started, Step.runAll, Step.run]
  cases Step.runAll call within Truth.one state with
  | none => rfl
  | some ending => rcases ending with ⟨fault | next, after⟩ <;> rfl

end Step

end Deliberation
