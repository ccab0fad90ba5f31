import Deliberation.Step.Basic

/-!
# Induction over steps

Guards and the bodies of rules that are steps are steps in turn. The principle
has one case for each kind of step; a body comes with the property of each of
its members. A check of single steps is made throughout a step by looking into
its guard and its body as well.
-/

namespace Deliberation

set_option autoImplicit false

/-- What a property of steps has to satisfy at each kind of step. -/
structure InductiveStepProperty (onStep : Step → Prop) : Prop where
  raw : ∀ term, onStep (.raw term)
  belief : ∀ change literal, onStep (.belief change literal)
  query : ∀ goal, onStep (.test goal none)
  guarded : ∀ goal guard, onStep guard → onStep (.test goal (some guard))
  call : ∀ literal, onStep (.call literal)
  expression : ∀ body, onStep (.expression body)
  increment : ∀ direction name, onStep (.increment direction name)
  rule : ∀ identifier steps, (∀ step ∈ steps, onStep step) → onStep (.rule identifier steps)
  proxy : ∀ target, onStep (.proxy target)
  scripted : ∀ script, onStep (.scripted script)

namespace InductiveStepProperty

variable {onStep : Step → Prop}

mutual

theorem holds (property : InductiveStepProperty onStep) : (step : Step) → onStep step
  | .raw term => property.raw term
  | .belief change literal => property.belief change literal
  | .test goal none => property.query goal
  | .test goal (some guard) => property.guarded goal guard (holds property guard)
  | .call literal => property.call literal
  | .expression body => property.expression body
  | .increment direction name => property.increment direction name
  | .rule identifier steps => property.rule identifier steps (holds_of_steps property steps)
  | .proxy target => property.proxy target
  | .scripted script => property.scripted script

theorem holds_of_steps (property : InductiveStepProperty onStep) :
    (steps : List Step) → ∀ step ∈ steps, onStep step
  | [], _, member => absurd member List.not_mem_nil
  | head :: rest, step, member =>
      (List.mem_cons.mp member).elim (fun same => same ▸ holds property head)
        (holds_of_steps property rest step)

end

end InductiveStepProperty

mutual

/-- Whether a check passes at a step and at all steps within it. -/
def Step.throughout (check : Step → Bool) : Step → Bool
  | .test goal (some guard) => check (.test goal (some guard)) && guard.throughout check
  | .rule identifier steps => check (.rule identifier steps) && Step.allThroughout check steps
  | step => check step

def Step.allThroughout (check : Step → Bool) : List Step → Bool
  | [] => true
  | step :: rest => step.throughout check && Step.allThroughout check rest

end

theorem Step.all_throughout_iff (check : Step → Bool) (steps : List Step) :
    Step.allThroughout check steps = true ↔ ∀ step ∈ steps, step.throughout check = true := by
  induction steps with
  | nil => simp [Step.allThroughout]
  | cons step rest ih => simp [Step.allThroughout, ih]

theorem Step.throughout_guarded_iff (check : Step → Bool) (goal : Literal) (guard : Step) :
    (Step.test goal (some guard)).throughout check = true ↔
      check (.test goal (some guard)) = true ∧ guard.throughout check = true := by
  rw [Step.throughout, Bool.and_eq_true]

theorem Step.throughout_rule_iff (check : Step → Bool) (identifier : Literal)
    (steps : List Step) :
    (Step.rule identifier steps).throughout check = true ↔
      check (.rule identifier steps) = true ∧ ∀ step ∈ steps, step.throughout check = true := by
  rw [Step.throughout, Bool.and_eq_true, Step.all_throughout_iff]

theorem Step.check_of_throughout {check : Step → Bool} {step : Step}
    (passes : step.throughout check = true) : check step = true := by
  unfold Step.throughout at passes
  split at passes
  · exact (Bool.and_eq_true_iff.mp passes).1
  · exact (Bool.and_eq_true_iff.mp passes).1
  · exact passes

end Deliberation
