import Deliberation.Proofs.Step.Structure
import Deliberation.Scorer

/-!
# The rules being scored

A rule goes on the stack of the rules being scored before its steps are scored and comes
off it behind them, so every scoring leaves the stack as it found it. All steps of a body
are then scored on one and the same stack, and so are all candidates of a proxy: their
scores can be read one by one.
-/

namespace Deliberation

set_option autoImplicit false

/-- Whatever rule is scored on this stack, the stack is the same behind it. -/
def Steady (scoreRule : Nat → Scoring Float) (active : List Nat) : Prop :=
  ∀ number, (scoreRule number active).2 = active

section Steps

variable {aggregation : Aggregation} {scoreRule : Nat → Scoring Float} {active : List Nat}

theorem Steady.candidates (steady : Steady scoreRule active) (numbers : List Nat) :
    scoreCandidates scoreRule numbers active =
      ((numbers.filter fun number => number ∉ active).map fun number =>
        (scoreRule number active).1, active) := by
  induction numbers with
  | nil => rfl
  | cons number rest ih =>
      rw [scoreCandidates]
      split
      next isActive => rw [List.filter_cons_of_neg (by simpa using isActive), ih]
      next fresh =>
        dsimp only
        rw [steady number, ih, List.filter_cons_of_pos (by simpa using fresh), List.map_cons]

theorem all_scores_of_kept {steps : List Step}
    (kept : ∀ step ∈ steps, (step.score aggregation scoreRule active).2 = active) :
    Step.allScores aggregation scoreRule steps active =
      (steps.map fun step => (step.score aggregation scoreRule active).1, active) := by
  induction steps with
  | nil => rfl
  | cons step rest ih =>
      obtain ⟨keptHere, keptRest⟩ := List.forall_mem_cons.mp kept
      rw [Step.allScores]
      dsimp only
      rw [keptHere, ih keptRest, List.map_cons]

theorem Steady.step (steady : Steady scoreRule active) (step : Step) :
    (step.score aggregation scoreRule active).2 = active := by
  revert step
  apply InductiveStepProperty.holds
  constructor
  case rule =>
    intro identifier steps kept
    rw [Step.score, all_scores_of_kept kept]
  case proxy =>
    intro target
    rw [Step.score, steady.candidates]
  case scripted =>
    intro script
    rw [Step.score]
    cases script.rating with
    | fixed score => rfl
    | ofRule number => exact steady number
  all_goals
    intros
    rw [Step.score]

theorem Steady.steps (steady : Steady scoreRule active) (steps : List Step) :
    Step.allScores aggregation scoreRule steps active =
      (steps.map fun step => (step.score aggregation scoreRule active).1, active) :=
  all_scores_of_kept fun step _ => steady.step step

theorem Steady.rule_step (steady : Steady scoreRule active) (identifier : Literal)
    (steps : List Step) :
    (Step.rule identifier steps).score aggregation scoreRule active =
      (aggregation.evaluate (steps.map fun step => (step.score aggregation scoreRule active).1),
        active) := by
  rw [Step.score, steady.steps]

theorem Steady.proxy_step (steady : Steady scoreRule active) (target : Proxy) :
    (Step.proxy target).score aggregation scoreRule active =
      (aggregation.evaluate ((target.candidates.filter fun number => number ∉ active).map
        fun number => (scoreRule number active).1), active) := by
  rw [Step.score, steady.candidates]

/-- What the steps are worth depends on the rules scored on this stack alone. -/
theorem Steady.step_congr {other : Nat → Scoring Float} (steady : Steady scoreRule active)
    (alike : ∀ number, other number active = scoreRule number active) (step : Step) :
    step.score aggregation other active = step.score aggregation scoreRule active := by
  have steadyOther : Steady other active := fun number => by rw [alike, steady]
  revert step
  apply InductiveStepProperty.holds
  constructor
  case rule =>
    intro identifier steps sameSteps
    rw [steady.rule_step, steadyOther.rule_step]
    refine congrArg (fun scores => (aggregation.evaluate scores, active)) ?_
    exact List.map_congr_left fun step member => congrArg Prod.fst (sameSteps step member)
  case proxy =>
    intro target
    rw [steady.proxy_step, steadyOther.proxy_step]
    simp only [alike]
  case scripted =>
    intro script
    rw [Step.score, Step.score]
    cases script.rating with
    | fixed score => rfl
    | ofRule number => exact alike number
  all_goals
    intros
    rw [Step.score, Step.score]

end Steps

namespace RuleSet

variable (set : RuleSet) (aggregation : Aggregation)

/-- Scoring within any nesting takes off the stack what it puts on it. -/
theorem score_within_steady (nesting : Nat) (active : List Nat) :
    Steady (set.scoreWithin aggregation nesting) active := by
  induction nesting generalizing active with
  | zero => exact fun number => rfl
  | succ nesting ih =>
      intro number
      rw [scoreWithin]
      split
      next => rfl
      next rule _ =>
        split
        next => rfl
        next =>
          rw [(ih (number :: active)).steps]
          dsimp only
          rw [List.erase_cons_head]

variable {set} {number : Nat} {active : List Nat}

theorem score_within_unknown (missing : set.rule? number = none) (nesting : Nat) :
    set.scoreWithin aggregation nesting number active = (0, active) := by
  cases nesting with
  | zero => rfl
  | succ nesting => rw [scoreWithin, missing]

theorem score_within_active (isActive : number ∈ active) (nesting : Nat) :
    set.scoreWithin aggregation nesting number active = (0, active) := by
  cases nesting with
  | zero => rfl
  | succ nesting =>
      rw [scoreWithin]
      split
      next => rfl
      next => rw [if_pos isActive]

/-- A rule that is entered is worth what its steps are worth with it on the stack. -/
theorem score_within_entered {rule : Rule} (found : set.rule? number = some rule)
    (fresh : number ∉ active) (nesting : Nat) :
    set.scoreWithin aggregation (nesting + 1) number active =
      (aggregation.evaluate (rule.steps.map fun step =>
        (step.score aggregation (set.scoreWithin aggregation nesting) (number :: active)).1),
        active) := by
  rw [scoreWithin, found]
  dsimp only
  rw [if_neg fresh, (set.score_within_steady aggregation nesting (number :: active)).steps]
  dsimp only
  rw [List.erase_cons_head]

end RuleSet

end Deliberation
