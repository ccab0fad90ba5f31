import Deliberation.Proofs.Match.Query
import Deliberation.Proofs.Step.Body

/-!
# Linked steps raise no fault but those of evaluation

A step is linked when no call waits for linking in it, in its guards or in its body.
Expressions and counters are then all that raises a fault, unless a call that the step
makes raises another.
-/

namespace Deliberation

set_option autoImplicit false

mutual

def Step.isLinked : Step → Bool
  | .raw _ => true
  | .belief _ _ => true
  | .test _ none => true
  | .test _ (some guard) => guard.isLinked
  | .call _ => false
  | .expression _ => true
  | .increment _ _ => true
  | .rule _ steps => Step.allLinked steps
  | .proxy _ => true
  | .scripted _ => true

def Step.allLinked : List Step → Bool
  | [] => true
  | step :: rest => step.isLinked && Step.allLinked rest

end

theorem Step.all_linked_iff (steps : List Step) :
    Step.allLinked steps = true ↔ ∀ step ∈ steps, step.isLinked = true := by
  induction steps with
  | nil => simp [Step.allLinked]
  | cons step rest ih => simp [Step.allLinked, ih]

/-- The fault comes from an expression or a counter. -/
def Fault.isEvaluation : Fault → Bool
  | .evaluation _ _ => true
  | .unlinked _ => false
  | .unknownRule _ => false

def FaultsByEvaluation (action : Action) : Prop :=
  ∀ state fault after, action state = some (.error fault, after) → fault.isEvaluation = true

theorem run_raw_faults (term : Term) : FaultsByEvaluation (runRaw term) := by
  intro state fault after ended
  unfold runRaw at ended
  split at ended
  case h_4 | h_5 => split at ended <;> simp at ended
  all_goals simp at ended

theorem run_expression_faults (body : Expression) : FaultsByEvaluation (runExpression body) := by
  intro state fault after ended
  unfold runExpression at ended
  split at ended
  next => simp at ended
  next problem _ =>
    obtain ⟨isFault, _⟩ := Prod.mk.inj (Option.some.inj ended)
    rw [← Except.error.inj isFault]
    rfl

theorem run_increment_faults (direction : Increment) (name : String) :
    FaultsByEvaluation (runIncrement direction name) := by
  intro state fault after ended
  unfold runIncrement at ended
  split at ended
  next => simp at ended
  next problem _ =>
    obtain ⟨isFault, _⟩ := Prod.mk.inj (Option.some.inj ended)
    rw [← Except.error.inj isFault]
    rfl

/-- A query faults only where a trial of its guard does. -/
theorem unify_faults {goal : Literal} {guard : Option Action}
    (guarded : ∀ action ∈ guard, FaultsByEvaluation action) :
    FaultsByEvaluation (unify goal guard) := by
  intro state fault after ended
  obtain ⟨choice, mind, selected, answered⟩ := (unify_eq_some_iff ..).mp ended
  rcases choice with problem | _ | winner
  · have isFault : Except.error problem = (Except.error fault : Outcome) :=
      congrArg Prod.fst answered
    rw [← Except.error.inj isFault]
    cases guard with
    | none => simp [select] at selected
    | some action =>
        obtain ⟨_, _, trial⟩ := ((select_guarded_iff ..).mp selected).fault_of_trial
        exact guarded action rfl _ _ _ trial
  · simp [State.answered] at answered
  · simp [State.answered] at answered

section Bodies

variable {call : Proxy → Action}

theorem run_all_faults {steps : List Step}
    (members : ∀ step ∈ steps, FaultsByEvaluation (step.run call)) (truth : Truth) :
    FaultsByEvaluation (Step.runAll call steps truth) := by
  intro state fault after ended
  induction steps generalizing truth state with
  | nil => simp [Step.run_all_nil] at ended
  | cons step rest ih =>
      have head := members step List.mem_cons_self
      rcases (Step.run_all_cons ..).mp ended with ⟨raised, found, isFault⟩ | ⟨_, _, _, isTruth⟩ |
        ⟨_, _, _, _, ended⟩
      · rw [Except.error.inj isFault]
        exact head _ _ _ found
      · simp at isTruth
      · exact ih (fun other member => members other (List.mem_cons_of_mem step member)) _ _ ended

/-- A linked step faults by evaluation only if its calls do. -/
theorem step_faults (calls : ∀ target, FaultsByEvaluation (call target)) (step : Step)
    (linked : step.isLinked = true) : FaultsByEvaluation (step.run call) := by
  revert step
  apply InductiveStepProperty.holds
  constructor
  case raw =>
    intro term _ state fault after ended
    rw [Step.run] at ended
    exact run_raw_faults term state fault after ended
  case belief =>
    intro change literal _ state fault after ended
    simp [Step.run, runBelief] at ended
  case query =>
    intro goal _ state fault after ended
    rw [Step.run] at ended
    exact unify_faults (by simp) state fault after ended
  case guarded =>
    intro goal guard ih linked state fault after ended
    rw [Step.run] at ended
    have guarded : ∀ action ∈ some (guard.run call), FaultsByEvaluation action := by
      intro action isGuard
      rw [← Option.some.inj isGuard]
      exact ih linked
    exact unify_faults guarded state fault after ended
  case call =>
    intro literal linked
    simp [Step.isLinked] at linked
  case expression =>
    intro body _ state fault after ended
    rw [Step.run] at ended
    exact run_expression_faults body state fault after ended
  case increment =>
    intro direction name _ state fault after ended
    rw [Step.run] at ended
    exact run_increment_faults direction name state fault after ended
  case rule =>
    intro identifier steps ih linked state fault after ended
    rw [Step.run] at ended
    rw [Step.isLinked, Step.all_linked_iff] at linked
    have members : ∀ step ∈ steps, FaultsByEvaluation (step.run call) :=
      fun step member => ih step member (linked step member)
    exact run_all_faults members Truth.one state fault after ended
  case proxy =>
    intro target _ state fault after ended
    rw [Step.run] at ended
    exact calls target state fault after ended
  case scripted =>
    intro script _ state fault after ended
    simp [Step.run, runScript] at ended

end Bodies

end Deliberation
