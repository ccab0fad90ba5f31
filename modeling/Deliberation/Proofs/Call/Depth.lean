import Deliberation.Proofs.Call.Candidates
import Deliberation.Proofs.Match.Selection
import Deliberation.Proofs.Step.Body

/-!
# Runs do not depend on the depth granted to them

A run that ends at some depth of calls ends alike at every greater depth. So the
runs of an agent are told without a depth: a step ends with an outcome when it
does so at some depth, and it has one such end at most.
-/

namespace Deliberation

set_option autoImplicit false

/-- The larger function answers wherever the smaller one does, and alike. -/
def Extends {Input Answer : Type} (smaller larger : Input → Option Answer) : Prop :=
  ∀ input answer, smaller input = some answer → larger input = some answer

theorem Refuses.mono {runs more : Runs} {frame : Frame} {sets : List Bindings}
    {mind last : Mind} (weaker : ∀ state outcome after, runs state outcome after →
      more state outcome after) (refused : Refuses runs frame sets mind last) :
    Refuses more frame sets mind last := by
  induction refused with
  | nothing mind => exact .nothing mind
  | next ended refused _ ih => exact .next (weaker _ _ _ ended) refused ih

theorem Chooses.mono {runs more : Runs} {frame : Frame} {sets : List Bindings}
    {mind last : Mind} {choice : Except Fault (Option Bindings)}
    (weaker : ∀ state outcome after, runs state outcome after → more state outcome after)
    (chosen : Chooses runs frame sets mind choice last) :
    Chooses more frame sets mind choice last := by
  cases chosen with
  | winner refused ended accepted =>
      exact .winner (refused.mono weaker) (weaker _ _ _ ended) accepted
  | faulted refused ended => exact .faulted (refused.mono weaker) (weaker _ _ _ ended)
  | exhausted refused => exact .exhausted (refused.mono weaker)

theorem select_guarded_extends {smaller larger : Action} (guards : Extends smaller larger)
    (frame : Frame) (sets : List Bindings) :
    Extends (selectGuarded smaller frame sets) (selectGuarded larger frame sets) := by
  intro mind answer selected
  rcases answer with ⟨choice, last⟩
  rw [select_guarded_iff] at selected ⊢
  exact selected.mono fun state outcome after ended => guards state (outcome, after) ended

theorem unify_extends {smaller larger : Action} (guards : Extends smaller larger)
    (goal : Literal) :
    Extends (unify goal (some smaller)) (unify goal (some larger)) := by
  intro state answer ended
  have selection := select_guarded_extends guards state.frame
    (state.mind.beliefs.bindingSets (state.frame.instantiate goal)) state.mind
  simp only [unify, select] at ended ⊢
  cases found : selectGuarded smaller state.frame
      (state.mind.beliefs.bindingSets (state.frame.instantiate goal)) state.mind with
  | none =>
      rw [found] at ended
      simp at ended
  | some selected =>
      rw [selection selected found]
      rw [found] at ended
      exact ended

section Calls

variable {smaller larger : Proxy → Action}
  (calls : ∀ target, Extends (smaller target) (larger target))

include calls

theorem step_run_extends (step : Step) : Extends (step.run smaller) (step.run larger) := by
  revert step
  apply InductiveStepProperty.holds
  constructor
  case guarded =>
    intro goal guard ih state answer ended
    rw [Step.run] at ended ⊢
    exact unify_extends ih goal state answer ended
  case proxy =>
    intro target state answer ended
    rw [Step.run] at ended ⊢
    exact calls target state answer ended
  case rule =>
    intro identifier steps ih state answer ended
    rw [Step.run] at ended ⊢
    generalize Truth.one = truth at ended ⊢
    rcases answer with ⟨outcome, after⟩
    induction steps generalizing truth state with
    | nil => exact ended
    | cons step rest tailIh =>
        have head := ih step List.mem_cons_self
        have tail := tailIh fun other member => ih other (List.mem_cons_of_mem _ member)
        rw [Step.run_all_cons] at ended ⊢
        rcases ended with ⟨fault, found, isFault⟩ | ⟨next, found, fails, isFalse⟩ |
          ⟨next, between, found, holds, ended⟩
        · exact .inl ⟨fault, head _ _ found, isFault⟩
        · exact .inr (.inl ⟨next, head _ _ found, fails, isFalse⟩)
        · exact .inr (.inr ⟨next, between, head _ _ found, holds, tail _ _ ended⟩)
  all_goals
    intros
    intro state answer ended
    rw [Step.run] at ended ⊢
    exact ended

theorem candidate_run_extends (candidate : Candidate) :
    Extends (candidate.run smaller) (candidate.run larger) := by
  intro mind answer ended
  rcases answer with ⟨result, last⟩
  have bodies := step_run_extends calls candidate.body (candidate.entry mind)
  cases result with
  | error fault =>
      rw [Candidate.run_error_iff] at ended ⊢
      rcases ended with ⟨after, found, isLast⟩
      exact ⟨after, bodies _ found, isLast⟩
  | ok completed =>
      rw [Candidate.run_ok_iff] at ended ⊢
      rcases ended with ⟨truth, after, found, isCompleted, isLast⟩
      exact ⟨truth, after, bodies _ found, isCompleted, isLast⟩

theorem run_first_extends (candidates : List Candidate) :
    Extends (runFirst smaller candidates) (runFirst larger candidates) := by
  intro state answer ended
  rcases answer with ⟨outcome, after⟩
  induction candidates generalizing state with
  | nil => exact ended
  | cons candidate rest ih =>
      have head := candidate_run_extends calls candidate state.mind
      rw [run_first_cons] at ended ⊢
      rcases ended with ⟨fault, mind, found, ended⟩ | ⟨completed, mind, found, ended⟩ |
        ⟨completed, mind, found, fails, ended⟩
      · exact .inl ⟨fault, mind, head _ found, ended⟩
      · exact .inr (.inl ⟨completed, mind, head _ found, ended⟩)
      · exact .inr (.inr ⟨completed, mind, head _ found, fails, ih _ ended⟩)

theorem complete_all_extends (candidates : List Candidate) :
    Extends (completeAll smaller candidates) (completeAll larger candidates) := by
  intro mind answer ended
  rcases answer with ⟨result, last⟩
  induction candidates generalizing mind result with
  | nil => exact ended
  | cons candidate rest ih =>
      have head := candidate_run_extends calls candidate mind
      cases result with
      | error fault =>
          rw [complete_all_error_cons] at ended ⊢
          rcases ended with found | ⟨completed, between, found, ended⟩
          · exact .inl (head _ found)
          · exact .inr ⟨completed, between, head _ found, ih _ _ ended⟩
      | ok completions =>
          rw [complete_all_ok_cons] at ended ⊢
          rcases ended with ⟨completed, between, others, found, ended, isCompletions⟩
          exact ⟨completed, between, others, head _ found, ih _ _ ended, isCompletions⟩

theorem run_every_extends (candidates : List Candidate) :
    Extends (runEvery smaller candidates) (runEvery larger candidates) := by
  intro state answer ended
  rcases answer with ⟨outcome, after⟩
  have all := complete_all_extends calls candidates state.mind
  rw [run_every_iff] at ended ⊢
  rcases ended with ⟨fault, mind, found, ended⟩ | ⟨completions, mind, found, ended⟩
  · exact .inl ⟨fault, mind, all _ found, ended⟩
  · exact .inr ⟨completions, mind, all _ found, ended⟩

theorem policy_run_extends (policy : Policy) (score : Nat → Float)
    (candidates : List Candidate) :
    Extends (policy.run score smaller candidates) (policy.run score larger candidates) := by
  cases policy with
  | firstMatch => exact run_first_extends calls candidates
  | bestScore => exact run_first_extends calls (rankCandidates score candidates)
  | aggregateAll => exact run_every_extends calls candidates

end Calls

namespace Agent

variable (agent : Agent)

theorem perform_succ_extends (depth : Nat) (target : Proxy) :
    Extends (agent.perform depth target) (agent.perform (depth + 1) target) := by
  induction depth generalizing target with
  | zero =>
      intro state answer ended
      simp [perform] at ended
  | succ depth ih =>
      intro state answer ended
      rw [perform] at ended ⊢
      exact policy_run_extends ih _ _ _ state answer ended

theorem perform_extends {depth deeper : Nat} (deep : depth ≤ deeper) (target : Proxy) :
    Extends (agent.perform depth target) (agent.perform deeper target) := by
  induction deep with
  | refl => exact fun _ _ ended => ended
  | step _ ih =>
      exact fun state answer ended => agent.perform_succ_extends _ target state answer
        (ih state answer ended)

theorem run_extends {depth deeper : Nat} (deep : depth ≤ deeper) (step : Step) :
    Extends (agent.run depth step) (agent.run deeper step) :=
  step_run_extends (fun target => agent.perform_extends deep target) step

/-- The step ends at some depth of calls, and so at every greater one. -/
def Ends (step : Step) : Runs := fun state outcome after =>
  ∃ depth, agent.run depth step state = some (outcome, after)

variable {agent} in
theorem Ends.from_depth {step : Step} {state after : State} {outcome : Outcome}
    (ended : agent.Ends step state outcome after) :
    ∃ depth, ∀ deeper, depth ≤ deeper → agent.run deeper step state = some (outcome, after) := by
  rcases ended with ⟨depth, ended⟩
  exact ⟨depth, fun deeper deep => agent.run_extends deep step _ _ ended⟩

theorem ends_unique {step : Step} {state left right : State} {leftOutcome rightOutcome : Outcome}
    (leftEnds : agent.Ends step state leftOutcome left)
    (rightEnds : agent.Ends step state rightOutcome right) :
    leftOutcome = rightOutcome ∧ left = right := by
  rcases leftEnds with ⟨leftDepth, leftRun⟩
  rcases rightEnds with ⟨rightDepth, rightRun⟩
  have leftDeep := agent.run_extends (Nat.le_max_left leftDepth rightDepth) step _ _ leftRun
  have rightDeep := agent.run_extends (Nat.le_max_right leftDepth rightDepth) step _ _ rightRun
  rw [leftDeep] at rightDeep
  exact Prod.mk.inj (Option.some.inj rightDeep)

end Agent

end Deliberation
