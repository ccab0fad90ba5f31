import Deliberation.Process.Call
import Deliberation.Proofs.Process.InOrder

/-!
# Calls in list order

Under the empty schedule a call of all candidates runs them one after the other, whether it
is ordered or not, and of several faults the first is the one of the call. This is how the
actions of an agent run every call, so each of them is one of the runs that its course may
take.
-/

namespace Deliberation

set_option autoImplicit false

theorem first_course_cons (call : Bool → Proxy → Course) (parallel : Bool) (candidate : Candidate)
    (rest : List Candidate) (attempt : Attempt) :
    firstCourse call parallel (candidate :: rest) attempt =
      (candidate.course call parallel).bind fun ended =>
        match ended with
        | .error fault => .done (.error fault, attempt)
        | .ok completion =>
            if completion.truth.value then .done (.ok completion.truth, attempt.adopt completion)
            else firstCourse call parallel rest attempt := by
  rw [firstCourse, List.map_cons, Process.in_turn_cons, Process.bind_map]
  refine congrArg (Process.bind · _) (funext fun ended => ?_)
  rcases ended with fault | completion
  · rfl
  · dsimp only
    have settled : decides (.ok completion) = completion.truth.value := rfl
    rw [settled]
    split_ifs with holds
    · simp [Process.map, Process.bind, List.find?, decides, holds]
    · rw [Process.map_map, firstCourse]
      simp only [List.find?_cons, settled, holds]

theorem collect_ok_cons (completion : Completion) (results : List (Except Fault Completion)) :
    collect (.ok completion :: results) =
      (collect results).map (Except.map (completion :: ·)) := by
  have faults : (.ok completion :: results).filterMap fault? = results.filterMap fault? := rfl
  rw [collect, collect, faults]
  cases results.filterMap fault? with
  | nil => rfl
  | cons first others =>
      dsimp only
      rw [Process.map_map]
      rfl

section Calls

variable {call : Bool → Proxy → Course} {handler : Proxy → Action}
  (calls : ∀ parallel target, (call parallel target).InOrder (handler target)) (parallel : Bool)

include calls

theorem candidate_in_order (candidate : Candidate) (mind : Mind) :
    (candidate.course call parallel).inOrder mind = candidate.run handler mind := by
  rw [Candidate.course, Process.in_order_bind,
    all_in_order (fun step _ => step_in_order calls step parallel) Truth.one, Candidate.run]
  change ((Step.runAll handler candidate.rule.steps Truth.one
    ⟨candidate.frame, [], mind⟩).map _).bind _ = _
  rcases Step.runAll handler candidate.rule.steps Truth.one ⟨candidate.frame, [], mind⟩ with
    _ | ⟨fault | truth, after⟩ <;> rfl

theorem first_in_order (candidates : List Candidate) :
    (firstCourse call parallel candidates).InOrder (runFirst handler candidates) := by
  intro attempt mind
  induction candidates generalizing mind with
  | nil => rfl
  | cons candidate rest ih =>
      have sameMind : (attempt.beside mind).mind = mind := rfl
      rw [first_course_cons, Process.in_order_bind, candidate_in_order calls, runFirst, sameMind]
      rcases candidate.run handler mind with _ | ⟨fault | completion, after⟩
      · rfl
      · rfl
      · dsimp only [Option.bind_some]
        split_ifs
        · rfl
        · exact ih after

theorem complete_in_order (ordered : Bool) (candidates : List Candidate) (mind : Mind) :
    (completeCourse call parallel ordered candidates).inOrder mind =
      completeAll handler candidates mind := by
  rw [completeCourse, Process.in_order_bind, Process.in_order_each]
  induction candidates generalizing mind with
  | nil => rfl
  | cons candidate rest ih =>
      rw [List.map_cons, Process.in_turn_cons, Process.in_order_bind, candidate_in_order calls,
        completeAll]
      rcases candidate.run handler mind with _ | ⟨fault | completion, after⟩
      · rfl
      · rfl
      · simp only [Option.bind_some, isFault, Bool.false_eq_true, if_false]
        rw [← ih, Process.in_order_map, Option.bind_map]
        simp only [Function.comp_def, collect_ok_cons, Process.in_order_map]
        rcases (Process.inTurn isFault (rest.map (Candidate.course call parallel))).inOrder after
          with _ | ⟨results, last⟩
        · rfl
        · dsimp only [Option.bind_some]
          rcases (collect results).inOrder last with _ | ⟨fault | completions, final⟩ <;> rfl

theorem every_in_order (ordered : Bool) (candidates : List Candidate) :
    (everyCourse call parallel ordered candidates).InOrder (runEvery handler candidates) := by
  intro attempt mind
  rw [everyCourse, Process.in_order_map, complete_in_order calls]
  dsimp only [runEvery, Attempt.beside]
  rcases completeAll handler candidates mind with _ | ⟨fault | completions, after⟩ <;> rfl

end Calls

namespace Agent

variable (agent : Agent)

theorem performing_in_order (depth : Nat) (parallel : Bool) (target : Proxy) :
    (agent.performing depth parallel target).InOrder (agent.perform depth target) := by
  induction depth generalizing parallel target with
  | zero => exact fun attempt mind => rfl
  | succ depth ih =>
      intro attempt mind
      rw [performing, perform]
      cases agent.policy
      · exact first_in_order ih parallel _ attempt mind
      · exact first_in_order ih parallel _ attempt mind
      · exact every_in_order ih parallel _ _ attempt mind

/-- The run of a step is the one that its course takes under the empty schedule, with the
parallel hint and without. -/
theorem step_course_unscheduled (depth : Nat) (parallel : Bool) (step : Step) :
    (agent.stepCourse depth parallel step).under [] = agent.run depth step :=
  (step_in_order (agent.performing_in_order depth) step parallel).under

/-- So is a call from outside. -/
theorem call_course_unscheduled (depth : Nat) (parallel : Bool) (literal : Literal) :
    (agent.callCourse depth parallel literal).under [] = agent.call depth literal := by
  funext state
  rw [callCourse, call]
  cases agent.set.proxy literal with
  | error unknown => rfl
  | ok target =>
      exact congrFun (agent.performing_in_order depth parallel target).under state

end Agent

end Deliberation
