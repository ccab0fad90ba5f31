import Deliberation.Process.Step
import Deliberation.Proofs.Process.Basic
import Deliberation.Proofs.Step.Structure

/-!
# Runs in list order

With nothing in the schedule, processes at the same time are run in the order of their list,
and the first of several results is taken. The course of a step then does what its action
does, which tries the guard of a query on one binding set after the other. So whatever is
shown of courses under every schedule covers the actions.
-/

namespace Deliberation

set_option autoImplicit false

namespace Process

variable {α β : Type}

def inOrder : Process α → Mind → Option (α × Mind)
  | .done result, mind => some (result, mind)
  | .short, _ => none
  | .access change next, mind => (next mind).inOrder (change mind)
  | .ask next, mind => (next []).inOrder mind

theorem run_unscheduled (process : Process α) (mind : Mind) :
    process.run [] mind = (process.inOrder mind).map fun ended => (ended.1, ended.2, []) := by
  induction process generalizing mind with
  | done => rfl
  | short => rfl
  | access change next ih => exact ih mind (change mind)
  | ask next ih => exact ih [] mind

theorem in_order_bind (process : Process α) (next : α → Process β) (mind : Mind) :
    (process.bind next).inOrder mind =
      (process.inOrder mind).bind fun ended => (next ended.1).inOrder ended.2 := by
  induction process generalizing mind with
  | done => rfl
  | short => rfl
  | access change rest ih => exact ih mind (change mind)
  | ask rest ih => exact ih [] mind

theorem in_order_map (process : Process α) (change : α → β) (mind : Mind) :
    (process.map change).inOrder mind =
      (process.inOrder mind).map fun ended => (change ended.1, ended.2) := by
  rw [map, in_order_bind]
  cases process.inOrder mind <;> rfl

theorem in_order_each (stops : α → Bool) (concurrent : Bool) (processes : List (Process α))
    (mind : Mind) :
    (each stops concurrent processes).inOrder mind = (inTurn stops processes).inOrder mind := by
  have nothingStopped : ((processes.map Slot.fresh).any fun slot => slot.hasStopped stops) =
      false := by
    rw [List.any_map, List.any_eq_false]
    intro process _
    cases process <;> simp [Slot.fresh, Slot.hasStopped]
  cases concurrent with
  | false => rfl
  | true =>
      rcases processes with _ | ⟨first, _ | ⟨second, others⟩⟩
      · rfl
      · rfl
      · change (finish stops _ _).inOrder mind = _
        rw [nothingStopped]
        rfl

end Process

/-- In list order the course does what the action does. -/
def Course.InOrder (course : Course) (action : Action) : Prop :=
  ∀ attempt mind, (course attempt).inOrder mind =
    (action (attempt.beside mind)).map fun ended =>
      ((ended.1, ended.2.attempt), ended.2.mind)

theorem Course.InOrder.under {course : Course} {action : Action} (inOrder : course.InOrder action) :
    course.under [] = action := by
  funext state
  rw [Course.under, Process.run_unscheduled, inOrder state.attempt state.mind]
  change _ = action (state.attempt.beside state.mind)
  rcases action (state.attempt.beside state.mind) with _ | ⟨outcome, after⟩ <;> rfl

theorem Course.one_access_in_order (action : Action) : (oneAccess action).InOrder action := by
  intro attempt mind
  rw [oneAccess, Process.inOrder]
  cases action (attempt.beside mind) <;> rfl

section Queries

theorem find_sets_in_order (goal : Literal) (tiers : List Tier) (mind : Mind) :
    (findSets goal tiers).inOrder mind =
      some (match mind.beliefs.firstMatches goal tiers with
        | some (_, sets) => sets
        | none => [], mind) := by
  induction tiers with
  | nil => rfl
  | cons tier rest ih =>
      rw [findSets, Process.inOrder, BeliefBase.firstMatches]
      cases mind.beliefs.matches tier goal with
      | nil => exact ih
      | cons set sets => rfl

variable {guard : Course} {action : Action} (inOrder : guard.InOrder action) (frame : Frame)

include inOrder

theorem try_set_in_order (set : Bindings) (mind : Mind) :
    (trySet guard frame set).inOrder mind =
      (action ⟨frame.commit set, [], mind⟩).map fun ended =>
        (match ended.1 with
          | .error fault => some (.error fault)
          | .ok _ => if accepting ended.2.output then some (.ok set) else none, ended.2.mind) := by
  rw [trySet, Process.in_order_map, inOrder]
  change ((action ⟨frame.commit set, [], mind⟩).map _).map _ = _
  rcases action ⟨frame.commit set, [], mind⟩ with _ | ⟨fault | truth, after⟩ <;> rfl

theorem choose_set_in_order (parallel : Bool) (sets : List Bindings) (mind : Mind) :
    (chooseSet (some guard) parallel frame sets).inOrder mind =
      selectGuarded action frame sets mind := by
  rw [chooseSet, Process.in_order_bind, Process.in_order_each]
  induction sets generalizing mind with
  | nil => rfl
  | cons set rest ih =>
      rw [List.map_cons, Process.in_turn_cons, selectGuarded, Process.in_order_bind,
        try_set_in_order inOrder]
      rcases action ⟨frame.commit set, [], mind⟩ with _ | ⟨fault | truth, after⟩
      · rfl
      · rfl
      · cases accepted : accepting after.output with
        | true => simp [accepted, Process.inOrder, Process.anyOf, Process.map, Process.bind,
            Except.map]
        | false =>
            -- A set that is rejected leaves no trace in the list of the trials.
            simp only [Option.map_some, Option.bind_some, accepted, Bool.false_eq_true, if_false]
            rw [← ih, Option.isSome_none, if_neg Bool.false_ne_true, Process.in_order_map,
              Option.bind_map]
            rfl

end Queries

theorem unify_in_order {guard : Option Course} {action : Option Action} {parallel : Bool}
    (chosen : ∀ frame sets mind, (chooseSet guard parallel frame sets).inOrder mind =
      select action frame sets mind) (goal : Literal) :
    (unifyCourse goal guard parallel).InOrder (unify goal action) := by
  intro attempt mind
  have found : (findSets (attempt.frame.instantiate goal) Tier.all).inOrder mind =
      some (mind.beliefs.bindingSets (attempt.frame.instantiate goal), mind) :=
    find_sets_in_order ..
  rw [unifyCourse, Process.in_order_bind, found, Option.bind_some, Process.in_order_bind, chosen]
  dsimp only [unify, Attempt.beside]
  rcases select action attempt.frame
    (mind.beliefs.bindingSets (attempt.frame.instantiate goal)) mind with
      _ | ⟨fault | _ | set, after⟩ <;> rfl

section Steps

variable {call : Bool → Proxy → Course} {handler : Proxy → Action}

theorem all_in_order {steps : List Step} {parallel : Bool}
    (each : ∀ step ∈ steps, (step.course call parallel).InOrder (step.run handler))
    (truth : Truth) :
    (Step.allCourse call parallel steps truth).InOrder (Step.runAll handler steps truth) := by
  induction steps generalizing truth with
  | nil => exact fun attempt mind => rfl
  | cons step rest ih =>
      intro attempt mind
      rw [Step.allCourse, Step.runAll, Process.in_order_bind, each step List.mem_cons_self]
      rcases step.run handler (attempt.beside mind) with _ | ⟨fault | next, after⟩
      · rfl
      · rfl
      · dsimp only [Option.map_some, Option.bind_some]
        split_ifs
        · exact ih (fun other member => each other (List.mem_cons_of_mem _ member)) _ _ _
        · rfl

theorem step_in_order
    (calls : ∀ parallel target, (call parallel target).InOrder (handler target)) (step : Step) :
    ∀ parallel, (step.course call parallel).InOrder (step.run handler) := by
  revert step
  apply InductiveStepProperty.holds
  constructor
  case raw => exact fun term parallel => Course.one_access_in_order (runRaw term)
  case belief =>
    exact fun change literal parallel => Course.one_access_in_order (runBelief change literal)
  case query =>
    exact fun goal parallel => unify_in_order (fun frame sets mind => rfl) goal
  case guarded =>
    intro goal guard inOrder parallel
    exact unify_in_order (choose_set_in_order (inOrder false) · parallel) goal
  case call => exact fun literal parallel attempt mind => rfl
  case expression => exact fun body parallel => Course.one_access_in_order (runExpression body)
  case increment =>
    exact fun direction name parallel => Course.one_access_in_order (runIncrement direction name)
  case rule =>
    intro identifier steps each parallel
    exact all_in_order (fun step member => each step member parallel) Truth.one
  case proxy => exact fun target parallel => calls parallel target
  case scripted => exact fun script parallel => Course.one_access_in_order (runScript script)

end Steps

end Deliberation
