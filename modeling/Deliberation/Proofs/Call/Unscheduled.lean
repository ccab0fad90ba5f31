import Deliberation.Proofs.Call.ListOrder
import Deliberation.Proofs.Call.Response

/-!
# Runs that ask for no schedule

An agent that goes for one true candidate, or whose calls are all ordered, runs nothing at
the same time while its queries have no parallel hint. Its runs ask a schedule for nothing,
and so each of them is the one in list order.
-/

namespace Deliberation

set_option autoImplicit false

namespace Process

variable {α β : Type}

/-- Nothing is asked of the schedule, and the result is good. -/
def Settles (good : α → Prop) : Process α → Prop
  | .done result => good result
  | .short => True
  | .access _ next => ∀ mind, (next mind).Settles good
  | .ask _ => False

variable {good : α → Prop} {fine : β → Prop}

theorem Settles.run {process : Process α} (settles : process.Settles good) (schedule : Schedule)
    (mind : Mind) :
    process.run schedule mind =
      (process.inOrder mind).map fun ended => (ended.1, ended.2, schedule) := by
  induction process generalizing mind with
  | done => rfl
  | short => rfl
  | access change next ih => exact ih mind (settles mind) (change mind)
  | ask next => exact settles.elim

theorem Settles.bind {process : Process α} (settles : process.Settles good)
    {next : α → Process β} (later : ∀ result, good result → (next result).Settles fine) :
    (process.bind next).Settles fine := by
  induction process with
  | done result => exact later result settles
  | short => trivial
  | access change rest ih => exact fun mind => ih mind (settles mind)
  | ask rest => exact settles.elim

theorem Settles.map {process : Process α} (settles : process.Settles good) {change : α → β}
    (changed : ∀ result, good result → fine (change result)) :
    (process.map change).Settles fine :=
  settles.bind changed

/-- The last result at most stops a run in turn. -/
theorem in_turn_settles (stops : α → Bool) {processes : List (Process α)}
    (each : ∀ process ∈ processes, process.Settles fun _ => True) :
    (inTurn stops processes).Settles fun results => results.countP stops ≤ 1 := by
  induction processes with
  | nil => exact Nat.zero_le 1
  | cons process rest ih =>
      rw [in_turn_cons]
      refine (each process List.mem_cons_self).bind fun result _ => ?_
      split_ifs with isStop
      · exact List.countP_le_length
      · refine (ih fun other member => each other (List.mem_cons_of_mem _ member)).map
          fun results few => ?_
        rw [List.countP_cons_of_neg isStop]
        exact few

/-- There is nothing to choose where there is only one. -/
theorem any_of_settles {first : α} {others : List α} (few : (first :: others).length ≤ 1) :
    (anyOf first others).Settles fun _ => True := by
  cases others with
  | nil => trivial
  | cons second rest => simp at few

end Process

def Course.Settles (course : Course) : Prop :=
  ∀ attempt, (course attempt).Settles fun _ => True

theorem Course.Settles.under {course : Course} {action : Action} (settles : course.Settles)
    (inOrder : course.InOrder action) (schedule : Schedule) :
    course.under schedule = action := by
  funext state
  have unscheduled := congrFun inOrder.under state
  rw [Course.under, Process.run_unscheduled, Option.map_map] at unscheduled
  rw [Course.under, (settles state.attempt).run, Option.map_map]
  exact unscheduled

theorem Course.one_access_settles (action : Action) : (oneAccess action).Settles := by
  intro attempt mind
  dsimp only
  split
  next => trivial
  next => trivial

section Queries

theorem find_sets_settle (goal : Literal) (tiers : List Tier) :
    (findSets goal tiers).Settles fun _ => True := by
  induction tiers with
  | nil => trivial
  | cons tier rest ih =>
      intro mind
      dsimp only
      split
      next => exact ih
      next => trivial

theorem unify_settles (goal : Literal) {guard : Option Course}
    (guarded : ∀ course ∈ guard, course.Settles) : (unifyCourse goal guard false).Settles := by
  intro attempt
  refine (find_sets_settle ..).bind fun sets _ => ?_
  have chosen : (chooseSet guard false attempt.frame sets).Settles fun _ => True := by
    cases guard with
    | none => trivial
    | some course =>
        have tried : ∀ trial ∈ sets.map (trySet course attempt.frame),
            trial.Settles fun _ => True := by
          intro trial member
          obtain ⟨set, _, rfl⟩ := List.mem_map.mp member
          exact (guarded course rfl _).map fun _ _ => trivial
        refine (Process.in_turn_settles Option.isSome tried).bind fun trials few => ?_
        have single : (trials.filterMap id).length ≤ 1 := by
          rw [List.length_filterMap_eq_countP]
          exact few
        cases found : trials.filterMap id with
        | nil => trivial
        | cons first others =>
            rw [found] at single
            exact (Process.any_of_settles single).map fun _ _ => trivial
  refine chosen.bind fun choice _ => ?_
  rcases choice with fault | _ | set
  · trivial
  · exact fun mind => trivial
  · exact fun mind => trivial

end Queries

section Steps

variable {call : Bool → Proxy → Course} {check : Step → Bool}

theorem all_settle {steps : List Step}
    (each : ∀ step ∈ steps, (step.course call false).Settles) (truth : Truth) :
    (Step.allCourse call false steps truth).Settles := by
  induction steps generalizing truth with
  | nil => exact fun attempt => trivial
  | cons step rest ih =>
      intro attempt
      refine (each step List.mem_cons_self attempt).bind fun ended _ => ?_
      rcases ended with ⟨fault | next, after⟩
      · trivial
      · dsimp only
        split_ifs
        · exact ih (fun other member => each other (List.mem_cons_of_mem _ member)) _ after
        · trivial

theorem step_settles
    (calls : ∀ target, check (.proxy target) = true → (call false target).Settles) (step : Step) :
    step.throughout check = true → (step.course call false).Settles := by
  revert step
  apply InductiveStepProperty.holds
  constructor
  case raw => exact fun term _ => Course.one_access_settles (runRaw term)
  case belief => exact fun change literal _ => Course.one_access_settles (runBelief change literal)
  case query => exact fun goal _ => unify_settles goal (by simp)
  case guarded =>
    intro goal guard ih passes
    have inGuard := ((Step.throughout_guarded_iff ..).mp passes).2
    exact unify_settles goal fun course isGuard => Option.some.inj isGuard ▸ ih inGuard
  case call => exact fun literal _ attempt => trivial
  case expression => exact fun body _ => Course.one_access_settles (runExpression body)
  case increment =>
    exact fun direction name _ => Course.one_access_settles (runIncrement direction name)
  case rule =>
    intro identifier steps ih passes
    have members := ((Step.throughout_rule_iff ..).mp passes).2
    exact all_settle (fun step member => ih step member (members step member)) Truth.one
  case proxy => exact fun target passes => calls target (Step.check_of_throughout passes)
  case scripted => exact fun script _ => Course.one_access_settles (runScript script)

theorem candidate_settles
    (calls : ∀ target, check (.proxy target) = true → (call false target).Settles)
    {candidate : Candidate}
    (passes : ∀ step ∈ candidate.rule.steps, step.throughout check = true) :
    (candidate.course call false).Settles fun _ => True := by
  have body := all_settle (fun step member => step_settles calls step (passes step member))
    Truth.one ⟨candidate.frame, []⟩
  refine body.bind fun ended _ => ?_
  rcases ended with ⟨fault | truth, after⟩
  · trivial
  · exact fun mind => trivial

end Steps

theorem collect_settles {results : List (Except Fault Completion)}
    (few : results.countP isFault ≤ 1) : (collect results).Settles fun _ => True := by
  have single : (results.filterMap fault?).length ≤ 1 := by
    have same : (fun ended => (fault? ended).isSome) = isFault :=
      funext fun ended => by cases ended <;> rfl
    rw [List.length_filterMap_eq_countP, same]
    exact few
  rw [collect]
  cases found : results.filterMap fault? with
  | nil => trivial
  | cons first others =>
      rw [found] at single
      exact (Process.any_of_settles single).map fun _ _ => trivial

namespace Agent

variable (agent : Agent)

/-- No call that this step makes by itself runs candidates at the same time. -/
def inSeries : Step → Bool
  | .proxy target => decide (agent.policy ≠ .aggregateAll) || target.literal.ordered
  | _ => true

/-- No call in any rule runs candidates at the same time. -/
def Serial : Prop :=
  ∀ rule ∈ agent.set.rules, ∀ step ∈ rule.steps, step.throughout agent.inSeries = true

/-- An agent that goes for one true candidate runs none at the same time, whatever its rules
call. -/
theorem serial_of_policy (goesForOne : agent.policy ≠ .aggregateAll) : agent.Serial := by
  have alone (step : Step) : agent.inSeries step = true := by
    cases step with
    | proxy target => simp [inSeries, goesForOne]
    | _ => rfl
  have everywhere : ∀ step : Step, step.throughout agent.inSeries = true := by
    apply InductiveStepProperty.holds
    constructor
    case guarded =>
      intro goal guard inGuard
      exact (Step.throughout_guarded_iff ..).mpr ⟨alone _, inGuard⟩
    case rule =>
      intro identifier steps members
      exact (Step.throughout_rule_iff ..).mpr ⟨alone _, members⟩
    all_goals
      intros
      exact alone _
  exact fun rule _ step _ => everywhere step

variable {agent} (serial : agent.Serial)

include serial

theorem performing_settles (depth : Nat) {target : Proxy}
    (passes : agent.inSeries (.proxy target) = true) :
    (agent.performing depth false target).Settles := by
  induction depth generalizing target with
  | zero => exact fun attempt => trivial
  | succ depth ih =>
      intro attempt
      have settled : ∀ candidate ∈ agent.lineup (attempt.frame.instantiate target.literal)
          target.candidates,
          (candidate.course (agent.performing depth) false).Settles fun _ => True := by
        intro candidate member
        rw [mem_lineup_iff, mem_candidates_iff] at member
        have isRule := List.mem_of_getElem? member.2.1
        exact candidate_settles (fun other passes => ih passes) (serial candidate.rule isRule)
      have each := List.forall_mem_map.mpr settled
      have responds : (agent.responding (depth + 1) false target.literal.ordered
          (attempt.frame.instantiate target.literal) target.candidates).Settles
            fun _ => True := by
        rw [responding]
        split_ifs with takesAll
        · have isOrdered : target.literal.ordered = true := by
            simpa [inSeries, takesAll] using passes
          rw [isOrdered]
          have collected := (Process.in_turn_settles isFault each).bind
            fun results few => collect_settles few
          exact collected.map fun _ _ => trivial
        · exact (Process.in_turn_settles decides each).map fun _ _ => trivial
      rw [performing_eq]
      exact responds.map fun _ _ => trivial

/-- Where nothing runs at the same time, every schedule has the step run in list order. -/
theorem step_course_serial {step : Step} (passes : step.throughout agent.inSeries = true)
    (depth : Nat) (schedule : Schedule) :
    (agent.stepCourse depth false step).under schedule = agent.run depth step := by
  have settles := step_settles (fun _ passes => performing_settles serial depth passes) step passes
  exact settles.under (step_in_order (agent.performing_in_order depth) step false) schedule

/-- So it is with a call from outside. -/
theorem call_course_serial {literal : Literal}
    (alone : agent.policy ≠ .aggregateAll ∨ literal.ordered = true) (depth : Nat)
    (schedule : Schedule) :
    (agent.callCourse depth false literal).under schedule = agent.call depth literal := by
  funext state
  rw [callCourse, call]
  cases found : agent.set.proxy literal with
  | error unknown => rfl
  | ok target =>
      have same : target.literal = literal := by
        rw [RuleSet.proxy, PathIndex.proxyFor] at found
        split at found
        next => exact (congrArg Proxy.literal (Except.ok.inj found)).symm
        next => cases found
      have passes : agent.inSeries (.proxy target) = true := by
        simpa [inSeries, same] using alone
      have settles := performing_settles serial depth passes
      exact congrFun (settles.under (agent.performing_in_order depth false target) schedule) state

end Agent

end Deliberation
