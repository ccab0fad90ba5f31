import Deliberation.Proofs.Call.Response
import Deliberation.Proofs.Step.Local
import Deliberation.Proofs.Step.Structure

/-!
# The output is written and never read

Whatever stands on the output when an action starts stays in front of what the action puts
out, and the action takes no notice of it: it ends, or faults, as it would with nothing
there. The same goes for a course, access by access, and so under every schedule. A query
hands no output on to its guard, nor a call to its candidates, so what they put out is
settled before it comes behind the output of their caller.
-/

namespace Deliberation

set_option autoImplicit false

/-- The state with terms in front of its output. -/
def State.behind (earlier : List Term) (state : State) : State :=
  { state with output := earlier ++ state.output }

/-- Terms in front of the output make no difference but that they stay there. -/
def WritesBehind (action : Action) : Prop :=
  ∀ earlier state, action (state.behind earlier) =
    (action state).map fun ended => (ended.1, ended.2.behind earlier)

theorem Local.writes_behind {action : Action} (isLocal : Local action) :
    WritesBehind action := by
  intro earlier state
  rcases state with ⟨frame, output, mind⟩
  obtain ⟨outcome, last, added, ended⟩ := isLocal frame
  simp only [State.behind, ended, Option.map_some, List.append_assoc]

/-- The attempt with terms in front of its output. -/
def Attempt.behind (earlier : List Term) (attempt : Attempt) : Attempt :=
  { attempt with output := earlier ++ attempt.output }

theorem Response.deliver_behind (response : Response) (earlier : List Term) (attempt : Attempt) :
    response.deliver (attempt.behind earlier) =
      ((response.deliver attempt).1, (response.deliver attempt).2.behind earlier) := by
  simp [deliver, Attempt.behind, List.append_assoc]

namespace Course

/-- The accesses are the same, whatever stands in front of the output. -/
def WritesBehind (course : Course) : Prop :=
  ∀ earlier attempt, course (attempt.behind earlier) =
    (course attempt).map fun ended => (ended.1, ended.2.behind earlier)

theorem one_access_writes_behind {action : Action} (writes : Deliberation.WritesBehind action) :
    (oneAccess action).WritesBehind := by
  intro earlier attempt
  have ends : ∀ mind, action ((attempt.behind earlier).beside mind) =
      (action (attempt.beside mind)).map fun ended => (ended.1, ended.2.behind earlier) :=
    fun mind => writes earlier (attempt.beside mind)
  refine congrArg₂ Process.access (funext fun mind => ?_) (funext fun mind => ?_)
  · rw [ends]
    cases action (attempt.beside mind) <;> rfl
  · dsimp only
    rw [ends]
    cases action (attempt.beside mind) <;> rfl

theorem WritesBehind.under {course : Course} (writes : course.WritesBehind) (schedule : Schedule)
    (frame : Frame) (output : List Term) (mind : Mind) :
    course.under schedule ⟨frame, output, mind⟩ =
      (course.under schedule ⟨frame, [], mind⟩).map fun ended =>
        (ended.1, ⟨ended.2.frame, output ++ ended.2.output, ended.2.mind⟩) := by
  have start : Attempt.behind output ⟨frame, []⟩ = ⟨frame, output⟩ := by
    rw [Attempt.behind, List.append_nil]
  change ((course ⟨frame, output⟩).run schedule mind).map _ =
    (((course ⟨frame, []⟩).run schedule mind).map _).map _
  rw [← start, writes, Process.run_map, Option.map_map, Option.map_map]
  rfl

end Course

/-- The binding sets are found and tried without the output of the query. -/
theorem unify_writes_behind (goal : Literal) (guard : Option Course) (parallel : Bool) :
    (unifyCourse goal guard parallel).WritesBehind := by
  intro earlier attempt
  rw [unifyCourse, unifyCourse, Process.bind_map]
  refine congrArg (Process.bind · _) (funext fun sets => ?_)
  rw [Process.bind_map]
  refine congrArg (Process.bind · _) (funext fun choice => ?_)
  rcases choice with fault | _ | set <;> rfl

section Steps

variable {call : Bool → Proxy → Course} {parallel : Bool}

theorem all_writes_behind {steps : List Step}
    (writes : ∀ step ∈ steps, (step.course call parallel).WritesBehind) (truth : Truth) :
    (Step.allCourse call parallel steps truth).WritesBehind := by
  intro earlier attempt
  induction steps generalizing truth attempt with
  | nil => rfl
  | cons step rest ih =>
      rw [Step.allCourse]
      dsimp only
      rw [writes step List.mem_cons_self, Process.map_bind, Process.bind_map]
      refine congrArg (Process.bind · _) (funext fun ended => ?_)
      rcases ended with ⟨fault | next, after⟩
      · rfl
      · dsimp only
        split_ifs
        · exact ih (fun other member => writes other (List.mem_cons_of_mem _ member)) _ after
        · rfl

theorem step_writes_behind (calls : ∀ parallel target, (call parallel target).WritesBehind)
    (step : Step) : ∀ parallel, (step.course call parallel).WritesBehind := by
  -- A local step is one whatever handles its calls.
  let unhandled : Proxy → Action := fun _ _ => none
  revert step
  apply InductiveStepProperty.holds
  constructor
  case raw =>
    exact fun term _ =>
      Course.one_access_writes_behind (Step.raw_local unhandled term).writes_behind
  case belief =>
    exact fun change literal _ => Course.one_access_writes_behind fun _ _ => rfl
  case query => exact fun goal parallel => unify_writes_behind goal none parallel
  case guarded =>
    -- Nothing is asked of the guard: its trials start with no output, here as there.
    exact fun goal guard _ parallel =>
      unify_writes_behind goal (some (guard.course call false)) parallel
  case call => exact fun literal _ _ _ => rfl
  case expression =>
    exact fun body _ =>
      Course.one_access_writes_behind (Step.expression_local unhandled body).writes_behind
  case increment =>
    exact fun direction name _ =>
      Course.one_access_writes_behind (Step.increment_local unhandled direction name).writes_behind
  case rule =>
    exact fun _ _ writes parallel =>
      all_writes_behind (fun step member => writes step member parallel) Truth.one
  case proxy => exact fun target parallel => calls parallel target
  case scripted =>
    exact fun script _ =>
      Course.one_access_writes_behind (Step.scripted_local unhandled script).writes_behind

end Steps

namespace Agent

variable (agent : Agent)

/-- The response to a call is made without the output of the caller. -/
theorem performing_writes_behind (depth : Nat) (parallel : Bool) (target : Proxy) :
    (agent.performing depth parallel target).WritesBehind := by
  intro earlier attempt
  -- The two calls have one response, so there is no induction on the depth.
  rw [performing_eq, performing_eq, Process.map_map]
  refine congrArg (Process.map · _) (funext fun response => ?_)
  exact response.deliver_behind earlier attempt

/-- Under any schedule and from a state with some output, a step of any kind ends exactly if
it ends from the same state without that output, then with the same truth or fault, frame
and mind. The output that it leaves is the one that stood there, followed by the one that it
would leave by itself. -/
theorem output_append_only (depth : Nat) (parallel : Bool) (step : Step) (schedule : Schedule)
    (frame : Frame) (output : List Term) (mind : Mind) :
    (agent.stepCourse depth parallel step).under schedule ⟨frame, output, mind⟩ =
      ((agent.stepCourse depth parallel step).under schedule ⟨frame, [], mind⟩).map fun ended =>
        (ended.1, ⟨ended.2.frame, output ++ ended.2.output, ended.2.mind⟩) :=
  (step_writes_behind (agent.performing_writes_behind depth) step parallel).under ..

end Agent

end Deliberation
