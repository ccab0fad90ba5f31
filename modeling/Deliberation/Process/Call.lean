import Deliberation.Agent
import Deliberation.Process.Step

/-!
# Calls as processes

A call runs its candidates one after the other, except that a call of all candidates which
is not marked as ordered runs them at the same time. A fault stops those not started yet,
and any of the faults met may be the one of the call. The list order, in which `Agent.call`
and the other runs of an agent take candidates and guards, is the empty schedule.
-/

namespace Deliberation

set_option autoImplicit false

def Attempt.adopt (attempt : Attempt) (completion : Completion) : Attempt :=
  ⟨attempt.frame.commit completion.exports, attempt.output ++ completion.output⟩

def Attempt.adoptAll (attempt : Attempt) (completions : List Completion) : Attempt :=
  let successes := completions.filter fun completion => completion.truth.value
  { frame :=
      match successes with
      | [] => attempt.frame
      | first :: _ => attempt.frame.commit first.exports
    output := attempt.output ++ successes.flatMap Completion.output }

def Candidate.course (call : Bool → Proxy → Course) (parallel : Bool) (candidate : Candidate) :
    Process (Except Fault Completion) :=
  (Step.allCourse call parallel candidate.rule.steps Truth.one ⟨candidate.frame, []⟩).bind
    fun ended =>
      match ended with
      | (.error fault, _) => .done (.error fault)
      | (.ok truth, after) =>
          .access Mind.recordRule fun _ =>
            .done (.ok ⟨truth, after.output,
              candidate.head.exports.filterMap (Candidate.export? after.frame)⟩)

/-- A fault or a true completion ends the search for one. -/
def decides : Except Fault Completion → Bool
  | .error _ => true
  | .ok completion => completion.truth.value

def firstCourse (call : Bool → Proxy → Course) (parallel : Bool) (candidates : List Candidate) :
    Course := fun attempt =>
  (Process.inTurn decides (candidates.map (Candidate.course call parallel))).map fun results =>
    match results.find? decides with
    | none => (.ok Truth.zero, attempt)
    | some (.error fault) => (.error fault, attempt)
    | some (.ok completion) => (.ok completion.truth, attempt.adopt completion)

def isFault : Except Fault Completion → Bool
  | .error _ => true
  | .ok _ => false

def fault? : Except Fault Completion → Option Fault
  | .error fault => some fault
  | .ok _ => none

def completion? : Except Fault Completion → Option Completion
  | .error _ => none
  | .ok completion => some completion

/-- All completions, unless there are faults; then any one of these. -/
def collect (results : List (Except Fault Completion)) :
    Process (Except Fault (List Completion)) :=
  match results.filterMap fault? with
  | [] => .done (.ok (results.filterMap completion?))
  | first :: others => (Process.anyOf first others).map .error

def completeCourse (call : Bool → Proxy → Course) (parallel ordered : Bool)
    (candidates : List Candidate) : Process (Except Fault (List Completion)) :=
  (Process.each isFault (!ordered) (candidates.map (Candidate.course call parallel))).bind collect

def everyCourse (call : Bool → Proxy → Course) (parallel ordered : Bool)
    (candidates : List Candidate) : Course := fun attempt =>
  (completeCourse call parallel ordered candidates).map fun collected =>
    match collected with
    | .error fault => (.error fault, attempt)
    | .ok completions => (.ok (disjoin completions), attempt.adoptAll completions)

def Policy.course (policy : Policy) (score : Nat → Float) (call : Bool → Proxy → Course)
    (parallel ordered : Bool) (candidates : List Candidate) : Course :=
  match policy with
  | .firstMatch => firstCourse call parallel candidates
  | .bestScore => firstCourse call parallel (rankCandidates score candidates)
  | .aggregateAll => everyCourse call parallel ordered candidates

namespace Agent

/-- Answers a proxy with at most `depth` calls nested. -/
def performing (agent : Agent) : Nat → Bool → Proxy → Course
  | 0, _, _ => fun _ => .short
  | depth + 1, parallel, proxy => fun attempt =>
      agent.policy.course agent.score (agent.performing depth) parallel proxy.literal.ordered
        (agent.candidates (attempt.frame.instantiate proxy.literal) proxy.candidates) attempt

def stepCourse (agent : Agent) (depth : Nat) (parallel : Bool) (step : Step) : Course :=
  step.course (agent.performing depth) parallel

def callCourse (agent : Agent) (depth : Nat) (parallel : Bool) (literal : Literal) : Course :=
  match agent.set.proxy literal with
  | .error unknown => fun attempt => .done (.error (.unknownRule unknown), attempt)
  | .ok proxy => agent.performing depth parallel proxy

end Agent

end Deliberation
