import Deliberation.Match.Head
import Deliberation.Scorer
import Deliberation.Step.Run

/-!
# Calling rules

A call is instantiated in the frame of the caller and matched with the heads
of its candidates. A candidate that matches runs in a frame of its own, with
the variables of its head declared and its bindings made, and with an output of
its own. What it put out and what it answers to the variables of the caller
reach the caller only through a policy: the first true candidate, the first
true one by falling score, or all candidates with their truths disjoined.

Candidates run here in the order of their list. The first two policies run them
so in any case, and the third does for an ordered call. All candidates of an
unordered call may run at the same time and meet in the mind that they share;
list order is one of the schedules that this allows. The courses of
`Deliberation.Process.Call` are calls under every schedule, and the actions here
are these courses under the empty one, as `Agent.call_course_unscheduled` says.
-/

namespace Deliberation

set_option autoImplicit false

inductive Policy where
  | firstMatch
  | bestScore
  | aggregateAll
  deriving DecidableEq

structure Candidate where
  number : Nat
  rule : Rule
  head : HeadMatch

/-- What a candidate leaves at its end. -/
structure Completion where
  truth : Truth
  output : List Term
  exports : Bindings

namespace Candidate

def of? (set : RuleSet) (call : Literal) (number : Nat) : Option Candidate :=
  match set.rule? number with
  | none => none
  | some rule =>
      match rule.identifier.matchHead? call with
      | none => none
      | some head => some ⟨number, rule, head⟩

def frame (candidate : Candidate) : Frame :=
  (Frame.withVariables candidate.rule.variableNames).commit candidate.head.bindings

/-- The answer to one variable of the caller, if the callee has one. -/
def export? (frame : Frame) (wanted : String × Term) : Option (String × Term) :=
  match frame.resolve wanted.2 with
  | .variable _ | .bound _ _ => none
  | answer => some (wanted.1, answer)

def run (call : Proxy → Action) (candidate : Candidate) (mind : Mind) :
    Option (Except Fault Completion × Mind) :=
  match Step.runAll call candidate.rule.steps Truth.one ⟨candidate.frame, [], mind⟩ with
  | none => none
  | some (.error fault, after) => some (.error fault, after.mind)
  | some (.ok truth, after) =>
      some (.ok ⟨truth, after.output, candidate.head.exports.filterMap (export? after.frame)⟩,
        after.mind.recordRule)

end Candidate

/-- The caller after a completion whose output and answers reach it. -/
def State.adopt (state : State) (completion : Completion) : State :=
  { state with
    frame := state.frame.commit completion.exports
    output := state.output ++ completion.output }

def runFirst (call : Proxy → Action) : List Candidate → Action
  | [], state => some (.ok Truth.zero, state)
  | candidate :: rest, state =>
      match candidate.run call state.mind with
      | none => none
      | some (.error fault, mind) => some (.error fault, { state with mind := mind })
      | some (.ok completion, mind) =>
          if completion.truth.value then
            some (.ok completion.truth, State.adopt { state with mind := mind } completion)
          else runFirst call rest { state with mind := mind }

/-- One candidate after the other in list order, up to the first fault. With candidates at
the same time it is `completeCourse` that says what they may come to. -/
def completeAll (call : Proxy → Action) :
    List Candidate → Mind → Option (Except Fault (List Completion) × Mind)
  | [], mind => some (.ok [], mind)
  | candidate :: rest, mind =>
      match candidate.run call mind with
      | none => none
      | some (.error fault, after) => some (.error fault, after)
      | some (.ok completion, after) =>
          match completeAll call rest after with
          | none => none
          | some (.error fault, last) => some (.error fault, last)
          | some (.ok completions, last) => some (.ok (completion :: completions), last)

def disjoin (completions : List Completion) : Truth :=
  completions.foldl (fun truth completion => truth + completion.truth) Truth.zero

/-- The answers of the first true completion count, the outputs of all of them. -/
def State.adoptAll (state : State) (completions : List Completion) : State :=
  let successes := completions.filter fun completion => completion.truth.value
  { state with
    frame :=
      match successes with
      | [] => state.frame
      | first :: _ => state.frame.commit first.exports
    output := state.output ++ successes.flatMap Completion.output }

/-- The call of all candidates in list order, as an ordered call runs them; `everyCourse`
tells ordered calls and others apart. -/
def runEvery (call : Proxy → Action) (candidates : List Candidate) : Action := fun state =>
  match completeAll call candidates state.mind with
  | none => none
  | some (.error fault, mind) => some (.error fault, { state with mind := mind })
  | some (.ok completions, mind) =>
      some (.ok (disjoin completions), State.adoptAll { state with mind := mind } completions)

/-- Candidates by falling score, NaN first; equal scores keep their order. -/
def rankCandidates (score : Nat → Float) (candidates : List Candidate) : List Candidate :=
  let scored := candidates.map fun candidate => (Double.rank (score candidate.number), candidate)
  (stableSort (fun left right => decide (right.1 ≤ left.1)) scored).map Prod.snd

def Policy.run (policy : Policy) (score : Nat → Float) (call : Proxy → Action)
    (candidates : List Candidate) : Action :=
  match policy with
  | .firstMatch => runFirst call candidates
  | .bestScore => runFirst call (rankCandidates score candidates)
  | .aggregateAll => runEvery call candidates

end Deliberation
