import Deliberation.Match.Unify

/-!
# Running steps

Each kind of step is an action of its own here; a proxy is left to a handler,
so this recursion follows the steps alone. A body runs step by step and
conjoins their truths, ending at the first false one.
-/

namespace Deliberation

set_option autoImplicit false

/-- A variable is asked for its truth and puts out nothing: it is false without
a value and true with one that is not boolean. -/
def runRaw (term : Term) : Action := fun state =>
  match term with
  | .value (.bool flag) =>
      some (.ok (Truth.ofBool flag), { state with output := state.output ++ [term] })
  | .value _ | .literal _ =>
      some (.ok Truth.one,
        { state with output := state.output ++ [state.frame.resolve term] })
  | .variable _ | .bound _ _ =>
      match state.frame.resolve term with
      | .variable _ | .bound _ _ => some (.ok Truth.zero, state)
      | .value (.bool flag) => some (.ok (Truth.ofBool flag), state)
      | .value _ | .literal _ => some (.ok Truth.one, state)

/-- Succeeds whether or not the belief base changes. -/
def runBelief (change : BeliefChange) (literal : Literal) : Action := fun state =>
  let fact := state.frame.instantiate literal
  let beliefs :=
    match change with
    | .add => (state.mind.beliefs.add fact).2
    | .remove => (state.mind.beliefs.remove fact).2
  some (.ok Truth.one, { state with mind := { state.mind with beliefs := beliefs } })

def runExpression (expression : Expression) : Action := fun state =>
  match expression.evaluate state.frame with
  | .ok content =>
      some (.ok Truth.one, { state with output := state.output ++ [.value content] })
  | .error problem => some (.error (.evaluation problem state.frame), state)

def runIncrement (increment : Increment) (name : String) : Action := fun state =>
  match increment.run name state.frame with
  | .ok frame => some (.ok Truth.one, { state with frame := frame })
  | .error problem => some (.error (.evaluation problem state.frame), state)

def runScript (script : Script) : Action := fun state =>
  some (.ok script.verdict, { state with output := state.output ++ script.emitted })

mutual

def Step.run (call : Proxy → Action) : Step → Action
  | .raw term, state => runRaw term state
  | .belief change literal, state => runBelief change literal state
  | .test goal none, state => unify goal none state
  | .test goal (some guard), state => unify goal (some (guard.run call)) state
  | .call literal, state => some (.error (.unlinked literal), state)
  | .expression body, state => runExpression body state
  | .increment direction name, state => runIncrement direction name state
  | .rule _ steps, state => Step.runAll call steps Truth.one state
  | .proxy target, state => call target state
  | .scripted script, state => runScript script state

/-- Runs the steps of a body after a truth that the steps before it gave. -/
def Step.runAll (call : Proxy → Action) : List Step → Truth → Action
  | [], truth, state => some (.ok truth, state)
  | step :: rest, truth, state =>
      match step.run call state with
      | none => none
      | some (.error fault, after) => some (.error fault, after)
      | some (.ok next, after) =>
          if (truth * next).value then Step.runAll call rest (truth * next) after
          else some (.ok (truth * next), after)

end

end Deliberation
