import Deliberation.Call

/-!
# Agents

An agent has linked rules, an aggregation of scores, a policy for calls and the
beliefs that it starts with. Rules may call each other without end, so every
run is granted a depth of nested calls; a run that ends gives the same with any
greater depth.
-/

namespace Deliberation

set_option autoImplicit false

structure Agent where
  set : RuleSet
  aggregation : Aggregation
  policy : Policy
  beliefs : BeliefBase

namespace Agent

/-- Links the rules first and then adds the beliefs in order. -/
def build (registry : Registry) (beliefs : List Literal) (aggregation : Aggregation)
    (policy : Policy) : Except UnknownRule Agent :=
  match registry.link with
  | .error unknown => .error unknown
  | .ok set => .ok ⟨set, aggregation, policy, BeliefBase.empty.addAll beliefs⟩

def start (agent : Agent) : Mind :=
  ⟨agent.beliefs, .zero⟩

def score (agent : Agent) (number : Nat) : Float :=
  ((Scorer.fresh agent.set agent.aggregation).scoreRule number).1

def candidates (agent : Agent) (call : Literal) (numbers : List Nat) : List Candidate :=
  numbers.filterMap (Candidate.of? agent.set call)

/-- Answers a proxy with at most `depth` calls nested. -/
def perform (agent : Agent) : Nat → Proxy → Action
  | 0, _, _ => none
  | depth + 1, proxy, state =>
      agent.policy.run agent.score (agent.perform depth)
        (agent.candidates (state.frame.instantiate proxy.literal) proxy.candidates) state

def run (agent : Agent) (depth : Nat) (step : Step) : Action :=
  step.run (agent.perform depth)

def unify (agent : Agent) (depth : Nat) (goal : Literal) (guard : Option Step) : Action :=
  Deliberation.unify goal (guard.map (agent.run depth))

/-- A call from outside is linked on the spot. -/
def call (agent : Agent) (depth : Nat) (literal : Literal) : Action := fun state =>
  match agent.set.proxy literal with
  | .error unknown => some (.error (.unknownRule unknown), state)
  | .ok proxy => agent.perform depth proxy state

end Agent

end Deliberation
