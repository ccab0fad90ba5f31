import Deliberation.Expression.Increment
import Deliberation.Term.Equality
import Deliberation.Truth

/-!
# Steps

A step is what the body of a rule and a guard are made of. A call by path has
to be linked into a proxy, which knows the rules that may answer; a rule may
stand as a step itself. A scripted step stands for one from outside: it has its
terms, its verdict and its rating written down.
-/

namespace Deliberation

set_option autoImplicit false

inductive BeliefChange where
  | add
  | remove
  deriving DecidableEq

namespace BeliefChange

def all : List BeliefChange := [.add, .remove]

def token : BeliefChange → String
  | .add => "+"
  | .remove => "-"

def ofToken (token : String) : Except UnknownToken BeliefChange :=
  readToken .belief all BeliefChange.token token

end BeliefChange

/-- A call together with the numbers of the rules that may answer it. -/
structure Proxy where
  literal : Literal
  candidates : List Nat

inductive Rating where
  | fixed (score : Float)
  | ofRule (identity : Nat)

structure Script where
  emitted : List Term
  verdict : Truth
  rating : Rating

inductive Step where
  | raw (term : Term)
  | belief (change : BeliefChange) (literal : Literal)
  | test (goal : Literal) (guard : Option Step)
  | call (literal : Literal)
  | expression (expression : Expression)
  | increment (increment : Increment) (name : String)
  | rule (identifier : Literal) (steps : List Step)
  | proxy (proxy : Proxy)
  | scripted (script : Script)

/-- The call of a step that still waits for linking. -/
def Step.placeholder? : Step → Option Literal
  | .call literal => some literal
  | _ => none

mutual

/-- Steps are alike when they are built alike from the same parts; scripted
steps are all alike. -/
def Step.alike : Step → Step → Bool
  | .raw left, .raw right => left.same right
  | .belief leftChange left, .belief rightChange right =>
      decide (leftChange = rightChange) && left.same right
  | .test left none, .test right none => left.same right
  | .test left (some leftGuard), .test right (some rightGuard) =>
      left.same right && leftGuard.alike rightGuard
  | .call left, .call right => left.same right
  | .expression left, .expression right => left.same right
  | .increment leftIncrement left, .increment rightIncrement right =>
      decide (leftIncrement = rightIncrement) && left == right
  | .rule left leftSteps, .rule right rightSteps =>
      left.same right && Step.allAlike leftSteps rightSteps
  | .proxy left, .proxy right =>
      left.literal.same right.literal && decide (left.candidates = right.candidates)
  | .scripted _, .scripted _ => true
  | _, _ => false

def Step.allAlike : List Step → List Step → Bool
  | [], [] => true
  | left :: leftRest, right :: rightRest =>
      left.alike right && Step.allAlike leftRest rightRest
  | _, _ => false

end

end Deliberation
