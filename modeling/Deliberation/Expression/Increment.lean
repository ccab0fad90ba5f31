import Deliberation.Expression.Eval

/-!
# Counting up and down

A numeric variable is moved by one in place; ints stay within 64 bits.
-/

namespace Deliberation

set_option autoImplicit false

inductive Increment where
  | up
  | down
  deriving DecidableEq

namespace Increment

def all : List Increment := [.up, .down]

def token : Increment → String
  | .up => "++"
  | .down => "--"

def ofToken (token : String) : Except UnknownToken Increment :=
  readToken .increment all Increment.token token

def text (increment : Increment) (name : String) : String :=
  name ++ increment.token

def apply : Increment → Value → Except EvalProblem Value
  | .up, .int number => intValue (number.toInt + 1)
  | .down, .int number => intValue (number.toInt - 1)
  | .up, .float number => .ok (.float (number + 1))
  | .down, .float number => .ok (.float (number - 1))
  | increment, operand => .error (.undefinedFor increment.token operand.typeName)

def run (increment : Increment) (name : String) (frame : Frame) : Except EvalProblem Frame :=
  match frame.evaluate name with
  | .error problem => .error problem
  | .ok content =>
      match increment.apply content with
      | .error problem => .error problem
      | .ok next => .ok (frame.bind name (.value next))

end Increment

end Deliberation
