import Deliberation.Double.Remainder
import Deliberation.Expression.Basic
import Deliberation.Frame.Resolve

/-!
# Evaluating expressions

Ints are computed exactly and must fit in 64 bits; a division by zero is
reported before anything else. A remainder is not negative and is refused
where the quotient is. Mixed operands are computed as floats. A connective
settled by its left operand leaves the right one alone.
-/

namespace Deliberation

set_option autoImplicit false

inductive EvalProblem where
  | unallocated (name : String)
  | nonValue (name : String) (term : Term)
  | overflow
  | divisionByZero
  | undefinedFor (token type : String)
  | undefinedForBoth (token left right : String)

def EvalProblem.message : EvalProblem → String
  | .unallocated name => "variable `" ++ name ++ "` is not allocated"
  | .nonValue name term =>
      "variable `" ++ name ++ "` is bound to non-value `" ++ term.text ++ "`"
  | .overflow => "integer overflow"
  | .divisionByZero => "division by zero"
  | .undefinedFor token type => "operator `" ++ token ++ "` not defined for " ++ type
  | .undefinedForBoth token left right =>
      "operator `" ++ token ++ "` not defined for " ++ left ++ " and " ++ right

/-- The value that a slot stands for. -/
def Frame.evaluate (frame : Frame) (name : String) : Except EvalProblem Value :=
  match frame.value? name with
  | none => .error (.unallocated name)
  | some content =>
      match frame.resolve content with
      | .value raw => .ok raw
      | other => .error (.nonValue name other)

def fitsInt (number : Int) : Bool :=
  decide (Int64.minValue.toInt ≤ number ∧ number ≤ Int64.maxValue.toInt)

def intValue (number : Int) : Except EvalProblem Value :=
  if fitsInt number then .ok (.int (Int64.ofInt number)) else .error .overflow

def UnaryOperator.apply : UnaryOperator → Value → Except EvalProblem Value
  | .not, .bool flag => .ok (.bool !flag)
  | .negate, .int number => intValue (-number.toInt)
  | .negate, .float number => .ok (.float (-number))
  | .absolute, .int number => intValue number.toInt.natAbs
  | .absolute, .float number => .ok (.float (Double.absolute number))
  | operator, operand => .error (.undefinedFor operator.token operand.typeName)

namespace Arithmetic

def applyInt (operator : Arithmetic) (left right : Int) : Except EvalProblem Value :=
  match operator with
  | .add => intValue (left + right)
  | .subtract => intValue (left - right)
  | .multiply => intValue (left * right)
  | .divide => if right = 0 then .error .divisionByZero else intValue (left.tdiv right)
  | .remainder =>
      if right = 0 then .error .divisionByZero
      else if fitsInt (left.tdiv right) then intValue (left.emod right)
      else .error .overflow

def applyFloat (operator : Arithmetic) (left right : Float) : Except EvalProblem Value :=
  match operator with
  | .add => .ok (.float (left + right))
  | .subtract => .ok (.float (left - right))
  | .multiply => .ok (.float (left * right))
  | .divide =>
      if Double.isZero right then .error .divisionByZero else .ok (.float (left / right))
  | .remainder =>
      if Double.isZero right then .error .divisionByZero
      else .ok (.float (Double.euclideanRemainder left right))

/-- Strings can be joined; nothing else is computed with them. -/
def apply (operator : Arithmetic) (left right : Value) : Except EvalProblem Value :=
  let mismatch := EvalProblem.undefinedForBoth operator.token left.typeName right.typeName
  match left, right with
  | .int leftNumber, .int rightNumber => operator.applyInt leftNumber.toInt rightNumber.toInt
  | .string leftText, .string rightText =>
      if operator = .add then .ok (.string (leftText ++ rightText)) else .error mismatch
  | _, _ =>
      match left.asFloat?, right.asFloat? with
      | some leftNumber, some rightNumber => operator.applyFloat leftNumber rightNumber
      | _, _ => .error mismatch

end Arithmetic

namespace Relation

/-- An int and a float are equal when the int as a float is that number. -/
def equalValues : Value → Value → Bool
  | .int left, .float right =>
      Double.compare? (Float.ofInt left.toInt) right == some .eq
  | .float left, .int right =>
      Double.compare? left (Float.ofInt right.toInt) == some .eq
  | left, right => left.same right

def compareTexts (left right : String) : Ordering :=
  if left < right then .lt else if left = right then .eq else .gt

/-- NaN has no place in this order. -/
def compareValues? : Value → Value → Option Ordering
  | .int left, .int right => some (compare left.toInt right.toInt)
  | .string left, .string right => some (compareTexts left right)
  | left, right =>
      match left.asFloat?, right.asFloat? with
      | some leftNumber, some rightNumber => Double.compare? leftNumber rightNumber
      | _, _ => none

def holds? (operator : Relation) (left right : Value) : Option Bool :=
  match operator with
  | .equal => some (equalValues left right)
  | .different => some !(equalValues left right)
  | .less => (compareValues? left right).map (· == .lt)
  | .lessOrEqual => (compareValues? left right).map (· != .gt)
  | .greater => (compareValues? left right).map (· == .gt)
  | .greaterOrEqual => (compareValues? left right).map (· != .lt)

def apply (operator : Relation) (left right : Value) : Except EvalProblem Value :=
  match operator.holds? left right with
  | some flag => .ok (.bool flag)
  | none => .error (.undefinedForBoth operator.token left.typeName right.typeName)

end Relation

namespace Connective

def combine : Connective → Bool → Bool → Bool
  | .and, left, right => left && right
  | .or, left, right => left || right
  | .xor, left, right => left != right

def apply (operator : Connective) (left right : Value) : Except EvalProblem Value :=
  match left.asBool?, right.asBool? with
  | some leftFlag, some rightFlag => .ok (.bool (operator.combine leftFlag rightFlag))
  | _, _ => .error (.undefinedForBoth operator.token left.typeName right.typeName)

/-- The outcome that a left operand settles alone. -/
def settled? : Connective → Value → Option Bool
  | .and, .bool false => some false
  | .or, .bool true => some true
  | _, _ => none

end Connective

namespace BinaryOperator

def apply : BinaryOperator → Value → Value → Except EvalProblem Value
  | .arithmetic operator, left, right => operator.apply left right
  | .relation operator, left, right => operator.apply left right
  | .connective operator, left, right => operator.apply left right

def settled? : BinaryOperator → Value → Option Bool
  | .connective operator, left => operator.settled? left
  | _, _ => none

end BinaryOperator

def Expression.evaluate (frame : Frame) : Expression → Except EvalProblem Value
  | .constant content => .ok content
  | .variable name => frame.evaluate name
  | .unary operator operand =>
      match operand.evaluate frame with
      | .error problem => .error problem
      | .ok content => operator.apply content
  | .binary operator left right =>
      match left.evaluate frame with
      | .error problem => .error problem
      | .ok leftContent =>
          match operator.settled? leftContent with
          | some flag => .ok (.bool flag)
          | none =>
              match right.evaluate frame with
              | .error problem => .error problem
              | .ok rightContent => operator.apply leftContent rightContent

end Deliberation
