import Deliberation.Double.Decimal

/-!
# Raw values

Equality of values compares numbers of one kind only: an int never equals a
float. Floats are compared by rank, so NaN equals itself and the zeros are one.
-/

namespace Deliberation

set_option autoImplicit false

inductive Value where
  | int (number : Int64)
  | float (number : Float)
  | string (text : String)
  | bool (flag : Bool)
  deriving DecidableEq

namespace Value

def same : Value → Value → Bool
  | .int left, .int right => left == right
  | .float left, .float right => Double.same left right
  | .string left, .string right => left == right
  | .bool left, .bool right => left == right
  | _, _ => false

def asBool? : Value → Option Bool
  | .bool flag => some flag
  | _ => none

/-- Ints widen to the nearest float, a half going to the even neighbour. -/
def asFloat? : Value → Option Float
  | .int number => some (Float.ofInt number.toInt)
  | .float number => some number
  | _ => none

def typeName : Value → String
  | .int _ => "int"
  | .float _ => "float"
  | .string _ => "string"
  | .bool _ => "bool"

/-- Strings stand between quotes as they are, without escapes. -/
def text : Value → String
  | .int number => toString number.toInt
  | .float number => Double.text number
  | .string text => "\"" ++ text ++ "\""
  | .bool flag => if flag then "true" else "false"

end Value

end Deliberation
