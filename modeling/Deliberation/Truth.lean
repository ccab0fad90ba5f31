import Deliberation.Double.Decimal

/-!
# Graded truths

A truth may carry a degree of confidence. Disjunction keeps the highest degree
and conjunction the lowest; an operand without a degree leaves the other's.
-/

namespace Deliberation

set_option autoImplicit false

structure Truth where
  value : Bool
  degree : Option Float
  deriving DecidableEq

namespace Truth

def ofBool (value : Bool) : Truth :=
  ⟨value, none⟩

/-- Degrees are brought into the range from 0 to 1. -/
def withDegree (value : Bool) (degree : Float) : Truth :=
  ⟨value, some (Double.clampUnit degree)⟩

def zero : Truth := ofBool false

def one : Truth := ofBool true

instance : Inhabited Truth := ⟨zero⟩

def combineDegrees (choose : Float → Float → Float) :
    Option Float → Option Float → Option Float
  | some left, some right => some (choose left right)
  | left, none => left
  | none, right => right

def add (left right : Truth) : Truth :=
  ⟨left.value || right.value, combineDegrees Double.highest left.degree right.degree⟩

def mul (left right : Truth) : Truth :=
  ⟨left.value && right.value, combineDegrees Double.lowest left.degree right.degree⟩

def not (truth : Truth) : Truth :=
  ⟨!truth.value, truth.degree.map (1 - ·)⟩

instance : Add Truth := ⟨add⟩

instance : Mul Truth := ⟨mul⟩

def sameDegree : Option Float → Option Float → Bool
  | some left, some right => Double.same left right
  | none, none => true
  | _, _ => false

def same (left right : Truth) : Bool :=
  left.value == right.value && sameDegree left.degree right.degree

def text (truth : Truth) : String :=
  let value := if truth.value then "true" else "false"
  match truth.degree with
  | some degree => value ++ "(" ++ Double.text degree ++ ")"
  | none => value

end Truth

end Deliberation
