import Deliberation.Term.Basic

/-!
# Equality of terms

Two terms are the same when they agree part by part, values by equality of
values. The ordering marker of literals is not compared.
-/

namespace Deliberation

set_option autoImplicit false

mutual

def Term.same : Term → Term → Bool
  | .value left, .value right => left.same right
  | .variable left, .variable right => left == right
  | .bound left leftOwn, .bound right rightOwn => left == right && leftOwn.same rightOwn
  | .literal left, .literal right => left.same right
  | _, _ => false

def Literal.same : Literal → Literal → Bool
  | .mk leftFunctor leftNegated _ leftArguments leftAnnotations,
      .mk rightFunctor rightNegated _ rightArguments rightAnnotations =>
      decide (leftFunctor = rightFunctor) && leftNegated == rightNegated &&
        Term.allSame leftArguments rightArguments &&
        Literal.allSame leftAnnotations rightAnnotations

def Term.allSame : List Term → List Term → Bool
  | [], [] => true
  | left :: leftRest, right :: rightRest => left.same right && Term.allSame leftRest rightRest
  | _, _ => false

def Literal.allSame : List Literal → List Literal → Bool
  | [], [] => true
  | left :: leftRest, right :: rightRest =>
      left.same right && Literal.allSame leftRest rightRest
  | _, _ => false

end

end Deliberation
