import Deliberation.Term.Basic

/-!
# Leaves of terms

`leaves` says what the leaves of a term are: a literal has those of its
arguments, every other term is a leaf itself. `descend` lists them with a stack
of the argument lists still open, each step taking one term off the top list.
-/

namespace Deliberation

set_option autoImplicit false

mutual

def Term.leaves : Term → List Term
  | .value raw => [.value raw]
  | .variable name => [.variable name]
  | .bound name own => [.bound name own]
  | .literal inner => inner.leaves

def Literal.leaves : Literal → List Term
  | .mk _ _ _ arguments _ => Term.allLeaves arguments

def Term.allLeaves : List Term → List Term
  | [] => []
  | term :: rest => term.leaves ++ Term.allLeaves rest

end

def openSize : List (List Term) → Nat
  | [] => 0
  | terms :: stack => Term.totalSize terms + openSize stack + 1

def descendFrom : List (List Term) → List Term
  | [] => []
  | [] :: stack => descendFrom stack
  | (.literal (.mk _ _ _ arguments _) :: rest) :: stack =>
      descendFrom (arguments :: rest :: stack)
  | (.value raw :: rest) :: stack => .value raw :: descendFrom (rest :: stack)
  | (.variable name :: rest) :: stack => .variable name :: descendFrom (rest :: stack)
  | (.bound name own :: rest) :: stack => .bound name own :: descendFrom (rest :: stack)
termination_by stack => openSize stack
decreasing_by
  all_goals simp only [openSize, Term.totalSize, Term.size, Literal.size]
  all_goals omega

def descend (terms : List Term) : List Term :=
  descendFrom [terms]

namespace Literal

def argumentLeaves (literal : Literal) : List Term :=
  descend literal.arguments

def annotationLeaves (literal : Literal) : List Term :=
  descend (literal.annotations.map .literal)

end Literal

end Deliberation
