import Deliberation.Term.Basic

/-!
# Shapes of literals

The shapes are what the digests of a literal are meant to tell. The value shape
is one sequence of marks: the arity, the functor where there are no arguments,
and then the arguments from left to right with the head of every nested literal
entered and a plain mark for every leaf. Contents of leaves and annotations of
nested literals leave no mark. The annotation shape has the functor and the
value shape of each annotation. Equal shapes have equal digests; the converse
needs a hash function without collisions, so matching goes by the digests.
-/

namespace Deliberation

set_option autoImplicit false

inductive Mark where
  | arity (count : Nat)
  | functor (path : Path)
  | leaf
  | nested (functor : Path) (negated : Bool) (arity : Nat)
  deriving DecidableEq

mutual

def Term.marks : Term → List Mark
  | .value _ => [.leaf]
  | .variable _ => [.leaf]
  | .bound _ _ => [.leaf]
  | .literal inner => inner.marks

def Literal.marks : Literal → List Mark
  | .mk functor negated _ arguments _ =>
      .nested functor negated arguments.length :: Term.allMarks arguments

def Term.allMarks : List Term → List Mark
  | [] => []
  | term :: rest => term.marks ++ Term.allMarks rest

end

namespace Literal

def valueShape (literal : Literal) : List Mark :=
  .arity literal.arity ::
    (if literal.arguments.isEmpty then [.functor literal.functor] else []) ++
      Term.allMarks literal.arguments

def annotationShape (literal : Literal) : List (Path × List Mark) :=
  literal.annotations.map fun note => (note.functor, note.valueShape)

end Literal

end Deliberation
