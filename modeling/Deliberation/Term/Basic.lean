import Deliberation.Path
import Deliberation.StableSort
import Deliberation.Value

/-!
# Terms and literals

A term is a raw value, a variable, a variable that carries a term of its own,
or a literal. A literal has a functor path, a sign, arguments and annotations.
Annotations are kept sorted by functor whenever they are replaced; the ordering
marker is carried along and takes no part in equality.
-/

namespace Deliberation

set_option autoImplicit false

mutual

inductive Term where
  | value (value : Value)
  | variable (name : String)
  | bound (name : String) (own : Term)
  | literal (literal : Literal)

inductive Literal where
  | mk (functor : Path) (negated ordered : Bool) (arguments : List Term)
      (annotations : List Literal)

end

namespace Literal

def functor : Literal → Path
  | .mk functor _ _ _ _ => functor

def negated : Literal → Bool
  | .mk _ negated _ _ _ => negated

def ordered : Literal → Bool
  | .mk _ _ ordered _ _ => ordered

def arguments : Literal → List Term
  | .mk _ _ _ arguments _ => arguments

def annotations : Literal → List Literal
  | .mk _ _ _ _ annotations => annotations

def arity (literal : Literal) : Nat :=
  literal.arguments.length

def ofArguments (functor : Path) (arguments : List Term) : Literal :=
  .mk functor false false arguments []

def atom (functor : Path) : Literal :=
  ofArguments functor []

def withNegated (negated : Bool) : Literal → Literal
  | .mk functor _ ordered arguments annotations =>
      .mk functor negated ordered arguments annotations

def withOrdered (ordered : Bool) : Literal → Literal
  | .mk functor negated _ arguments annotations =>
      .mk functor negated ordered arguments annotations

def withArguments (arguments : List Term) : Literal → Literal
  | .mk functor negated ordered _ annotations =>
      .mk functor negated ordered arguments annotations

def sortByFunctor (annotations : List Literal) : List Literal :=
  stableSort (fun left right => left.functor.precedes right.functor) annotations

def withAnnotations (annotations : List Literal) : Literal → Literal
  | .mk functor negated ordered arguments _ =>
      .mk functor negated ordered arguments (sortByFunctor annotations)

end Literal

namespace Term

def isVariable : Term → Bool
  | .variable _ => true
  | .bound _ _ => true
  | _ => false

def value? : Term → Option Value
  | .value raw => some raw
  | _ => none

/-- The raw value of a term, seen through variables that carry one. -/
def raw? : Term → Option Value
  | .value raw => some raw
  | .bound _ own => own.raw?
  | _ => none

/-- The name of a variable without a term of its own. -/
def unbound? : Term → Option String
  | .variable name => some name
  | _ => none

end Term

mutual

/-- A variable that carries a term counts as ground, whatever it carries. -/
def Term.isGround : Term → Bool
  | .value _ => true
  | .variable _ => false
  | .bound _ _ => true
  | .literal inner => inner.isGround

def Literal.isGround : Literal → Bool
  | .mk _ _ _ arguments annotations =>
      Term.allGround arguments && Literal.allGround annotations

def Term.allGround : List Term → Bool
  | [] => true
  | term :: rest => term.isGround && Term.allGround rest

def Literal.allGround : List Literal → Bool
  | [] => true
  | literal :: rest => literal.isGround && Literal.allGround rest

end

mutual

/-- The names of the variables of a term in order of occurrence, carried terms
left out. -/
def Term.variables : Term → List String
  | .value _ => []
  | .variable name => [name]
  | .bound name _ => [name]
  | .literal inner => inner.variables

def Literal.variables : Literal → List String
  | .mk _ _ _ arguments annotations =>
      Term.allVariables arguments ++ Literal.allVariables annotations

def Term.allVariables : List Term → List String
  | [] => []
  | term :: rest => term.variables ++ Term.allVariables rest

def Literal.allVariables : List Literal → List String
  | [] => []
  | literal :: rest => literal.variables ++ Literal.allVariables rest

end

/-- Keeps a list of names sorted and free of repetitions. -/
def insertName (name : String) : List String → List String
  | [] => [name]
  | head :: rest =>
      if head = name then head :: rest
      else if name < head then name :: head :: rest
      else head :: insertName name rest

def Literal.variableNames (literal : Literal) : List String :=
  literal.variables.foldr insertName []

mutual

/-- The number of nodes of a term, carried terms included. -/
def Term.size : Term → Nat
  | .value _ => 1
  | .variable _ => 1
  | .bound _ own => own.size + 1
  | .literal inner => inner.size + 1

def Literal.size : Literal → Nat
  | .mk _ _ _ arguments annotations =>
      Term.totalSize arguments + Literal.totalSize annotations + 1

def Term.totalSize : List Term → Nat
  | [] => 0
  | term :: rest => term.size + Term.totalSize rest + 1

def Literal.totalSize : List Literal → Nat
  | [] => 0
  | literal :: rest => literal.size + Literal.totalSize rest + 1

end

end Deliberation
