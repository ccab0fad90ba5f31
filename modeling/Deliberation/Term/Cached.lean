import Deliberation.Term.Digest
import Deliberation.Term.Equality

/-!
# Literals that keep their digests

Matching compares digests that every literal, nested ones included, keeps beside its
content. Putting in arguments or annotations computes both anew; the sign and the ordering
marker are in neither, so changing these carries both along. The words for the annotations
hold the digests which these keep. Equality looks at the content alone.
-/

namespace Deliberation

set_option autoImplicit false

mutual

inductive CachedTerm where
  | value (value : Value)
  | variable (name : String)
  | bound (name : String) (own : CachedTerm)
  | literal (literal : CachedLiteral)

inductive CachedLiteral where
  | mk (functor : Path) (negated ordered : Bool) (arguments : List CachedTerm)
      (annotations : List CachedLiteral) (valueDigest annotationDigest : UInt64)

end

mutual

/-- The content of a term. -/
def CachedTerm.plain : CachedTerm → Term
  | .value raw => .value raw
  | .variable name => .variable name
  | .bound name own => .bound name own.plain
  | .literal inner => .literal inner.plain

def CachedLiteral.plain : CachedLiteral → Literal
  | .mk functor negated ordered arguments annotations _ _ =>
      .mk functor negated ordered (CachedTerm.allPlain arguments)
        (CachedLiteral.allPlain annotations)

def CachedTerm.allPlain : List CachedTerm → List Term
  | [] => []
  | term :: rest => term.plain :: CachedTerm.allPlain rest

def CachedLiteral.allPlain : List CachedLiteral → List Literal
  | [] => []
  | literal :: rest => literal.plain :: CachedLiteral.allPlain rest

end

mutual

/-- A term with all digests computed from its content. -/
def Term.cached (hash : Hasher) : Term → CachedTerm
  | .value raw => .value raw
  | .variable name => .variable name
  | .bound name own => .bound name (own.cached hash)
  | .literal inner => .literal (inner.cached hash)

def Literal.cached (hash : Hasher) : Literal → CachedLiteral
  | .mk functor negated ordered arguments annotations =>
      .mk functor negated ordered (Term.allCached hash arguments)
        (Literal.allCached hash annotations)
        ((Literal.mk functor negated ordered arguments annotations).valueDigest hash)
        ((Literal.mk functor negated ordered arguments annotations).annotationDigest hash)

def Term.allCached (hash : Hasher) : List Term → List CachedTerm
  | [] => []
  | term :: rest => term.cached hash :: Term.allCached hash rest

def Literal.allCached (hash : Hasher) : List Literal → List CachedLiteral
  | [] => []
  | literal :: rest => literal.cached hash :: Literal.allCached hash rest

end

namespace CachedLiteral

def functor : CachedLiteral → Path
  | .mk functor _ _ _ _ _ _ => functor

def negated : CachedLiteral → Bool
  | .mk _ negated _ _ _ _ _ => negated

def ordered : CachedLiteral → Bool
  | .mk _ _ ordered _ _ _ _ => ordered

def arguments : CachedLiteral → List CachedTerm
  | .mk _ _ _ arguments _ _ _ => arguments

def annotations : CachedLiteral → List CachedLiteral
  | .mk _ _ _ _ annotations _ _ => annotations

def valueDigest : CachedLiteral → UInt64
  | .mk _ _ _ _ _ valueDigest _ => valueDigest

def annotationDigest : CachedLiteral → UInt64
  | .mk _ _ _ _ _ _ annotationDigest => annotationDigest

def rehash (hash : Hasher) : CachedLiteral → CachedLiteral
  | .mk functor negated ordered arguments annotations _ _ =>
      .mk functor negated ordered arguments annotations
        (hash (shapeWords functor (CachedTerm.allPlain arguments)))
        (hash (noteWords (annotations.map fun note => (note.functor, note.valueDigest))))

def ofArguments (hash : Hasher) (functor : Path) (arguments : List CachedTerm) : CachedLiteral :=
  rehash hash (.mk functor false false arguments [] 0 0)

def atom (hash : Hasher) (functor : Path) : CachedLiteral :=
  ofArguments hash functor []

def withNegated (negated : Bool) : CachedLiteral → CachedLiteral
  | .mk functor _ ordered arguments annotations valueDigest annotationDigest =>
      .mk functor negated ordered arguments annotations valueDigest annotationDigest

def withOrdered (ordered : Bool) : CachedLiteral → CachedLiteral
  | .mk functor negated _ arguments annotations valueDigest annotationDigest =>
      .mk functor negated ordered arguments annotations valueDigest annotationDigest

def withArguments (hash : Hasher) (arguments : List CachedTerm) : CachedLiteral → CachedLiteral
  | .mk functor negated ordered _ annotations valueDigest annotationDigest =>
      rehash hash (.mk functor negated ordered arguments annotations valueDigest annotationDigest)

def sortByFunctor (annotations : List CachedLiteral) : List CachedLiteral :=
  stableSort (fun left right => left.functor.precedes right.functor) annotations

def withAnnotations (hash : Hasher) (annotations : List CachedLiteral) :
    CachedLiteral → CachedLiteral
  | .mk functor negated ordered arguments _ valueDigest annotationDigest =>
      rehash hash (.mk functor negated ordered arguments (sortByFunctor annotations)
        valueDigest annotationDigest)

def isGround (literal : CachedLiteral) : Bool :=
  literal.plain.isGround

def same (left right : CachedLiteral) : Bool :=
  left.plain.same right.plain

def matchesValue (left right : CachedLiteral) : Bool :=
  left.valueDigest == right.valueDigest

def matchesExact (left right : CachedLiteral) : Bool :=
  left.valueDigest == right.valueDigest && left.annotationDigest == right.annotationDigest

end CachedLiteral

end Deliberation
