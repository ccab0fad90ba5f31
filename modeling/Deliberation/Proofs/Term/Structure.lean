import Deliberation.Term.Leaves

/-!
# Structure of terms

Terms and literals are built from each other, so a property of one is proved
together with a property of the other. The companions over lists are the plain
list operations, which is all that later proofs use of them.
-/

namespace Deliberation

set_option autoImplicit false

/-- What a property of terms and literals has to satisfy at each way to build them. -/
structure InductiveProperty (onTerm : Term → Prop) (onLiteral : Literal → Prop) : Prop where
  value : ∀ raw, onTerm (.value raw)
  free : ∀ name, onTerm (.variable name)
  carrying : ∀ name own, onTerm own → onTerm (.bound name own)
  nested : ∀ inner, onLiteral inner → onTerm (.literal inner)
  literal : ∀ functor negated ordered arguments annotations,
    (∀ term ∈ arguments, onTerm term) → (∀ note ∈ annotations, onLiteral note) →
      onLiteral (.mk functor negated ordered arguments annotations)

namespace InductiveProperty

variable {onTerm : Term → Prop} {onLiteral : Literal → Prop}

mutual

theorem holds_of_term (property : InductiveProperty onTerm onLiteral) :
    (term : Term) → onTerm term
  | .value raw => property.value raw
  | .variable name => property.free name
  | .bound name own => property.carrying name own (holds_of_term property own)
  | .literal inner => property.nested inner (holds_of_literal property inner)

theorem holds_of_literal (property : InductiveProperty onTerm onLiteral) :
    (inner : Literal) → onLiteral inner
  | .mk functor negated ordered arguments annotations =>
      property.literal functor negated ordered arguments annotations
        (holds_of_terms property arguments) (holds_of_literals property annotations)

theorem holds_of_terms (property : InductiveProperty onTerm onLiteral) :
    (terms : List Term) → ∀ term ∈ terms, onTerm term
  | [], _, member => absurd member List.not_mem_nil
  | head :: rest, term, member =>
      (List.mem_cons.mp member).elim (fun same => same ▸ holds_of_term property head)
        (holds_of_terms property rest term)

theorem holds_of_literals (property : InductiveProperty onTerm onLiteral) :
    (literals : List Literal) → ∀ inner ∈ literals, onLiteral inner
  | [], _, member => absurd member List.not_mem_nil
  | head :: rest, inner, member =>
      (List.mem_cons.mp member).elim (fun same => same ▸ holds_of_literal property head)
        (holds_of_literals property rest inner)

end

theorem holds (property : InductiveProperty onTerm onLiteral) :
    (∀ term, onTerm term) ∧ ∀ inner, onLiteral inner :=
  ⟨property.holds_of_term, property.holds_of_literal⟩

end InductiveProperty

theorem Term.all_ground_iff (terms : List Term) :
    Term.allGround terms = true ↔ ∀ term ∈ terms, term.isGround = true := by
  induction terms with
  | nil => simp [Term.allGround]
  | cons head rest ih => simp [Term.allGround, ih]

theorem Literal.all_ground_iff (literals : List Literal) :
    Literal.allGround literals = true ↔ ∀ inner ∈ literals, inner.isGround = true := by
  induction literals with
  | nil => simp [Literal.allGround]
  | cons head rest ih => simp [Literal.allGround, ih]

theorem Term.all_leaves_eq (terms : List Term) :
    Term.allLeaves terms = terms.flatMap Term.leaves := by
  induction terms with
  | nil => rfl
  | cons head rest ih => simp [Term.allLeaves, ih]

theorem Term.all_variables_eq (terms : List Term) :
    Term.allVariables terms = terms.flatMap Term.variables := by
  induction terms with
  | nil => rfl
  | cons head rest ih => simp [Term.allVariables, ih]

theorem Literal.all_variables_eq (literals : List Literal) :
    Literal.allVariables literals = literals.flatMap Literal.variables := by
  induction literals with
  | nil => rfl
  | cons head rest ih => simp [Literal.allVariables, ih]

theorem Literal.mem_variables_iff (inner : Literal) (name : String) :
    name ∈ inner.variables ↔
      (∃ argument ∈ inner.arguments, name ∈ argument.variables) ∨
        ∃ note ∈ inner.annotations, name ∈ note.variables := by
  cases inner
  rw [Literal.variables, Term.all_variables_eq, Literal.all_variables_eq, List.mem_append,
    List.mem_flatMap, List.mem_flatMap]
  rfl

end Deliberation
