import Deliberation.Proofs.Term.Leaves

/-!
# Plain terms

A plain term has no variable that carries a term of its own. So a leaf of a plain
literal is a raw value or an unbound variable.
-/

namespace Deliberation

set_option autoImplicit false

mutual

def Term.isPlain : Term → Bool
  | .value _ => true
  | .variable _ => true
  | .bound _ _ => false
  | .literal inner => inner.isPlain

def Literal.isPlain : Literal → Bool
  | .mk _ _ _ arguments annotations =>
      Term.allPlain arguments && Literal.allPlain annotations

def Term.allPlain : List Term → Bool
  | [] => true
  | term :: rest => term.isPlain && Term.allPlain rest

def Literal.allPlain : List Literal → Bool
  | [] => true
  | literal :: rest => literal.isPlain && Literal.allPlain rest

end

theorem Term.all_plain_iff (terms : List Term) :
    Term.allPlain terms = true ↔ ∀ term ∈ terms, term.isPlain = true := by
  induction terms with
  | nil => simp [Term.allPlain]
  | cons head rest ih => simp [Term.allPlain, ih]

theorem Literal.all_plain_iff (literals : List Literal) :
    Literal.allPlain literals = true ↔ ∀ inner ∈ literals, inner.isPlain = true := by
  induction literals with
  | nil => simp [Literal.allPlain]
  | cons head rest ih => simp [Literal.allPlain, ih]

theorem Literal.is_plain_iff (inner : Literal) :
    inner.isPlain = true ↔
      (∀ argument ∈ inner.arguments, argument.isPlain = true) ∧
        ∀ note ∈ inner.annotations, note.isPlain = true := by
  cases inner
  rw [Literal.isPlain, Bool.and_eq_true, Term.all_plain_iff, Literal.all_plain_iff]
  rfl

theorem plain_leaves :
    (∀ term : Term, term.isPlain = true → ∀ leaf ∈ term.leaves, leaf.isPlain = true) ∧
      ∀ whole : Literal, whole.isPlain = true → ∀ leaf ∈ whole.leaves, leaf.isPlain = true := by
  apply InductiveProperty.holds
  constructor
  case value => simp [Term.leaves, Term.isPlain]
  case free => simp [Term.leaves, Term.isPlain]
  case carrying => simp [Term.isPlain]
  case nested =>
    intro whole ih plain
    exact ih plain
  case literal =>
    intro functor negated ordered arguments annotations ofArguments _ plain leaf member
    rw [Literal.leaves, Term.all_leaves_eq, List.mem_flatMap] at member
    rcases member with ⟨argument, isArgument, member⟩
    have plainArgument := ((Literal.is_plain_iff _).mp plain).1 argument isArgument
    exact ofArguments argument isArgument plainArgument leaf member

/-- What is plain, not unbound and no literal is a raw value. -/
theorem Term.eq_value_of_plain {leaf : Term} (plain : leaf.isPlain = true)
    (bound : ∀ name, leaf ≠ .variable name) (noLiteral : ∀ inner, leaf ≠ .literal inner) :
    ∃ raw, leaf = .value raw := by
  rcases leaf with raw | name | ⟨name, own⟩ | inner
  · exact ⟨raw, rfl⟩
  · exact absurd rfl (bound name)
  · simp [Term.isPlain] at plain
  · exact absurd rfl (noLiteral inner)

namespace Literal

/-- A leaf of a plain literal is a raw value unless it is unbound. -/
theorem leaf_eq_value {whole : Literal} (plain : whole.isPlain = true) {leaf : Term}
    (member : leaf ∈ whole.leaves) (bound : ∀ name, leaf ≠ .variable name) :
    ∃ raw, leaf = .value raw := by
  apply Term.eq_value_of_plain
  · exact plain_leaves.2 whole plain leaf member
  · exact bound
  · intro inner isLiteral
    rw [isLiteral] at member
    exact leaves_hold_no_literal.2 whole inner member

theorem annotation_leaf_eq_value {whole : Literal} (plain : whole.isPlain = true) {leaf : Term}
    (member : leaf ∈ whole.annotationLeaves) (bound : ∀ name, leaf ≠ .variable name) :
    ∃ raw, leaf = .value raw := by
  rw [annotation_leaves_eq, List.mem_flatMap] at member
  rcases member with ⟨note, isNote, member⟩
  exact leaf_eq_value (((is_plain_iff _).mp plain).2 note isNote) member bound

end Literal

end Deliberation
