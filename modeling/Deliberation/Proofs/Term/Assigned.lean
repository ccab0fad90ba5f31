import Deliberation.Proofs.Term.Same

/-!
# Values for unbound variables

Giving raw values to all unbound variables of a literal, those of nested literals and
of annotations at any depth included, changes leaves one by one. It leaves a ground
literal as it is and the marks of every literal, so both shapes stay.
-/

namespace Deliberation

set_option autoImplicit false

mutual

/-- A variable that carries a term keeps it. -/
def Term.assign (values : String → Value) : Term → Term
  | .value raw => .value raw
  | .variable name => .value (values name)
  | .bound name own => .bound name own
  | .literal inner => .literal (inner.assign values)

def Literal.assign (values : String → Value) : Literal → Literal
  | .mk functor negated ordered arguments annotations =>
      .mk functor negated ordered (Term.assignAll values arguments)
        (Literal.assignAll values annotations)

def Term.assignAll (values : String → Value) : List Term → List Term
  | [] => []
  | term :: rest => term.assign values :: Term.assignAll values rest

def Literal.assignAll (values : String → Value) : List Literal → List Literal
  | [] => []
  | literal :: rest => literal.assign values :: Literal.assignAll values rest

end

variable (values : String → Value)

theorem Term.assign_all_eq (terms : List Term) :
    Term.assignAll values terms = terms.map (Term.assign values) := by
  induction terms with
  | nil => rfl
  | cons head rest ih => rw [Term.assignAll, ih, List.map_cons]

theorem Literal.assign_all_eq (literals : List Literal) :
    Literal.assignAll values literals = literals.map (Literal.assign values) := by
  induction literals with
  | nil => rfl
  | cons head rest ih => rw [Literal.assignAll, ih, List.map_cons]

theorem assign_marks :
    (∀ term : Term, (term.assign values).marks = term.marks) ∧
      ∀ whole : Literal, (whole.assign values).marks = whole.marks := by
  apply InductiveProperty.holds
  constructor
  case value | free | carrying => simp [Term.assign, Term.marks]
  case nested =>
    intro inner ih
    exact ih
  case literal =>
    intro functor negated ordered arguments annotations ofArguments _
    rw [Literal.assign, Term.assign_all_eq]
    exact Literal.marks_of_arguments ofArguments

theorem assign_leaves :
    (∀ term : Term, (term.assign values).leaves = term.leaves.map (Term.assign values)) ∧
      ∀ whole : Literal, (whole.assign values).leaves = whole.leaves.map (Term.assign values) := by
  apply InductiveProperty.holds
  constructor
  case value | free | carrying => simp [Term.assign, Term.leaves]
  case nested =>
    intro inner ih
    exact ih
  case literal =>
    intro functor negated ordered arguments annotations ofArguments _
    rw [Literal.assign, Term.assign_all_eq]
    exact Literal.leaves_of_arguments ofArguments

theorem assign_ground :
    (∀ term : Term, term.isGround = true → term.assign values = term) ∧
      ∀ whole : Literal, whole.isGround = true → whole.assign values = whole := by
  apply InductiveProperty.holds
  constructor
  case value | carrying => simp [Term.assign]
  case free => simp [Term.isGround]
  case nested =>
    intro inner ih ground
    exact congrArg Term.literal (ih ground)
  case literal =>
    intro functor negated ordered arguments annotations ofArguments ofNotes ground
    rw [Literal.isGround, Bool.and_eq_true, Term.all_ground_iff, Literal.all_ground_iff] at ground
    have sameArguments := List.map_congr_left fun term member =>
      ofArguments term member (ground.1 term member)
    have sameNotes := List.map_congr_left fun note member =>
      ofNotes note member (ground.2 note member)
    rw [Literal.assign, Term.assign_all_eq, Literal.assign_all_eq, sameArguments, sameNotes,
      List.map_id', List.map_id']

namespace Literal

theorem assign_functor (whole : Literal) : (whole.assign values).functor = whole.functor := by
  cases whole
  rfl

theorem assign_negated (whole : Literal) : (whole.assign values).negated = whole.negated := by
  cases whole
  rfl

theorem assign_annotation_leaves (whole : Literal) :
    (whole.assign values).annotationLeaves =
      whole.annotationLeaves.map (Term.assign values) := by
  have notes : (whole.assign values).annotations =
      whole.annotations.map (Literal.assign values) := by
    cases whole
    exact Literal.assign_all_eq values _
  rw [annotation_leaves_eq, annotation_leaves_eq, notes, List.flatMap_map, List.map_flatMap]
  exact List.flatMap_congr fun note _ => (assign_leaves values).2 note

theorem assign_annotation_marks (whole : Literal) :
    (whole.assign values).annotations.map marks = whole.annotations.map marks := by
  have notes : (whole.assign values).annotations =
      whole.annotations.map (Literal.assign values) := by
    cases whole
    exact Literal.assign_all_eq values _
  rw [notes, List.map_map]
  exact List.map_congr_left fun note _ => (assign_marks values).2 note

end Literal

end Deliberation
