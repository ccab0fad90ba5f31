import Deliberation.Proofs.Term.Leaves
import Deliberation.Term.Equality
import Deliberation.Term.Shape
import Mathlib.Data.List.Forall2

/-!
# What equal terms share

Terms that are the same leave the same marks and have the same leaves, one by one.
Both shapes of a literal can be read off marks: the value shape off those of the
literal itself and the annotation shape off those of its annotations. So a literal
that is the same as another one passes every comparison of shapes with it.
-/

namespace Deliberation

set_option autoImplicit false

section Lists

variable {α β : Type} {related : α → α → Prop} {left right : List α}

theorem map_eq_of_related {view : α → β} (pairs : List.Forall₂ related left right)
    (respected : ∀ first ∈ left, ∀ second, related first second → view first = view second) :
    left.map view = right.map view := by
  induction pairs with
  | nil => rfl
  | @cons first second _ _ same _ ih =>
      have rest := ih fun other member => respected other (List.mem_cons_of_mem _ member)
      rw [List.map_cons, List.map_cons, rest, respected first List.mem_cons_self second same]

theorem flat_map_related {view : α → List β} {relatedViews : β → β → Prop}
    (pairs : List.Forall₂ related left right)
    (respected : ∀ first ∈ left, ∀ second, related first second →
      List.Forall₂ relatedViews (view first) (view second)) :
    List.Forall₂ relatedViews (left.flatMap view) (right.flatMap view) := by
  induction pairs with
  | nil => exact .nil
  | @cons first second _ _ same _ ih =>
      have head := respected first List.mem_cons_self second same
      have rest := ih fun other member => respected other (List.mem_cons_of_mem _ member)
      rw [List.flatMap_cons, List.flatMap_cons]
      exact List.rel_append head rest

end Lists

theorem Term.all_same_iff (left right : List Term) :
    Term.allSame left right = true ↔
      List.Forall₂ (fun first second => first.same second = true) left right := by
  induction left generalizing right with
  | nil => cases right <;> simp [Term.allSame]
  | cons head rest ih => cases right <;> simp [Term.allSame, ih]

theorem Literal.all_same_iff (left right : List Literal) :
    Literal.allSame left right = true ↔
      List.Forall₂ (fun first second => first.same second = true) left right := by
  induction left generalizing right with
  | nil => cases right <;> simp [Literal.allSame]
  | cons head rest ih => cases right <;> simp [Literal.allSame, ih]

theorem Term.all_marks_eq (terms : List Term) :
    Term.allMarks terms = terms.flatMap Term.marks := by
  induction terms with
  | nil => rfl
  | cons head rest ih => simp [Term.allMarks, ih]

namespace Literal

/-- Equality of literals part by part, the ordering marker left out. -/
theorem same_iff (left right : Literal) :
    left.same right = true ↔
      (left.functor = right.functor ∧ left.negated = right.negated) ∧
      List.Forall₂ (fun first second => first.same second = true)
        left.arguments right.arguments ∧
      List.Forall₂ (fun first second => first.same second = true)
        left.annotations right.annotations := by
  cases left
  cases right
  simp [Literal.same, Term.all_same_iff, Literal.all_same_iff, functor, negated, arguments,
    annotations, and_assoc]

theorem marks_eq (inner : Literal) :
    inner.marks = .nested inner.functor inner.negated inner.arity ::
      inner.arguments.flatMap Term.marks := by
  cases inner
  rw [Literal.marks, Term.all_marks_eq]
  rfl

section Arguments

variable {functor : Path} {negated ordered : Bool} {arguments : List Term}
  {annotations notes : List Literal} {change : Term → Term}

/-- A change of arguments that keeps the marks of each keeps those of the literal. -/
theorem marks_of_arguments
    (keeps : ∀ argument ∈ arguments, (change argument).marks = argument.marks) :
    (mk functor negated ordered (arguments.map change) notes).marks =
      (mk functor negated ordered arguments annotations).marks := by
  have marks : (arguments.map change).flatMap Term.marks = arguments.flatMap Term.marks := by
    rw [List.flatMap_map]
    exact List.flatMap_congr keeps
  rw [Literal.marks, Literal.marks, Term.all_marks_eq, Term.all_marks_eq, marks, List.length_map]

theorem leaves_of_arguments {view : Term → Term}
    (leafwise : ∀ argument ∈ arguments, (change argument).leaves = argument.leaves.map view) :
    (mk functor negated ordered (arguments.map change) notes).leaves =
      (mk functor negated ordered arguments annotations).leaves.map view := by
  rw [Literal.leaves, Literal.leaves, Term.all_leaves_eq, Term.all_leaves_eq, List.flatMap_map,
    List.map_flatMap]
  exact List.flatMap_congr leafwise

end Arguments

theorem value_shape_eq_of_marks {left right : Literal} (same : left.marks = right.marks) :
    left.valueShape = right.valueShape := by
  rw [marks_eq, marks_eq, List.cons.injEq, Mark.nested.injEq] at same
  rcases same with ⟨⟨functor, -, arity⟩, arguments⟩
  have empty : left.arguments.isEmpty = right.arguments.isEmpty := by
    rw [Bool.eq_iff_iff, List.isEmpty_iff_length_eq_zero, List.isEmpty_iff_length_eq_zero]
    change left.arity = 0 ↔ right.arity = 0
    rw [arity]
  rw [valueShape, valueShape, Term.all_marks_eq, Term.all_marks_eq, functor, arity, arguments,
    empty]

theorem annotation_shape_eq_of_marks {left right : Literal}
    (same : left.annotations.map marks = right.annotations.map marks) :
    left.annotationShape = right.annotationShape := by
  have equal : List.Forall₂ (· = ·) (left.annotations.map marks) (right.annotations.map marks) := by
    rw [same, List.forall₂_eq_eq_eq]
  have notes := List.forall₂_map_right_iff.mp (List.forall₂_map_left_iff.mp equal)
  refine map_eq_of_related notes fun first _ second same => ?_
  have shapes := value_shape_eq_of_marks same
  rw [marks_eq, marks_eq, List.cons.injEq, Mark.nested.injEq] at same
  rw [same.1.1, shapes]

end Literal

theorem same_marks :
    (∀ left : Term, ∀ right, left.same right = true → left.marks = right.marks) ∧
      ∀ left : Literal, ∀ right, left.same right = true → left.marks = right.marks := by
  apply InductiveProperty.holds
  constructor
  case value =>
    intro raw right same
    cases right <;> simp_all [Term.same, Term.marks]
  case free =>
    intro name right same
    cases right <;> simp_all [Term.same, Term.marks]
  case carrying =>
    intro name own _ right same
    cases right <;> simp_all [Term.same, Term.marks]
  case nested =>
    intro inner ih right same
    rcases right with _ | _ | _ | other
    case literal =>
      rw [Term.same] at same
      exact ih other same
    all_goals simp [Term.same] at same
  case literal =>
    intro functor negated ordered arguments annotations ofArguments _ right same
    obtain ⟨⟨sameFunctor, sameSign⟩, sameArguments, _⟩ := (Literal.same_iff _ _).mp same
    have arity := sameArguments.length_eq
    have marks := map_eq_of_related sameArguments ofArguments
    rw [Literal.marks_eq, Literal.marks_eq, List.flatMap_def, List.flatMap_def, sameFunctor,
      sameSign, marks]
    exact congrArg (fun count => Mark.nested _ _ count :: _) arity

theorem same_leaves :
    (∀ left : Term, ∀ right, left.same right = true →
      List.Forall₂ (fun first second => first.same second = true) left.leaves right.leaves) ∧
    ∀ left : Literal, ∀ right, left.same right = true →
      List.Forall₂ (fun first second => first.same second = true) left.leaves right.leaves := by
  apply InductiveProperty.holds
  constructor
  case value =>
    intro raw right same
    cases right <;> simp_all [Term.same, Term.leaves]
  case free =>
    intro name right same
    cases right <;> simp_all [Term.same, Term.leaves]
  case carrying =>
    intro name own _ right same
    cases right <;> simp_all [Term.same, Term.leaves]
  case nested =>
    intro inner ih right same
    rcases right with _ | _ | _ | other
    case literal =>
      rw [Term.same] at same
      exact ih other same
    all_goals simp [Term.same] at same
  case literal =>
    intro functor negated ordered arguments annotations ofArguments _ right same
    have sameArguments := ((Literal.same_iff _ _).mp same).2.1
    rw [Literal.leaves_eq, Literal.leaves_eq]
    exact flat_map_related sameArguments ofArguments

/-- Of two terms that are the same, both or none have a raw value, and these are the same. -/
theorem same_raw :
    ∀ left right : Term, left.same right = true →
      (left.raw? = none ∧ right.raw? = none) ∨
      ∃ leftRaw rightRaw, left.raw? = some leftRaw ∧ right.raw? = some rightRaw ∧
        leftRaw.same rightRaw = true := by
  suffices both : _ ∧ ∀ _ : Literal, True from both.1
  apply InductiveProperty.holds
  constructor
  case value =>
    intro raw right same
    cases right <;> simp_all [Term.same, Term.raw?]
  case free =>
    intro name right same
    cases right <;> simp_all [Term.same, Term.raw?]
  case carrying =>
    intro name own ih right same
    rcases right with _ | _ | ⟨other, otherOwn⟩ | _
    case bound =>
      rw [Term.same, Bool.and_eq_true] at same
      exact ih otherOwn same.2
    all_goals simp [Term.same] at same
  case nested =>
    intro inner _ right same
    cases right <;> simp_all [Term.same, Term.raw?]
  case literal => simp

namespace Literal

variable {left right : Literal}

theorem same_annotation_leaves (same : left.same right = true) :
    List.Forall₂ (fun first second => first.same second = true)
      left.annotationLeaves right.annotationLeaves := by
  have sameNotes := ((same_iff _ _).mp same).2.2
  rw [annotation_leaves_eq, annotation_leaves_eq]
  exact flat_map_related sameNotes fun first _ second => same_leaves.2 first second

theorem same_annotation_marks (same : left.same right = true) :
    left.annotations.map marks = right.annotations.map marks := by
  have sameNotes := ((same_iff _ _).mp same).2.2
  exact map_eq_of_related sameNotes fun first _ second => same_marks.2 first second

end Literal

end Deliberation
