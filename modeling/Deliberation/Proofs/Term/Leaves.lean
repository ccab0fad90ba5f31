import Deliberation.Proofs.Term.Structure

/-!
# What the leaves of a literal are

The stack of open argument lists only postpones the right siblings, so listing
leaves with it is flattening from left to right. A leaf is never a literal, and
a leaf that is an unbound variable is among the variables of the whole.
-/

namespace Deliberation

set_option autoImplicit false

/-- Everything on the stack is still to come, the top list first. -/
theorem descend_from_eq (stack : List (List Term)) :
    descendFrom stack = stack.flatMap Term.allLeaves := by
  fun_induction descendFrom stack with
  | case1 => rfl
  | case2 stack ih => simpa [Term.allLeaves] using ih
  | case3 functor negated ordered arguments annotations rest stack ih =>
      rw [ih]
      simp [Term.allLeaves, Term.leaves, Literal.leaves]
  | case4 raw rest stack ih =>
      rw [ih]
      simp [Term.allLeaves, Term.leaves]
  | case5 name rest stack ih =>
      rw [ih]
      simp [Term.allLeaves, Term.leaves]
  | case6 name own rest stack ih =>
      rw [ih]
      simp [Term.allLeaves, Term.leaves]

theorem descend_eq (terms : List Term) : descend terms = terms.flatMap Term.leaves := by
  rw [descend, descend_from_eq, ← Term.all_leaves_eq]
  simp

namespace Literal

theorem leaves_eq (inner : Literal) : inner.leaves = inner.arguments.flatMap Term.leaves := by
  cases inner
  rw [Literal.leaves, Term.all_leaves_eq]
  rfl

theorem argument_leaves_eq (inner : Literal) : inner.argumentLeaves = inner.leaves := by
  rw [argumentLeaves, descend_eq, leaves_eq]

theorem annotation_leaves_eq (inner : Literal) :
    inner.annotationLeaves = inner.annotations.flatMap Literal.leaves := by
  rw [annotationLeaves, descend_eq, List.flatMap_map]
  rfl

end Literal

theorem leaves_hold_no_literal :
    (∀ term : Term, ∀ inner, Term.literal inner ∉ term.leaves) ∧
      ∀ whole : Literal, ∀ inner, Term.literal inner ∉ whole.leaves := by
  apply InductiveProperty.holds
  constructor
  case value => simp [Term.leaves]
  case free => simp [Term.leaves]
  case carrying => simp [Term.leaves]
  case nested =>
    intro whole ih inner
    exact ih inner
  case literal =>
    intro functor negated ordered arguments annotations ofArguments _ inner member
    rw [Literal.leaves, Term.all_leaves_eq, List.mem_flatMap] at member
    rcases member with ⟨argument, isArgument, member⟩
    exact ofArguments argument isArgument inner member

/-- An unbound leaf is found among the variables as well. -/
theorem free_leaf_mem_variables :
    (∀ term : Term, ∀ name, Term.variable name ∈ term.leaves → name ∈ term.variables) ∧
      ∀ whole : Literal, ∀ name, Term.variable name ∈ whole.leaves → name ∈ whole.variables := by
  apply InductiveProperty.holds
  constructor
  case value => simp [Term.leaves]
  case free => simp [Term.leaves, Term.variables]
  case carrying => simp [Term.leaves]
  case nested =>
    intro whole ih name member
    exact ih name member
  case literal =>
    intro functor negated ordered arguments annotations ofArguments _ name member
    rw [Literal.leaves, Term.all_leaves_eq, List.mem_flatMap] at member
    rcases member with ⟨argument, isArgument, member⟩
    rw [Literal.variables, Term.all_variables_eq]
    have found := ofArguments argument isArgument name member
    exact List.mem_append_left _ (List.mem_flatMap.mpr ⟨argument, isArgument, found⟩)

theorem ground_leaves_not_free :
    (∀ term : Term, term.isGround = true → ∀ name, Term.variable name ∉ term.leaves) ∧
      ∀ whole : Literal, whole.isGround = true → ∀ name, Term.variable name ∉ whole.leaves := by
  apply InductiveProperty.holds
  constructor
  case value => simp [Term.leaves]
  case free => simp [Term.isGround]
  case carrying => simp [Term.leaves]
  case nested =>
    intro whole ih ground
    exact ih ground
  case literal =>
    intro functor negated ordered arguments annotations ofArguments _ ground name member
    rw [Literal.isGround, Bool.and_eq_true, Term.all_ground_iff] at ground
    rw [Literal.leaves, Term.all_leaves_eq, List.mem_flatMap] at member
    rcases member with ⟨argument, isArgument, member⟩
    exact ofArguments argument isArgument (ground.1 argument isArgument) name member

namespace Literal

theorem free_leaf_mem_annotation_variables (whole : Literal) (name : String)
    (member : Term.variable name ∈ whole.annotationLeaves) : name ∈ whole.variables := by
  rw [annotation_leaves_eq, List.mem_flatMap] at member
  rcases member with ⟨note, isNote, member⟩
  have found := free_leaf_mem_variables.2 note name member
  cases whole
  rw [Literal.variables, Literal.all_variables_eq]
  exact List.mem_append_right _ (List.mem_flatMap.mpr ⟨note, isNote, found⟩)

theorem ground_annotation_leaves_not_free (whole : Literal) (ground : whole.isGround = true)
    (name : String) : Term.variable name ∉ whole.annotationLeaves := by
  intro member
  rw [annotation_leaves_eq, List.mem_flatMap] at member
  rcases member with ⟨note, isNote, member⟩
  cases whole
  rw [Literal.isGround, Bool.and_eq_true, Literal.all_ground_iff] at ground
  exact ground_leaves_not_free.2 note (ground.2 note isNote) name member

end Literal

end Deliberation
