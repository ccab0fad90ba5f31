import Deliberation.Proofs.Term.Same

/-!
# Equality of terms is an equivalence

Values are compared by rank where they are floats, and literals without their ordering
marker, so terms that are the same need not be equal. Being the same is an equivalence
all the same, which is what keeping one of each in a set rests on.
-/

namespace Deliberation

set_option autoImplicit false

section Lists

variable {α : Type} {related : α → α → Prop}

theorem related_flip {left right : List α} (pairs : List.Forall₂ related left right)
    (flips : ∀ first ∈ left, ∀ second, related first second → related second first) :
    List.Forall₂ related right left := by
  induction pairs with
  | nil => exact .nil
  | @cons first second _ _ same _ ih =>
      have rest := ih fun other member => flips other (List.mem_cons_of_mem _ member)
      exact .cons (flips first List.mem_cons_self second same) rest

theorem related_chain {left middle right : List α} (early : List.Forall₂ related left middle)
    (late : List.Forall₂ related middle right)
    (chains : ∀ first ∈ left, ∀ second third, related first second → related second third →
      related first third) :
    List.Forall₂ related left right := by
  induction early generalizing right with
  | nil =>
      cases late
      exact .nil
  | @cons first second _ _ same _ ih =>
      cases late with
      | @cons _ third _ _ next others =>
          have rest := ih others fun other member => chains other (List.mem_cons_of_mem _ member)
          exact .cons (chains first List.mem_cons_self second third same next) rest

end Lists

namespace Value

theorem same_refl (raw : Value) : raw.same raw = true := by
  cases raw <;> simp [same, Double.same]

theorem same_comm (left right : Value) : left.same right = right.same left := by
  cases left <;> cases right <;> simp [Value.same, Double.same, Bool.beq_comm, eq_comm]

theorem same_trans {left middle right : Value} (early : left.same middle = true)
    (late : middle.same right = true) : left.same right = true := by
  cases left <;> cases middle <;> cases right <;> simp_all [same, Double.same]

end Value

theorem same_reflexive :
    (∀ term : Term, term.same term = true) ∧ ∀ inner : Literal, inner.same inner = true := by
  apply InductiveProperty.holds
  constructor
  case value =>
    intro raw
    rw [Term.same]
    exact raw.same_refl
  case free => simp [Term.same]
  case carrying =>
    intro name own ih
    simp [Term.same, ih]
  case nested =>
    intro inner ih
    rw [Term.same]
    exact ih
  case literal =>
    intro functor negated ordered arguments annotations ofArguments ofNotes
    rw [Literal.same_iff]
    exact ⟨⟨rfl, rfl⟩, List.forall₂_same.mpr ofArguments, List.forall₂_same.mpr ofNotes⟩

theorem same_symmetric :
    (∀ left right : Term, left.same right = true → right.same left = true) ∧
      ∀ left right : Literal, left.same right = true → right.same left = true := by
  apply InductiveProperty.holds
  constructor
  case value =>
    intro raw right same
    cases right <;> simp_all [Term.same, Value.same_comm]
  case free =>
    intro name right same
    cases right <;> simp_all [Term.same]
  case carrying =>
    intro name own ih right same
    cases right <;> simp_all [Term.same]
  case nested =>
    intro inner ih right same
    cases right <;> simp_all [Term.same]
  case literal =>
    intro functor negated ordered arguments annotations ofArguments ofNotes right same
    obtain ⟨⟨sameFunctor, sameSign⟩, sameArguments, sameNotes⟩ := (Literal.same_iff _ _).mp same
    rw [Literal.same_iff]
    exact ⟨⟨sameFunctor.symm, sameSign.symm⟩, related_flip sameArguments ofArguments,
      related_flip sameNotes ofNotes⟩

theorem same_transitive :
    (∀ left middle right : Term, left.same middle = true → middle.same right = true →
      left.same right = true) ∧
    ∀ left middle right : Literal, left.same middle = true → middle.same right = true →
      left.same right = true := by
  apply InductiveProperty.holds
  constructor
  case value =>
    intro raw middle right early late
    cases middle <;> cases right <;>
      simp only [Term.same, Bool.false_eq_true] at early late ⊢
    exact Value.same_trans early late
  case free =>
    intro name middle right early late
    cases middle <;> cases right <;> simp_all [Term.same]
  case carrying =>
    intro name own ih middle right early late
    cases middle <;> cases right <;>
      simp only [Term.same, Bool.false_eq_true, Bool.and_eq_true, beq_iff_eq] at early late ⊢
    exact ⟨early.1.trans late.1, ih _ _ early.2 late.2⟩
  case nested =>
    intro inner ih middle right early late
    cases middle <;> cases right <;>
      simp only [Term.same, Bool.false_eq_true] at early late ⊢
    exact ih _ _ early late
  case literal =>
    intro functor negated ordered arguments annotations ofArguments ofNotes middle right early late
    obtain ⟨⟨functors, signs⟩, arguments, notes⟩ := (Literal.same_iff _ _).mp early
    obtain ⟨⟨moreFunctors, moreSigns⟩, moreArguments, moreNotes⟩ :=
      (Literal.same_iff _ _).mp late
    rw [Literal.same_iff]
    exact ⟨⟨functors.trans moreFunctors, signs.trans moreSigns⟩,
      related_chain arguments moreArguments ofArguments,
      related_chain notes moreNotes ofNotes⟩

theorem Literal.same_equivalence :
    Equivalence fun left right : Literal => left.same right = true where
  refl := same_reflexive.2
  symm := same_symmetric.2 _ _
  trans := same_transitive.2 _ _ _

theorem Literal.same_comm (left right : Literal) : left.same right = right.same left := by
  rw [Bool.eq_iff_iff]
  exact ⟨same_equivalence.symm, same_equivalence.symm⟩

end Deliberation
