import Deliberation.Proofs.Truth.Grouping

/-!
# How far conjunction distributes

The values of truths form a boolean algebra, and degrees that are all there distribute, as
lower and higher numbers do. A missing degree leaves the other one as it is, in conjunctions
and disjunctions alike, so it lies above all degrees in the one and below them in the other.
The law breaks where that matters: where a lone degree undercuts that of the conjunct, and
where the plain false truth is to absorb a degree.
-/

namespace Deliberation

set_option autoImplicit false

namespace Truth

/-- Just one of the two alternatives has a degree, and a lower one than the conjunct has. -/
def Undercut (conjunct left right : Option Float) : Prop :=
  ∃ own lone, conjunct = some own ∧ Double.rank lone < Double.rank own ∧
    (left = some lone ∧ right = none ∨ left = none ∧ right = some lone)

theorem same_degree_iff (left right : Option Float) :
    sameDegree left right = true ↔ left.map Double.rank = right.map Double.rank := by
  cases left <;> cases right <;> simp [sameDegree, Double.same]

/-- A lone degree is met with the conjunct's on the left; on the right the conjunct's own
degree comes back from the alternative that has none, and absorbs it. -/
theorem degrees_distribute_iff (conjunct left right : Option Float) :
    sameDegree
        (combineDegrees Double.lowest conjunct (combineDegrees Double.highest left right))
        (combineDegrees Double.highest (combineDegrees Double.lowest conjunct left)
          (combineDegrees Double.lowest conjunct right)) = true ↔
      ¬Undercut conjunct left right := by
  rw [same_degree_iff, Undercut]
  cases conjunct with
  | none => cases left <;> cases right <;> simp [combineDegrees]
  | some own =>
      cases left with
      | none =>
          cases right <;> simp [combineDegrees, Double.rank_highest, Double.rank_lowest]
      | some first =>
          cases right with
          | none => simp [combineDegrees, Double.rank_highest, Double.rank_lowest]
          | some second =>
              have distributed := inf_sup_left (Double.rank own) (Double.rank first)
                (Double.rank second)
              simp [combineDegrees, Double.rank_highest, Double.rank_lowest, distributed]

/-- The value of a conjunction distributes. The whole truth does so unless a lone degree
undercuts the conjunct's. A conjunction with the plain false truth is false and keeps the
degree, so it is the plain false truth again only where there is none. -/
theorem conjunction_distributes_unless_undercut (truth left right : Truth) :
    (truth * (left + right)).value = (truth * left + truth * right).value ∧
      ((truth * (left + right)).same (truth * left + truth * right) = true ↔
        ¬Undercut truth.degree left.degree right.degree) ∧
      zero * truth = ⟨false, truth.degree⟩ ∧
      ((zero * truth).same zero = true ↔ truth.degree = none) := by
  have values : (truth * (left + right)).value = (truth * left + truth * right).value :=
    Bool.and_or_distrib_left truth.value left.value right.value
  have absorbed : zero * truth = ⟨false, truth.degree⟩ := by
    rcases truth with ⟨value, _ | degree⟩ <;> rfl
  refine ⟨values, ?_, absorbed, ?_⟩
  · rw [← degrees_distribute_iff, same, values, beq_self_eq_true, Bool.true_and]
    rfl
  · rw [absorbed]
    cases truth.degree <;> simp [same, sameDegree, zero, ofBool]

/-- The degree, if there is one, lies from 0 to 1. -/
def InUnit (truth : Truth) : Prop :=
  ∀ degree ∈ truth.degree, Double.rank 0 ≤ Double.rank degree ∧ Double.rank degree ≤ Double.rank 1

instance (truth : Truth) : Decidable truth.InUnit :=
  inferInstanceAs (Decidable (∀ degree ∈ truth.degree,
    Double.rank 0 ≤ Double.rank degree ∧ Double.rank degree ≤ Double.rank 1))

/-- The plain true truth beside one quarter leaves three quarters one quarter on the one
side and three quarters on the other. The plain false truth does not absorb them either. -/
theorem quarter_undercuts :
    (withDegree true 0.75).InUnit ∧ one.InUnit ∧ (withDegree true 0.25).InUnit ∧
      (withDegree true 0.75 * (one + withDegree true 0.25)).same
        (withDegree true 0.75 * one + withDegree true 0.75 * withDegree true 0.25) = false ∧
      (zero * withDegree true 0.75).same zero = false := by
  decide +kernel

end Truth

end Deliberation
