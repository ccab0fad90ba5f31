import Deliberation.Truth
import Mathlib.Tactic.SplitIfs

/-!
# Laws of graded truths

Disjunction is associative with the plain false truth as its neutral element, and so is
conjunction with the plain true truth. The laws are exact: of equal degrees the same one is
kept however the operands are grouped.
-/

namespace Deliberation

set_option autoImplicit false

theorem Double.highest_assoc (first second third : Float) :
    Double.highest (Double.highest first second) third =
      Double.highest first (Double.highest second third) := by
  unfold Double.highest
  split_ifs with firstWins secondWins
  all_goals first | rfl | omega

theorem Double.lowest_assoc (first second third : Float) :
    Double.lowest (Double.lowest first second) third =
      Double.lowest first (Double.lowest second third) := by
  unfold Double.lowest
  split_ifs with secondWins thirdWins
  all_goals first | rfl | omega

namespace Truth

theorem combine_degrees_assoc {choose : Float → Float → Float}
    (assoc : ∀ first second third,
      choose (choose first second) third = choose first (choose second third))
    (first second third : Option Float) :
    combineDegrees choose (combineDegrees choose first second) third =
      combineDegrees choose first (combineDegrees choose second third) := by
  cases first <;> cases second <;> cases third <;> simp [combineDegrees, assoc]

theorem add_assoc (first second third : Truth) :
    first + second + third = first + (second + third) := by
  have degrees := combine_degrees_assoc Double.highest_assoc first.degree second.degree
    third.degree
  have values := Bool.or_assoc first.value second.value third.value
  exact (congr (congrArg Truth.mk values) degrees :)

theorem mul_assoc (first second third : Truth) :
    first * second * third = first * (second * third) := by
  have degrees := combine_degrees_assoc Double.lowest_assoc first.degree second.degree
    third.degree
  have values := Bool.and_assoc first.value second.value third.value
  exact (congr (congrArg Truth.mk values) degrees :)

theorem zero_add (truth : Truth) : zero + truth = truth := by
  rcases truth with ⟨value, degree⟩
  cases degree <;> rfl

theorem add_zero (truth : Truth) : truth + zero = truth := by
  rcases truth with ⟨value, degree⟩
  cases value <;> cases degree <;> rfl

theorem one_mul (truth : Truth) : one * truth = truth := by
  rcases truth with ⟨value, degree⟩
  cases degree <;> rfl

theorem mul_one (truth : Truth) : truth * one = truth := by
  rcases truth with ⟨value, degree⟩
  cases value <;> cases degree <;> rfl

end Truth

end Deliberation
