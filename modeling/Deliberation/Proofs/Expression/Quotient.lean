import Deliberation.Proofs.Expression.Exact

/-!
# Quotients with their remainders

A quotient is cut off towards zero and a remainder is not negative, so the two belong
together only where nothing is cut off or the dividend is not negative. Elsewhere the
remainder belongs to the quotient one further from zero, and the dividend is missed by the
size of the divisor.
-/

namespace Deliberation

set_option autoImplicit false

/-- `(left / right) * right + (left % right)`. -/
def Expression.rejoined (left right : Expression) : Expression :=
  let arithmetic (operator : Arithmetic) := Expression.binary (.arithmetic operator)
  arithmetic .add (arithmetic .multiply (arithmetic .divide left right) right)
    (arithmetic .remainder left right)

/-- The divisor is not zero and the quotient fits. -/
def HasQuotient (dividend divisor : Int64) : Prop :=
  divisor.toInt ≠ 0 ∧ ¬(dividend.toInt = -2 ^ 63 ∧ divisor.toInt = -1)

/-- What a quotient and its remainder come to. -/
def rejoinedNumber (dividend divisor : Int) : Int :=
  if 0 ≤ dividend ∨ divisor ∣ dividend then dividend else dividend + divisor.natAbs

theorem quotient_mul_add_remainder (dividend divisor : Int) :
    dividend.tdiv divisor * divisor + dividend.emod divisor =
      rejoinedNumber dividend divisor := by
  have parts : dividend.tdiv divisor * divisor + dividend.tmod divisor = dividend :=
    Int.tdiv_mul_add_tmod dividend divisor
  have remainders : dividend.tmod divisor =
      dividend.emod divisor - if 0 ≤ dividend ∨ divisor ∣ dividend then 0 else divisor.natAbs :=
    Int.tmod_eq_emod
  rw [rejoinedNumber]
  split_ifs at remainders ⊢ <;> omega

section InRange

variable {dividend divisor : Int} (dividendInRange : InRange dividend)
  (divisorInRange : InRange divisor)

include dividendInRange

/-- Only the least number loses its place, and only when its sign is changed. -/
theorem in_range_quotient :
    InRange (dividend.tdiv divisor) ↔ ¬(dividend = -2 ^ 63 ∧ divisor = -1) := by
  have size : (dividend.tdiv divisor).natAbs = dividend.natAbs / divisor.natAbs :=
    Int.natAbs_tdiv dividend divisor
  obtain ⟨lower, upper⟩ := dividendInRange
  have small : divisor.natAbs < 2 ∨ 2 ≤ divisor.natAbs := Nat.lt_or_ge _ 2
  rcases small with small | large
  · obtain rfl | rfl | rfl : divisor = -1 ∨ divisor = 0 ∨ divisor = 1 := by omega
    · rw [Int.tdiv_neg, Int.tdiv_one, InRange]
      omega
    · rw [Int.tdiv_zero, InRange]
      omega
    · rw [Int.tdiv_one, InRange]
      omega
  · have halved : dividend.natAbs / divisor.natAbs ≤ dividend.natAbs / 2 :=
      Nat.div_le_div_left large (by decide)
    rw [InRange]
    omega

theorem in_range_product : InRange (dividend.tdiv divisor * divisor) := by
  have parts : dividend.tdiv divisor * divisor + dividend.tmod divisor = dividend :=
    Int.tdiv_mul_add_tmod dividend divisor
  have size : (dividend.tmod divisor).natAbs = dividend.natAbs % divisor.natAbs :=
    Int.natAbs_tmod dividend divisor
  have bounded : dividend.natAbs % divisor.natAbs ≤ dividend.natAbs := Nat.mod_le _ _
  obtain ⟨lower, upper⟩ := dividendInRange
  rcases Int.le_total 0 dividend with positive | negative
  · have sign := Int.tmod_nonneg divisor positive
    rw [InRange]
    omega
  · have sign : dividend.tmod divisor ≤ 0 := by
      have opposite := Int.tmod_nonneg divisor (Int.neg_nonneg_of_nonpos negative)
      rw [Int.neg_tmod] at opposite
      omega
    rw [InRange]
    omega

include divisorInRange

theorem in_range_rejoined : InRange (rejoinedNumber dividend divisor) := by
  obtain ⟨lower, upper⟩ := dividendInRange
  obtain ⟨divisorLower, divisorUpper⟩ := divisorInRange
  rw [rejoinedNumber, InRange]
  split_ifs <;> omega

end InRange

theorem in_range_remainder {dividend divisor : Int} (divisorInRange : InRange divisor)
    (nonzero : divisor ≠ 0) : InRange (dividend.emod divisor) := by
  have lower : 0 ≤ dividend.emod divisor := Int.emod_nonneg dividend nonzero
  have upper : dividend.emod divisor < divisor.natAbs := Int.emod_lt dividend nonzero
  obtain ⟨divisorLower, divisorUpper⟩ := divisorInRange
  rw [InRange]
  omega

namespace Operation

theorem feasible_of_result {operation : Operation} (noDivisor : operation.divisor? = none)
    (noQuotient : operation.quotient? = none) (inRange : InRange operation.result) :
    operation.Feasible := by
  rw [Feasible, numbers, noDivisor, noQuotient]
  simpa using inRange

variable (dividend divisor : Int64)

theorem feasible_divide_iff :
    (Operation.binary .divide dividend.toInt divisor.toInt).Feasible ↔
      HasQuotient dividend divisor := by
  rw [HasQuotient, ← in_range_quotient (in_range_word dividend)]
  simp [Feasible, numbers, divisor?, quotient?, result, Arithmetic.exact]

/-- A remainder is refused where the quotient is. -/
theorem feasible_remainder_iff :
    (Operation.binary .remainder dividend.toInt divisor.toInt).Feasible ↔
      HasQuotient dividend divisor := by
  rw [HasQuotient, ← in_range_quotient (in_range_word dividend)]
  simp only [Feasible, numbers, divisor?, quotient?, result, Arithmetic.exact, ne_eq,
    Option.some.injEq, Option.toList_some, List.mem_cons, List.not_mem_nil, or_false,
    forall_eq_or_imp, forall_eq]
  exact and_congr_right fun nonzero =>
    and_iff_right (in_range_remainder (in_range_word divisor) nonzero)

end Operation

section Evaluation

variable {frame : Frame} {left right : Expression} {dividend divisor : Int64}
  (leftEvaluated : left.evaluate frame = .ok (.int dividend))
  (rightEvaluated : right.evaluate frame = .ok (.int divisor))

include leftEvaluated rightEvaluated

theorem evaluate_words (operator : Arithmetic) :
    (Expression.binary (.arithmetic operator) left right).evaluate frame =
      (Operation.binary operator dividend.toInt divisor.toInt).outcome := by
  rw [Expression.evaluate, leftEvaluated, rightEvaluated, ← Arithmetic.apply_words]
  rfl

theorem evaluate_of_feasible (operator : Arithmetic)
    (feasible : (Operation.binary operator dividend.toInt divisor.toInt).Feasible) :
    ∃ number : Int64,
      (Expression.binary (.arithmetic operator) left right).evaluate frame = .ok (.int number) ∧
        number.toInt = operator.exact dividend.toInt divisor.toInt := by
  refine ⟨_, ?_, (Operation.in_range_of_feasible feasible).to_int_of_int⟩
  rw [evaluate_words leftEvaluated rightEvaluated, Operation.outcome_of_feasible feasible]

theorem evaluate_rejoined
    (feasible : HasQuotient dividend divisor) :
    ∃ number : Int64, (left.rejoined right).evaluate frame = .ok (.int number) ∧
      number.toInt = rejoinedNumber dividend.toInt divisor.toInt := by
  obtain ⟨quotient, quotientEvaluated, quotientExact⟩ := evaluate_of_feasible leftEvaluated
    rightEvaluated .divide ((Operation.feasible_divide_iff ..).mpr feasible)
  obtain ⟨remainder, remainderEvaluated, remainderExact⟩ := evaluate_of_feasible leftEvaluated
    rightEvaluated .remainder ((Operation.feasible_remainder_iff ..).mpr feasible)
  have productInRange : InRange (quotient.toInt * divisor.toInt) := by
    rw [quotientExact]
    exact in_range_product (in_range_word dividend)
  obtain ⟨product, productEvaluated, productExact⟩ := evaluate_of_feasible quotientEvaluated
    rightEvaluated .multiply (Operation.feasible_of_result rfl rfl productInRange)
  have sumExact : product.toInt + remainder.toInt =
      rejoinedNumber dividend.toInt divisor.toInt := by
    rw [productExact, remainderExact, Arithmetic.exact, quotientExact]
    exact quotient_mul_add_remainder ..
  have sumInRange : InRange (product.toInt + remainder.toInt) := by
    rw [sumExact]
    exact in_range_rejoined (in_range_word dividend) (in_range_word divisor)
  rw [← sumExact]
  exact evaluate_of_feasible productEvaluated remainderEvaluated .add
    (Operation.feasible_of_result rfl rfl sumInRange)

theorem rejoined_faults
    (infeasible : ¬HasQuotient dividend divisor) :
    ∃ problem, (left.rejoined right).evaluate frame = .error problem := by
  have quotient := evaluate_words leftEvaluated rightEvaluated .divide
  rw [Operation.outcome_of_infeasible (mt (Operation.feasible_divide_iff ..).mp infeasible)]
    at quotient
  refine ⟨(Operation.binary .divide dividend.toInt divisor.toInt).problem, ?_⟩
  rw [Expression.rejoined, Expression.evaluate, Expression.evaluate, quotient]

/-- A quotient and its remainder come to the dividend, or to more by the size of the divisor
where something is cut off a negative quotient. -/
theorem rejoined_value :
    ((∃ value, (left.rejoined right).evaluate frame = .ok value) ↔
      HasQuotient dividend divisor) ∧
    ∀ value, (left.rejoined right).evaluate frame = .ok value →
      ∃ number : Int64, value = .int number ∧
        number.toInt =
          if 0 ≤ dividend.toInt ∨ divisor.toInt ∣ dividend.toInt then dividend.toInt
          else dividend.toInt + divisor.toInt.natAbs := by
  by_cases feasible : HasQuotient dividend divisor
  · obtain ⟨number, evaluated, exactly⟩ :=
      evaluate_rejoined leftEvaluated rightEvaluated feasible
    refine ⟨iff_of_true ⟨_, evaluated⟩ feasible, fun value given => ?_⟩
    obtain rfl := Except.ok.inj (evaluated.symm.trans given)
    exact ⟨number, rfl, exactly⟩
  · obtain ⟨problem, faulted⟩ := rejoined_faults leftEvaluated rightEvaluated feasible
    refine ⟨iff_of_false ?_ feasible, fun value given => ?_⟩
    · rintro ⟨value, given⟩
      exact absurd (faulted.symm.trans given) nofun
    · exact absurd (faulted.symm.trans given) nofun

end Evaluation

/-- -8 and 2 come to -8, and -7 and 2 come to -5. -/
theorem halves_rejoined :
    (∃ number : Int64,
      (Expression.rejoined (.constant (.int (-8))) (.constant (.int 2))).evaluate .empty =
        .ok (.int number) ∧ number.toInt = -8) ∧
    ∃ number : Int64,
      (Expression.rejoined (.constant (.int (-7))) (.constant (.int 2))).evaluate .empty =
        .ok (.int number) ∧ number.toInt = -5 := by
  have constant (number : Int64) :
      (Expression.constant (.int number)).evaluate .empty = .ok (.int number) := rfl
  have rejoined (dividend : Int64) (least : dividend.toInt ≠ -2 ^ 63) :
      ∃ number : Int64,
        (Expression.rejoined (.constant (.int dividend)) (.constant (.int 2))).evaluate .empty =
          .ok (.int number) ∧ number.toInt = rejoinedNumber dividend.toInt 2 := by
    obtain ⟨evaluates, values⟩ := rejoined_value (constant dividend) (constant 2)
    obtain ⟨value, given⟩ := evaluates.mpr ⟨by decide, fun both => least both.1⟩
    obtain ⟨number, rfl, exactly⟩ := values value given
    exact ⟨number, given, exactly⟩
  exact ⟨rejoined (-8) (by decide), rejoined (-7) (by decide)⟩

/-- The quotient of -7 and 2 is cut off to -3, and the remainder is 1 all the same. -/
theorem odd_half_missed :
    (Expression.rejoined (.constant (.int (-7))) (.constant (.int 2))).evaluate .empty =
        .ok (.int (-5)) ∧
      (-5 : Int64) ≠ -7 := by
  exact ⟨rfl, by decide⟩

end Deliberation
