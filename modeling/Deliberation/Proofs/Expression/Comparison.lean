import Deliberation.Expression.Eval
import Deliberation.Proofs.Double.Widening

/-!
# Comparing numbers

Two ints are compared as they are, and all other pairs of numbers by the rank of the floats
they stand for. Since widening is monotone the two orders go together. They part in one
respect: ints that widen to one float are told apart among themselves but not from the float,
so that equality is not handed on from one to the other. A NaN equals no number but itself and
has no place in the order.
-/

namespace Deliberation

set_option autoImplicit false

namespace Double

variable {left right : Float}

/-- A NaN is ranked above all other floats. -/
theorem is_nan_iff_rank : isNaN left = true ↔ infinityMagnitude < rank left := by
  rw [rank]
  cases nan : isNaN left with
  | true => simp
  | false =>
      rw [isNaN, decide_eq_false_iff_not] at nan
      simp only [Bool.false_eq_true, if_false, false_iff, Int.ofNat_eq_natCast]
      split_ifs <;> omega

theorem is_nan_of_rank_eq (level : rank left = rank right) : isNaN left = isNaN right := by
  rw [Bool.eq_iff_iff, is_nan_iff_rank, is_nan_iff_rank, level]

/-- A float that is not a NaN equals those of its rank. -/
theorem compare_eq_iff (number : isNaN left = false ∨ isNaN right = false) :
    (compare? left right == some .eq) = decide (rank left = rank right) := by
  rw [compare?]
  by_cases level : rank left = rank right
  · have same := is_nan_of_rank_eq level
    have numbers : (isNaN left || isNaN right) = false := by
      rcases number with number | number <;> simp [same ▸ number, number]
    rw [numbers, level, decide_eq_true rfl, if_neg Bool.false_ne_true, Int.compare_eq_eq.mpr rfl]
    rfl
  · rw [decide_eq_false level]
    split_ifs
    · rfl
    · have apart : compare (rank left) (rank right) ≠ .eq := mt Int.compare_eq_eq.mp level
      simpa using apart

end Double

/-- The values that are numbers. -/
inductive Number where
  | int (number : Int64)
  | float (number : Float)

namespace Number

def value : Number → Value
  | .int number => .int number
  | .float number => .float number

/-- The float that a number stands for among floats. -/
def asFloat : Number → Float
  | .int number => Float.ofInt number.toInt
  | .float number => number

def isInt : Number → Bool
  | .int _ => true
  | .float _ => false

def isNaN (number : Number) : Bool :=
  Double.isNaN number.asFloat

def rank (number : Number) : Int :=
  Double.rank number.asFloat

theorem is_nan_int (number : Int64) : (Number.int number).isNaN = false :=
  Double.is_nan_word number

theorem rank_int (number : Int64) : (Number.int number).rank = Double.place number.toInt :=
  Double.rank_word number

section Pairs

variable {left right : Number}

variable (left right) in
theorem ints_or_mixed :
    (∃ number other, left = .int number ∧ right = .int other) ∨ ¬(left.isInt ∧ right.isInt) := by
  cases left with
  | int number =>
      cases right with
      | int other => exact .inl ⟨number, other, rfl, rfl⟩
      | float other => exact .inr fun ints => Bool.false_ne_true ints.2
  | float number => exact .inr fun ints => Bool.false_ne_true ints.1

theorem compare_ints (left right : Int64) :
    Relation.compareValues? (Number.int left).value (Number.int right).value =
      some (compare left.toInt right.toInt) :=
  rfl

theorem equal_ints (left right : Int64) :
    Relation.equalValues (Number.int left).value (Number.int right).value = (left == right) :=
  rfl

theorem compare_mixed (mixed : ¬(left.isInt ∧ right.isInt)) :
    Relation.compareValues? left.value right.value =
      Double.compare? left.asFloat right.asFloat := by
  cases left with
  | int number =>
      cases right with
      | int other => exact absurd ⟨rfl, rfl⟩ mixed
      | float other => rfl
  | float number => cases right <;> rfl

/-- The ranks tell numbers apart from a NaN as well. -/
theorem equal_mixed (mixed : ¬(left.isInt ∧ right.isInt)) :
    Relation.equalValues left.value right.value = decide (left.rank = right.rank) := by
  cases left with
  | int number =>
      cases right with
      | int other => exact absurd ⟨rfl, rfl⟩ mixed
      | float other => exact Double.compare_eq_iff (.inl (Double.is_nan_word number))
  | float number =>
      cases right with
      | int other => exact Double.compare_eq_iff (.inr (Double.is_nan_word other))
      | float other => rfl

/-- Where no operand is a NaN there is one order for all relations. -/
theorem ordered (leftNumber : left.isNaN = false) (rightNumber : right.isNaN = false) :
    ∃ ordering, Relation.compareValues? left.value right.value = some ordering ∧
      Relation.equalValues left.value right.value = (ordering == .eq) := by
  rcases ints_or_mixed left right with ⟨number, other, rfl, rfl⟩ | mixed
  · refine ⟨_, rfl, ?_⟩
    rw [equal_ints, Bool.eq_iff_iff, beq_iff_eq, beq_iff_eq, Int.compare_eq_eq, Int64.toInt_inj]
  · refine ⟨compare left.rank right.rank, ?_, ?_⟩
    · rw [compare_mixed mixed, Double.compare?, ← isNaN, ← isNaN, leftNumber, rightNumber]
      rfl
    · rw [equal_mixed mixed, Bool.eq_iff_iff, decide_eq_true_iff, beq_iff_eq, Int.compare_eq_eq]

/-- An operand that is a NaN is not an int, and leaves no order. -/
theorem compare_nan (nan : left.isNaN = true ∨ right.isNaN = true) :
    Relation.compareValues? left.value right.value = none := by
  rcases ints_or_mixed left right with ⟨number, other, rfl, rfl⟩ | mixed
  · simp [is_nan_int] at nan
  · have either : (left.isNaN || right.isNaN) = true := by simpa using nan
    rw [compare_mixed mixed, Double.compare?, ← isNaN, ← isNaN, either]
    rfl

theorem less_ints_iff {left right : Int64} :
    Relation.compareValues? (Number.int left).value (Number.int right).value = some .lt ↔
      left.toInt < right.toInt := by
  rw [compare_ints, Option.some.injEq, Int.compare_eq_lt]

theorem less_mixed_iff (mixed : ¬(left.isInt ∧ right.isInt)) :
    Relation.compareValues? left.value right.value = some .lt ↔
      left.isNaN = false ∧ right.isNaN = false ∧ left.rank < right.rank := by
  rw [compare_mixed mixed, Double.compare?, ← isNaN, ← isNaN]
  cases left.isNaN with
  | true => simp
  | false =>
      cases right.isNaN with
      | true => simp
      | false => simp [rank, Int.compare_eq_lt]

theorem rank_le_of_less (less : Relation.compareValues? left.value right.value = some .lt) :
    left.rank ≤ right.rank := by
  rcases ints_or_mixed left right with ⟨number, other, rfl, rfl⟩ | mixed
  · rw [rank_int, rank_int]
    exact Double.place_mono (less_ints_iff.mp less).le
  · exact ((less_mixed_iff mixed).mp less).2.2.le

theorem numbers_of_less (less : Relation.compareValues? left.value right.value = some .lt) :
    left.isNaN = false ∧ right.isNaN = false := by
  by_contra nan
  rw [not_and_or, Bool.not_eq_false, Bool.not_eq_false] at nan
  exact Option.some_ne_none _ (less.symm.trans (compare_nan nan))

theorem rank_of_equal (equal : Relation.equalValues left.value right.value = true) :
    left.rank = right.rank := by
  rcases ints_or_mixed left right with ⟨number, other, rfl, rfl⟩ | mixed
  · rw [equal_ints, beq_iff_eq] at equal
    rw [equal]
  · rw [equal_mixed mixed] at equal
    exact of_decide_eq_true equal

end Pairs

section Triples

variable {first second third : Number}

theorem less_trans
    (lower : Relation.compareValues? first.value second.value = some .lt)
    (upper : Relation.compareValues? second.value third.value = some .lt) :
    Relation.compareValues? first.value third.value = some .lt := by
  have lowerRank := rank_le_of_less lower
  have upperRank := rank_le_of_less upper
  have numbers := (numbers_of_less lower).1
  have others := (numbers_of_less upper).2
  rcases ints_or_mixed first second with ⟨least, between, rfl, rfl⟩ | mixed
  · rcases ints_or_mixed (.int between) third with ⟨other, greatest, same, rfl⟩ | mixed
    · obtain rfl := Number.int.inj same
      exact less_ints_iff.mpr ((less_ints_iff.mp lower).trans (less_ints_iff.mp upper))
    · have strict := ((less_mixed_iff mixed).mp upper).2.2
      exact (@less_mixed_iff (.int least) third mixed).mpr
        ⟨numbers, others, lowerRank.trans_lt strict⟩
  · have strict := (((less_mixed_iff mixed).mp lower).2.2).trans_le upperRank
    rcases ints_or_mixed first third with ⟨least, greatest, rfl, rfl⟩ | mixed
    · -- Widening is monotone, so what is apart after it was apart before.
      rw [rank_int, rank_int] at strict
      exact less_ints_iff.mpr (Double.place_mono.reflect_lt strict)
    · exact (less_mixed_iff mixed).mpr ⟨numbers, others, strict⟩

/-- Ints that widen to one float are both too large for 53 bits. -/
theorem large_of_rank_eq {least greatest : Int64} (apart : least ≠ greatest)
    (level : (Number.int least).rank = (Number.int greatest).rank) :
    2 ^ 53 ≤ least.toInt.natAbs ∧ 2 ^ 53 ≤ greatest.toInt.natAbs := by
  rw [rank_int, rank_int] at level
  have numbersApart : least.toInt ≠ greatest.toInt := mt Int64.toInt_inj.mp apart
  by_contra small
  rw [not_and_or, Nat.not_le, Nat.not_le] at small
  rcases Int.lt_or_gt_of_ne numbersApart with below | above
  · exact (Double.place_lt below small).ne level
  · exact (Double.place_lt above small.symm).ne level.symm

theorem equal_trans
    (lower : Relation.equalValues first.value second.value = true)
    (upper : Relation.equalValues second.value third.value = true) :
    Relation.equalValues first.value third.value = true ∨
      ∃ (least greatest : Int64) (between : Float), first = .int least ∧ second = .float between ∧
        third = .int greatest ∧ least ≠ greatest ∧ 2 ^ 53 ≤ least.toInt.natAbs ∧
        2 ^ 53 ≤ greatest.toInt.natAbs := by
  have level := (rank_of_equal lower).trans (rank_of_equal upper)
  rcases ints_or_mixed first third with ⟨least, greatest, rfl, rfl⟩ | mixed
  · by_cases same : least = greatest
    · left
      rw [equal_ints, beq_iff_eq]
      exact same
    · right
      cases second with
      | int between =>
          rw [equal_ints, beq_iff_eq] at lower upper
          exact absurd (lower.trans upper) same
      | float between =>
          exact ⟨least, greatest, between, rfl, rfl, rfl, same, large_of_rank_eq same level⟩
  · left
    rw [equal_mixed mixed]
    exact decide_eq_true level

end Triples

end Number

/-- What a relation between two expressions evaluates to. -/
def Relation.Gives (frame : Frame) (operator : Relation) (left right : Expression)
    (flag : Bool) : Prop :=
  (Expression.binary (.relation operator) left right).evaluate frame = .ok (.bool flag)

section Evaluation

variable {frame : Frame} {left right : Expression} {leftNumber rightNumber : Number}
  (leftEvaluated : left.evaluate frame = .ok leftNumber.value)
  (rightEvaluated : right.evaluate frame = .ok rightNumber.value)

include leftEvaluated rightEvaluated

theorem evaluate_relation (operator : Relation) :
    (Expression.binary (.relation operator) left right).evaluate frame =
      operator.apply leftNumber.value rightNumber.value := by
  rw [Expression.evaluate, leftEvaluated, rightEvaluated]
  rfl

theorem gives_iff (operator : Relation) (flag : Bool) :
    operator.Gives frame left right flag ↔
      operator.holds? leftNumber.value rightNumber.value = some flag := by
  rw [Relation.Gives, evaluate_relation leftEvaluated rightEvaluated, Relation.apply]
  cases operator.holds? leftNumber.value rightNumber.value with
  | none => simp
  | some other => simp

theorem gives_less_iff :
    Relation.less.Gives frame left right true ↔
      Relation.compareValues? leftNumber.value rightNumber.value = some .lt := by
  rw [gives_iff leftEvaluated rightEvaluated, Relation.holds?]
  cases Relation.compareValues? leftNumber.value rightNumber.value with
  | none => simp
  | some ordering => simp

theorem gives_equal_iff :
    Relation.equal.Gives frame left right true ↔
      Relation.equalValues leftNumber.value rightNumber.value = true := by
  rw [gives_iff leftEvaluated rightEvaluated, Relation.holds?, Option.some.injEq]

/-- Equality and its negation are asked of any two numbers. -/
theorem gives_equality :
    ∃ equal, Relation.equal.Gives frame left right equal ∧
      Relation.different.Gives frame left right !equal := by
  refine ⟨_, (gives_iff leftEvaluated rightEvaluated _ _).mpr rfl, ?_⟩
  exact (gives_iff leftEvaluated rightEvaluated _ _).mpr rfl

theorem nan_faults (nan : leftNumber.isNaN = true ∨ rightNumber.isNaN = true)
    {operator : Relation}
    (ordering : operator ∈ [Relation.less, .lessOrEqual, .greater, .greaterOrEqual]) :
    (Expression.binary (.relation operator) left right).evaluate frame =
      .error (.undefinedForBoth operator.token leftNumber.value.typeName
        rightNumber.value.typeName) := by
  rw [evaluate_relation leftEvaluated rightEvaluated, Relation.apply]
  have unordered : operator.holds? leftNumber.value rightNumber.value = none := by
    simp only [List.mem_cons, List.not_mem_nil, or_false] at ordering
    rcases ordering with rfl | rfl | rfl | rfl <;>
      rw [Relation.holds?, Number.compare_nan nan, Option.map_none]
  rw [unordered]

theorem gives_ordering (leftIsNumber : leftNumber.isNaN = false)
    (rightIsNumber : rightNumber.isNaN = false) :
    ∃ less equal greater : Bool, [less, equal, greater].count true = 1 ∧
      Relation.less.Gives frame left right less ∧
      Relation.equal.Gives frame left right equal ∧
      Relation.greater.Gives frame left right greater ∧
      (Relation.lessOrEqual.Gives frame left right !greater) ∧
      (Relation.greaterOrEqual.Gives frame left right !less) ∧
      Relation.different.Gives frame left right !equal := by
  obtain ⟨ordering, compared, equal⟩ := Number.ordered leftIsNumber rightIsNumber
  simp only [gives_iff leftEvaluated rightEvaluated, Relation.holds?, compared, equal,
    Option.map_some, Option.some.injEq]
  refine ⟨ordering == .lt, ordering == .eq, ordering == .gt, ?_, rfl, rfl, rfl, rfl, rfl, rfl⟩
  cases ordering <;> rfl

end Evaluation

/-- How the relations of numbers fit together. -/
theorem relations_of_numbers {frame : Frame} {first second third : Expression}
    {least between greatest : Number} (firstEvaluated : first.evaluate frame = .ok least.value)
    (secondEvaluated : second.evaluate frame = .ok between.value)
    (thirdEvaluated : third.evaluate frame = .ok greatest.value) :
    (∃ equal, Relation.equal.Gives frame first second equal ∧
      Relation.different.Gives frame first second !equal) ∧
    (least.isNaN = true ∨ between.isNaN = true →
      ∀ operator ∈ [Relation.less, .lessOrEqual, .greater, .greaterOrEqual],
        (Expression.binary (.relation operator) first second).evaluate frame =
          .error (.undefinedForBoth operator.token least.value.typeName between.value.typeName)) ∧
    (least.isNaN = false → between.isNaN = false →
      ∃ less equal greater : Bool, [less, equal, greater].count true = 1 ∧
        Relation.less.Gives frame first second less ∧
        Relation.equal.Gives frame first second equal ∧
        Relation.greater.Gives frame first second greater ∧
        (Relation.lessOrEqual.Gives frame first second !greater) ∧
        (Relation.greaterOrEqual.Gives frame first second !less) ∧
        Relation.different.Gives frame first second !equal) ∧
    (Relation.less.Gives frame first second true → Relation.less.Gives frame second third true →
      Relation.less.Gives frame first third true) ∧
    (Relation.equal.Gives frame first second true → Relation.equal.Gives frame second third true →
      Relation.equal.Gives frame first third true ∨
        ∃ (low high : Int64) (float : Float), least = .int low ∧ between = .float float ∧
          greatest = .int high ∧ low ≠ high ∧ 2 ^ 53 ≤ low.toInt.natAbs ∧
          2 ^ 53 ≤ high.toInt.natAbs) := by
  rw [gives_less_iff firstEvaluated secondEvaluated, gives_less_iff secondEvaluated thirdEvaluated,
    gives_less_iff firstEvaluated thirdEvaluated, gives_equal_iff firstEvaluated secondEvaluated,
    gives_equal_iff secondEvaluated thirdEvaluated, gives_equal_iff firstEvaluated thirdEvaluated]
  exact ⟨gives_equality firstEvaluated secondEvaluated,
    fun nan _ => nan_faults firstEvaluated secondEvaluated nan,
    gives_ordering firstEvaluated secondEvaluated, Number.less_trans, Number.equal_trans⟩

/-- -1, 0.5 and 2 follow each other, the two zeros equal the int between them and each other,
and a NaN is not compared with 1. -/
theorem few_numbers_related :
    (Relation.less.Gives .empty (.constant (.int (-1))) (.constant (.float 0.5)) true ∧
      Relation.less.Gives .empty (.constant (.float 0.5)) (.constant (.int 2)) true ∧
      Relation.less.Gives .empty (.constant (.int (-1))) (.constant (.int 2)) true ∧
      Relation.greaterOrEqual.Gives .empty (.constant (.int (-1))) (.constant (.float 0.5)) false) ∧
    (Relation.equal.Gives .empty (.constant (.float (-0.0))) (.constant (.int 0)) true ∧
      Relation.equal.Gives .empty (.constant (.int 0)) (.constant (.float 0.0)) true ∧
      Relation.equal.Gives .empty (.constant (.float (-0.0))) (.constant (.float 0.0)) true) ∧
    (Expression.binary (.relation .less) (.constant (.float (0.0 / 0.0)))
      (.constant (.int 1))).evaluate .empty =
        .error (.undefinedForBoth "<" "float" "int") := by
  have constant (number : Number) :
      (Expression.constant number.value).evaluate .empty = .ok number.value := rfl
  refine ⟨?_, ?_, ?_⟩
  · obtain ⟨-, -, ordering, rising, -⟩ := relations_of_numbers (constant (.int (-1)))
      (constant (.float 0.5)) (constant (.int 2))
    have lower := (gives_less_iff (constant (.int (-1))) (constant (.float 0.5))).mpr
      (by decide +kernel)
    have upper := (gives_less_iff (constant (.float 0.5)) (constant (.int 2))).mpr
      (by decide +kernel)
    obtain ⟨less, equal, greater, -, isLess, -, -, -, notLess, -⟩ :=
      ordering (by decide +kernel) (by decide +kernel)
    obtain rfl : less = true := Value.bool.inj (Except.ok.inj (isLess.symm.trans lower))
    exact ⟨lower, upper, rising lower upper, notLess⟩
  · obtain ⟨-, -, -, -, level⟩ := relations_of_numbers (constant (.float (-0.0)))
      (constant (.int 0)) (constant (.float 0.0))
    have lower := (gives_equal_iff (constant (.float (-0.0))) (constant (.int 0))).mpr
      (by decide +kernel)
    have upper := (gives_equal_iff (constant (.int 0)) (constant (.float 0.0))).mpr
      (by decide +kernel)
    rcases level lower upper with equal | ⟨_, _, _, other, -⟩
    · exact ⟨lower, upper, equal⟩
    · exact absurd other nofun
  · obtain ⟨-, faults, -⟩ := relations_of_numbers (constant (.float (0.0 / 0.0)))
      (constant (.int 1)) (constant (.int 1))
    exact faults (.inl (by decide +kernel)) .less (by decide)

/-- 2 to the power 53 and the int behind it equal one float but not each other, and a NaN is
neither at most 1 nor more. -/
theorem even_neighbour_equal :
    Relation.equal.Gives .empty (.constant (.int 9007199254740993))
        (.constant (.float 9007199254740992.0)) true ∧
      Relation.equal.Gives .empty (.constant (.float 9007199254740992.0))
        (.constant (.int 9007199254740992)) true ∧
      Relation.equal.Gives .empty (.constant (.int 9007199254740993))
        (.constant (.int 9007199254740992)) false ∧
      (Expression.binary (.relation .lessOrEqual) (.constant (.float (0.0 / 0.0)))
        (.constant (.int 1))).evaluate .empty =
          .error (.undefinedForBoth "<=" "float" "int") ∧
      (Expression.binary (.relation .greater) (.constant (.float (0.0 / 0.0)))
        (.constant (.int 1))).evaluate .empty =
          .error (.undefinedForBoth ">" "float" "int") := by
  have constant (number : Number) :
      (Expression.constant number.value).evaluate .empty = .ok number.value := rfl
  have nan : (Number.float (0.0 / 0.0)).isNaN = true := by decide +kernel
  have faults {operator : Relation} := @nan_faults .empty _ _ _ _
    (constant (.float (0.0 / 0.0))) (constant (.int 1)) (.inl nan) operator
  refine ⟨?_, ?_, ?_, faults (by decide), faults (by decide)⟩
  · apply (gives_equal_iff (constant (.int 9007199254740993)) (constant (.float _))).mpr
    decide +kernel
  · apply (gives_equal_iff (constant (.float _)) (constant (.int 9007199254740992))).mpr
    decide +kernel
  · apply (gives_iff (constant (.int _)) (constant (.int _)) _ _).mpr
    decide +kernel

end Deliberation
