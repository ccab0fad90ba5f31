import Deliberation.Expression.Eval
import Mathlib.Algebra.Ring.Int.Defs
import Mathlib.Tactic.SplitIfs

/-!
# Exact int arithmetic

A tree of ints comes down to a list of operations on exact numbers, in the order in which
they are carried out: those of the left operand, those of the right one, the operator
itself. As long as operations are feasible their results are the exact numbers, and
evaluation stops at the first one that is not. A remainder is asked for more than that its
own result fits: the quotient that belongs to it has to fit as well.
-/

namespace Deliberation

set_option autoImplicit false

/-- The numbers of 64 bits with a sign. -/
def InRange (number : Int) : Prop :=
  -2 ^ 63 ≤ number ∧ number < 2 ^ 63

instance (number : Int) : Decidable (InRange number) :=
  inferInstanceAs (Decidable (_ ∧ _))

theorem in_range_word (word : Int64) : InRange word.toInt :=
  ⟨word.le_toInt, word.toInt_lt⟩

theorem InRange.to_int_of_int {number : Int} (inRange : InRange number) :
    (Int64.ofInt number).toInt = number :=
  Int64.toInt_ofInt_of_le inRange.1 inRange.2

theorem fits_int_eq (number : Int) : fitsInt number = decide (InRange number) := by
  rw [fitsInt, decide_eq_decide, Int64.toInt_minValue, Int64.toInt_maxValue, InRange]
  omega

theorem int_value_eq (number : Int) :
    intValue number =
      if InRange number then .ok (.int (Int64.ofInt number)) else .error .overflow := by
  rw [intValue, fits_int_eq]
  simp only [decide_eq_true_eq]

/-- The number that an operator stands for; a quotient is cut off towards zero, and a
remainder is not negative. -/
def Arithmetic.exact (operator : Arithmetic) (left right : Int) : Int :=
  match operator with
  | .add => left + right
  | .subtract => left - right
  | .multiply => left * right
  | .divide => left.tdiv right
  | .remainder => left.emod right

/-- An operator at work on exact numbers. -/
inductive Operation where
  | negate (operand : Int)
  | absolute (operand : Int)
  | binary (operator : Arithmetic) (left right : Int)
  deriving DecidableEq

namespace Operation

def result : Operation → Int
  | .negate operand => -operand
  | .absolute operand => operand.natAbs
  | .binary operator left right => operator.exact left right

def divisor? : Operation → Option Int
  | .binary .divide _ right => some right
  | .binary .remainder _ right => some right
  | _ => none

/-- The quotient that a remainder belongs to. -/
def quotient? : Operation → Option Int
  | .binary .remainder left right => some (left.tdiv right)
  | _ => none

/-- The numbers for which 64 bits have to do. -/
def numbers (operation : Operation) : List Int :=
  operation.result :: operation.quotient?.toList

/-- The divisor is not zero, and everything fits. -/
def Feasible (operation : Operation) : Prop :=
  operation.divisor? ≠ some 0 ∧ ∀ number ∈ operation.numbers, InRange number

instance (operation : Operation) : Decidable operation.Feasible :=
  inferInstanceAs (Decidable (_ ∧ _))

/-- What is reported of an operation that is not feasible. -/
def problem (operation : Operation) : EvalProblem :=
  if operation.divisor? = some 0 then .divisionByZero else .overflow

theorem problem_message (operation : Operation) :
    operation.problem.message =
      if operation.divisor? = some 0 then "division by zero" else "integer overflow" := by
  rw [problem]
  split_ifs <;> rfl

/-- A number that operations lead up to; the first that is not feasible is reported in its
place. -/
def settle (operations : List Operation) (number : Int) : Except EvalProblem Value :=
  match operations.find? (fun operation => !decide operation.Feasible) with
  | some operation => .error operation.problem
  | none => .ok (.int (Int64.ofInt number))

/-- What an operation gives on its own. -/
def outcome (operation : Operation) : Except EvalProblem Value :=
  settle [operation] operation.result

theorem in_range_of_feasible {operation : Operation} (feasible : operation.Feasible) :
    InRange operation.result :=
  feasible.2 _ List.mem_cons_self

section Settle

variable {before operations : List Operation}

theorem find_infeasible_eq_none (feasible : ∀ operation ∈ operations, operation.Feasible) :
    operations.find? (fun operation => !decide operation.Feasible) = none := by
  simpa using feasible

theorem settle_of_feasible (feasible : ∀ operation ∈ operations, operation.Feasible)
    (number : Int) : settle operations number = .ok (.int (Int64.ofInt number)) := by
  rw [settle, find_infeasible_eq_none feasible]

theorem settle_cases (operations : List Operation) (number : Int) :
    (∀ operation ∈ operations, operation.Feasible) ∨
      ∃ problem, settle operations number = .error problem := by
  rw [settle]
  cases found : operations.find? (fun operation => !decide operation.Feasible) with
  | some operation => exact .inr ⟨_, rfl⟩
  | none => exact .inl (by simpa using found)

theorem settle_append_of_feasible (feasible : ∀ operation ∈ before, operation.Feasible)
    (behind : List Operation) (number : Int) :
    settle (before ++ behind) number = settle behind number := by
  rw [settle, List.find?_append, find_infeasible_eq_none feasible, Option.none_or]
  rfl

/-- Nothing behind what is reported changes the report. -/
theorem settle_append_of_error {number : Int} {problem : EvalProblem}
    (stopped : settle before number = .error problem) (behind : List Operation) (other : Int) :
    settle (before ++ behind) other = .error problem := by
  rw [settle] at stopped ⊢
  rw [List.find?_append]
  cases found : before.find? (fun operation => !decide operation.Feasible) with
  | some operation =>
      rw [found] at stopped
      exact stopped
  | none =>
      rw [found] at stopped
      cases stopped

theorem settle_infeasible {operation : Operation} (infeasible : ¬operation.Feasible)
    (behind : List Operation) (number : Int) :
    settle (operation :: behind) number = .error operation.problem := by
  rw [settle, List.find?_cons_of_pos (by simp [infeasible])]

end Settle

section Outcome

variable {operation : Operation}

theorem outcome_of_feasible (feasible : operation.Feasible) :
    operation.outcome = .ok (.int (Int64.ofInt operation.result)) :=
  settle_of_feasible (by simpa using feasible) _

theorem outcome_of_infeasible (infeasible : ¬operation.Feasible) :
    operation.outcome = .error operation.problem :=
  settle_infeasible infeasible [] _

/-- The divisor is looked at before anything else. -/
theorem outcome_eq (operation : Operation) :
    operation.outcome =
      if operation.divisor? = some 0 then .error .divisionByZero
      else if ∀ number ∈ operation.numbers, InRange number then
        .ok (.int (Int64.ofInt operation.result))
      else .error .overflow := by
  split_ifs with byZero fits
  · rw [outcome_of_infeasible fun feasible => feasible.1 byZero, problem, if_pos byZero]
  · exact outcome_of_feasible ⟨byZero, fits⟩
  · rw [outcome_of_infeasible fun feasible => fits feasible.2, problem, if_neg byZero]

/-- Without a divisor and a quotient only the result has to fit. -/
theorem outcome_of_result (noDivisor : operation.divisor? = none)
    (noQuotient : operation.quotient? = none) : operation.outcome = intValue operation.result := by
  rw [outcome_eq, numbers, noDivisor, noQuotient, int_value_eq]
  simp only [reduceCtorEq, if_false, Option.toList_none, List.mem_singleton, forall_eq]

end Outcome

end Operation

/-- An operator on ints does what the operation on the exact numbers does. -/
theorem Arithmetic.apply_words (operator : Arithmetic) (left right : Int64) :
    operator.apply (.int left) (.int right) =
      (Operation.binary operator left.toInt right.toInt).outcome := by
  rw [apply]
  cases operator with
  | add | subtract | multiply =>
      rw [Operation.outcome_of_result rfl rfl]
      rfl
  | divide =>
      rw [applyInt, Operation.outcome_eq, int_value_eq]
      simp only [Operation.numbers, Operation.divisor?, Operation.quotient?, Operation.result,
        exact, Option.toList_none, List.mem_singleton, forall_eq, Option.some.injEq]
  | remainder =>
      rw [applyInt, Operation.outcome_eq, int_value_eq, fits_int_eq]
      simp only [Operation.numbers, Operation.divisor?, Operation.quotient?, Operation.result,
        exact, Option.toList_some, List.mem_cons, List.not_mem_nil, or_false, forall_eq_or_imp,
        forall_eq, Option.some.injEq, decide_eq_true_eq]
      split_ifs with byZero quotientFits resultFits bothFit bothFit bothFit
      · rfl
      · rfl
      · exact absurd ⟨resultFits, quotientFits⟩ bothFit
      · exact absurd bothFit.1 resultFits
      · rfl
      · exact absurd bothFit.2 quotientFits
      · rfl

theorem UnaryOperator.negate_word (operand : Int64) :
    UnaryOperator.negate.apply (.int operand) = (Operation.negate operand.toInt).outcome := by
  rw [Operation.outcome_of_result rfl rfl]
  rfl

theorem UnaryOperator.absolute_word (operand : Int64) :
    UnaryOperator.absolute.apply (.int operand) = (Operation.absolute operand.toInt).outcome := by
  rw [Operation.outcome_of_result rfl rfl]
  rfl

/-- Trees of ints, variables and the operators on ints. -/
inductive IntExpression where
  | constant (number : Int64)
  | slot (name : String)
  | negate (operand : IntExpression)
  | absolute (operand : IntExpression)
  | binary (operator : Arithmetic) (left right : IntExpression)

namespace IntExpression

def expression : IntExpression → Expression
  | .constant number => .constant (.int number)
  | .slot name => .variable name
  | .negate operand => .unary .negate operand.expression
  | .absolute operand => .unary .absolute operand.expression
  | .binary operator left right =>
      .binary (.arithmetic operator) left.expression right.expression

def names : IntExpression → List String
  | .constant _ => []
  | .slot name => [name]
  | .negate operand => operand.names
  | .absolute operand => operand.names
  | .binary _ left right => left.names ++ right.names

/-- The number that a tree stands for, of whatever size. -/
def exactValue (values : String → Int64) : IntExpression → Int
  | .constant number => number.toInt
  | .slot name => (values name).toInt
  | .negate operand => (Operation.negate (operand.exactValue values)).result
  | .absolute operand => (Operation.absolute (operand.exactValue values)).result
  | .binary operator left right =>
      (Operation.binary operator (left.exactValue values) (right.exactValue values)).result

/-- All operations of a tree, each on exact numbers, in the order of evaluation. -/
def operations (values : String → Int64) : IntExpression → List Operation
  | .constant _ => []
  | .slot _ => []
  | .negate operand => operand.operations values ++ [.negate (operand.exactValue values)]
  | .absolute operand => operand.operations values ++ [.absolute (operand.exactValue values)]
  | .binary operator left right =>
      left.operations values ++ right.operations values ++
        [.binary operator (left.exactValue values) (right.exactValue values)]

/-- All variables of a tree resolve to ints. -/
def Reads (frame : Frame) (values : String → Int64) (tree : IntExpression) : Prop :=
  ∀ name ∈ tree.names, ∃ content,
    frame.value? name = some content ∧ frame.resolve content = .value (.int (values name))

/-- What evaluation comes to: the exact number, or what is wrong first. -/
def outcome (values : String → Int64) (tree : IntExpression) : Except EvalProblem Value :=
  Operation.settle (tree.operations values) (tree.exactValue values)

variable {frame : Frame} {values : String → Int64}

/-- The last operation, like all others, has a result that fits. -/
theorem to_int_of_feasible {tree : IntExpression}
    (feasible : ∀ operation ∈ tree.operations values, operation.Feasible) :
    (Int64.ofInt (tree.exactValue values)).toInt = tree.exactValue values := by
  apply InRange.to_int_of_int
  cases tree with
  | constant number => exact in_range_word number
  | slot name => exact in_range_word (values name)
  | negate | absolute | binary =>
      refine Operation.in_range_of_feasible (feasible _ ?_)
      exact List.mem_append_right _ (List.mem_singleton.mpr rfl)

/-- A unary operator comes after the operations of its operand. -/
theorem evaluate_unary {operator : UnaryOperator} {operation : Int → Operation}
    (applied : ∀ word : Int64, operator.apply (.int word) = (operation word.toInt).outcome)
    {operand : IntExpression}
    (evaluated : operand.expression.evaluate frame = operand.outcome values) :
    (Expression.unary operator operand.expression).evaluate frame =
      Operation.settle (operand.operations values ++ [operation (operand.exactValue values)])
        (operation (operand.exactValue values)).result := by
  rw [Expression.evaluate, evaluated, outcome]
  rcases Operation.settle_cases (operand.operations values) (operand.exactValue values) with
    feasible | ⟨problem, stopped⟩
  · rw [Operation.settle_of_feasible feasible, Operation.settle_append_of_feasible feasible]
    dsimp only
    rw [applied, to_int_of_feasible feasible, Operation.outcome]
  · rw [stopped, Operation.settle_append_of_error stopped]

/-- A binary operator comes after the operations of both operands. -/
theorem evaluate_binary (operator : Arithmetic) {left right : IntExpression}
    (leftEvaluated : left.expression.evaluate frame = left.outcome values)
    (rightEvaluated : right.expression.evaluate frame = right.outcome values) :
    (IntExpression.binary operator left right).expression.evaluate frame =
      (IntExpression.binary operator left right).outcome values := by
  rw [expression, Expression.evaluate, leftEvaluated, rightEvaluated, outcome, outcome, outcome,
    operations, exactValue, List.append_assoc]
  rcases Operation.settle_cases (left.operations values) (left.exactValue values) with
    leftFeasible | ⟨problem, stopped⟩
  · rw [Operation.settle_of_feasible leftFeasible,
      Operation.settle_append_of_feasible leftFeasible]
    dsimp only [BinaryOperator.settled?]
    rcases Operation.settle_cases (right.operations values) (right.exactValue values) with
      rightFeasible | ⟨problem, stopped⟩
    · rw [Operation.settle_of_feasible rightFeasible,
        Operation.settle_append_of_feasible rightFeasible]
      dsimp only [BinaryOperator.apply]
      rw [Arithmetic.apply_words, to_int_of_feasible leftFeasible,
        to_int_of_feasible rightFeasible, Operation.outcome]
    · rw [stopped, Operation.settle_append_of_error stopped]
  · rw [stopped, Operation.settle_append_of_error stopped]

theorem evaluate_outcome (tree : IntExpression) (reads : tree.Reads frame values) :
    tree.expression.evaluate frame = tree.outcome values := by
  induction tree with
  | constant number =>
      rw [outcome, exactValue, operations, Operation.settle_of_feasible (by simp),
        Int64.ofInt_toInt]
      rfl
  | slot name =>
      obtain ⟨content, found, resolved⟩ := reads name (List.mem_singleton.mpr rfl)
      rw [outcome, exactValue, operations, Operation.settle_of_feasible (by simp),
        Int64.ofInt_toInt, expression, Expression.evaluate, Frame.evaluate, found]
      dsimp only
      rw [resolved]
  | negate operand ih => exact evaluate_unary UnaryOperator.negate_word (ih reads)
  | absolute operand ih => exact evaluate_unary UnaryOperator.absolute_word (ih reads)
  | binary operator left right ihLeft ihRight =>
      exact evaluate_binary operator
        (ihLeft fun name member => reads name (List.mem_append_left _ member))
        (ihRight fun name member => reads name (List.mem_append_right _ member))

/-- Evaluation gives the exact number if all operations are feasible, and reports the first
one that is not. -/
theorem evaluates_exactly (tree : IntExpression) (reads : tree.Reads frame values) :
    ((∀ operation ∈ tree.operations values, operation.Feasible) →
      ∃ number : Int64, tree.expression.evaluate frame = .ok (.int number) ∧
        number.toInt = tree.exactValue values) ∧
    ∀ before operation behind, tree.operations values = before ++ operation :: behind →
      (∀ earlier ∈ before, earlier.Feasible) → ¬operation.Feasible →
      ∃ problem, tree.expression.evaluate frame = .error problem ∧
        problem.message =
          if operation.divisor? = some 0 then "division by zero" else "integer overflow" := by
  rw [evaluate_outcome tree reads, outcome]
  constructor
  · intro feasible
    exact ⟨_, Operation.settle_of_feasible feasible _, to_int_of_feasible feasible⟩
  · intro before operation behind parted feasible infeasible
    rw [parted, Operation.settle_append_of_feasible feasible]
    exact ⟨_, Operation.settle_infeasible infeasible behind _, operation.problem_message⟩

/-- With the least number in `X` the quotient of `abs(X + 1)` and -2 is exact, and so is the
remainder of `X` and -2; the remainder of `X` and -1 has a quotient that does not fit, and the
division by zero behind it is not reached. -/
theorem least_evaluates_exactly :
    let frame := Frame.empty.bind "X" (.value (.int Int64.minValue))
    let least := IntExpression.slot "X"
    let quotient :=
      IntExpression.binary .divide (.absolute (.binary .add least (.constant 1))) (.constant (-2))
    let whole := IntExpression.binary .add quotient (.binary .remainder least (.constant (-2)))
    let stopped :=
      IntExpression.binary .add (.binary .remainder least (.constant (-1)))
        (.binary .divide least (.constant 0))
    (∃ number : Int64, whole.expression.evaluate frame = .ok (.int number) ∧
      number.toInt = -4611686018427387903) ∧
    ∃ problem, stopped.expression.evaluate frame = .error problem ∧
      problem.message = "integer overflow" := by
  intro frame least quotient whole stopped
  have reads (tree : IntExpression) (only : ∀ name ∈ tree.names, name = "X") :
      tree.Reads frame fun _ => Int64.minValue := by
    intro name member
    obtain rfl := only name member
    exact ⟨.value (.int Int64.minValue), rfl, by rw [Frame.resolve, Frame.resolveFrom]⟩
  have exactly := (evaluates_exactly whole (reads whole (by decide))).1 (by decide)
  have first := (evaluates_exactly stopped (reads stopped (by decide))).2 []
    (.binary .remainder Int64.minValue.toInt (-1)) _ rfl (by decide) (by decide)
  have number : whole.exactValue (fun _ => Int64.minValue) = -4611686018427387903 := by decide
  exact ⟨number ▸ exactly, first⟩

/-- The remainder of the least number and -1 is zero, which fits, and yet it is refused. -/
theorem least_remainder_refused :
    let remainder := IntExpression.binary .remainder (.constant Int64.minValue) (.constant (-1))
    remainder.Reads .empty (fun _ => 0) ∧
    (∀ operation ∈ remainder.operations fun _ => 0,
      operation.divisor? ≠ some 0 ∧ InRange operation.result) ∧
    remainder.exactValue (fun _ => 0) = 0 ∧
    remainder.expression.evaluate .empty = .error .overflow := by
  refine ⟨fun name member => absurd member List.not_mem_nil, by decide, by decide, rfl⟩

end IntExpression

end Deliberation
