import Deliberation.Expression.Eval

/-!
# Strict evaluation

Strict evaluation leaves no operand alone: both operands of a binary operator come first, the
left one before the right one. Where it gives a value, evaluation gives that value too, since
an operand that is skipped would have had to be a bool and could not have changed the
outcome. What evaluation saves is a fault in a skipped operand, or one that is not a bool.
-/

namespace Deliberation

set_option autoImplicit false

namespace Expression

def evaluateStrictly (frame : Frame) : Expression → Except EvalProblem Value
  | .constant content => .ok content
  | .variable name => frame.evaluate name
  | .unary operator operand =>
      match operand.evaluateStrictly frame with
      | .error problem => .error problem
      | .ok content => operator.apply content
  | .binary operator left right =>
      match left.evaluateStrictly frame with
      | .error problem => .error problem
      | .ok leftContent =>
          match right.evaluateStrictly frame with
          | .error problem => .error problem
          | .ok rightContent => operator.apply leftContent rightContent

/-- The operands that evaluation leaves alone because the left one settles the outcome. What
stands behind a fault is not skipped but out of reach. -/
def skipped (frame : Frame) : Expression → List Expression
  | .constant _ => []
  | .variable _ => []
  | .unary _ operand => operand.skipped frame
  | .binary operator left right =>
      left.skipped frame ++
        match left.evaluate frame with
        | .error _ => []
        | .ok content =>
            match operator.settled? content with
            | some _ => [right]
            | none => right.skipped frame

/-- The expression has a bool for its strict value. -/
def IsBool (frame : Frame) (expression : Expression) : Prop :=
  ∃ flag, expression.evaluateStrictly frame = .ok (.bool flag)

end Expression

theorem Connective.combine_settled {connective : Connective} {left : Value} {flag : Bool}
    (settled : connective.settled? left = some flag) :
    left = .bool flag ∧ ∀ other, connective.combine flag other = flag := by
  cases connective with
  | and =>
      rcases left with _ | _ | _ | (_ | _) <;> cases settled
      exact ⟨rfl, Bool.false_and⟩
  | or =>
      rcases left with _ | _ | _ | (_ | _) <;> cases settled
      exact ⟨rfl, Bool.true_or⟩
  | xor => cases settled

/-- Beside an operand that settles the outcome the other one has to be a bool, and says
nothing. -/
theorem BinaryOperator.apply_settled {operator : BinaryOperator} {left : Value} {flag : Bool}
    (settled : operator.settled? left = some flag) (right content : Value) :
    operator.apply left right = .ok content ↔
      (∃ other, right = .bool other) ∧ content = .bool flag := by
  cases operator with
  | arithmetic operator => cases settled
  | relation operator => cases settled
  | connective connective =>
      obtain ⟨rfl, absorbs⟩ := Connective.combine_settled settled
      rw [BinaryOperator.apply, Connective.apply]
      cases right with
      | bool other => simp [Value.asBool?, absorbs, eq_comm]
      | int | float | string => simp [Value.asBool?]

namespace Expression

variable {frame : Frame}

/-- Where all skipped operands are bools, the two cannot be told apart, faults included. -/
theorem strict_eq_of_skipped_bools {expression : Expression}
    (bools : ∀ operand ∈ expression.skipped frame, operand.IsBool frame) :
    expression.evaluateStrictly frame = expression.evaluate frame := by
  induction expression with
  | constant content => rfl
  | «variable» name => rfl
  | unary operator operand ih =>
      rw [evaluateStrictly, ih bools]
      rfl
  | binary operator left right ihLeft ihRight =>
      rw [skipped] at bools
      rw [evaluateStrictly, evaluate,
        ihLeft fun operand member => bools operand (List.mem_append_left _ member)]
      cases evaluated : left.evaluate frame with
      | error problem => rfl
      | ok content =>
          rw [evaluated] at bools
          dsimp only at bools ⊢
          cases settled : operator.settled? content with
          | some flag =>
              rw [settled] at bools
              obtain ⟨other, isBool⟩ := bools right (List.mem_append_right _ List.mem_cons_self)
              rw [isBool]
              exact (operator.apply_settled settled _ _).mpr ⟨⟨other, rfl⟩, rfl⟩
          | none =>
              rw [settled] at bools
              have rightSame := ihRight fun operand member =>
                bools operand (List.mem_append_right _ member)
              cases evaluatedRight : right.evaluate frame with
              | error problem => rw [rightSame, evaluatedRight]
              | ok rightContent => rw [rightSame, evaluatedRight]

/-- A strict value asks for a bool of every operand that is skipped. -/
theorem skipped_bools_of_strict {expression : Expression} {content : Value}
    (strict : expression.evaluateStrictly frame = .ok content) :
    ∀ operand ∈ expression.skipped frame, operand.IsBool frame := by
  induction expression generalizing content with
  | constant content => exact fun operand member => absurd member List.not_mem_nil
  | «variable» name => exact fun operand member => absurd member List.not_mem_nil
  | unary operator operand ih =>
      rw [evaluateStrictly] at strict
      cases evaluated : operand.evaluateStrictly frame with
      | error problem =>
          rw [evaluated] at strict
          cases strict
      | ok operandContent => exact ih evaluated
  | binary operator left right ihLeft ihRight =>
      rw [evaluateStrictly] at strict
      cases leftStrict : left.evaluateStrictly frame with
      | error problem =>
          rw [leftStrict] at strict
          cases strict
      | ok leftContent =>
          cases rightStrict : right.evaluateStrictly frame with
          | error problem =>
              rw [leftStrict, rightStrict] at strict
              cases strict
          | ok rightContent =>
              rw [leftStrict, rightStrict] at strict
              dsimp only at strict
              have leftBools := ihLeft leftStrict
              have evaluated : left.evaluate frame = .ok leftContent := by
                rw [← strict_eq_of_skipped_bools leftBools, leftStrict]
              rw [skipped, evaluated]
              dsimp only
              intro operand member
              rcases List.mem_append.mp member with before | behind
              · exact leftBools operand before
              · cases settled : operator.settled? leftContent with
                | some flag =>
                    rw [settled] at behind
                    obtain rfl := List.mem_singleton.mp behind
                    obtain ⟨⟨other, rfl⟩, -⟩ :=
                      (operator.apply_settled settled rightContent content).mp strict
                    exact ⟨other, rightStrict⟩
                | none =>
                    rw [settled] at behind
                    exact ihRight rightStrict operand behind

/-- The values of strict evaluation are those of evaluation with nothing but bools skipped. -/
theorem strict_value_iff (expression : Expression) (content : Value) :
    expression.evaluateStrictly frame = .ok content ↔
      expression.evaluate frame = .ok content ∧
        ∀ operand ∈ expression.skipped frame, operand.IsBool frame := by
  constructor
  · intro strict
    have bools := skipped_bools_of_strict strict
    exact ⟨(strict_eq_of_skipped_bools bools).symm.trans strict, bools⟩
  · rintro ⟨evaluated, bools⟩
    exact (strict_eq_of_skipped_bools bools).trans evaluated

/-- Evaluation refines strict evaluation: it keeps every value and adds no fault, and as long
as no operand is skipped the two give the same value or the same fault. -/
theorem evaluation_refines_strict (frame : Frame) (expression : Expression) :
    (∀ content, expression.evaluateStrictly frame = .ok content →
      expression.evaluate frame = .ok content) ∧
    (∀ problem, expression.evaluate frame = .error problem →
      ∃ other, expression.evaluateStrictly frame = .error other) ∧
    (expression.skipped frame = [] →
      expression.evaluate frame = expression.evaluateStrictly frame) := by
  refine ⟨fun content strict => ((strict_value_iff expression content).mp strict).1, ?_, ?_⟩
  · intro problem faulty
    cases strict : expression.evaluateStrictly frame with
    | error other => exact ⟨other, rfl⟩
    | ok content =>
        have evaluated := ((strict_value_iff expression content).mp strict).1
        rw [evaluated] at faulty
        cases faulty
  · intro nothing
    refine (strict_eq_of_skipped_bools fun operand member => ?_).symm
    rw [nothing] at member
    exact absurd member List.not_mem_nil

/-- With 2 in `X` the operand behind `X < 3` is a bool and skipped, and the one behind `false`
is asked for its value, which `Y` does not have. -/
theorem small_reading_refined :
    let frame := Frame.empty.bind "X" (.value (.int 2))
    let small := Expression.binary (.relation .less) (.variable "X") (.constant (.int 3))
    let either := Expression.binary (.connective .or) small (.unary .not small)
    let missing := Expression.binary (.connective .or) (.constant (.bool false)) (.variable "Y")
    either.skipped frame = [.unary .not small] ∧ either.evaluate frame = .ok (.bool true) ∧
      missing.skipped frame = [] ∧
      missing.evaluateStrictly frame = .error (.unallocated "Y") := by
  intro frame small either missing
  have two : frame.evaluate "X" = .ok (.int 2) := by
    have found : frame.value? "X" = some (.value (.int 2)) := rfl
    rw [Frame.evaluate, found]
    dsimp only
    rw [Frame.resolve, Frame.resolveFrom]
  have less : small.evaluateStrictly frame = .ok (.bool true) := by
    simp only [small, evaluateStrictly, two]
    rfl
  have strict : either.evaluateStrictly frame = .ok (.bool true) := by
    rw [evaluateStrictly, evaluateStrictly, less]
    rfl
  have behind : either.skipped frame = [.unary .not small] := by
    have inside : small.skipped frame = [] := by
      simp only [small, skipped, evaluate, two]
      rfl
    rw [skipped, inside, (evaluation_refines_strict frame small).1 _ less]
    rfl
  have nothing : missing.skipped frame = [] := rfl
  have faulty : missing.evaluate frame = .error (.unallocated "Y") := rfl
  refine ⟨behind, (evaluation_refines_strict frame either).1 _ strict, nothing, ?_⟩
  rw [← (evaluation_refines_strict frame missing).2.2 nothing, faulty]

/-- A fault that is saved. -/
example :
    let short := Expression.binary (.connective .and) (.constant (.bool false)) (.variable "Y")
    short.evaluate .empty = .ok (.bool false) ∧
      short.evaluateStrictly .empty = .error (.unallocated "Y") := by
  constructor <;> rfl

end Expression

end Deliberation
