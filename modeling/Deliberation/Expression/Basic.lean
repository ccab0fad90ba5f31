import Deliberation.Token
import Deliberation.Value

/-!
# Expressions

Expressions are trees over raw values and variable names. Binary operators are
grouped by what they need: arithmetic, relations of values, and connectives of
bools.
-/

namespace Deliberation

set_option autoImplicit false

inductive UnaryOperator where
  | not
  | negate
  | absolute
  deriving DecidableEq

inductive Arithmetic where
  | add
  | subtract
  | multiply
  | divide
  | remainder
  deriving DecidableEq

inductive Relation where
  | equal
  | different
  | less
  | lessOrEqual
  | greater
  | greaterOrEqual
  deriving DecidableEq

inductive Connective where
  | and
  | or
  | xor
  deriving DecidableEq

inductive BinaryOperator where
  | arithmetic (operator : Arithmetic)
  | relation (operator : Relation)
  | connective (operator : Connective)
  deriving DecidableEq

inductive Expression where
  | constant (content : Value)
  | variable (name : String)
  | unary (operator : UnaryOperator) (operand : Expression)
  | binary (operator : BinaryOperator) (left right : Expression)

namespace UnaryOperator

def all : List UnaryOperator := [.not, .negate, .absolute]

def token : UnaryOperator → String
  | .not => "!"
  | .negate => "-"
  | .absolute => "abs"

def ofToken (token : String) : Except UnknownToken UnaryOperator :=
  readToken .unary all UnaryOperator.token token

end UnaryOperator

def Arithmetic.token : Arithmetic → String
  | .add => "+"
  | .subtract => "-"
  | .multiply => "*"
  | .divide => "/"
  | .remainder => "%"

def Relation.token : Relation → String
  | .equal => "=="
  | .different => "!="
  | .less => "<"
  | .lessOrEqual => "<="
  | .greater => ">"
  | .greaterOrEqual => ">="

def Connective.token : Connective → String
  | .and => "&&"
  | .or => "||"
  | .xor => "^"

namespace BinaryOperator

def all : List BinaryOperator :=
  [.arithmetic .add, .arithmetic .subtract, .arithmetic .multiply, .arithmetic .divide,
    .arithmetic .remainder, .relation .equal, .relation .different, .relation .less,
    .relation .lessOrEqual, .relation .greater, .relation .greaterOrEqual,
    .connective .and, .connective .or, .connective .xor]

def token : BinaryOperator → String
  | .arithmetic operator => operator.token
  | .relation operator => operator.token
  | .connective operator => operator.token

def ofToken (token : String) : Except UnknownToken BinaryOperator :=
  readToken .binary all BinaryOperator.token token

end BinaryOperator

namespace Expression

/-- Binary operations stand in parentheses, so no operator needs a rank. -/
def text : Expression → String
  | .constant content => content.text
  | .variable name => name
  | .unary .absolute operand => "abs(" ++ operand.text ++ ")"
  | .unary operator operand => operator.token ++ operand.text
  | .binary operator left right =>
      "(" ++ left.text ++ " " ++ operator.token ++ " " ++ right.text ++ ")"

/-- Expressions are the same when they differ at most in the writing of equal
values. -/
def same : Expression → Expression → Bool
  | .constant left, .constant right => left.same right
  | .variable left, .variable right => left == right
  | .unary leftOperator left, .unary rightOperator right =>
      decide (leftOperator = rightOperator) && left.same right
  | .binary leftOperator left leftOther, .binary rightOperator right rightOther =>
      decide (leftOperator = rightOperator) && left.same right && leftOther.same rightOther
  | _, _ => false

end Expression

end Deliberation
