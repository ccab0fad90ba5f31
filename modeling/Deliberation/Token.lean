/-!
# Tokens

Operators are written as tokens. Each kind of operator lists its members with
their tokens; a token outside that list is unknown, and the report says of
which kind one was wanted.
-/

namespace Deliberation

set_option autoImplicit false

inductive TokenKind where
  | unary
  | binary
  | increment
  | belief
  deriving DecidableEq

def TokenKind.noun : TokenKind → String
  | .unary => "unary operator"
  | .binary => "binary operator"
  | .increment => "increment operator"
  | .belief => "belief action"

structure UnknownToken where
  kind : TokenKind
  token : String
  deriving DecidableEq

def UnknownToken.message (unknown : UnknownToken) : String :=
  "unknown " ++ unknown.kind.noun ++ " `" ++ unknown.token ++ "`"

/-- The first member of a list that is written as the given token. -/
def readToken {α : Type} (kind : TokenKind) (members : List α) (written : α → String)
    (token : String) : Except UnknownToken α :=
  match members.find? fun member => written member == token with
  | some member => .ok member
  | none => .error ⟨kind, token⟩

end Deliberation
