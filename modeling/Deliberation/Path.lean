/-!
# Functor paths

A path names the functor of a literal, in segments parted by `/`. Reading
drops the separators at both ends and keeps those inside, so an inner segment
may be empty while the whole text never is.
-/

namespace Deliberation

set_option autoImplicit false

structure Path where
  text : String
  deriving DecidableEq

namespace Path

inductive Problem where
  | empty
  deriving DecidableEq

def Problem.message : Problem → String
  | .empty => "functor path must not be empty"

def separator : Char := '/'

def dropSeparators (characters : List Char) : List Char :=
  characters.dropWhile (· == separator)

def trim (characters : List Char) : List Char :=
  (dropSeparators (dropSeparators characters).reverse).reverse

def parse (source : String) : Except Problem Path :=
  match trim source.toList with
  | [] => .error .empty
  | first :: rest => .ok ⟨String.ofList (first :: rest)⟩

/-- The segments of a text: one more than it has separators. -/
def segments : List Char → List (List Char)
  | [] => [[]]
  | character :: rest =>
      if character = separator then [] :: segments rest
      else
        match segments rest with
        | [] => [[character]]
        | segment :: others => (character :: segment) :: others

def parts (path : Path) : List String :=
  (segments path.text.toList).map String.ofList

def length (path : Path) : Nat :=
  path.parts.length

/-- Paths are ordered by the code points of their texts. -/
def precedes (left right : Path) : Bool :=
  decide (left.text ≤ right.text)

end Path

end Deliberation
