import Deliberation.Path

/-!
# Numbers under paths

An index keeps under each path the numbers that were put there, in the order in
which they came. A path has an entry from its first number on.
-/

namespace Deliberation

set_option autoImplicit false

structure PathIndex where
  entries : List (Path × List Nat)

namespace PathIndex

def empty : PathIndex := ⟨[]⟩

def findEntry (path : Path) : List (Path × List Nat) → Option (List Nat)
  | [] => none
  | (other, numbers) :: rest =>
      if other = path then some numbers else findEntry path rest

def pushEntry (path : Path) (number : Nat) : List (Path × List Nat) → List (Path × List Nat)
  | [] => [(path, [number])]
  | (other, numbers) :: rest =>
      if other = path then (other, numbers ++ [number]) :: rest
      else (other, numbers) :: pushEntry path number rest

def numbers? (index : PathIndex) (path : Path) : Option (List Nat) :=
  findEntry path index.entries

def push (index : PathIndex) (path : Path) (number : Nat) : PathIndex :=
  ⟨pushEntry path number index.entries⟩

end PathIndex

end Deliberation
