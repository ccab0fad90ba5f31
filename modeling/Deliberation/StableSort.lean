/-!
# Sorting that keeps ties in place

Insertion from the right: an element goes before the first one that it may
precede, so two elements that may each precede the other keep their order.
-/

namespace Deliberation

set_option autoImplicit false

def insertSorted {α : Type} (precedes : α → α → Bool) (element : α) : List α → List α
  | [] => [element]
  | head :: rest =>
      if precedes element head then element :: head :: rest
      else head :: insertSorted precedes element rest

def stableSort {α : Type} (precedes : α → α → Bool) : List α → List α
  | [] => []
  | head :: rest => insertSorted precedes head (stableSort precedes rest)

end Deliberation
