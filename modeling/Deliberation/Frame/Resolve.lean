import Deliberation.Frame.Basic

/-!
# Resolving terms in a frame

A variable stands for the term in its slot, else for the term that it carries.
The names being followed are kept as a chain; meeting one of them again yields
that variable alone. Each step enters a slot off the chain or a smaller term,
which is the measure that ends the recursion. A ground literal is kept whole.
-/

namespace Deliberation

set_option autoImplicit false
set_option linter.unusedVariables false

namespace Frame

/-- The sizes of the terms in slots that are not on the chain. -/
def pendingSize (chain : List String) : List (String × Option Term) → Nat
  | [] => 0
  | (name, content) :: rest =>
      (match content with
        | some term => if name ∈ chain then 0 else term.size + 1
        | none => 0) + pendingSize chain rest

theorem pending_size_cons_le (name : String) (chain : List String)
    (slots : List (String × Option Term)) :
    pendingSize (name :: chain) slots ≤ pendingSize chain slots := by
  induction slots with
  | nil => simp [pendingSize]
  | cons slot rest ih =>
      obtain ⟨key, content⟩ := slot
      cases content with
      | none => simpa [pendingSize] using ih
      | some term =>
          simp only [pendingSize, List.mem_cons]
          by_cases onChain : key ∈ chain
          · simp only [onChain, or_true, if_true]
            omega
          · by_cases isName : key = name
            · simp only [isName, true_or, if_true]
              omega
            · simp only [isName, onChain, or_self, if_false]
              omega

theorem pending_size_enter (name : String) (chain : List String) (term : Term)
    (slots : List (String × Option Term)) (offChain : name ∉ chain)
    (found : (findSlot name slots).join = some term) :
    pendingSize (name :: chain) slots + term.size + 1 ≤ pendingSize chain slots := by
  induction slots with
  | nil => simp [findSlot] at found
  | cons slot rest ih =>
      obtain ⟨key, content⟩ := slot
      by_cases isName : key = name
      · subst isName
        simp only [findSlot, if_true, Option.join_some] at found
        subst found
        have later := pending_size_cons_le key chain rest
        simp only [pendingSize, List.mem_cons, true_or, if_true, offChain, if_false]
        omega
      · simp only [findSlot, isName, if_false] at found
        have later := ih found
        cases content with
        | none =>
            simp only [pendingSize]
            omega
        | some other =>
            simp only [pendingSize, List.mem_cons, isName, false_or]
            omega

mutual

def resolveFrom (frame : Frame) (chain : List String) : Term → Term
  | .value raw => .value raw
  | .variable name =>
      if onChain : name ∈ chain then .variable name
      else
        match found : frame.value? name with
        | some content => frame.resolveFrom (name :: chain) content
        | none => .variable name
  | .bound name own =>
      if onChain : name ∈ chain then .variable name
      else
        match found : frame.value? name with
        | some content => frame.resolveFrom (name :: chain) content
        | none => frame.resolveFrom (name :: chain) own
  | .literal inner => .literal (frame.instantiateFrom chain inner)
termination_by term => pendingSize chain frame.slots + term.size
decreasing_by
  · have smaller := pending_size_enter name chain content frame.slots onChain found
    simp only [Term.size]
    omega
  · have smaller := pending_size_enter name chain content frame.slots onChain found
    simp only [Term.size]
    omega
  · have smaller := pending_size_cons_le name chain frame.slots
    simp only [Term.size]
    omega
  · simp only [Term.size]
    omega

def instantiateFrom (frame : Frame) (chain : List String) : Literal → Literal
  | .mk functor negated ordered arguments annotations =>
      if Term.allGround arguments && Literal.allGround annotations then
        .mk functor negated ordered arguments annotations
      else
        .mk functor negated ordered (frame.resolveAllFrom chain arguments)
          (frame.instantiateAllFrom chain annotations)
termination_by literal => pendingSize chain frame.slots + literal.size
decreasing_by
  all_goals simp only [Literal.size]
  all_goals omega

def resolveAllFrom (frame : Frame) (chain : List String) : List Term → List Term
  | [] => []
  | term :: rest => frame.resolveFrom chain term :: frame.resolveAllFrom chain rest
termination_by terms => pendingSize chain frame.slots + Term.totalSize terms
decreasing_by
  all_goals simp only [Term.totalSize]
  all_goals omega

def instantiateAllFrom (frame : Frame) (chain : List String) : List Literal → List Literal
  | [] => []
  | literal :: rest => frame.instantiateFrom chain literal :: frame.instantiateAllFrom chain rest
termination_by literals => pendingSize chain frame.slots + Literal.totalSize literals
decreasing_by
  all_goals simp only [Literal.totalSize]
  all_goals omega

end

def resolve (frame : Frame) (term : Term) : Term :=
  frame.resolveFrom [] term

def instantiate (frame : Frame) (literal : Literal) : Literal :=
  frame.instantiateFrom [] literal

end Frame

end Deliberation
