import Deliberation.Term.Printer

/-!
# Frames

A frame holds the variable slots of one attempt, apart from the terms that
mention them. Slots stay sorted by name, so two frames with equal slots are
equal. Declaring keeps a slot that is there; binding overwrites it.
-/

namespace Deliberation

set_option autoImplicit false

abbrev Bindings := List (String × Term)

/-- A declared slot is unbound as long as it holds no term. -/
structure Frame where
  slots : List (String × Option Term)

namespace Frame

def empty : Frame := ⟨[]⟩

def findSlot (name : String) : List (String × Option Term) → Option (Option Term)
  | [] => none
  | (key, content) :: rest => if key = name then some content else findSlot name rest

def putSlot (name : String) (content : Option Term) :
    List (String × Option Term) → List (String × Option Term)
  | [] => [(name, content)]
  | (key, old) :: rest =>
      if key = name then (name, content) :: rest
      else if name < key then (name, content) :: (key, old) :: rest
      else (key, old) :: putSlot name content rest

def isDeclared (frame : Frame) (name : String) : Bool :=
  (findSlot name frame.slots).isSome

def value? (frame : Frame) (name : String) : Option Term :=
  (findSlot name frame.slots).join

def isAllocated (frame : Frame) (name : String) : Bool :=
  (frame.value? name).isSome

/-- A slot seen as a variable that carries the bound term. -/
def slot? (frame : Frame) (name : String) : Option Term :=
  (findSlot name frame.slots).map fun content =>
    match content with
    | some term => .bound name term
    | none => .variable name

def declareOne (frame : Frame) (name : String) : Frame :=
  if frame.isDeclared name then frame else ⟨putSlot name none frame.slots⟩

def declare (frame : Frame) (names : List String) : Frame :=
  names.foldl declareOne frame

def withVariables (names : List String) : Frame :=
  empty.declare names

def bind (frame : Frame) (name : String) (term : Term) : Frame :=
  ⟨putSlot name (some term) frame.slots⟩

/-- Binds every pair in order, so a later pair of one name wins. -/
def commit (frame : Frame) (bindings : Bindings) : Frame :=
  bindings.foldl (fun current binding => current.bind binding.1 binding.2) frame

def boundCount (frame : Frame) : Nat :=
  (frame.slots.filter fun slot => slot.2.isSome).length

def slotText : String × Option Term → String
  | (name, some term) => name ++ " -> " ++ term.text
  | (name, none) => name

def text (frame : Frame) : String :=
  "\x7b" ++ ", ".intercalate (frame.slots.map slotText) ++ "\x7d"

end Frame

end Deliberation
