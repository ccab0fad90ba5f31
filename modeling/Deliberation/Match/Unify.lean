import Deliberation.Match.Candidates
import Deliberation.Step.State

/-!
# Unifying goals with beliefs

The binding sets of a goal are found once. Without a guard the first set wins.
A guard is tried on each set in turn, in a copy of the frame with that set
bound and with an output of its own; it accepts by leaving one term, the
boolean true. What a guard does to the mind stays; what it binds does not. Only
the winning set is bound in the frame itself. An attempt is counted when the
guards are through without a fault. A parallel hint lets the sets be tried at
the same time, which `unifyCourse` allows for.
-/

namespace Deliberation

set_option autoImplicit false

def accepting : List Term → Bool
  | [term] => decide (term.raw? = some (.bool true))
  | _ => false

def selectGuarded (guard : Action) (frame : Frame) :
    List Bindings → Mind → Option (Except Fault (Option Bindings) × Mind)
  | [], mind => some (.ok none, mind)
  | bindings :: rest, mind =>
      match guard ⟨frame.commit bindings, [], mind⟩ with
      | none => none
      | some (.error fault, after) => some (.error fault, after.mind)
      | some (.ok _, after) =>
          if accepting after.output then some (.ok (some bindings), after.mind)
          else selectGuarded guard frame rest after.mind

def select (guard : Option Action) (frame : Frame) (sets : List Bindings) (mind : Mind) :
    Option (Except Fault (Option Bindings) × Mind) :=
  match guard with
  | none => some (.ok sets.head?, mind)
  | some guard => selectGuarded guard frame sets mind

def unify (goal : Literal) (guard : Option Action) : Action := fun state =>
  let sets := state.mind.beliefs.bindingSets (state.frame.instantiate goal)
  match select guard state.frame sets state.mind with
  | none => none
  | some (.error fault, mind) => some (.error fault, { state with mind := mind })
  | some (.ok none, mind) =>
      some (.ok Truth.zero, { state with mind := mind.recordUnify false })
  | some (.ok (some bindings), mind) =>
      some (.ok Truth.one,
        { state with frame := state.frame.commit bindings, mind := mind.recordUnify true })

end Deliberation
