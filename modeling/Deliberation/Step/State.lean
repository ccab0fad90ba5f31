import Deliberation.Belief.Base
import Deliberation.Expression.Eval
import Deliberation.Rule

/-!
# State of a run

A step reads and changes a frame, an output of terms, and a mind that all runs
of an agent share: its beliefs and the tally of what has been tried. A fault
keeps whatever was changed before it. An action has no end at all when the
nesting of calls granted to it does not suffice.
-/

namespace Deliberation

set_option autoImplicit false

structure Tally where
  unifyAttempts : Nat
  unifySuccesses : Nat
  ruleExecutions : Nat
  deriving DecidableEq

namespace Tally

def zero : Tally := ⟨0, 0, 0⟩

def recordUnify (tally : Tally) (success : Bool) : Tally :=
  { tally with
    unifyAttempts := tally.unifyAttempts + 1
    unifySuccesses := tally.unifySuccesses + (if success then 1 else 0) }

def recordRule (tally : Tally) : Tally :=
  { tally with ruleExecutions := tally.ruleExecutions + 1 }

end Tally

structure Mind where
  beliefs : BeliefBase
  tally : Tally

namespace Mind

def recordUnify (mind : Mind) (success : Bool) : Mind :=
  { mind with tally := mind.tally.recordUnify success }

def recordRule (mind : Mind) : Mind :=
  { mind with tally := mind.tally.recordRule }

end Mind

structure State where
  frame : Frame
  output : List Term
  mind : Mind

/-- A fault met while running; the frame is the one that it was met in. -/
inductive Fault where
  | evaluation (problem : EvalProblem) (frame : Frame)
  | unlinked (literal : Literal)
  | unknownRule (unknown : UnknownRule)

def Fault.message : Fault → String
  | .evaluation problem frame => problem.message ++ " in " ++ frame.text
  | .unlinked literal => "`" ++ literal.text ++ "` executed before linking"
  | .unknownRule unknown => unknown.message

abbrev Outcome := Except Fault Truth

abbrev Action := State → Option (Outcome × State)

end Deliberation
