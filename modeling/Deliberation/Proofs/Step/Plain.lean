import Deliberation.Proofs.Step.Structure
import Deliberation.Proofs.Term.Plain
import Deliberation.Rule

/-!
# Plain steps and the counters of a step

A step is plain when the literals that it queries, stores or calls with are, those
of its guards and of its body included. Its counters are the variables that it
moves itself; what a guard or a called rule moves lies in another frame.
-/

namespace Deliberation

set_option autoImplicit false

mutual

def Step.isPlain : Step → Bool
  | .raw _ => true
  | .belief _ literal => literal.isPlain
  | .test goal none => goal.isPlain
  | .test goal (some guard) => goal.isPlain && guard.isPlain
  | .call _ => true
  | .expression _ => true
  | .increment _ _ => true
  | .rule _ steps => Step.allPlain steps
  | .proxy target => target.literal.isPlain
  | .scripted _ => true

def Step.allPlain : List Step → Bool
  | [] => true
  | step :: rest => step.isPlain && Step.allPlain rest

end

mutual

def Step.counters : Step → List String
  | .raw _ => []
  | .belief _ _ => []
  | .test _ _ => []
  | .call _ => []
  | .expression _ => []
  | .increment _ name => [name]
  | .rule _ steps => Step.allCounters steps
  | .proxy _ => []
  | .scripted _ => []

def Step.allCounters : List Step → List String
  | [] => []
  | step :: rest => step.counters ++ Step.allCounters rest

end

theorem Step.all_plain_iff (steps : List Step) :
    Step.allPlain steps = true ↔ ∀ step ∈ steps, step.isPlain = true := by
  induction steps with
  | nil => simp [Step.allPlain]
  | cons step rest ih => simp [Step.allPlain, ih]

def Rule.Plain (rule : Rule) : Prop :=
  rule.identifier.isPlain = true ∧ ∀ step ∈ rule.steps, step.isPlain = true

def RuleSet.Plain (set : RuleSet) : Prop :=
  ∀ rule ∈ set.rules, rule.Plain

theorem RuleSet.Plain.rule {set : RuleSet} (plain : set.Plain) {number : Nat} {rule : Rule}
    (known : set.rule? number = some rule) : rule.Plain :=
  plain rule (List.mem_of_getElem? known)

end Deliberation
