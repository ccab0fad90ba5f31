import Deliberation.Aggregation
import Deliberation.Rule

/-!
# Scoring rules

A rule scores the aggregate of its steps. A proxy scores the aggregate of its
candidates and a rule that is a step that of its own steps; a plain step scores
1. The numbers of the rules being scored are handed along: such a rule is left
out among the candidates of a proxy, and asked for on its own it scores 0, as an
unknown number does. Every entry into a rule adds a number to them, so the count
of rules bounds the nesting.
-/

namespace Deliberation

set_option autoImplicit false

/-- A score, with the rules being scored before and after. -/
abbrev Scoring (α : Type) := List Nat → α × List Nat

def scoreCandidates (scoreRule : Nat → Scoring Float) : List Nat → Scoring (List Float)
  | [], active => ([], active)
  | number :: rest, active =>
      if number ∈ active then scoreCandidates scoreRule rest active
      else
        let (score, afterRule) := scoreRule number active
        let (scores, afterRest) := scoreCandidates scoreRule rest afterRule
        (score :: scores, afterRest)

mutual

def Step.score (aggregation : Aggregation) (scoreRule : Nat → Scoring Float) :
    Step → Scoring Float
  | .proxy target, active =>
      let (scores, after) := scoreCandidates scoreRule target.candidates active
      (aggregation.evaluate scores, after)
  | .rule _ steps, active =>
      let (scores, after) := Step.allScores aggregation scoreRule steps active
      (aggregation.evaluate scores, after)
  | .scripted script, active =>
      match script.rating with
      | .fixed score => (score, active)
      | .ofRule number => scoreRule number active
  | .raw _, active => (1, active)
  | .belief _ _, active => (1, active)
  | .test _ _, active => (1, active)
  | .call _, active => (1, active)
  | .expression _, active => (1, active)
  | .increment _ _, active => (1, active)

def Step.allScores (aggregation : Aggregation) (scoreRule : Nat → Scoring Float) :
    List Step → Scoring (List Float)
  | [], active => ([], active)
  | step :: rest, active =>
      let (score, afterStep) := step.score aggregation scoreRule active
      let (scores, afterRest) := Step.allScores aggregation scoreRule rest afterStep
      (score :: scores, afterRest)

end

/-- Scores a rule while at most `nesting` more rules are entered. -/
def RuleSet.scoreWithin (set : RuleSet) (aggregation : Aggregation) : Nat → Nat → Scoring Float
  | 0, _, active => (0, active)
  | nesting + 1, number, active =>
      match set.rule? number with
      | none => (0, active)
      | some rule =>
          if number ∈ active then (0, active)
          else
            let (scores, after) := Step.allScores aggregation
              (set.scoreWithin aggregation nesting) rule.steps (number :: active)
            (aggregation.evaluate scores, after.erase number)

structure Scorer where
  set : RuleSet
  aggregation : Aggregation
  active : List Nat

namespace Scorer

def fresh (set : RuleSet) (aggregation : Aggregation) : Scorer :=
  ⟨set, aggregation, []⟩

def scoreRule (scorer : Scorer) (number : Nat) : Float × Scorer :=
  let (score, after) :=
    scorer.set.scoreWithin scorer.aggregation scorer.set.size number scorer.active
  (score, { scorer with active := after })

/-- Scores one rule after another with the same scorer. -/
def scoreEach (scorer : Scorer) : List Nat → List Float × Scorer
  | [] => ([], scorer)
  | number :: rest =>
      let (score, afterRule) := scorer.scoreRule number
      let (scores, afterRest) := afterRule.scoreEach rest
      (score :: scores, afterRest)

end Scorer

end Deliberation
