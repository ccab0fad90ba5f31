import Deliberation.Agent
import Deliberation.Proofs.Score.Stack
import Mathlib.Data.Finset.Card
import Mathlib.Data.Finset.Range
import Mathlib.Tactic.SplitIfs

/-!
# Scoring ends

Scoring is written here once more as the finite trees of entries that it goes through,
with nothing to bound their nesting. Each entry takes one more rule of the set on the
stack, so that the rules not yet on it bound the nesting from any rule and on any stack,
whatever cycles the calls form. Such a tree exists for every rule, it has one outcome,
which is that of scoring, and the stack is behind it what it was before it.
-/

namespace Deliberation

set_option autoImplicit false

/-- A step whose score asks for no other score. -/
def Step.isUnit : Step → Bool
  | .rule _ _ | .proxy _ | .scripted _ => false
  | _ => true

namespace RuleSet

variable (set : RuleSet) (aggregation : Aggregation)

mutual

/-- A scoring of a rule that ends, with the stack before it, the score, and the stack
behind it. -/
inductive ScoresRule : Nat → List Nat → Float → List Nat → Prop where
  | unknown {number : Nat} (active : List Nat) (missing : set.rule? number = none) :
      ScoresRule number active 0 active
  | reentered {number : Nat} {active : List Nat} (isActive : number ∈ active) :
      ScoresRule number active 0 active
  | entered {number : Nat} {active after : List Nat} {rule : Rule} {scores : List Float}
      (found : set.rule? number = some rule) (fresh : number ∉ active)
      (body : ScoresSteps rule.steps (number :: active) scores after) :
      ScoresRule number active (aggregation.evaluate scores) (after.erase number)

inductive ScoresCandidates : List Nat → List Nat → List Float → List Nat → Prop where
  | none (active : List Nat) : ScoresCandidates [] active [] active
  | skip {number : Nat} {rest active after : List Nat} {scores : List Float}
      (isActive : number ∈ active) (others : ScoresCandidates rest active scores after) :
      ScoresCandidates (number :: rest) active scores after
  | take {number : Nat} {rest active between after : List Nat} {score : Float}
      {scores : List Float} (fresh : number ∉ active)
      (first : ScoresRule number active score between)
      (others : ScoresCandidates rest between scores after) :
      ScoresCandidates (number :: rest) active (score :: scores) after

inductive ScoresStep : Step → List Nat → Float → List Nat → Prop where
  | unit {step : Step} (active : List Nat) (isUnit : step.isUnit = true) :
      ScoresStep step active 1 active
  | fixed {script : Script} {score : Float} (active : List Nat)
      (rating : script.rating = .fixed score) :
      ScoresStep (.scripted script) active score active
  | ofRule {script : Script} {number : Nat} {active after : List Nat} {score : Float}
      (rating : script.rating = .ofRule number)
      (scored : ScoresRule number active score after) :
      ScoresStep (.scripted script) active score after
  | rule {identifier : Literal} {steps : List Step} {active after : List Nat}
      {scores : List Float} (body : ScoresSteps steps active scores after) :
      ScoresStep (.rule identifier steps) active (aggregation.evaluate scores) after
  | proxy {target : Proxy} {active after : List Nat} {scores : List Float}
      (compared : ScoresCandidates target.candidates active scores after) :
      ScoresStep (.proxy target) active (aggregation.evaluate scores) after

inductive ScoresSteps : List Step → List Nat → List Float → List Nat → Prop where
  | none (active : List Nat) : ScoresSteps [] active [] active
  | next {step : Step} {rest : List Step} {active between after : List Nat} {score : Float}
      {scores : List Float} (first : ScoresStep step active score between)
      (others : ScoresSteps rest between scores after) :
      ScoresSteps (step :: rest) active (score :: scores) after

end

/-- The number of rules that are not on the stack. -/
def outside (active : List Nat) : Nat :=
  ((Finset.range set.size).filter fun number => number ∉ active).card

theorem outside_le_size (active : List Nat) : set.outside active ≤ set.size := by
  have bounded := Finset.card_filter_le (Finset.range set.size) fun number => number ∉ active
  rwa [Finset.card_range] at bounded

variable {set aggregation} {number : Nat} {active : List Nat}

/-- Each entry leaves one rule less outside. -/
theorem outside_enter_lt {rule : Rule} (found : set.rule? number = some rule)
    (fresh : number ∉ active) : set.outside (number :: active) < set.outside active := by
  have inRange : number ∈ Finset.range set.size :=
    Finset.mem_range.mpr (List.getElem?_eq_some_iff.mp found).1
  apply Finset.card_lt_card
  rw [Finset.ssubset_iff_of_subset]
  · refine ⟨number, Finset.mem_filter.mpr ⟨inRange, fresh⟩, fun member => ?_⟩
    exact (Finset.mem_filter.mp member).2 List.mem_cons_self
  · intro other member
    obtain ⟨isRule, outside⟩ := Finset.mem_filter.mp member
    exact Finset.mem_filter.mpr ⟨isRule, fun isActive => outside (List.mem_cons_of_mem _ isActive)⟩

section Trees

variable {scoreRule : Nat → Scoring Float} (steady : Steady scoreRule active)
  (ends : ∀ number, set.ScoresRule aggregation number active (scoreRule number active).1 active)

include ends

theorem scores_candidates_of_rules (numbers : List Nat) :
    set.ScoresCandidates aggregation numbers active
      ((numbers.filter fun number => number ∉ active).map fun number =>
        (scoreRule number active).1) active := by
  induction numbers with
  | nil => exact .none active
  | cons number rest ih =>
      by_cases isActive : number ∈ active
      · rw [List.filter_cons_of_neg (by simpa using isActive)]
        exact .skip isActive ih
      · rw [List.filter_cons_of_pos (by simpa using isActive)]
        exact .take isActive (ends number) ih

omit ends in
theorem scores_steps_of_each {score : Step → Float} {steps : List Step}
    (each : ∀ step ∈ steps, set.ScoresStep aggregation step active (score step) active) :
    set.ScoresSteps aggregation steps active (steps.map score) active := by
  induction steps with
  | nil => exact .none active
  | cons step rest ih =>
      obtain ⟨here, onward⟩ := List.forall_mem_cons.mp each
      exact .next here (ih onward)

include steady

theorem scores_step_of_rules (step : Step) :
    set.ScoresStep aggregation step active (step.score aggregation scoreRule active).1 active := by
  revert step
  apply InductiveStepProperty.holds
  constructor
  case rule =>
    intro identifier steps each
    rw [steady.rule_step]
    exact .rule (scores_steps_of_each each)
  case proxy =>
    intro target
    rw [steady.proxy_step]
    exact .proxy (scores_candidates_of_rules ends target.candidates)
  case scripted =>
    intro script
    rw [Step.score]
    cases rating : script.rating with
    | fixed score => exact .fixed active rating
    | ofRule number => exact .ofRule rating (ends number)
  all_goals
    intros
    rw [Step.score]
    exact .unit active rfl

end Trees

/-- There is a tree as soon as the nesting is enough for the rules outside. -/
theorem scores_rule_within {nesting : Nat} (enough : set.outside active ≤ nesting)
    (number : Nat) :
    set.ScoresRule aggregation number active
      (set.scoreWithin aggregation nesting number active).1 active := by
  induction nesting using Nat.strong_induction_on generalizing number active with
  | _ nesting ih =>
      cases found : set.rule? number with
      | none =>
          rw [score_within_unknown aggregation found]
          exact .unknown active found
      | some rule =>
          by_cases isActive : number ∈ active
          · rw [score_within_active aggregation isActive]
            exact .reentered isActive
          · have less := outside_enter_lt found isActive
            obtain ⟨inner, rfl⟩ : ∃ inner, nesting = inner + 1 := ⟨nesting - 1, by omega⟩
            have steady := set.score_within_steady aggregation inner (number :: active)
            have rules := @ih inner (Nat.lt_succ_self inner) (number :: active) (by omega)
            have body := scores_steps_of_each fun step (_ : step ∈ rule.steps) =>
              scores_step_of_rules steady rules step
            rw [score_within_entered aggregation found isActive]
            have entered := ScoresRule.entered found isActive body
            rwa [List.erase_cons_head] at entered

/-- A tree tells what scoring gives within any nesting that is enough. -/
theorem ScoresRule.within {score : Float} {after : List Nat}
    (scored : set.ScoresRule aggregation number active score after) :
    ∀ nesting, set.outside active ≤ nesting →
      set.scoreWithin aggregation nesting number active = (score, after) := by
  refine @ScoresRule.rec set aggregation
    (fun number active score after _ => ∀ nesting, set.outside active ≤ nesting →
      set.scoreWithin aggregation nesting number active = (score, after))
    (fun numbers active scores after _ => ∀ nesting, set.outside active ≤ nesting →
      scoreCandidates (set.scoreWithin aggregation nesting) numbers active = (scores, after))
    (fun step active score after _ => ∀ nesting, set.outside active ≤ nesting →
      step.score aggregation (set.scoreWithin aggregation nesting) active = (score, after))
    (fun steps active scores after _ => ∀ nesting, set.outside active ≤ nesting →
      Step.allScores aggregation (set.scoreWithin aggregation nesting) steps active =
        (scores, after))
    ?unknown ?reentered ?entered ?noCandidate ?skip ?take ?unit ?fixed ?ofRule ?rule ?proxy
    ?noStep ?next _ _ _ _ scored
  case unknown =>
    intro number active missing nesting _
    exact score_within_unknown aggregation missing nesting
  case reentered =>
    intro number active isActive nesting _
    exact score_within_active aggregation isActive nesting
  case entered =>
    intro number active after rule scores found fresh _ body nesting enough
    have less := outside_enter_lt found fresh
    obtain ⟨inner, rfl⟩ : ∃ inner, nesting = inner + 1 := ⟨nesting - 1, by omega⟩
    rw [scoreWithin, found]
    dsimp only
    rw [if_neg fresh, body inner (by omega)]
  case noCandidate => exact fun _ _ _ => rfl
  case skip =>
    intro number rest active after scores isActive _ others nesting enough
    rw [scoreCandidates, if_pos isActive, others nesting enough]
  case take =>
    intro number rest active between after score scores fresh _ _ first others nesting enough
    -- The stack between the two is the one before, so what was enough still is.
    have here := first nesting enough
    have kept : between = active := by
      have steady := set.score_within_steady aggregation nesting active number
      rwa [here] at steady
    subst kept
    rw [scoreCandidates, if_neg fresh, here]
    dsimp only
    rw [others nesting enough]
  case unit =>
    intro step active isUnit nesting _
    cases step with
    | test goal guard => rw [Step.score]
    | rule _ _ | proxy _ | scripted _ => cases isUnit
    | raw _ | belief _ _ | call _ | expression _ | increment _ _ => rw [Step.score]
  case fixed =>
    intro script score active rating nesting _
    rw [Step.score, rating]
  case ofRule =>
    intro script number active after score rating _ scored nesting enough
    rw [Step.score, rating]
    exact scored nesting enough
  case rule =>
    intro identifier steps active after scores _ body nesting enough
    rw [Step.score, body nesting enough]
  case proxy =>
    intro target active after scores _ compared nesting enough
    rw [Step.score, compared nesting enough]
  case noStep => exact fun _ _ _ => rfl
  case next =>
    intro step rest active between after score scores _ _ first others nesting enough
    have here := first nesting enough
    have kept : between = active := by
      have steady :
          (step.score aggregation (set.scoreWithin aggregation nesting) active).2 = active :=
        (set.score_within_steady aggregation nesting active).step step
      rwa [here] at steady
    subst kept
    rw [Step.allScores, here]
    dsimp only
    rw [others nesting enough]

/-- All nestings that are enough for the rules outside give the same. -/
theorem score_within_enough {nesting : Nat} (enough : set.outside active ≤ nesting)
    (number : Nat) :
    set.scoreWithin aggregation nesting number active =
      set.scoreWithin aggregation set.size number active := by
  have scored : set.ScoresRule aggregation number active _ active :=
    scores_rule_within (set.outside_le_size active) number
  have steady := set.score_within_steady aggregation set.size active number
  rw [scored.within nesting enough]
  exact Prod.ext rfl steady.symm

/-- The nesting that is granted to scoring is enough on every stack. -/
theorem scores_rule_iff (score : Float) (after : List Nat) :
    set.ScoresRule aggregation number active score after ↔
      score = (set.scoreWithin aggregation set.size number active).1 ∧ after = active := by
  have enough := set.outside_le_size active
  constructor
  · intro scored
    have given := scored.within set.size enough
    have kept := set.score_within_steady aggregation set.size active number
    rw [given] at kept ⊢
    exact ⟨rfl, kept⟩
  · rintro ⟨rfl, rfl⟩
    exact scores_rule_within enough number

end RuleSet

namespace Scorer

variable (scorer : Scorer)

theorem score_rule_keeps (number : Nat) :
    scorer.scoreRule number =
      ((scorer.set.scoreWithin scorer.aggregation scorer.set.size number scorer.active).1,
        scorer) := by
  rw [scoreRule]
  dsimp only
  rw [scorer.set.score_within_steady]

theorem score_each_eq (numbers : List Nat) :
    scorer.scoreEach numbers =
      (numbers.map fun number => (scorer.scoreRule number).1, scorer) := by
  induction numbers with
  | nil => rfl
  | cons number rest ih =>
      rw [scoreEach, score_rule_keeps]
      dsimp only
      rw [ih, List.map_cons, score_rule_keeps]

end Scorer

/-- Scoring any rule on any stack ends, with one outcome, and leaves the scorer as it was;
so one scorer gives the rules that it scores in turn what a fresh one gives each of them. -/
theorem Agent.scoring_leaves_stack (agent : Agent) (active : List Nat) :
    let scorer : Scorer := ⟨agent.set, agent.aggregation, active⟩
    (∀ number, ∃ score, scorer.scoreRule number = (score, scorer) ∧
      ∀ other after, agent.set.ScoresRule agent.aggregation number active other after ↔
        other = score ∧ after = active) ∧
    ∀ numbers, (Scorer.fresh agent.set agent.aggregation).scoreEach numbers =
      (numbers.map agent.score, .fresh agent.set agent.aggregation) := by
  intro scorer
  constructor
  · intro number
    exact ⟨_, scorer.score_rule_keeps number, RuleSet.scores_rule_iff⟩
  · intro numbers
    exact Scorer.score_each_eq _ numbers

end Deliberation
