import Deliberation.Proofs.Aggregation
import Deliberation.Proofs.Score.Termination

/-!
# A rule reached again

A rule is worth what its steps are worth with it on the stack, and that is the same
whatever the rules on the stack are made of. A call of which all candidates are on the
stack has the score of nothing, and how the rule takes that is up to the aggregation alone:
the sum is blind to it, and so is the largest score where no rating lies below 0; the
smallest score drops to 0, and the mean divides the same total by one more.
-/

namespace Deliberation

set_option autoImplicit false

open Double (fromZero from_zero_zero from_zero_one unsigned unsigned_zero unsigned_one)

namespace RuleSet

def body? (set : RuleSet) (number : Nat) : Option (List Step) :=
  (set.rule? number).map Rule.steps

def scoreOn (set : RuleSet) (aggregation : Aggregation) (active : List Nat) (number : Nat) :
    Float :=
  ((Scorer.mk set aggregation active).scoreRule number).1

def stepScoreOn (set : RuleSet) (aggregation : Aggregation) (active : List Nat) (step : Step) :
    Float :=
  (step.score aggregation (set.scoreWithin aggregation set.size) active).1

variable {aggregation : Aggregation} {active : List Nat}

section Entering

variable {set : RuleSet}

theorem score_on_eq (number : Nat) :
    set.scoreOn aggregation active number =
      (set.scoreWithin aggregation set.size number active).1 := by
  rw [scoreOn, Scorer.score_rule_keeps]

theorem score_on_of_body {number : Nat} {steps : List Step}
    (found : set.body? number = some steps) (fresh : number ∉ active) :
    set.scoreOn aggregation active number =
      aggregation.evaluate (steps.map (set.stepScoreOn aggregation (number :: active))) := by
  obtain ⟨rule, foundRule, rfl⟩ := Option.map_eq_some_iff.mp found
  have enough : set.outside active ≤ set.size + 1 :=
    Nat.le_succ_of_le (set.outside_le_size active)
  rw [score_on_eq, ← score_within_enough enough, score_within_entered aggregation foundRule fresh]
  rfl

theorem step_score_on_of_all_active {target : Proxy}
    (reentered : ∀ number ∈ target.candidates, number ∈ active) :
    set.stepScoreOn aggregation active (.proxy target) = aggregation.evaluate [] := by
  have steady := set.score_within_steady aggregation set.size active
  have noneFresh : (target.candidates.filter fun number => number ∉ active) = [] := by
    simpa [List.filter_eq_nil_iff] using reentered
  rw [stepScoreOn, steady.proxy_step, noneFresh, List.map_nil]

end Entering

section Alike

variable {left right : RuleSet}

/-- The bodies of the rules on the stack do not matter. -/
theorem score_within_congr (nesting : Nat)
    (alike : ∀ number, number ∉ active → left.body? number = right.body? number) (number : Nat) :
    left.scoreWithin aggregation nesting number active =
      right.scoreWithin aggregation nesting number active := by
  induction nesting generalizing number active with
  | zero => rfl
  | succ nesting ih =>
      by_cases isActive : number ∈ active
      · rw [score_within_active _ isActive, score_within_active _ isActive]
      · have sameBody := alike number isActive
        cases foundRight : right.rule? number with
        | none =>
            have foundLeft : left.rule? number = none := by
              simpa [body?, foundRight] using sameBody
            rw [score_within_unknown _ foundLeft, score_within_unknown _ foundRight]
        | some rule =>
            obtain ⟨other, foundLeft, sameSteps⟩ :
                ∃ other, left.rule? number = some other ∧ other.steps = rule.steps := by
              simpa [body?, foundRight] using sameBody
            have steady := right.score_within_steady aggregation nesting (number :: active)
            have inner := @ih (number :: active) fun number outside =>
              alike number fun member => outside (List.mem_cons_of_mem _ member)
            rw [score_within_entered _ foundLeft isActive,
              score_within_entered _ foundRight isActive, sameSteps]
            simp only [steady.step_congr inner]

theorem step_score_on_congr
    (alike : ∀ number, number ∉ active → left.body? number = right.body? number) :
    left.stepScoreOn aggregation active = right.stepScoreOn aggregation active := by
  funext step
  have steady := right.score_within_steady aggregation right.size active
  -- The sets may grant different nestings; the sum of the two is enough for both.
  have rules (number : Nat) := calc
    left.scoreWithin aggregation left.size number active
      = left.scoreWithin aggregation (left.size + right.size) number active :=
        (score_within_enough (Nat.le_add_right_of_le (left.outside_le_size active)) number).symm
    _ = right.scoreWithin aggregation (left.size + right.size) number active :=
        score_within_congr _ alike number
    _ = right.scoreWithin aggregation right.size number active :=
        score_within_enough (Nat.le_add_left_of_le (right.outside_le_size active)) number
  rw [stepScoreOn, stepScoreOn, steady.step_congr rules]

end Alike

end RuleSet

section Ratings

/-- Whether a check passes for all ratings that are written down. -/
def Step.rated (passes : Float → Bool) : Step → Bool :=
  Step.throughout fun step =>
    match step with
    | .scripted script =>
        match script.rating with
        | .fixed score => passes score
        | .ofRule _ => true
    | _ => true

def RuleSet.Rated (set : RuleSet) (passes : Float → Bool) : Prop :=
  ∀ rule ∈ set.rules, ∀ step ∈ rule.steps, step.rated passes = true

variable {passes : Float → Bool} (aggregation : Aggregation)
  (closed : ∀ scores : List Float, (∀ score ∈ scores, passes score = true) →
    passes (aggregation.evaluate scores) = true)
  (one : passes 1 = true)

include closed one

theorem step_score_passes {scoreRule : Nat → Scoring Float} {active : List Nat}
    (steady : Steady scoreRule active)
    (rules : ∀ number, passes (scoreRule number active).1 = true) (step : Step)
    (rated : step.rated passes = true) :
    passes (step.score aggregation scoreRule active).1 = true := by
  revert step
  apply InductiveStepProperty.holds
  constructor
  case rule =>
    intro identifier steps eachPasses rated
    have members := ((Step.throughout_rule_iff ..).mp rated).2
    rw [steady.rule_step]
    refine closed _ (List.forall_mem_map.mpr fun step member => ?_)
    exact eachPasses step member (members step member)
  case proxy =>
    intro target _
    rw [steady.proxy_step]
    exact closed _ (List.forall_mem_map.mpr fun number _ => rules number)
  case scripted =>
    intro script rated
    have check := Step.check_of_throughout rated
    rw [Step.score]
    cases rating : script.rating with
    | fixed score => simpa [rating] using check
    | ofRule number => exact rules number
  all_goals
    intros
    rw [Step.score]
    exact one

theorem RuleSet.score_within_passes {set : RuleSet} (rated : set.Rated passes)
    (zero : passes 0 = true) (nesting number : Nat) (active : List Nat) :
    passes (set.scoreWithin aggregation nesting number active).1 = true := by
  induction nesting generalizing number active with
  | zero => exact zero
  | succ nesting ih =>
      cases found : set.rule? number with
      | none =>
          rw [score_within_unknown aggregation found]
          exact zero
      | some rule =>
          by_cases isActive : number ∈ active
          · rw [score_within_active aggregation isActive]
            exact zero
          · have steady := set.score_within_steady aggregation nesting (number :: active)
            have member : rule ∈ set.rules := List.mem_of_getElem? found
            rw [score_within_entered aggregation found isActive]
            refine closed _ (List.forall_mem_map.mpr fun step listed => ?_)
            exact step_score_passes aggregation closed one steady (fun number => ih number _) step
              (rated rule member step listed)

theorem RuleSet.step_scores_pass {set : RuleSet} (rated : set.Rated passes)
    (zero : passes 0 = true) {number : Nat} {before behind : List Step}
    (found : set.body? number = some (before ++ behind)) (active : List Nat) :
    let worth := set.stepScoreOn aggregation active
    ∀ score ∈ before.map worth ++ behind.map worth, passes score = true := by
  intro worth
  obtain ⟨rule, foundRule, body⟩ := Option.map_eq_some_iff.mp found
  have member : rule ∈ set.rules := List.mem_of_getElem? foundRule
  rw [← List.map_append, ← body]
  have steady := set.score_within_steady aggregation set.size active
  have rules (number : Nat) :=
    score_within_passes aggregation closed one rated zero set.size number active
  refine List.forall_mem_map.mpr fun step listed => ?_
  exact step_score_passes aggregation closed one steady rules step (rated rule member step listed)

end Ratings

namespace RuleSet

/-- The second set has one call more than the first, in the body of one rule. -/
structure AddsCall (plain grown : RuleSet) (number : Nat) (before : List Step) (target : Proxy)
    (behind : List Step) : Prop where
  plainBody : plain.body? number = some (before ++ behind)
  grownBody : grown.body? number = some (before ++ .proxy target :: behind)
  others : ∀ other, other ≠ number → grown.body? other = plain.body? other

variable {plain grown : RuleSet} {number : Nat} {before behind : List Step} {target : Proxy}
  {active : List Nat}

/-- The call that is reached again puts the score of nothing among those of the other steps. -/
theorem AddsCall.score_on (added : AddsCall plain grown number before target behind)
    (aggregation : Aggregation) (fresh : number ∉ active)
    (reentered : ∀ candidate ∈ target.candidates, candidate ∈ number :: active) :
    let worth := plain.stepScoreOn aggregation (number :: active)
    plain.scoreOn aggregation active number =
        aggregation.evaluate (before.map worth ++ behind.map worth) ∧
      grown.scoreOn aggregation active number =
        aggregation.evaluate (before.map worth ++ aggregation.evaluate [] :: behind.map worth) := by
  intro worth
  have sameWorth : grown.stepScoreOn aggregation (number :: active) = worth :=
    step_score_on_congr fun other outside =>
      added.others other fun same => outside (same ▸ List.mem_cons_self)
  have nothing : worth (.proxy target) = aggregation.evaluate [] := by
    rw [← sameWorth, step_score_on_of_all_active reentered]
  constructor
  · rw [score_on_of_body added.plainBody fresh, List.map_append]
  · rw [score_on_of_body added.grownBody fresh, sameWorth, List.map_append, List.map_cons, nothing]

/-- What a rule makes of a call that is reached again, aggregation by aggregation. -/
theorem reentering_call_scores (added : AddsCall plain grown number before target behind)
    (fresh : number ∉ active)
    (reentered : ∀ candidate ∈ target.candidates, candidate ∈ number :: active) :
    grown.scoreOn .sum active number = plain.scoreOn .sum active number ∧
    (plain.Rated fromZero →
      grown.scoreOn .max active number = plain.scoreOn .max active number ∧
      grown.scoreOn .min active number = 0) ∧
    (plain.Rated unsigned → before ++ behind ≠ [] →
      let worth := plain.stepScoreOn .mean (number :: active)
      let total := Aggregation.total (before.map worth ++ behind.map worth)
      plain.scoreOn .mean active number = total / Float.ofNat (before ++ behind).length ∧
        grown.scoreOn .mean active number =
          total / Float.ofNat ((before ++ behind).length + 1)) := by
  have formula (aggregation : Aggregation) := added.score_on aggregation fresh reentered
  refine ⟨?sum, ?extremes, ?mean⟩
  case sum =>
    obtain ⟨plainScore, grownScore⟩ := formula .sum
    rw [plainScore, grownScore, Aggregation.sum_insert_empty]
  case extremes =>
    intro rated
    have largest := step_scores_pass .max
      (fun _ => Aggregation.extreme_from_zero Aggregation.larger_selects) from_zero_one rated
      from_zero_zero added.plainBody (number :: active)
    have smallest := step_scores_pass .min
      (fun _ => Aggregation.extreme_from_zero Aggregation.smaller_selects) from_zero_one rated
      from_zero_zero added.plainBody (number :: active)
    constructor
    · obtain ⟨plainScore, grownScore⟩ := formula .max
      rw [plainScore, grownScore, Aggregation.max_insert_empty largest]
    · obtain ⟨_, grownScore⟩ := formula .min
      rw [grownScore, Aggregation.min_insert_empty smallest]
  case mean =>
    intro rated nonempty worth total
    have allUnsigned := step_scores_pass .mean (fun _ => Aggregation.unsigned_mean) unsigned_one
      rated unsigned_zero added.plainBody (number :: active)
    obtain ⟨plainScore, grownScore⟩ := formula .mean
    have scored : before.map worth ++ behind.map worth ≠ [] := by simpa using nonempty
    have counted : (before.map worth ++ behind.map worth).length = (before ++ behind).length := by
      simp only [List.length_append, List.length_map]
    constructor
    · rw [plainScore, Aggregation.mean_of_ne_nil scored, counted]
    · rw [grownScore, Aggregation.mean_insert_empty scored allUnsigned, counted]

def task (name : String) : Literal :=
  .atom ⟨name⟩

def ready : Step :=
  .raw (.value (.bool true))

def planning : RuleSet :=
  ⟨[.write (task "plan") [ready, .proxy ⟨task "review", [1]⟩],
    .write (task "review") [.proxy ⟨task "plan", [0]⟩]], .empty⟩

def replanning : RuleSet :=
  ⟨[.write (task "plan") [ready, .proxy ⟨task "plan", [0]⟩, .proxy ⟨task "review", [1]⟩],
    .write (task "review") [.proxy ⟨task "plan", [0]⟩]], .empty⟩

theorem planning_again_scored :
    AddsCall planning replanning 0 [ready] ⟨task "plan", [0]⟩ [.proxy ⟨task "review", [1]⟩] ∧
    planning.Rated fromZero ∧ planning.Rated unsigned ∧
    replanning.scoreOn .sum [] 0 = planning.scoreOn .sum [] 0 ∧
    replanning.scoreOn .max [] 0 = planning.scoreOn .max [] 0 ∧
    replanning.scoreOn .min [] 0 = 0 ∧
    ∃ total, planning.scoreOn .mean [] 0 = total / Float.ofNat 2 ∧
      replanning.scoreOn .mean [] 0 = total / Float.ofNat 3 := by
  have added : AddsCall planning replanning 0 [ready] ⟨task "plan", [0]⟩
      [.proxy ⟨task "review", [1]⟩] := by
    refine ⟨rfl, rfl, fun other differs => ?_⟩
    cases other with
    | zero => exact absurd rfl differs
    | succ other => rfl
  have rated (passes : Float → Bool) : planning.Rated passes := by
    simp [Rated, planning, ready, Rule.write, Step.rated, Step.throughout]
  have fresh : 0 ∉ ([] : List Nat) := List.not_mem_nil
  obtain ⟨sum, extremes, mean⟩ := reentering_call_scores added fresh (by simp)
  obtain ⟨max, min⟩ := extremes (rated fromZero)
  exact ⟨added, rated fromZero, rated unsigned, sum, max, min,
    ⟨_, mean (rated unsigned) (by simp)⟩⟩

/-- A rule of one step falls from 1 to 0 or to a half when it calls itself besides. -/
theorem self_call_lowers_scores :
    ∃ plain grown : RuleSet,
      (Registry.empty.registerAll [.write (task "plan") [ready]]).link = .ok plain ∧
      (Registry.empty.registerAll
        [.write (task "plan") [ready, .call (task "plan")]]).link = .ok grown ∧
      AddsCall plain grown 0 [ready] ⟨task "plan", [0]⟩ [] ∧
      plain.scoreOn .min [] 0 = 1 ∧ grown.scoreOn .min [] 0 = 0 ∧
      plain.scoreOn .mean [] 0 = 1 ∧ grown.scoreOn .mean [] 0 = 0.5 ∧
      (0 : Float) ≠ 1 ∧ (0.5 : Float) ≠ 1 := by
  refine ⟨_, _, rfl, rfl, ⟨rfl, rfl, fun other differs => ?_⟩, ?_⟩
  · cases other with
    | zero => exact absurd rfl differs
    | succ other => rfl
  · decide +kernel

end RuleSet

end Deliberation
