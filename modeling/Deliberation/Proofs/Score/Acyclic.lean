import Deliberation.Proofs.Score.Reentry
import Mathlib.Logic.Relation

/-!
# Scores without the stack

A rule refers to the rules whose scores its own score is made of. Where no rule leads back
to itself, the rules on the stack all lead to the rule that is asked for, so that one is
never among them and nothing is left out, however often rules refer to one and the same
rule. The scores are then those of the recursion from rules to the rules they refer to
which knows of no stack, and that recursion has no other solution.
-/

namespace Deliberation

set_option autoImplicit false

mutual

/-- The rules whose scores the score of a step is made of. Guards are not scored. -/
def Step.references : Step → List Nat
  | .proxy target => target.candidates
  | .rule _ steps => Step.allReferences steps
  | .scripted script =>
      match script.rating with
      | .fixed _ => []
      | .ofRule number => [number]
  | .raw _ | .belief _ _ | .test _ _ | .call _ | .expression _ | .increment _ _ => []

def Step.allReferences : List Step → List Nat
  | [] => []
  | step :: rest => step.references ++ Step.allReferences rest

end

mutual

/-- The score of a step, given the scores of all rules. -/
def Step.worth (aggregation : Aggregation) (score : Nat → Float) : Step → Float
  | .proxy target => aggregation.evaluate (target.candidates.map score)
  | .rule _ steps => aggregation.evaluate (Step.allWorths aggregation score steps)
  | .scripted script =>
      match script.rating with
      | .fixed rated => rated
      | .ofRule number => score number
  | .raw _ | .belief _ _ | .test _ _ | .call _ | .expression _ | .increment _ _ => 1

def Step.allWorths (aggregation : Aggregation) (score : Nat → Float) : List Step → List Float
  | [] => []
  | step :: rest => step.worth aggregation score :: Step.allWorths aggregation score rest

end

theorem Step.mem_all_references_iff (steps : List Step) (next : Nat) :
    next ∈ Step.allReferences steps ↔ ∃ step ∈ steps, next ∈ step.references := by
  induction steps with
  | nil => simp [Step.allReferences]
  | cons step rest ih => simp [Step.allReferences, ih]

theorem Step.all_worths_eq (aggregation : Aggregation) (score : Nat → Float)
    (steps : List Step) :
    Step.allWorths aggregation score steps = steps.map (Step.worth aggregation score) := by
  induction steps with
  | nil => rfl
  | cons step rest ih => rw [Step.allWorths, ih, List.map_cons]

theorem Step.mem_rule_references {identifier : Literal} {steps : List Step} {step : Step}
    {next : Nat} (member : step ∈ steps) (referred : next ∈ step.references) :
    next ∈ (Step.rule identifier steps).references := by
  rw [Step.references, Step.mem_all_references_iff]
  exact ⟨step, member, referred⟩

/-- What a step is worth depends on the rules that it refers to alone. -/
theorem Step.worth_congr (aggregation : Aggregation) {left right : Nat → Float} (step : Step)
    (alike : ∀ next ∈ step.references, left next = right next) :
    step.worth aggregation left = step.worth aggregation right := by
  revert step
  apply InductiveStepProperty.holds
  constructor
  case rule =>
    intro identifier steps each alike
    rw [Step.worth, Step.worth, Step.all_worths_eq, Step.all_worths_eq]
    refine congrArg aggregation.evaluate (List.map_congr_left fun step member => ?_)
    exact each step member fun next referred =>
      alike next (Step.mem_rule_references member referred)
  case proxy =>
    intro target alike
    rw [Step.worth, Step.worth]
    exact congrArg aggregation.evaluate (List.map_congr_left alike)
  case scripted =>
    intro script alike
    rw [Step.references] at alike
    rw [Step.worth, Step.worth]
    cases rating : script.rating with
    | fixed rated => rfl
    | ofRule number =>
        rw [rating] at alike
        exact alike number List.mem_cons_self
  all_goals
    intros
    rw [Step.worth, Step.worth]

namespace RuleSet

variable (set : RuleSet) (aggregation : Aggregation)

/-- The score of a rule, given the scores of all rules: 0 for an unknown number, and the
aggregate of its steps for any other. -/
def worth (score : Nat → Float) (number : Nat) : Float :=
  match set.body? number with
  | none => 0
  | some steps => aggregation.evaluate (steps.map (Step.worth aggregation score))

/-- The scores are those of the recursion that knows of no stack. -/
def ScoresPlainly (score : Nat → Float) : Prop :=
  ∀ number, score number = set.worth aggregation score number

def Refers (number next : Nat) : Prop :=
  ∃ steps, set.body? number = some steps ∧ next ∈ Step.allReferences steps

/-- No rule leads back to itself. -/
def Acyclic : Prop :=
  ∀ number, ¬Relation.TransGen set.Refers number number

open scoped Classical in
/-- The rules that a rule leads to, itself among them. -/
noncomputable def ahead (number : Nat) : Finset Nat :=
  (Finset.range set.size).filter fun next => Relation.ReflTransGen set.Refers number next

variable {set aggregation}

theorem mem_ahead_iff {number next : Nat} :
    next ∈ set.ahead number ↔
      next < set.size ∧ Relation.ReflTransGen set.Refers number next := by
  simp only [ahead, Finset.mem_filter, Finset.mem_range]

theorem Refers.known {number next : Nat} (refers : set.Refers number next) :
    number < set.size := by
  obtain ⟨steps, body, _⟩ := refers
  obtain ⟨rule, found, _⟩ := Option.map_eq_some_iff.mp body
  exact (List.getElem?_eq_some_iff.mp found).1

namespace Acyclic

variable (acyclic : set.Acyclic)

include acyclic

theorem not_back {number next : Nat} (refers : set.Refers number next) :
    ¬Relation.ReflTransGen set.Refers next number :=
  fun back => acyclic number (Relation.TransGen.head' refers back)

theorem ahead_lt {number next : Nat} (refers : set.Refers number next) :
    (set.ahead next).card < (set.ahead number).card := by
  apply Finset.card_lt_card
  rw [Finset.ssubset_iff_of_subset]
  · refine ⟨number, mem_ahead_iff.mpr ⟨refers.known, .refl⟩, fun member => ?_⟩
    exact acyclic.not_back refers (mem_ahead_iff.mp member).2
  · intro other member
    obtain ⟨known, led⟩ := mem_ahead_iff.mp member
    exact mem_ahead_iff.mpr ⟨known, .head refers led⟩

theorem refers_well_founded : WellFounded fun next number => set.Refers number next :=
  Subrelation.wf (fun refers => acyclic.ahead_lt refers)
    (measure fun number => (set.ahead number).card).wf

end Acyclic

/-- A step whose references are off the stack is worth what these are worth. -/
theorem step_score_on_eq_worth {active : List Nat} {score : Nat → Float} (step : Step)
    (reached : ∀ next ∈ step.references,
      next ∉ active ∧ set.scoreOn aggregation active next = score next) :
    set.stepScoreOn aggregation active step = step.worth aggregation score := by
  have steady := set.score_within_steady aggregation set.size active
  revert step
  apply InductiveStepProperty.holds
  constructor
  case rule =>
    intro identifier steps each reached
    rw [stepScoreOn, steady.rule_step, Step.worth, Step.all_worths_eq]
    refine congrArg aggregation.evaluate (List.map_congr_left fun step member => ?_)
    exact each step member fun next referred =>
      reached next (Step.mem_rule_references member referred)
  case proxy =>
    intro target reached
    have nothingSkipped : (target.candidates.filter fun number => number ∉ active) =
        target.candidates :=
      List.filter_eq_self.mpr fun number member => by simpa using (reached number member).1
    rw [stepScoreOn, steady.proxy_step, nothingSkipped, Step.worth]
    refine congrArg aggregation.evaluate (List.map_congr_left fun number member => ?_)
    rw [← score_on_eq]
    exact (reached number member).2
  case scripted =>
    intro script reached
    rw [Step.references] at reached
    rw [stepScoreOn, Step.score, Step.worth]
    cases rating : script.rating with
    | fixed rated => rfl
    | ofRule number =>
        rw [rating] at reached
        dsimp only
        rw [← score_on_eq]
        exact (reached number List.mem_cons_self).2
  all_goals
    intros
    rw [stepScoreOn, Step.score, Step.worth]

/-- The stack is unseen by a rule that leads to none of the rules on it. -/
theorem Acyclic.score_on_eq_worth (acyclic : set.Acyclic) (number : Nat) {active : List Nat}
    (apart : ∀ next, Relation.ReflTransGen set.Refers number next → next ∉ active) :
    set.scoreOn aggregation active number =
      set.worth aggregation (set.scoreOn aggregation []) number := by
  induction number using acyclic.refers_well_founded.induction generalizing active with
  | _ number ih =>
      cases body : set.body? number with
      | none =>
          have missing : set.rule? number = none := Option.map_eq_none_iff.mp body
          rw [score_on_eq, score_within_unknown aggregation missing, worth, body]
      | some steps =>
          rw [score_on_of_body body (apart number .refl), worth, body]
          refine congrArg aggregation.evaluate (List.map_congr_left fun step member => ?_)
          refine step_score_on_eq_worth step fun next referred => ?_
          have refers : set.Refers number next :=
            ⟨steps, body, (Step.mem_all_references_iff steps next).mpr ⟨step, member, referred⟩⟩
          -- What the next rule leads to is off the stack, and no longer leads to this rule.
          have apartNext : ∀ other, Relation.ReflTransGen set.Refers next other →
              other ∉ number :: active := by
            intro other led listed
            rcases List.mem_cons.mp listed with rfl | onStack
            · exact acyclic.not_back refers led
            · exact apart other (.head refers led) onStack
          have apartFromNone : ∀ other, Relation.ReflTransGen set.Refers next other →
              other ∉ ([] : List Nat) := fun _ _ => List.not_mem_nil
          refine ⟨apartNext next .refl, ?_⟩
          rw [ih next refers apartNext, ← ih next refers apartFromNone]

/-- Where no rule leads back to itself, scoring on an empty stack solves the recursion that
knows of no stack, and nothing else solves it. -/
theorem scores_plainly_unless_cyclic (set : RuleSet) (aggregation : Aggregation)
    (acyclic : set.Acyclic) :
    set.ScoresPlainly aggregation (fun number =>
        ((Scorer.fresh set aggregation).scoreRule number).1) ∧
      ∀ score, set.ScoresPlainly aggregation score → ∀ number,
        ((Scorer.fresh set aggregation).scoreRule number).1 = score number := by
  have solved : set.ScoresPlainly aggregation (set.scoreOn aggregation []) :=
    fun number => acyclic.score_on_eq_worth number fun _ _ => List.not_mem_nil
  refine ⟨solved, fun score plain number => ?_⟩
  change set.scoreOn aggregation [] number = score number
  induction number using acyclic.refers_well_founded.induction with
  | _ number ih =>
      rw [solved number, plain number, worth, worth]
      cases body : set.body? number with
      | none => rfl
      | some steps =>
          refine congrArg aggregation.evaluate (List.map_congr_left fun step member => ?_)
          refine Step.worth_congr aggregation step fun next referred => ?_
          exact ih next
            ⟨steps, body, (Step.mem_all_references_iff steps next).mpr ⟨step, member, referred⟩⟩

theorem acyclic_of_ascending (ascending : ∀ number next, set.Refers number next → number < next) :
    set.Acyclic := by
  intro number cycle
  have ascended : ∀ other, Relation.TransGen set.Refers number other → number < other := by
    intro other led
    induction led with
    | single refers => exact ascending _ _ refers
    | tail _ refers ih => exact Nat.lt_trans ih (ascending _ _ refers)
  exact Nat.lt_irrefl number (ascended number cycle)

def settling : Step :=
  .rule (task "settle") [.proxy ⟨task "pay", [3]⟩, .proxy ⟨task "pay", [3, 3, 9]⟩]

/-- Two ways lead from a trip to paying, and a rule that is a step of the trip asks for it
again and again. -/
def chores : List Rule :=
  [.write (task "trip") [.call (task "book"), .call (task "pack"), settling],
    .write (task "book") [.call (task "pay")],
    .write (task "pack") [ready, .call (task "pay")],
    .write (task "pay") [ready, ready]]

def outing : RuleSet :=
  let registry := Registry.empty.registerAll chores
  let steps : List (List Step) :=
    [[.proxy ⟨task "book", [1]⟩, .proxy ⟨task "pack", [2]⟩, settling],
      [.proxy ⟨task "pay", [3]⟩],
      [ready, .proxy ⟨task "pay", [3]⟩],
      [ready, ready]]
  ⟨registry.rules.zipWith (fun rule steps => { rule with steps := steps }) steps, registry.index⟩

theorem outing_scored_plainly :
    (Registry.empty.registerAll chores).link = .ok outing ∧ outing.Acyclic ∧
      outing.ScoresPlainly .sum (fun number =>
        ((Scorer.fresh outing .sum).scoreRule number).1) ∧
      ((Scorer.fresh outing .sum).scoreRule 0).1 = 11 := by
  have acyclic : outing.Acyclic := by
    refine acyclic_of_ascending ?_
    rintro number next ⟨steps, body, listed⟩
    revert next
    match number, body with
    | 0, rfl | 1, rfl | 2, rfl | 3, rfl => decide +kernel
  exact ⟨rfl, acyclic, (scores_plainly_unless_cyclic outing .sum acyclic).1, by decide +kernel⟩

end RuleSet

end Deliberation
