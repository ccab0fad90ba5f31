import Deliberation.Proofs.Call.Answers
import Deliberation.Proofs.Call.Report
import Deliberation.Proofs.Match.Query
import Deliberation.Proofs.Step.Body
import Deliberation.Proofs.Step.Local
import Mathlib.Logic.Relation

/-!
# Beliefs are changed by changes of belief only

What a step may come to run can be read off the rules: the guard of a query, the members of
a body, and every rule that a call has among its candidates. Rules may call each other in
circles. Where no change of belief is found in this way, every run leaves the belief base as
it was, refused guards and candidates included, and also when it faults.
-/

namespace Deliberation

set_option autoImplicit false

namespace RuleSet

/-- A step stands in another, or in a rule that the other may call. -/
inductive Contains (set : RuleSet) : Step → Step → Prop where
  | guard (goal : Literal) (guard : Step) : Contains set (.test goal (some guard)) guard
  | member {steps : List Step} {step : Step} (identifier : Literal) (listed : step ∈ steps) :
      Contains set (.rule identifier steps) step
  | candidate {target : Proxy} {number : Nat} {rule : Rule}
      (listed : number ∈ target.candidates) (known : set.rule? number = some rule) :
      Contains set (.proxy target) (.rule rule.identifier rule.steps)

/-- Any number of such descents, none included. -/
def Involves (set : RuleSet) : Step → Step → Prop :=
  Relation.ReflTransGen set.Contains

def OnlyReads (set : RuleSet) (step : Step) : Prop :=
  ∀ change literal, ¬set.Involves step (.belief change literal)

variable {set : RuleSet}

theorem OnlyReads.part {outer inner : Step} (reads : set.OnlyReads outer)
    (contains : set.Contains outer inner) : set.OnlyReads inner := by
  intro change literal involves
  exact reads change literal (.head contains involves)

end RuleSet

section Check

variable {set : RuleSet} {allowed : List Nat}

/-- Whether a step changes no beliefs itself and calls only rules with these numbers. -/
def Step.readsWithin (allowed : List Nat) : Step → Bool :=
  Step.throughout fun step =>
    match step with
    | .belief _ _ => false
    | .proxy target => target.candidates.all fun number => allowed.contains number
    | _ => true

/-- The rules with these numbers do likewise, so that no call leads out of them. -/
def RuleSet.ReadsWithin (set : RuleSet) (allowed : List Nat) : Prop :=
  ∀ number ∈ allowed, ∀ rule ∈ set.rule? number, ∀ step ∈ rule.steps,
    step.readsWithin allowed = true

instance (set : RuleSet) (allowed : List Nat) : Decidable (set.ReadsWithin allowed) :=
  inferInstanceAs (Decidable (∀ number ∈ allowed, ∀ rule ∈ set.rule? number,
    ∀ step ∈ rule.steps, step.readsWithin allowed = true))

theorem RuleSet.ReadsWithin.part (closed : set.ReadsWithin allowed) {outer inner : Step}
    (contains : set.Contains outer inner) (reads : outer.readsWithin allowed = true) :
    inner.readsWithin allowed = true := by
  cases contains with
  | guard goal guard => exact ((Step.throughout_guarded_iff ..).mp reads).2
  | member identifier listed => exact ((Step.throughout_rule_iff ..).mp reads).2 _ listed
  | @candidate target number rule listed known =>
      have within : allowed.contains number = true :=
        List.all_eq_true.mp (Step.check_of_throughout reads) number listed
      apply (Step.throughout_rule_iff ..).mpr
      exact ⟨rfl, closed number (List.contains_iff_mem.mp within) rule known⟩

/-- A finite check of what may be called shows that nothing is changed by it. -/
theorem RuleSet.ReadsWithin.only_reads (closed : set.ReadsWithin allowed) {step : Step}
    (reads : step.readsWithin allowed = true) : set.OnlyReads step := by
  have passes : ∀ inner, set.Involves step inner → inner.readsWithin allowed = true := by
    intro inner involves
    induction involves with
    | refl => exact reads
    | tail _ contains ih => exact closed.part contains ih
  intro change literal involves
  exact absurd (Step.check_of_throughout (passes _ involves)) (by simp)

end Check

def KeepsBeliefs (action : Action) : Prop :=
  ∀ state outcome after, action state = some (outcome, after) →
    after.mind.beliefs = state.mind.beliefs

theorem Local.keeps_beliefs {action : Action} (isLocal : Local action) :
    KeepsBeliefs action := by
  intro state outcome after ended
  obtain ⟨_, last, added, always⟩ := isLocal state.frame
  have sameEnd := (always state.output state.mind).symm.trans ended
  obtain ⟨_, rfl⟩ := Prod.mk.inj (Option.some.inj sameEnd)
  rfl

/-- A query hands its mind through its trials, and then only counts itself. -/
theorem unify_keeps_beliefs {goal : Literal} {guard : Option Action}
    (guarded : ∀ action ∈ guard, KeepsBeliefs action) : KeepsBeliefs (unify goal guard) := by
  intro state outcome after ended
  obtain ⟨choice, mind, selected, answered⟩ := (unify_eq_some_iff ..).mp ended
  have left : mind.beliefs = state.mind.beliefs := by
    cases guard with
    | none =>
        obtain ⟨_, rfl⟩ := Prod.mk.inj (Option.some.inj selected)
        rfl
    | some action =>
        have chosen := (select_guarded_iff ..).mp selected
        apply chosen.invariant (fun mind => mind.beliefs = state.mind.beliefs)
        · intro set _ mind outcome after same trial
          exact (guarded action rfl _ outcome after trial).trans same
        · rfl
  have handed := state.answered_beliefs choice mind
  rw [answered] at handed
  exact handed.trans left

section Steps

variable {call : Proxy → Action}

theorem run_all_keeps_beliefs {steps : List Step}
    (keeps : ∀ step ∈ steps, KeepsBeliefs (step.run call)) (truth : Truth) :
    KeepsBeliefs (Step.runAll call steps truth) := by
  intro state outcome after ended
  induction steps generalizing truth state with
  | nil =>
      obtain ⟨_, rfl⟩ := (Step.run_all_nil ..).mp ended
      rfl
  | cons step rest ih =>
      have head := keeps step List.mem_cons_self
      rcases (Step.run_all_cons ..).mp ended with ⟨_, found, _⟩ | ⟨_, found, _, _⟩ |
        ⟨_, between, found, _, ended⟩
      · exact head _ _ _ found
      · exact head _ _ _ found
      · have later := ih (fun other member => keeps other (List.mem_cons_of_mem step member)) _
          between ended
        exact later.trans (head _ _ _ found)

/-- A step that only reads keeps the beliefs if such calls do. -/
theorem step_keeps_beliefs {set : RuleSet}
    (calls : ∀ target, set.OnlyReads (.proxy target) → KeepsBeliefs (call target)) (step : Step)
    (reads : set.OnlyReads step) : KeepsBeliefs (step.run call) := by
  revert step
  apply InductiveStepProperty.holds
  constructor
  case raw => exact fun term _ => (Step.raw_local call term).keeps_beliefs
  case belief =>
    intro change literal reads
    exact absurd .refl (reads change literal)
  case query =>
    intro goal _ state outcome after ended
    rw [Step.run] at ended
    exact unify_keeps_beliefs (by simp) state outcome after ended
  case guarded =>
    intro goal guard ih reads state outcome after ended
    rw [Step.run] at ended
    have guarded : ∀ action ∈ some (guard.run call), KeepsBeliefs action := by
      intro action isGuard
      rw [← Option.some.inj isGuard]
      exact ih (reads.part (.guard goal guard))
    exact unify_keeps_beliefs guarded state outcome after ended
  case call =>
    intro literal _ state outcome after ended
    rw [Step.run] at ended
    obtain ⟨_, rfl⟩ := Prod.mk.inj (Option.some.inj ended)
    rfl
  case expression => exact fun body _ => (Step.expression_local call body).keeps_beliefs
  case increment =>
    exact fun direction name _ => (Step.increment_local call direction name).keeps_beliefs
  case rule =>
    intro identifier steps ih reads state outcome after ended
    rw [Step.run] at ended
    have keeps : ∀ step ∈ steps, KeepsBeliefs (step.run call) :=
      fun step listed => ih step listed (reads.part (.member identifier listed))
    exact run_all_keeps_beliefs keeps Truth.one state outcome after ended
  case proxy =>
    intro target reads state outcome after ended
    rw [Step.run] at ended
    exact calls target reads state outcome after ended
  case scripted => exact fun script _ => (Step.scripted_local call script).keeps_beliefs

end Steps

def BeliefBase.unchanged (base : BeliefBase) : Guarantee where
  mind := fun mind => mind.beliefs = base
  fault := fun _ => True
  answers := fun _ => True
  silence := trivial

theorem Candidate.kept_unchanged {call : Proxy → Action} {candidate : Candidate}
    (keeps : KeepsBeliefs (candidate.body.run call)) (base : BeliefBase) :
    base.unchanged.KeptBy call candidate := by
  apply Guarantee.kept_by_of_body
  · intro mind fault after same ended
    exact ⟨(keeps _ _ _ ended).trans same, trivial⟩
  · intro mind truth after same ended
    exact ⟨(keeps _ _ _ ended).trans same, trivial⟩

namespace Agent

variable (agent : Agent)

theorem lineup_only_reads {target : Proxy} (reads : agent.set.OnlyReads (.proxy target))
    (call : Literal) :
    ∀ candidate ∈ agent.lineup call target.candidates, agent.set.OnlyReads candidate.body := by
  intro candidate inLine
  rw [mem_lineup_iff, mem_candidates_iff] at inLine
  exact reads.part (.candidate inLine.1 inLine.2.1)

/-- The induction is on the nesting that a call is granted: its candidates call with one
less, and only rules that the call itself may come to. -/
theorem perform_keeps_beliefs (depth : Nat) (target : Proxy)
    (reads : agent.set.OnlyReads (.proxy target)) :
    KeepsBeliefs (agent.perform depth target) := by
  induction depth generalizing target with
  | zero =>
      intro state outcome after ended
      simp [perform] at ended
  | succ depth ih =>
      intro state outcome after ended
      obtain ⟨report, reported, delivered⟩ := (agent.perform_some_iff ..).mp ended
      obtain ⟨_, rfl⟩ := Prod.mk.inj delivered
      have kept : ∀ candidate ∈
          agent.lineup (state.frame.instantiate target.literal) target.candidates,
          state.mind.beliefs.unchanged.KeptBy (agent.perform depth) candidate := by
        intro candidate inLine
        have body := agent.lineup_only_reads reads _ candidate inLine
        exact Candidate.kept_unchanged (step_keeps_beliefs ih candidate.body body) _
      have meets : state.mind.beliefs.unchanged.Meets report := report_succ_meets kept rfl reported
      exact meets.mind

/-- If no change of belief stands in a step, in its guards, in rules within it or in a rule
that calls among these may come to, then the step leaves the belief base exactly as it was,
from every state and under every policy, whether it ends true, false or in a fault. -/
theorem beliefs_untouched (step : Step)
    (reads : ∀ change literal, ¬agent.set.Involves step (.belief change literal))
    (state after : State) (outcome : Outcome) (ended : agent.Ends step state outcome after) :
    after.mind.beliefs = state.mind.beliefs := by
  rcases ended with ⟨depth, ended⟩
  have calls : ∀ target, agent.set.OnlyReads (.proxy target) →
      KeepsBeliefs (agent.perform depth target) :=
    fun target reads => agent.perform_keeps_beliefs depth target reads
  exact step_keeps_beliefs calls step reads state outcome after ended

/-- `path(number)`, of a rule or of a call. -/
def numeral (path : String) (number : Int64) : Literal :=
  .ofArguments ⟨path⟩ [.value (.int number)]

/-- Odd numbers and even ones lead to each other, down to 1; `clear` takes 3 from the stock. -/
def reckoner : Agent where
  set := ⟨[.write (numeral "odd" 3) [.proxy ⟨numeral "even" 2, [1]⟩],
      .write (numeral "even" 2)
        [.rule (.atom ⟨"less"⟩) [.proxy ⟨numeral "odd" 1, [0, 2]⟩]],
      .write (numeral "odd" 1) [.raw (.value (.bool true))],
      .write (.atom ⟨"clear"⟩) [.belief .remove (stock (.value (.int 3)))]],
    ⟨[(⟨"odd"⟩, [0, 2]), (⟨"even"⟩, [1]), (⟨"clear"⟩, [3])]⟩⟩
  aggregation := .sum
  policy := .firstMatch
  beliefs := (BeliefBase.empty.add (stock (.value (.int 3)))).2

/-- Asks for an odd number in stock. -/
def oddStock : Step :=
  .test (stock (.variable "X")) (some (.proxy ⟨.ofArguments ⟨"odd"⟩ [.variable "X"], [0, 2]⟩))

def looking : State :=
  ⟨.withVariables ["X"], [], reckoner.start⟩

def looked : State :=
  ⟨⟨[("X", some (.value (.int 3)))]⟩, [], ⟨reckoner.beliefs, ⟨1, 1, 3⟩⟩⟩

/-- The guard goes through the rules 0, 1 and 2. The rule 3 is out of its reach, though the
agent has it and it does change beliefs. -/
theorem odd_stock_untouched :
    (∀ change literal, ¬reckoner.set.Involves oddStock (.belief change literal)) ∧
      reckoner.Ends oddStock looking (.ok Truth.one) looked ∧
      looked.mind.beliefs = looking.mind.beliefs ∧
      reckoner.set.Involves (.proxy ⟨.atom ⟨"clear"⟩, [3]⟩)
        (.belief .remove (stock (.value (.int 3)))) := by
  have closed : reckoner.set.ReadsWithin [0, 1, 2] := by decide
  have reads : reckoner.set.OnlyReads oddStock := closed.only_reads (by decide)
  have ended : reckoner.Ends oddStock looking (.ok Truth.one) looked := by
    refine ⟨3, ?_⟩
    cbv
  have cleared : reckoner.set.Involves (.proxy ⟨.atom ⟨"clear"⟩, [3]⟩)
      (.belief .remove (stock (.value (.int 3)))) := by
    apply Relation.ReflTransGen.head (.candidate List.mem_cons_self rfl)
    exact .single (.member _ List.mem_cons_self)
  exact ⟨reads, ended, reckoner.beliefs_untouched oddStock reads looking looked _ ended, cleared⟩

end Agent

end Deliberation
