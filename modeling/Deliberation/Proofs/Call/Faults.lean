import Deliberation.Proofs.Call.Report
import Deliberation.Proofs.Call.Started
import Deliberation.Proofs.Rule.Linking
import Deliberation.Proofs.Step.Linked

/-!
# Faults of calls

Linking leaves no call waiting in a rule whose calls are steps of its own. From such
rules no run comes to a call that is not linked, however deep, so that a run only
faults by evaluation. The one other fault of a call from outside is that no rule has
its path, and then nothing has been run.
-/

namespace Deliberation

set_option autoImplicit false

def Guarantee.faultsByEvaluation : Guarantee where
  mind := fun _ => True
  fault := fun fault => fault.isEvaluation = true
  answers := fun _ => True
  silence := trivial

theorem Candidate.kept_faults {call : Proxy → Action}
    (calls : ∀ target, FaultsByEvaluation (call target)) {candidate : Candidate}
    (linked : candidate.body.isLinked = true) :
    Guarantee.faultsByEvaluation.KeptBy call candidate := by
  apply Guarantee.kept_by_of_body
  · exact fun mind fault after _ ended =>
      ⟨trivial, step_faults calls candidate.body linked _ fault after ended⟩
  · exact fun mind truth after _ _ => ⟨trivial, trivial⟩

def RuleSet.Linked (set : RuleSet) : Prop :=
  ∀ rule ∈ set.rules, ∀ step ∈ rule.steps, step.isLinked = true

namespace Agent

section Linked

variable {agent : Agent} (linkedSet : agent.set.Linked)

include linkedSet

theorem lineup_linked (call : Literal) (numbers : List Nat) :
    ∀ candidate ∈ agent.lineup call numbers, candidate.body.isLinked = true := by
  intro candidate member
  rw [mem_lineup_iff, mem_candidates_iff] at member
  rw [Candidate.body, Step.isLinked, Step.all_linked_iff]
  exact linkedSet candidate.rule (List.mem_of_getElem? member.2.1)

theorem perform_faults (depth : Nat) (target : Proxy) :
    FaultsByEvaluation (agent.perform depth target) := by
  induction depth generalizing target with
  | zero =>
      intro state fault after ended
      simp [perform] at ended
  | succ depth ih =>
      intro state fault after ended
      obtain ⟨report, reported, delivered⟩ := (agent.perform_some_iff ..).mp ended
      have linked := lineup_linked linkedSet (state.frame.instantiate target.literal)
        target.candidates
      have meets : Guarantee.faultsByEvaluation.Meets report :=
        report_succ_meets
          (fun candidate member => Candidate.kept_faults ih (linked candidate member))
          trivial reported
      exact meets.fault fault (Prod.mk.inj delivered).1

theorem ends_faults {step : Step} (linked : step.isLinked = true) {state after : State}
    {fault : Fault} (ended : agent.Ends step state (.error fault) after) :
    fault.isEvaluation = true := by
  rcases ended with ⟨depth, ended⟩
  exact step_faults (perform_faults linkedSet depth) step linked _ _ _ ended

theorem starts_linked {outer inner : Step × State} (starts : agent.Starts outer inner)
    (linked : outer.1.isLinked = true) : inner.1.isLinked = true := by
  cases starts with
  | trial inTurn =>
      obtain ⟨_, _, _, rfl⟩ := agent.starts_in_item inTurn
      exact linked
  | member inTurn =>
      obtain ⟨step, isMember, _, rfl⟩ := agent.starts_in_item inTurn
      dsimp only at linked
      rw [Step.isLinked, Step.all_linked_iff] at linked
      exact linked step isMember
  | candidate inTurn =>
      obtain ⟨candidate, inLine, _, rfl⟩ := agent.starts_in_item inTurn
      exact lineup_linked linkedSet _ _ candidate inLine

theorem reaches_linked {outer inner : Step × State} (reaches : agent.Reaches outer inner)
    (linked : outer.1.isLinked = true) : inner.1.isLinked = true := by
  induction reaches with
  | refl => exact linked
  | tail _ starts ih => exact starts_linked linkedSet starts ih

end Linked

end Agent

/-- A call that waits for linking is a step of the rule itself: there is none in a guard
or in a rule that is a step. -/
def Rule.Linkable (rule : Rule) : Prop :=
  ∀ step ∈ rule.steps, step.placeholder? = none → step.isLinked = true

instance (rule : Rule) : Decidable rule.Linkable :=
  inferInstanceAs (Decidable (∀ step ∈ rule.steps, step.placeholder? = none → step.isLinked = true))

theorem Rule.Linkable.steps_linked {rule : Rule} (linkable : rule.Linkable)
    (numbers : Path → List Nat) :
    ∀ step ∈ (rule.linked numbers).steps, step.isLinked = true := by
  intro step member
  obtain ⟨written, isStep, rfl⟩ := List.mem_map.mp member
  rw [Step.linked]
  cases call : written.placeholder? with
  | none => exact linkable written isStep call
  | some literal => rfl

namespace Agent

section Built

variable {rules : List Rule} {beliefs : List Literal} {aggregation : Aggregation}
  {policy : Policy} {agent : Agent}
  (built : build (Registry.empty.registerAll rules) beliefs aggregation policy = .ok agent)

include built

theorem built_link : (Registry.empty.registerAll rules).link = .ok agent.set := by
  unfold build at built
  split at built
  next => simp at built
  next set linked =>
    rw [← Except.ok.inj built]
    exact linked

theorem built_set :
    agent.set = ⟨rules.map (Rule.linked (numbersOf rules)),
      (Registry.empty.registerAll rules).index⟩ := by
  rw [(Registry.registered_indexed rules).link_ok (built_link built), Registry.registered_rules]

theorem built_linked (linkable : ∀ rule ∈ rules, rule.Linkable) : agent.set.Linked := by
  intro rule member
  rw [built_set built] at member
  obtain ⟨written, isRule, rfl⟩ := List.mem_map.mp member
  exact (linkable written isRule).steps_linked (numbersOf rules)

theorem built_proxy (literal : Literal) :
    agent.set.proxy literal =
      if numbersOf rules literal.functor = [] then .error ⟨literal⟩
      else .ok ⟨literal, numbersOf rules literal.functor⟩ := by
  have indexed := Registry.registered_indexed rules
  rw [built_set built, RuleSet.proxy, indexed.proxy_for_eq, Registry.registered_rules]

theorem call_unknown {literal : Literal} (unknown : ∀ rule ∈ rules, rule.path ≠ literal.functor)
    (depth : Nat) (state : State) :
    agent.call depth literal state = some (.error (.unknownRule ⟨literal⟩), state) := by
  rw [call, built_proxy built, if_pos ((numbers_of_eq_nil_iff ..).mpr unknown)]

/-- A call whose path some rule has is the call of a proxy. -/
theorem call_known {literal : Literal} (known : ¬∀ rule ∈ rules, rule.path ≠ literal.functor)
    (depth : Nat) (state : State) :
    agent.call depth literal state =
      agent.perform depth ⟨literal, numbersOf rules literal.functor⟩ state := by
  rw [← numbers_of_eq_nil_iff] at known
  rw [call, built_proxy built, if_neg known]

end Built

/-- A call on a built agent faults for want of a rule exactly when no rule was registered
under its path, and leaves everything as it was then. Neither the call nor any run that
it comes to, however deep, meets a call that was not linked. -/
theorem call_faults (rules : List Rule) (linkable : ∀ rule ∈ rules, rule.Linkable)
    (beliefs : List Literal) (aggregation : Aggregation) (policy : Policy) (agent : Agent)
    (built : build (Registry.empty.registerAll rules) beliefs aggregation policy = .ok agent)
    (literal : Literal) (state : State) :
    agent.set.Linked ∧
    ((∀ rule ∈ rules, rule.path ≠ literal.functor) →
      ∀ depth, agent.call depth literal state =
        some (.error (.unknownRule ⟨literal⟩), state)) ∧
    (∀ depth outcome after, agent.call depth literal state = some (outcome, after) →
      ((∃ unknown, outcome = .error (.unknownRule unknown)) ↔
        ∀ rule ∈ rules, rule.path ≠ literal.functor) ∧
      ∀ other, outcome ≠ .error (.unlinked other)) ∧
    ∀ target, agent.set.proxy literal = .ok target →
      ∀ inner entry, agent.Reaches (.proxy target, state) (inner, entry) →
        inner.isLinked = true ∧
          ∀ fault after, agent.Ends inner entry (.error fault) after →
            fault.isEvaluation = true := by
  have linkedSet := built_linked built linkable
  refine ⟨linkedSet, fun unknown depth => call_unknown built unknown depth state, ?_, ?_⟩
  · intro depth outcome after ended
    by_cases unknown : ∀ rule ∈ rules, rule.path ≠ literal.functor
    · rw [call_unknown built unknown] at ended
      obtain ⟨rfl, _⟩ := Prod.mk.inj (Option.some.inj ended)
      exact ⟨⟨fun _ => unknown, fun _ => ⟨_, rfl⟩⟩, by simp⟩
    · rw [call_known built unknown] at ended
      have evaluation : ∀ fault, outcome = .error fault → fault.isEvaluation = true := by
        rintro fault rfl
        exact perform_faults linkedSet depth _ _ _ _ ended
      refine ⟨⟨?_, fun all => absurd all unknown⟩, ?_⟩
      · rintro ⟨missing, isMissing⟩
        exact absurd (evaluation _ isMissing) (by simp [Fault.isEvaluation])
      · intro other isUnlinked
        exact absurd (evaluation _ isUnlinked) (by simp [Fault.isEvaluation])
  · intro target _ inner entry reaches
    have linked := reaches_linked linkedSet reaches rfl
    exact ⟨linked, fun _ _ ended => ends_faults linkedSet linked ended⟩

/-- The rule `plan` calls the rule `count`, which comes after it and queries the stock
with a guard that counts up `N`. -/
def errands : List Rule :=
  [.write (.atom ⟨"plan"⟩) [.call (.atom ⟨"count"⟩)],
    .write (.atom ⟨"count"⟩) [.test (.ofArguments ⟨"stock"⟩ [.variable "X"])
      (some (.rule (.atom ⟨"check"⟩) [.increment .up "N"]))]]

def supplies : List Literal :=
  [.ofArguments ⟨"stock"⟩ [.value (.int 3)]]

def runner : Agent where
  set := ⟨[⟨.atom ⟨"plan"⟩, [.call (.atom ⟨"count"⟩)], [.proxy ⟨.atom ⟨"count"⟩, [1]⟩]⟩,
    .write (.atom ⟨"count"⟩) [.test (.ofArguments ⟨"stock"⟩ [.variable "X"])
      (some (.rule (.atom ⟨"check"⟩) [.increment .up "N"]))]],
    ⟨[(⟨"plan"⟩, [0]), (⟨"count"⟩, [1])]⟩⟩
  aggregation := .sum
  policy := .firstMatch
  beliefs := BeliefBase.empty.addAll supplies

def setOut : State :=
  ⟨.empty, [], runner.start⟩

/-- The guard of the nested call faults because `N` has no value, in the frame of its
trial; a call of `rest` finds no rule. -/
theorem errands_faults :
    (∀ rule ∈ errands, rule.Linkable) ∧
      build (Registry.empty.registerAll errands) supplies .sum .firstMatch = .ok runner ∧
      runner.call 2 (.atom ⟨"plan"⟩) setOut =
        some (.error (.evaluation (.unallocated "N") ⟨[("X", some (.value (.int 3)))]⟩),
          setOut) ∧
      (∀ depth other after, runner.call depth (.atom ⟨"plan"⟩) setOut ≠
        some (.error (.unlinked other), after)) ∧
      runner.call 0 (.atom ⟨"rest"⟩) setOut =
        some (.error (.unknownRule ⟨.atom ⟨"rest"⟩⟩), setOut) := by
  have linkable : ∀ rule ∈ errands, rule.Linkable := by
    decide
  have built :
      build (Registry.empty.registerAll errands) supplies .sum .firstMatch = .ok runner := by
    with_unfolding_all rfl
  have planned := call_faults errands linkable supplies .sum .firstMatch runner built
    (.atom ⟨"plan"⟩) setOut
  have rested := call_faults errands linkable supplies .sum .firstMatch runner built
    (.atom ⟨"rest"⟩) setOut
  refine ⟨linkable, built, ?_, ?_, ?_⟩
  · with_unfolding_all rfl
  · intro depth other after ended
    exact (planned.2.2.1 depth _ after ended).2 other rfl
  · exact rested.2.1 (by decide) 0

end Agent

end Deliberation
