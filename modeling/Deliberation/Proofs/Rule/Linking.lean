import Deliberation.Proofs.Rule.Index
import Mathlib.Data.List.Forall2

/-!
# Linking is complete and exact

Linking goes through the calls of all rules, rule by rule and step by step, and stops
at the first one whose path the index does not have. When there is none, each call has
become a proxy in its place and all else is as it was. Where the index is that of the
registered rules, this tells a link from the rules alone.
-/

namespace Deliberation

set_option autoImplicit false

namespace PathIndex

/-- The index has no entry for the path of the call. -/
def misses (index : PathIndex) (literal : Literal) : Bool :=
  (index.numbers? literal.functor).isNone

end PathIndex

/-- A call becomes a proxy with the numbers of its path; any other step stays. -/
def Step.linked (numbers : Path → List Nat) (step : Step) : Step :=
  match step.placeholder? with
  | some literal => .proxy ⟨literal, numbers literal.functor⟩
  | none => step

def Rule.linked (numbers : Path → List Nat) (rule : Rule) : Rule :=
  { rule with steps := rule.steps.map (Step.linked numbers) }

namespace Registry

variable (index : PathIndex)

theorem link_step_eq (step : Step) :
    linkStep index step =
      match step.placeholder?.filter index.misses with
      | some literal => .error ⟨literal⟩
      | none => .ok (step.linked fun path => (index.numbers? path).getD []) := by
  rw [linkStep, Step.linked]
  cases step.placeholder? with
  | none => rfl
  | some literal =>
      rw [Option.filter_some, PathIndex.misses]
      dsimp only
      rw [PathIndex.proxyFor]
      cases index.numbers? literal.functor <;> rfl

theorem link_steps_eq (steps : List Step) :
    linkSteps index steps =
      match (steps.filterMap Step.placeholder?).find? index.misses with
      | some literal => .error ⟨literal⟩
      | none => .ok (steps.map (Step.linked fun path => (index.numbers? path).getD [])) := by
  induction steps with
  | nil => rfl
  | cons step rest ih =>
      rw [linkSteps, link_step_eq, ih]
      cases placeholder : step.placeholder? with
      | none =>
          rw [List.filterMap_cons_none placeholder]
          dsimp only [Option.filter_none]
          split <;> grind
      | some literal =>
          rw [List.filterMap_cons_some placeholder, List.find?_cons, Option.filter_some]
          cases index.misses literal with
          | true => rfl
          | false =>
              dsimp only [Bool.false_eq_true, if_false]
              split <;> grind

theorem link_rules_eq (rules : List Rule) :
    linkRules index rules =
      match (rules.flatMap Rule.placeholders).find? index.misses with
      | some literal => .error ⟨literal⟩
      | none => .ok (rules.map (Rule.linked fun path => (index.numbers? path).getD [])) := by
  induction rules with
  | nil => rfl
  | cons rule rest ih =>
      rw [linkRules, link_steps_eq, ih, List.flatMap_cons, List.find?_append, Rule.placeholders]
      cases (rule.steps.filterMap Step.placeholder?).find? index.misses with
      | some literal => rfl
      | none =>
          rw [Option.none_or]
          cases (rest.flatMap Rule.placeholders).find? index.misses <;> rfl

theorem Indexed.proxy_for_eq {registry : Registry} (indexed : registry.Indexed)
    (literal : Literal) :
    registry.index.proxyFor literal =
      if numbersOf registry.rules literal.functor = [] then .error ⟨literal⟩
      else .ok ⟨literal, numbersOf registry.rules literal.functor⟩ := by
  rw [PathIndex.proxyFor, indexed]
  split_ifs <;> rfl

theorem Indexed.misses_iff {registry : Registry} (indexed : registry.Indexed)
    (literal : Literal) :
    registry.index.misses literal = true ↔
      ∀ rule ∈ registry.rules, rule.path ≠ literal.functor := by
  rw [PathIndex.misses, indexed, ← numbers_of_eq_nil_iff]
  split_ifs with noNumber
  all_goals simp [noNumber]

/-- The outcome of linking, told from the registered rules alone. -/
theorem Indexed.link_eq {registry : Registry} (indexed : registry.Indexed) :
    registry.link =
      match (registry.rules.flatMap Rule.placeholders).find?
        (fun literal => ∀ rule ∈ registry.rules, rule.path ≠ literal.functor) with
      | some literal => .error ⟨literal⟩
      | none =>
          .ok ⟨registry.rules.map (Rule.linked (numbersOf registry.rules)), registry.index⟩ := by
  have sameNumbers : (fun path => (registry.index.numbers? path).getD []) =
      numbersOf registry.rules := funext indexed.numbers_getD
  have sameMisses : registry.index.misses =
      fun literal => decide (∀ rule ∈ registry.rules, rule.path ≠ literal.functor) := by
    funext literal
    rw [Bool.eq_iff_iff, indexed.misses_iff, decide_eq_true_iff]
  rw [link, link_rules_eq, sameNumbers, sameMisses]
  cases (registry.rules.flatMap Rule.placeholders).find?
    (fun literal => decide (∀ rule ∈ registry.rules, rule.path ≠ literal.functor)) <;> rfl

theorem Indexed.link_ok {registry : Registry} (indexed : registry.Indexed) {set : RuleSet}
    (linked : registry.link = .ok set) :
    set = ⟨registry.rules.map (Rule.linked (numbersOf registry.rules)), registry.index⟩ := by
  rw [indexed.link_eq] at linked
  split at linked
  next => simp at linked
  next => exact (Except.ok.inj linked).symm

end Registry

/-- A rule before and after linking: its calls have become proxies with the numbers of
their paths, in their places, and all else is as it was. -/
structure Rule.LinkedTo (numbers : Path → List Nat) (rule linked : Rule) : Prop where
  identifier : linked.identifier = rule.identifier
  variableNames : linked.variableNames = rule.variableNames
  fingerprint : linked.fingerprint = rule.fingerprint
  count : linked.steps.length = rule.steps.length
  kept : ∀ (place : Nat) (step : Step), rule.steps[place]? = some step →
    step.placeholder? = none → linked.steps[place]? = some step
  called : ∀ (place : Nat) (literal : Literal), rule.steps[place]? = some (.call literal) →
    linked.steps[place]? = some (.proxy ⟨literal, numbers literal.functor⟩)

theorem Rule.linked_to (numbers : Path → List Nat) (rule : Rule) :
    rule.LinkedTo numbers (rule.linked numbers) := by
  have steps : ∀ (place : Nat) (step : Step), rule.steps[place]? = some step →
      (rule.linked numbers).steps[place]? = some (step.linked numbers) := by
    intro place step isThere
    rw [linked, List.getElem?_map, isThere]
    rfl
  constructor
  case identifier | variableNames | fingerprint => rfl
  case count => exact List.length_map _
  case kept =>
    intro place step isThere noCall
    rw [steps place step isThere, Step.linked, noCall]
  case called =>
    intro place literal isThere
    rw [steps place _ isThere]
    rfl

namespace Registry

/-- Linking succeeds exactly when each call in the own steps of a rule names the path of
some rule, and fails otherwise with the first call that does not. What it gives has the
same rules in the same order, with their calls linked, and answers for every path with
the numbers of its rules. -/
theorem link_exact (rules : List Rule) :
    (∀ rule, ((empty.registerAll rules).register rule).1 = rules.length) ∧
    ((∃ set, (empty.registerAll rules).link = .ok set) ↔
      ∀ rule ∈ rules, ∀ literal ∈ rule.placeholders,
        ∃ other ∈ rules, other.path = literal.functor) ∧
    (∀ unknown, (empty.registerAll rules).link = .error unknown ↔
      (rules.flatMap Rule.placeholders).find?
        (fun literal => ∀ rule ∈ rules, rule.path ≠ literal.functor) = some unknown.literal) ∧
    ∀ set, (empty.registerAll rules).link = .ok set →
      List.Forall₂ (Rule.LinkedTo (numbersOf rules)) rules set.rules ∧
      (∀ path, set.candidates path = numbersOf rules path) ∧
      ∀ literal, set.proxy literal =
        if numbersOf rules literal.functor = [] then .error ⟨literal⟩
        else .ok ⟨literal, numbersOf rules literal.functor⟩ := by
  have indexed := registered_indexed rules
  have registered := registered_rules rules
  have outcome := indexed.link_eq
  rw [registered] at outcome
  have resolved : (rules.flatMap Rule.placeholders).find?
      (fun literal => ∀ rule ∈ rules, rule.path ≠ literal.functor) = none ↔
        ∀ rule ∈ rules, ∀ literal ∈ rule.placeholders,
          ∃ other ∈ rules, other.path = literal.functor := by
    simp only [List.find?_eq_none, List.mem_flatMap, decide_eq_true_eq, forall_exists_index,
      and_imp, ne_eq, not_forall, not_not, exists_prop]
    exact ⟨fun all rule member literal calls => all literal rule member calls,
      fun all literal rule member calls => all rule member literal calls⟩
  refine ⟨?_, ?_, ?_, ?_⟩
  · intro rule
    exact congrArg List.length registered
  · rw [outcome, ← resolved]
    split
    next literal first => simp [first]
    next allKnown => simp [allKnown]
  · intro unknown
    rw [outcome]
    split
    next literal first =>
      rcases unknown with ⟨other⟩
      rw [first]
      simp
    next allKnown => simp [allKnown]
  · intro set linked
    obtain rfl := indexed.link_ok linked
    rw [registered]
    refine ⟨?_, ?_, ?_⟩
    · rw [List.forall₂_map_right_iff]
      exact List.forall₂_same.mpr fun rule _ => rule.linked_to (numbersOf rules)
    · intro path
      rw [RuleSet.candidates, indexed.numbers_getD, registered]
    · intro literal
      rw [RuleSet.proxy, indexed.proxy_for_eq, registered]

end Registry

end Deliberation
