import Deliberation.PathIndex
import Deliberation.Step.Basic

/-!
# Rules and rule sets

A rule has an identifier, which is the head that calls are matched with, and
steps. Rules are registered one after another and numbered in that order, and an
index keeps their numbers by path. Linking replaces every call among the own
steps of a rule by a proxy for the rules registered under its path, earlier or
later ones; it does not look into guards or into rules that are steps. The steps
as they were written are kept beside the linked ones.
-/

namespace Deliberation

set_option autoImplicit false

structure Rule where
  identifier : Literal
  written : List Step
  steps : List Step

namespace Rule

def write (identifier : Literal) (steps : List Step) : Rule :=
  ⟨identifier, steps, steps⟩

def path (rule : Rule) : Path :=
  rule.identifier.functor

/-- The variables of the identifier, which a run of the rule declares. -/
def variableNames (rule : Rule) : List String :=
  rule.identifier.variableNames

def placeholders (rule : Rule) : List Literal :=
  rule.steps.filterMap Step.placeholder?

/-- A rule as a step, with the steps as they were written. -/
def fingerprint (rule : Rule) : Step :=
  .rule rule.identifier rule.written

def text (rule : Rule) : String :=
  if rule.steps.isEmpty then rule.identifier.text
  else rule.identifier.text ++ " <- " ++ toString rule.steps.length ++ " steps"

end Rule

/-- A call to a path under which no rule is registered. -/
structure UnknownRule where
  literal : Literal

namespace UnknownRule

def path (unknown : UnknownRule) : Path :=
  unknown.literal.functor

def message (unknown : UnknownRule) : String :=
  "unknown rule `" ++ unknown.path.text ++ "` referenced by `" ++ unknown.literal.text ++ "`"

end UnknownRule

/-- A call becomes a proxy for the rules whose numbers are under its path. -/
def PathIndex.proxyFor (index : PathIndex) (literal : Literal) : Except UnknownRule Proxy :=
  match index.numbers? literal.functor with
  | some numbers => .ok ⟨literal, numbers⟩
  | none => .error ⟨literal⟩

/-- Linked rules; the number of a rule is its place. -/
structure RuleSet where
  rules : List Rule
  index : PathIndex

namespace RuleSet

def rule? (set : RuleSet) (number : Nat) : Option Rule :=
  set.rules[number]?

def size (set : RuleSet) : Nat :=
  set.rules.length

def candidates (set : RuleSet) (path : Path) : List Nat :=
  (set.index.numbers? path).getD []

def proxy (set : RuleSet) (literal : Literal) : Except UnknownRule Proxy :=
  set.index.proxyFor literal

end RuleSet

/-- Rules that are not linked yet, in the order of registration. -/
structure Registry where
  rules : List Rule
  index : PathIndex

namespace Registry

def empty : Registry := ⟨[], .empty⟩

def size (registry : Registry) : Nat :=
  registry.rules.length

/-- Gives the rule the next number. -/
def register (registry : Registry) (rule : Rule) : Nat × Registry :=
  (registry.size,
    ⟨registry.rules ++ [rule], registry.index.push rule.path registry.size⟩)

def registerAll (registry : Registry) (rules : List Rule) : Registry :=
  rules.foldl (fun registry rule => (registry.register rule).2) registry

def linkStep (index : PathIndex) (step : Step) : Except UnknownRule Step :=
  match step.placeholder? with
  | some literal => (index.proxyFor literal).map .proxy
  | none => .ok step

def linkSteps (index : PathIndex) : List Step → Except UnknownRule (List Step)
  | [] => .ok []
  | step :: rest =>
      match linkStep index step with
      | .error unknown => .error unknown
      | .ok linked =>
          match linkSteps index rest with
          | .error unknown => .error unknown
          | .ok others => .ok (linked :: others)

def linkRules (index : PathIndex) : List Rule → Except UnknownRule (List Rule)
  | [] => .ok []
  | rule :: rest =>
      match linkSteps index rule.steps with
      | .error unknown => .error unknown
      | .ok steps =>
          match linkRules index rest with
          | .error unknown => .error unknown
          | .ok others => .ok ({ rule with steps := steps } :: others)

/-- The first call in registration order and step order that finds no rule
fails the whole registry. -/
def link (registry : Registry) : Except UnknownRule RuleSet :=
  match linkRules registry.index registry.rules with
  | .error unknown => .error unknown
  | .ok rules => .ok ⟨rules, registry.index⟩

end Registry

end Deliberation
