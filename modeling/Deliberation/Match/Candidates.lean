import Deliberation.Belief.Base
import Deliberation.Frame.Basic
import Deliberation.Term.Digest
import Deliberation.Term.Equality

/-!
# Candidates of a goal

Facts of the sign and functor of a goal are compared with it leaf by leaf. A
variable of the goal is offered the leaf that it meets, unless that is an
unbound variable too; the first offer to a name counts. The exact tier wants
equal digests of arguments and annotations and pairs both. The value tier wants
equal digests of the arguments and pairs them, and the last tier wants nothing;
what these two leave is paired approximately, which offers nothing yet. In the
first two tiers a goal without unbound variables has nothing to bind and wants
equal leaves instead.
-/

namespace Deliberation

set_option autoImplicit false

inductive Tier where
  | exact
  | valueExact
  | any
  deriving DecidableEq

/-- The first pair of each name, in the order of the list. -/
def firstOffers : Bindings → Bindings
  | [] => []
  | offer :: rest => offer :: (firstOffers rest).filter fun other => decide (other.1 ≠ offer.1)

def offer? (wanted given : Term) : Option (String × Term) :=
  match wanted.unbound?, given.unbound? with
  | some name, none => some (name, given)
  | _, _ => none

def offers (wanted given : List Term) : Bindings :=
  (wanted.zip given).filterMap fun pair => offer? pair.1 pair.2

/-- Approximate pairing makes no offer. -/
def fuzzyOffers {α : Type} (_wanted _given : List α) : Bindings := []

/-- Raw values are compared through the variables that carry them. -/
def leafAgrees (left right : Term) : Bool :=
  match left.raw?, right.raw? with
  | some leftRaw, some rightRaw => leftRaw.same rightRaw
  | _, _ => left.same right

def leavesAgree : List Term → List Term → Bool
  | [], [] => true
  | left :: leftRest, right :: rightRest =>
      leafAgrees left right && leavesAgree leftRest rightRest
  | _, _ => false

namespace Tier

def all : List Tier := [.exact, .valueExact, .any]

def admits (tier : Tier) (goal fact : Literal) : Bool :=
  match tier with
  | .exact => goal.matchesExact .rotating fact
  | .valueExact => goal.matchesValue .rotating fact
  | .any => true

def bindings (tier : Tier) (goal fact : Literal) : Bindings :=
  match tier with
  | .exact =>
      firstOffers (offers goal.argumentLeaves fact.argumentLeaves ++
        offers goal.annotationLeaves fact.annotationLeaves)
  | .valueExact =>
      firstOffers (offers goal.argumentLeaves fact.argumentLeaves ++
        fuzzyOffers goal.annotations fact.annotations)
  | .any =>
      firstOffers (fuzzyOffers goal.arguments fact.arguments ++
        fuzzyOffers goal.annotations fact.annotations)

/-- Equal leaves count as a match of a ground goal in this tier. -/
def comparesGround : Tier → Bool
  | .exact | .valueExact => true
  | .any => false

def match? (tier : Tier) (goal fact : Literal) : Option Bindings :=
  if tier.admits goal fact then
    let found := tier.bindings goal fact
    if tier.comparesGround && goal.isGround then
      if leavesAgree goal.argumentLeaves fact.argumentLeaves then some found else none
    else if found.isEmpty then none
    else some found
  else none

end Tier

def BeliefBase.matches (base : BeliefBase) (tier : Tier) (goal : Literal) : List Bindings :=
  (base.query goal.negated goal.functor).filterMap (tier.match? goal)

/-- The first of some tiers that finds any binding sets, with all of them. -/
def BeliefBase.firstMatches (base : BeliefBase) (goal : Literal) :
    List Tier → Option (Tier × List Bindings)
  | [] => none
  | tier :: rest =>
      match base.matches tier goal with
      | [] => base.firstMatches goal rest
      | set :: sets => some (tier, set :: sets)

def BeliefBase.candidates (base : BeliefBase) (goal : Literal) : Option (Tier × List Bindings) :=
  base.firstMatches goal Tier.all

def BeliefBase.bindingSets (base : BeliefBase) (goal : Literal) : List Bindings :=
  match base.candidates goal with
  | some (_, sets) => sets
  | none => []

end Deliberation
