import Deliberation.Proofs.Belief.Refinement

/-!
# Places of facts

The place of a fact is its sign with its functor. A fact that is added or removed changes
what is listed at its own place and nothing at any other one, and no single element.
-/

namespace Deliberation

set_option autoImplicit false

open Ledger

def Literal.place (fact : Literal) : Bool × Path :=
  (fact.negated, fact.functor)

theorem Literal.same_place (left right : Literal) (same : left.same right = true) :
    left.place = right.place :=
  Prod.ext (same_sign left right same) (same_functor left right same)

namespace BeliefBase.Represents

variable {base : BeliefBase} {ledger : Ledger} (represents : base.Represents ledger)

include represents

theorem query_having (negated : Bool) (path : Path) :
    base.query negated path = having Literal.place (negated, path) ledger.facts := by
  rw [represents.query, having]
  refine congrArg (List.filter · ledger.facts) (funext fun fact => ?_)
  rw [Literal.place, decide_eq_decide, Prod.mk.injEq]

theorem query_add (fact : Literal) (negated : Bool) (path : Path) :
    (base.add fact).2.query negated path =
      if fact.place = (negated, path) then enter fact (base.query negated path)
      else base.query negated path := by
  rw [(represents.add fact).2.query_having, represents.query_having,
    having_enter Literal.same_place]

theorem query_remove (fact : Literal) (negated : Bool) (path : Path) :
    (base.remove fact).2.query negated path =
      if fact.place = (negated, path) then strike fact (base.query negated path)
      else base.query negated path := by
  rw [(represents.remove fact).2.query_having, represents.query_having,
    having_strike Literal.same_place]

theorem single_add (fact : Literal) (path : Path) :
    (base.add fact).2.single? path = base.single? path :=
  ((represents.add fact).2.single path).trans (represents.single path).symm

theorem single_remove (fact : Literal) (path : Path) :
    (base.remove fact).2.single? path = base.single? path :=
  ((represents.remove fact).2.single path).trans (represents.single path).symm

/-- A base contains what it lists at the place of the fact. -/
theorem contains_listed (fact : Literal) :
    base.containsLiteral fact = listed fact (base.query fact.negated fact.functor) := by
  rw [represents.contains_literal, represents.query_having, ← Literal.place,
    listed_having Literal.same_place]

end BeliefBase.Represents

namespace BeliefBase

/-- The bases differ at one place at most: all other facts are listed and contained in both
alike, and so are the single elements. -/
structure SameBeside (place : Bool × Path) (before after : BeliefBase) : Prop where
  listed : ∀ negated path, (negated, path) ≠ place →
    after.query negated path = before.query negated path
  contained : ∀ fact : Literal, fact.place ≠ place →
    after.containsLiteral fact = before.containsLiteral fact
  single : ∀ path, after.single? path = before.single? path

theorem SameBeside.refl (place : Bool × Path) (base : BeliefBase) :
    SameBeside place base base :=
  ⟨fun _ _ _ => rfl, fun _ _ => rfl, fun _ => rfl⟩

theorem SameBeside.trans {place : Bool × Path} {before between after : BeliefBase}
    (first : SameBeside place before between) (second : SameBeside place between after) :
    SameBeside place before after where
  listed negated path apart := (second.listed _ _ apart).trans (first.listed negated path apart)
  contained fact apart := (second.contained fact apart).trans (first.contained fact apart)
  single path := (second.single path).trans (first.single path)

/-- The one fact is taken away and the other one is put at the end. -/
def exchange (base : BeliefBase) (old new : Literal) : BeliefBase :=
  ((base.remove old).2.add new).2

namespace Represents

variable {base : BeliefBase} {ledger : Ledger} (represents : base.Represents ledger)
  {old new : Literal} (samePlace : old.place = new.place)

include represents

theorem exchange : ∃ later, (base.exchange old new).Represents later :=
  ⟨_, ((represents.remove old).2.add new).2⟩

include samePlace

theorem exchange_same_beside : SameBeside new.place base (base.exchange old new) := by
  have removed := (represents.remove old).2
  have added := (removed.add new).2
  have listed (negated : Bool) (path : Path) (apart : (negated, path) ≠ new.place) :
      (base.exchange old new).query negated path = base.query negated path := by
    rw [BeliefBase.exchange, removed.query_add, if_neg apart.symm, represents.query_remove,
      samePlace, if_neg apart.symm]
  constructor
  case listed => exact listed
  case contained =>
    intro fact apart
    rw [BeliefBase.exchange, added.contains_listed, represents.contains_listed]
    exact congrArg (Ledger.listed fact) (listed _ _ apart)
  case single =>
    intro path
    rw [BeliefBase.exchange, removed.single_add, represents.single_remove]

/-- What was alone at the place is replaced. -/
theorem exchange_only {only : Literal} (same : old.same only = true)
    (alone : base.query new.negated new.functor = [only]) :
    (base.exchange old new).query new.negated new.functor = [new] := by
  have removed := (represents.remove old).2
  have struck : strike old [only] = [] := List.eraseP_cons_of_pos same
  rw [BeliefBase.exchange, removed.query_add, ← Literal.place, if_pos rfl,
    represents.query_remove, samePlace, ← Literal.place, if_pos rfl, alone, struck]
  rfl

end Represents

end BeliefBase

end Deliberation
