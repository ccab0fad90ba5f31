import Deliberation.Belief.Storage

/-!
# Belief bases

A belief base keeps positive and negative facts in storages of their own, each
fact under its functor. Single elements have no sign and lie with the positive
facts.
-/

namespace Deliberation

set_option autoImplicit false

structure BeliefBase where
  positive : Storage
  negative : Storage

namespace BeliefBase

def empty : BeliefBase := ⟨.empty, .empty⟩

def storage (base : BeliefBase) (negated : Bool) : Storage :=
  if negated then base.negative else base.positive

def withStorage (base : BeliefBase) (negated : Bool) (storage : Storage) : BeliefBase :=
  if negated then { base with negative := storage } else { base with positive := storage }

def add (base : BeliefBase) (fact : Literal) : Bool × BeliefBase :=
  let (added, storage) := (base.storage fact.negated).putMulti fact.functor fact
  (added, base.withStorage fact.negated storage)

def remove (base : BeliefBase) (fact : Literal) : Bool × BeliefBase :=
  let (removed, storage) := (base.storage fact.negated).removeMulti fact.functor fact
  (removed, base.withStorage fact.negated storage)

def addAll (base : BeliefBase) (facts : List Literal) : BeliefBase :=
  facts.foldl (fun current fact => (current.add fact).2) base

def containsLiteral (base : BeliefBase) (fact : Literal) : Bool :=
  (base.storage fact.negated).containsItem fact.functor fact

def contains (base : BeliefBase) (path : Path) : Bool :=
  base.positive.contains path || base.negative.contains path

/-- The facts of one sign under a path, in the order of arrival. -/
def query (base : BeliefBase) (negated : Bool) (path : Path) : List Literal :=
  (base.storage negated).multi path

def putSingle (base : BeliefBase) (path : Path) (term : Term) : Bool × BeliefBase :=
  let (isNew, storage) := base.positive.putSingle path term
  (isNew, { base with positive := storage })

def single? (base : BeliefBase) (path : Path) : Option Term :=
  base.positive.single? path

def removeSingle (base : BeliefBase) (path : Path) : Bool × BeliefBase :=
  let (removed, storage) := base.positive.removeSingle path
  (removed, { base with positive := storage })

def size (base : BeliefBase) : Nat :=
  base.positive.size + base.negative.size

def isEmpty (base : BeliefBase) : Bool :=
  base.positive.isEmpty && base.negative.isEmpty

def clear (base : BeliefBase) : BeliefBase :=
  ⟨base.positive.clear, base.negative.clear⟩

end BeliefBase

end Deliberation
