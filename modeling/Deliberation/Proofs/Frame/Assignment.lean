import Deliberation.Proofs.Belief.Contents
import Deliberation.Proofs.Frame.Resolving
import Deliberation.Step.State

/-!
# Slots that are assigned once

A frame is kept from one state to another when no slot is lost and no allocated
slot changes, counters aside. A state is sound when its allocated slots hold raw
values and its beliefs are plain. Bindings fill a frame when they give raw values
to unallocated names; committing them keeps the frame and leaves it raw.
-/

namespace Deliberation

set_option autoImplicit false

/-- No fact and no single element has a variable that carries a term. -/
structure BeliefBase.Plain (base : BeliefBase) : Prop where
  facts : ∀ fact ∈ base.facts, fact.isPlain = true
  singles : ∀ single ∈ base.singles, single.2.isPlain = true

theorem BeliefBase.Plain.add {base : BeliefBase} (plain : base.Plain) {fact : Literal}
    (plainFact : fact.isPlain = true) : (base.add fact).2.Plain where
  facts := by
    intro other member
    rcases base.mem_add member with rfl | old
    · exact plainFact
    · exact plain.facts other old
  singles := by
    rw [base.add_singles]
    exact plain.singles

theorem BeliefBase.Plain.remove {base : BeliefBase} (plain : base.Plain) (fact : Literal) :
    (base.remove fact).2.Plain where
  facts := fun other member => plain.facts other (base.mem_remove member)
  singles := by
    rw [base.remove_singles]
    exact plain.singles

structure State.Sound (state : State) : Prop where
  raw : state.frame.Raw
  plain : state.mind.beliefs.Plain

namespace Frame

/-- What has become of the slots of a frame, with some names counted up or down. -/
structure Kept (counters : List String) (before after : Frame) : Prop where
  declared : ∀ name, before.isDeclared name = true → after.isDeclared name = true
  allocated : ∀ name, before.isAllocated name = true → after.isAllocated name = true
  assigned : ∀ name term, name ∉ counters → before.value? name = some term →
    after.value? name = some term

namespace Kept

theorem refl (counters : List String) (frame : Frame) : Kept counters frame frame :=
  ⟨fun _ => id, fun _ => id, fun _ _ _ => id⟩

theorem trans {first second : List String} {before between after : Frame}
    (early : Kept first before between) (late : Kept second between after) :
    Kept (first ++ second) before after where
  declared := fun name isDeclared => late.declared name (early.declared name isDeclared)
  allocated := fun name isAllocated => late.allocated name (early.allocated name isAllocated)
  assigned := by
    intro name term uncounted holds
    rw [List.mem_append, not_or] at uncounted
    exact late.assigned name term uncounted.2 (early.assigned name term uncounted.1 holds)

theorem mono {counters more : List String} {before after : Frame}
    (kept : Kept counters before after) (fewer : ∀ name ∈ counters, name ∈ more) :
    Kept more before after where
  declared := kept.declared
  allocated := kept.allocated
  assigned := fun name term uncounted =>
    kept.assigned name term fun counted => uncounted (fewer name counted)

/-- Names off the counters that were not allocated may have been assigned, and
nothing else may have changed. -/
theorem of_contents {before after : Frame}
    (contents : ∀ name, after.content? name = before.content? name ∨
      before.value? name = none ∧ ∃ term, after.content? name = some (some term)) :
    Kept [] before after where
  declared := by
    intro name isDeclared
    rw [is_declared_eq] at isDeclared ⊢
    rcases contents name with same | ⟨_, term, holds⟩
    · rwa [same]
    · rw [holds]
      rfl
  allocated := by
    intro name isAllocated
    rw [is_allocated_eq] at isAllocated ⊢
    rcases contents name with same | ⟨_, term, holds⟩
    · rwa [value_eq, same, ← value_eq]
    · rw [value_eq, holds]
      rfl
  assigned := by
    intro name term _ holds
    rcases contents name with same | ⟨unallocated, _⟩
    · rwa [value_eq, same, ← value_eq]
    · exact absurd (unallocated.symm.trans holds) (by simp)

end Kept

variable {frame : Frame} {bindings : Bindings}

theorem commit_kept (fresh : ∀ binding ∈ bindings, frame.value? binding.1 = none) :
    Kept [] frame (frame.commit bindings) := by
  refine .of_contents fun name => ?_
  by_cases present : ∃ binding ∈ bindings, binding.1 = name
  · obtain ⟨term, _, holds⟩ := commit_content_present frame bindings name present
    rcases present with ⟨binding, member, rfl⟩
    exact .inr ⟨fresh binding member, term, holds⟩
  · refine .inl (commit_content_absent frame bindings name fun binding member same => ?_)
    exact present ⟨binding, member, same⟩

theorem Raw.commit (raw : frame.Raw)
    (values : ∀ binding ∈ bindings, ∃ content, binding.2 = .value content) :
    (frame.commit bindings).Raw := by
  intro name term holds
  by_cases present : ∃ binding ∈ bindings, binding.1 = name
  · obtain ⟨committed, member, content⟩ := commit_content_present frame bindings name present
    rw [value_eq, content, Option.join_some, Option.some.injEq] at holds
    rw [← holds]
    exact values (name, committed) member
  · have absent : ∀ binding ∈ bindings, binding.1 ≠ name := fun binding member same =>
      present ⟨binding, member, same⟩
    rw [value_eq, commit_content_absent frame bindings name absent, ← value_eq] at holds
    exact raw name term holds

/-- Raw values for names that are not allocated. -/
def Fills (frame : Frame) (bindings : Bindings) : Prop :=
  ∀ binding ∈ bindings,
    frame.value? binding.1 = none ∧ ∃ content, binding.2 = .value content

theorem Fills.commit (raw : frame.Raw) (fills : frame.Fills bindings) :
    Kept [] frame (frame.commit bindings) ∧ (frame.commit bindings).Raw := by
  constructor
  · exact commit_kept fun binding member => (fills binding member).1
  · exact raw.commit fun binding member => (fills binding member).2

theorem Raw.of_slots (values : ∀ slot ∈ frame.slots, ∀ term, slot.2 = some term →
    ∃ content, term = .value content) : frame.Raw := by
  intro name term holds
  exact values (name, some term) (mem_slots_of_value holds) term rfl

end Frame

end Deliberation
