import Deliberation.Proofs.Frame.Acyclic
import Deliberation.Proofs.Match.Candidates

/-!
# Queries assign slots once

In a sound state a query of a plain goal offers raw values to unallocated names
only. What it commits therefore keeps the frame, and so does what a trial of its guard
starts with.
-/

namespace Deliberation

set_option autoImplicit false

theorem Frame.Raw.instantiated_plain {frame : Frame} (raw : frame.Raw) {literal : Literal}
    (plain : literal.isPlain = true) : (frame.instantiate literal).isPlain = true :=
  (raw.plain.resolved []).2 literal plain

/-- A variable that instantiation leaves is not allocated. -/
theorem Frame.Raw.unallocated {frame : Frame} (raw : frame.Raw) {literal : Literal}
    (plain : literal.isPlain = true) {name : String}
    (occurs : name ∈ (frame.instantiate literal).variables) : frame.value? name = none :=
  raw.acyclic.unallocated raw.plain plain occurs

/-- Plain facts offer raw values, and only to variables of the goal. -/
theorem BeliefBase.Plain.tier_bindings_fill {base : BeliefBase} (plain : base.Plain)
    {frame : Frame} {goal fact : Literal}
    (unallocated : ∀ name ∈ goal.variables, frame.value? name = none)
    (isFact : fact ∈ base.query goal.negated goal.functor) (tier : Tier) :
    frame.Fills (tier.bindings goal fact) := by
  intro offer member
  have plainFact := plain.facts fact (BeliefBase.mem_query _ isFact)
  obtain ⟨⟨wanted, given⟩ | ⟨wanted, given⟩, bound⟩ := Tier.mem_bindings member
  · have occurs := free_leaf_mem_variables.2 _ offer.1 wanted
    exact ⟨unallocated offer.1 occurs, Literal.leaf_eq_value plainFact given bound⟩
  · have occurs := Literal.free_leaf_mem_annotation_variables _ offer.1 wanted
    exact ⟨unallocated offer.1 occurs, Literal.annotation_leaf_eq_value plainFact given bound⟩

theorem BeliefBase.Plain.binding_set_fills {base : BeliefBase} (plain : base.Plain)
    {frame : Frame} {goal : Literal}
    (unallocated : ∀ name ∈ goal.variables, frame.value? name = none) {set : Bindings}
    (found : set ∈ base.bindingSets goal) : frame.Fills set := by
  obtain ⟨tier, fact, isFact, rfl⟩ := BeliefBase.mem_binding_sets found
  exact plain.tier_bindings_fill unallocated isFact tier

theorem BeliefBase.Plain.matches_fill {base : BeliefBase} (plain : base.Plain)
    {frame : Frame} {goal : Literal}
    (unallocated : ∀ name ∈ goal.variables, frame.value? name = none) {tier : Tier}
    {set : Bindings} (found : set ∈ base.matches tier goal) : frame.Fills set := by
  obtain ⟨fact, isFact, matched⟩ := (BeliefBase.mem_matches_iff ..).mp found
  rw [Tier.match_set matched]
  exact plain.tier_bindings_fill unallocated isFact tier

/-- What a run leaves of a state: its frame, counters aside, and soundness. -/
structure State.Keeps (counters : List String) (before after : State) : Prop where
  frame : Frame.Kept counters before.frame after.frame
  sound : after.Sound

/-- From sound states, slots are assigned at most once and soundness is kept. -/
def AssignsOnce (counters : List String) (action : Action) : Prop :=
  ∀ state outcome after, state.Sound → action state = some (outcome, after) →
    state.Keeps counters after

namespace State

theorem Keeps.mono {counters more : List String} {before after : State}
    (keeps : before.Keeps counters after) (fewer : ∀ name ∈ counters, name ∈ more) :
    before.Keeps more after :=
  ⟨keeps.frame.mono fewer, keeps.sound⟩

theorem Keeps.trans {first second : List String} {before between after : State}
    (early : before.Keeps first between) (late : between.Keeps second after) :
    before.Keeps (first ++ second) after :=
  ⟨early.frame.trans late.frame, late.sound⟩

variable {state : State} (sound : state.Sound)

include sound

theorem Sound.keeps_same_frame (counters : List String) {after : State}
    (sameFrame : after.frame = state.frame) (plain : after.mind.beliefs.Plain) :
    state.Keeps counters after := by
  refine ⟨?_, ⟨?_, plain⟩⟩
  · rw [sameFrame]
    exact .refl counters state.frame
  · rw [sameFrame]
    exact sound.raw

theorem Sound.fills {goal : Literal} (plain : goal.isPlain = true) {set : Bindings}
    (found : set ∈ state.mind.beliefs.bindingSets (state.frame.instantiate goal)) :
    state.frame.Fills set :=
  sound.plain.binding_set_fills (fun _ occurs => sound.raw.unallocated plain occurs) found

end State

end Deliberation
