import Deliberation.Proofs.Match.Query
import Deliberation.Proofs.Step.Local
import Mathlib.Tactic.SplitIfs

/-!
# Pure steps

A step is pure when no change of belief and no call stands in it, whether linked or waiting
for it, its guards and the rules within it included. Such a step always ends, and in a way
that a frame, an output and a belief base determine: it is all the same who would answer
calls and what has been counted before. The beliefs are handed back as they were.
-/

namespace Deliberation

set_option autoImplicit false

def Step.isPure : Step → Bool :=
  Step.throughout fun step =>
    match step with
    | .belief _ _ => false
    | .call _ => false
    | .proxy _ => false
    | _ => true

/-- From states that differ in their counts at most, both actions end, alike but for the
counts, and with the beliefs that they started with. -/
def EndAlike (action other : Action) : Prop :=
  ∀ frame output beliefs tally otherTally, ∃ outcome last written counted otherCounted,
    action ⟨frame, output, ⟨beliefs, tally⟩⟩ =
      some (outcome, ⟨last, written, ⟨beliefs, counted⟩⟩) ∧
    other ⟨frame, output, ⟨beliefs, otherTally⟩⟩ =
      some (outcome, ⟨last, written, ⟨beliefs, otherCounted⟩⟩)

theorem Local.ends_alike {action other : Action} (isLocal : Local action)
    (same : ∀ state, other state = action state) : EndAlike action other := by
  intro frame output beliefs tally otherTally
  obtain ⟨outcome, last, added, ended⟩ := isLocal frame
  refine ⟨outcome, last, output ++ added, tally, otherTally, ended output _, ?_⟩
  rw [same, ended]

/-- Selections that choose alike, with the beliefs handed back. -/
def SelectAlike (guard otherGuard : Option Action) : Prop :=
  ∀ frame sets beliefs tally otherTally, ∃ choice counted otherCounted,
    select guard frame sets ⟨beliefs, tally⟩ = some (choice, ⟨beliefs, counted⟩) ∧
    select otherGuard frame sets ⟨beliefs, otherTally⟩ = some (choice, ⟨beliefs, otherCounted⟩)

theorem select_unguarded_alike : SelectAlike none none :=
  fun _ sets _ tally otherTally => ⟨.ok sets.head?, tally, otherTally, rfl, rfl⟩

theorem select_guarded_alike {guard otherGuard : Action} (alike : EndAlike guard otherGuard) :
    SelectAlike (some guard) (some otherGuard) := by
  intro frame sets beliefs tally otherTally
  unfold select
  dsimp only
  induction sets generalizing tally otherTally with
  | nil => exact ⟨.ok none, tally, otherTally, rfl, rfl⟩
  | cons set rest ih =>
      obtain ⟨outcome, last, written, counted, otherCounted, ended, otherEnded⟩ :=
        alike (frame.commit set) [] beliefs tally otherTally
      rw [selectGuarded, selectGuarded, ended, otherEnded]
      cases outcome with
      | error fault => exact ⟨.error fault, counted, otherCounted, rfl, rfl⟩
      | ok truth =>
          -- Both trials wrote the same, so they are accepted or refused together.
          dsimp only
          split_ifs
          · exact ⟨.ok (some set), counted, otherCounted, rfl, rfl⟩
          · exact ih counted otherCounted

/-- The binding sets of a query are found in the beliefs, which both have. -/
theorem unify_ends_alike (goal : Literal) {guard otherGuard : Option Action}
    (alike : SelectAlike guard otherGuard) :
    EndAlike (unify goal guard) (unify goal otherGuard) := by
  intro frame output beliefs tally otherTally
  obtain ⟨choice, counted, otherCounted, selected, otherSelected⟩ :=
    alike frame (beliefs.bindingSets (frame.instantiate goal)) beliefs tally otherTally
  simp only [unify_eq_some_iff]
  rcases choice with fault | _ | winner
  · exact ⟨_, _, _, _, _, ⟨_, _, selected, rfl⟩, ⟨_, _, otherSelected, rfl⟩⟩
  · exact ⟨_, _, _, _, _, ⟨_, _, selected, rfl⟩, ⟨_, _, otherSelected, rfl⟩⟩
  · exact ⟨_, _, _, _, _, ⟨_, _, selected, rfl⟩, ⟨_, _, otherSelected, rfl⟩⟩

section Steps

variable (call other : Proxy → Action)

theorem run_all_ends_alike {steps : List Step}
    (alike : ∀ step ∈ steps, EndAlike (step.run call) (step.run other)) (truth : Truth) :
    EndAlike (Step.runAll call steps truth) (Step.runAll other steps truth) := by
  intro frame output beliefs tally otherTally
  induction steps generalizing truth frame output tally otherTally with
  | nil => exact ⟨.ok truth, frame, output, tally, otherTally, rfl, rfl⟩
  | cons step rest ih =>
      obtain ⟨outcome, last, written, counted, otherCounted, ended, otherEnded⟩ :=
        alike step List.mem_cons_self frame output beliefs tally otherTally
      rw [Step.runAll, Step.runAll, ended, otherEnded]
      cases outcome with
      | error fault => exact ⟨.error fault, last, written, counted, otherCounted, rfl, rfl⟩
      | ok next =>
          dsimp only
          split_ifs
          · exact ih (fun other member => alike other (List.mem_cons_of_mem step member)) _ _ _ _ _
          · exact ⟨.ok (truth * next), last, written, counted, otherCounted, rfl, rfl⟩

theorem pure_step_ends_alike (step : Step) (pure : step.isPure = true) :
    EndAlike (step.run call) (step.run other) := by
  revert step
  apply InductiveStepProperty.holds
  constructor
  case raw =>
    intro term _
    exact (Step.raw_local call term).ends_alike fun state => by simp only [Step.run]
  case belief =>
    intro change literal pure
    exact absurd (Step.check_of_throughout pure) (by simp)
  case query =>
    intro goal _ frame output beliefs tally otherTally
    simp only [Step.run]
    exact unify_ends_alike goal select_unguarded_alike frame output beliefs tally otherTally
  case guarded =>
    intro goal guard ih pure frame output beliefs tally otherTally
    simp only [Step.run]
    have alike := select_guarded_alike (ih ((Step.throughout_guarded_iff ..).mp pure).2)
    exact unify_ends_alike goal alike frame output beliefs tally otherTally
  case call =>
    intro literal pure
    exact absurd (Step.check_of_throughout pure) (by simp)
  case expression =>
    intro body _
    exact (Step.expression_local call body).ends_alike fun state => by simp only [Step.run]
  case increment =>
    intro direction name _
    exact (Step.increment_local call direction name).ends_alike fun state => by
      simp only [Step.run]
  case rule =>
    intro identifier steps ih pure frame output beliefs tally otherTally
    simp only [Step.run]
    have members := ((Step.throughout_rule_iff ..).mp pure).2
    have alike : ∀ step ∈ steps, EndAlike (step.run call) (step.run other) :=
      fun step member => ih step member (members step member)
    exact run_all_ends_alike call other alike Truth.one frame output beliefs tally otherTally
  case proxy =>
    intro target pure
    exact absurd (Step.check_of_throughout pure) (by simp)
  case scripted =>
    intro script _
    exact (Step.scripted_local call script).ends_alike fun state => by simp only [Step.run]

end Steps

end Deliberation
