import Deliberation.Proofs.Call.Series
import Deliberation.Proofs.Step.Local
import Mathlib.Logic.Relation

/-!
# The runs that a run starts

Three kinds of steps start other runs: a query with a guard its trials, a rule its
members and a call its candidates. A run ends exactly when all the runs that it
starts end, so none of them is left out here.
-/

namespace Deliberation

set_option autoImplicit false

namespace Agent

/-- A run, which is a step and the state that it starts from, starts another. -/
inductive Starts (agent : Agent) : Step × State → Step × State → Prop where
  | trial {goal : Literal} {guard : Step} {state : State} {started : Step × State}
      (inTurn : agent.StartsIn (trials guard state.frame)
        (state.mind.beliefs.bindingSets (state.frame.instantiate goal)) state.mind started) :
      Starts agent (.test goal (some guard), state) started
  | member {identifier : Literal} {steps : List Step} {state : State} {started : Step × State}
      (inTurn : agent.StartsIn members steps (Truth.one, state) started) :
      Starts agent (.rule identifier steps, state) started
  | candidate {target : Proxy} {state : State} {started : Step × State}
      (inTurn : agent.StartsIn (contenders agent.policy)
        (agent.lineup (state.frame.instantiate target.literal) target.candidates) state.mind
        started) :
      Starts agent (.proxy target, state) started

/-- A run is reached from another by starting runs, any number of times. -/
def Reaches (agent : Agent) : Step × State → Step × State → Prop :=
  Relation.ReflTransGen agent.Starts

variable (agent : Agent)

theorem halts_iff (step : Step) (state : State) :
    agent.Halts (step, state) ↔ ∃ depth, (agent.run depth step state).isSome = true := by
  constructor
  · intro halts
    rcases halts with ⟨outcome, after, depth, ended⟩
    exact ⟨depth, Option.isSome_iff_exists.mpr ⟨_, ended⟩⟩
  · intro ends
    rcases ends with ⟨depth, ends⟩
    obtain ⟨ending, ended⟩ := Option.isSome_iff_exists.mp ends
    exact ⟨ending.1, ending.2, depth, ended⟩

theorem query_halts_iff (goal : Literal) (guard : Step) (state : State) :
    agent.Halts (.test goal (some guard), state) ↔
      ∀ started, agent.StartsIn (trials guard state.frame)
        (state.mind.beliefs.bindingSets (state.frame.instantiate goal)) state.mind started →
          agent.Halts started := by
  have ends : ∀ depth, (agent.run depth (.test goal (some guard)) state).isSome =
      (trials guard state.frame).ends (agent.run depth)
        (state.mind.beliefs.bindingSets (state.frame.instantiate goal)) state.mind := by
    intro depth
    rw [← trials_ends, run, Step.run, Deliberation.unify, select]
    change _ = (selectGuarded (guard.run (agent.perform depth)) _ _ _).isSome
    cases selectGuarded (guard.run (agent.perform depth)) state.frame
        (state.mind.beliefs.bindingSets (state.frame.instantiate goal)) state.mind with
    | none => rfl
    | some selected => rcases selected with ⟨_ | _ | _, mind⟩ <;> rfl
  rw [halts_iff, ← series_ends_iff]
  simp only [ends]

theorem body_halts_iff (identifier : Literal) (steps : List Step) (state : State) :
    agent.Halts (.rule identifier steps, state) ↔
      ∀ started, agent.StartsIn members steps (Truth.one, state) started →
        agent.Halts started := by
  have ends : ∀ depth, (agent.run depth (.rule identifier steps) state).isSome =
      members.ends (agent.run depth) steps (Truth.one, state) := by
    intro depth
    rw [run, Step.run]
    exact members_ends (agent.perform depth) steps Truth.one state
  rw [halts_iff, ← series_ends_iff]
  simp only [ends]

theorem call_halts_iff (target : Proxy) (state : State) :
    agent.Halts (.proxy target, state) ↔
      ∀ started, agent.StartsIn (contenders agent.policy)
        (agent.lineup (state.frame.instantiate target.literal) target.candidates) state.mind
        started → agent.Halts started := by
  have ends : ∀ depth, (agent.run (depth + 1) (.proxy target) state).isSome =
      (contenders agent.policy).ends (agent.run depth)
        (agent.lineup (state.frame.instantiate target.literal) target.candidates)
        state.mind := by
    intro depth
    rw [run, Step.run, perform_succ]
    split_ifs with wantsAll
    · rw [wantsAll, runEvery]
      change _ = (contenders .aggregateAll).ends (fun step => step.run (agent.perform depth)) _ _
      rw [← all_ends]
      cases completeAll (agent.perform depth)
          (agent.lineup (state.frame.instantiate target.literal) target.candidates)
          state.mind with
      | none => rfl
      | some ending => rcases ending with ⟨_ | _, mind⟩ <;> rfl
    · exact first_ends (agent.perform depth) wantsAll _ state
  rw [halts_iff, ← series_ends_iff]
  simp only [← ends]
  -- Without any depth no call is answered.
  constructor
  · intro told
    rcases told with ⟨_ | depth, ended⟩
    · simp [run, Step.run, perform] at ended
    · exact ⟨depth, ended⟩
  · intro told
    rcases told with ⟨depth, ended⟩
    exact ⟨depth + 1, ended⟩

theorem leaf_halts_iff {step : Step} {state : State}
    (ends : (agent.run 0 step state).isSome = true)
    (leaf : ∀ started, ¬agent.Starts (step, state) started) :
    agent.Halts (step, state) ↔
      ∀ started, agent.Starts (step, state) started → agent.Halts started := by
  constructor
  · intro _ started starts
    exact absurd starts (leaf started)
  · intro _
    exact (agent.halts_iff step state).mpr ⟨0, ends⟩

theorem unguarded_ends (goal : Literal) (state : State) :
    (Deliberation.unify goal none state).isSome = true := by
  unfold Deliberation.unify select
  dsimp only
  split <;> simp_all

/-- A run ends exactly when all the runs that it starts end. -/
theorem halts_iff_started_halt (step : Step) (state : State) :
    agent.Halts (step, state) ↔
      ∀ started, agent.Starts (step, state) started → agent.Halts started := by
  cases step with
  | raw term =>
      apply agent.leaf_halts_iff
      · exact (Step.raw_local _ term).ends state
      · intro started starts
        cases starts
  | belief change literal =>
      apply agent.leaf_halts_iff rfl
      intro started starts
      cases starts
  | test goal guard =>
      cases guard with
      | none =>
          apply agent.leaf_halts_iff
          · rw [run, Step.run]
            exact unguarded_ends goal state
          · intro started starts
            cases starts
      | some guard =>
          rw [query_halts_iff]
          constructor
          · intro halt started starts
            cases starts with
            | trial inTurn => exact halt started inTurn
          · exact fun halt started inTurn => halt started (.trial inTurn)
  | call literal =>
      apply agent.leaf_halts_iff rfl
      intro started starts
      cases starts
  | expression body =>
      apply agent.leaf_halts_iff
      · exact (Step.expression_local _ body).ends state
      · intro started starts
        cases starts
  | increment direction name =>
      apply agent.leaf_halts_iff
      · exact (Step.increment_local _ direction name).ends state
      · intro started starts
        cases starts
  | rule identifier steps =>
      rw [body_halts_iff]
      constructor
      · intro halt started starts
        cases starts with
        | member inTurn => exact halt started inTurn
      · exact fun halt started inTurn => halt started (.member inTurn)
  | proxy target =>
      rw [call_halts_iff]
      constructor
      · intro halt started starts
        cases starts with
        | candidate inTurn => exact halt started inTurn
      · exact fun halt started inTurn => halt started (.candidate inTurn)
  | scripted script =>
      apply agent.leaf_halts_iff rfl
      intro started starts
      cases starts

end Agent

end Deliberation
