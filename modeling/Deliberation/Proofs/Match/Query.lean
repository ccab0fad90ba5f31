import Deliberation.Proofs.Call.Depth

/-!
# Queries of an agent

A query finds its binding sets before any guard runs, selects one of them, and
binds that one set in the frame that it started from. Nothing else of the trials
reaches the frame or the output; their minds are handed on from one to the next.
-/

namespace Deliberation

set_option autoImplicit false

/-- A mind whose one belief is a given literal. -/
def Mind.believing (fact : Literal) (tally : Tally) : Mind :=
  ⟨(BeliefBase.empty.add fact).2, tally⟩

/-- How a query ends once a set is chosen, with the mind that the trials left. -/
def State.answered (state : State) : Except Fault (Option Bindings) → Mind → Outcome × State
  | .error fault, mind => (.error fault, { state with mind := mind })
  | .ok none, mind => (.ok Truth.zero, { state with mind := mind.recordUnify false })
  | .ok (some set), mind =>
      (.ok Truth.one,
        { state with frame := state.frame.commit set, mind := mind.recordUnify true })

theorem State.answered_beliefs (state : State) (choice : Except Fault (Option Bindings))
    (mind : Mind) : (state.answered choice mind).2.mind.beliefs = mind.beliefs := by
  rcases choice with fault | _ | winner <;> rfl

theorem unify_eq_some_iff (goal : Literal) (guard : Option Action) (state after : State)
    (outcome : Outcome) :
    unify goal guard state = some (outcome, after) ↔
      ∃ choice mind,
        select guard state.frame (state.mind.beliefs.bindingSets (state.frame.instantiate goal))
          state.mind = some (choice, mind) ∧
        state.answered choice mind = (outcome, after) := by
  rw [unify]
  cases select guard state.frame
      (state.mind.beliefs.bindingSets (state.frame.instantiate goal)) state.mind with
  | none => simp
  | some selected =>
      rcases selected with ⟨choice, mind⟩
      cases choice with
      | error fault => grind [State.answered]
      | ok winner => cases winner <;> grind [State.answered]

/-- Without a guard a query is true exactly when its goal has a binding set. -/
theorem unguarded_answer (goal : Literal) (state : State) :
    ∃ after, unify goal none state =
      some (.ok (Truth.ofBool
        !(state.mind.beliefs.bindingSets (state.frame.instantiate goal)).isEmpty), after) := by
  rw [unify]
  cases state.mind.beliefs.bindingSets (state.frame.instantiate goal) with
  | nil => exact ⟨_, rfl⟩
  | cons set rest => exact ⟨_, rfl⟩

theorem unguarded_true_iff (goal : Literal) (state : State) :
    (∃ after, unify goal none state = some (.ok Truth.one, after)) ↔
      state.mind.beliefs.bindingSets (state.frame.instantiate goal) ≠ [] := by
  obtain ⟨after, answered⟩ := unguarded_answer goal state
  rw [answered]
  cases state.mind.beliefs.bindingSets (state.frame.instantiate goal) with
  | nil => simp [Truth.one, Truth.ofBool]
  | cons set rest => simp [Truth.one, Truth.ofBool]

namespace Agent

variable (agent : Agent)

/-- Finitely many trials need one depth of calls only, the greatest of theirs. -/
theorem refuses_at_depth {guard : Step} {frame : Frame} {sets : List Bindings}
    {mind last : Mind} (refused : Refuses (agent.Ends guard) frame sets mind last) :
    ∃ depth, Refuses (endsOf (agent.run depth guard)) frame sets mind last := by
  induction refused with
  | nothing mind => exact ⟨0, .nothing mind⟩
  | next ended refused _ ih =>
      rcases ended with ⟨headDepth, head⟩
      rcases ih with ⟨restDepth, rest⟩
      have headDeep := agent.run_extends (Nat.le_max_left headDepth restDepth) guard _ _ head
      have restDeep := agent.run_extends (Nat.le_max_right headDepth restDepth) guard
      exact ⟨_, .next headDeep refused (rest.mono fun _ _ _ => restDeep _ _)⟩

theorem chooses_at_depth {guard : Step} {frame : Frame} {sets : List Bindings}
    {mind last : Mind} {choice : Except Fault (Option Bindings)}
    (chosen : Chooses (agent.Ends guard) frame sets mind choice last) :
    ∃ depth, Chooses (endsOf (agent.run depth guard)) frame sets mind choice last := by
  cases chosen with
  | winner refused ended accepted =>
      obtain ⟨passedDepth, passed⟩ := agent.refuses_at_depth refused
      rcases ended with ⟨lastDepth, last⟩
      have passedDeep := agent.run_extends (Nat.le_max_left passedDepth lastDepth) guard
      have lastDeep := agent.run_extends (Nat.le_max_right passedDepth lastDepth) guard _ _ last
      exact ⟨_, .winner (passed.mono fun _ _ _ => passedDeep _ _) lastDeep accepted⟩
  | faulted refused ended =>
      obtain ⟨passedDepth, passed⟩ := agent.refuses_at_depth refused
      rcases ended with ⟨lastDepth, last⟩
      have passedDeep := agent.run_extends (Nat.le_max_left passedDepth lastDepth) guard
      have lastDeep := agent.run_extends (Nat.le_max_right passedDepth lastDepth) guard _ _ last
      exact ⟨_, .faulted (passed.mono fun _ _ _ => passedDeep _ _) lastDeep⟩
  | exhausted refused =>
      obtain ⟨depth, passed⟩ := agent.refuses_at_depth refused
      exact ⟨depth, .exhausted passed⟩

/-- The choice that an agent makes among binding sets: the first set without a
guard, and with one what its trials come to. -/
def Selects (guard : Option Step) (frame : Frame) (sets : List Bindings) (mind : Mind)
    (choice : Except Fault (Option Bindings)) (last : Mind) : Prop :=
  match guard with
  | none => choice = .ok sets.head? ∧ last = mind
  | some guard => Chooses (agent.Ends guard) frame sets mind choice last

variable {agent} in
theorem Selects.winner_mem {guard : Option Step} {frame : Frame} {sets : List Bindings}
    {mind last : Mind} {winner : Bindings}
    (selected : agent.Selects guard frame sets mind (.ok (some winner)) last) :
    winner ∈ sets := by
  cases guard with
  | none => exact List.mem_of_head? (Except.ok.inj selected.1).symm
  | some guard => exact Chooses.winner_mem selected

theorem selects_iff (guard : Option Step) (frame : Frame) (sets : List Bindings)
    (mind last : Mind) (choice : Except Fault (Option Bindings)) :
    agent.Selects guard frame sets mind choice last ↔
      ∃ depth, select (guard.map (agent.run depth)) frame sets mind = some (choice, last) := by
  cases guard with
  | none => simp [Selects, select, eq_comm]
  | some guard =>
      simp only [Selects, Option.map_some, select, select_guarded_iff]
      constructor
      · exact agent.chooses_at_depth
      · intro told
        rcases told with ⟨depth, chosen⟩
        exact chosen.mono fun state outcome after ended => ⟨depth, ended⟩

/-- A true query ends with the set that is selected bound in its frame. -/
theorem unify_true_winner {depth : Nat} {goal : Literal} {guard : Option Step}
    {state after : State}
    (answered : agent.unify depth goal guard state = some (.ok Truth.one, after)) :
    ∃ winner mind,
      agent.Selects guard state.frame
        (state.mind.beliefs.bindingSets (state.frame.instantiate goal)) state.mind
        (.ok (some winner)) mind ∧
      after = ⟨state.frame.commit winner, state.output, mind.recordUnify true⟩ := by
  obtain ⟨choice, mind, selected, answers⟩ := (unify_eq_some_iff ..).mp answered
  have selects := (agent.selects_iff ..).mpr ⟨depth, selected⟩
  rcases choice with fault | _ | winner
  · simp [State.answered] at answers
  · simp [State.answered, Truth.one, Truth.zero, Truth.ofBool] at answers
  · exact ⟨winner, mind, selects, (Prod.mk.inj answers).2.symm⟩

end Agent

end Deliberation
