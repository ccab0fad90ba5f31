import Deliberation.Proofs.Frame.Acyclic
import Deliberation.Proofs.Match.Assignment
import Deliberation.Proofs.Match.ReadBack

/-!
# Queries as substitutions

A query of a plain goal offers raw values to variables that instantiating the goal has
left, and in a frame without cycles these are unallocated. So the winner of a true query
is a substitution: the goal instantiated after the query is the goal instantiated before
it with the values of the winner put in.
-/

namespace Deliberation

set_option autoImplicit false

namespace Agent

/-- A true query binds the set that is selected, and instantiating its goal again puts
the terms of that set in for the variables left the first time, none of which was
allocated. -/
theorem unify_substitutes (agent : Agent) (depth : Nat) (goal : Literal) (guard : Option Step)
    (state after : State) (plainGoal : goal.isPlain = true) (plainFrame : state.frame.Plain)
    (acyclic : state.frame.Acyclic) (plainBeliefs : state.mind.beliefs.Plain)
    (answered : agent.unify depth goal guard state = some (.ok Truth.one, after)) :
    ∃ winner mind,
      agent.Selects guard state.frame
        (state.mind.beliefs.bindingSets (state.frame.instantiate goal)) state.mind
        (.ok (some winner)) mind ∧
      after = ⟨state.frame.commit winner, state.output, mind.recordUnify true⟩ ∧
      (∀ name ∈ (state.frame.instantiate goal).variables, state.frame.value? name = none) ∧
      after.frame.instantiate goal = (state.frame.instantiate goal).substitute winner := by
  obtain ⟨winner, mind, selects, rfl⟩ := agent.unify_true_winner answered
  have unallocated : ∀ name ∈ (state.frame.instantiate goal).variables,
      state.frame.value? name = none :=
    fun name occurs => acyclic.unallocated plainFrame plainGoal occurs
  refine ⟨winner, mind, selects, rfl, unallocated, ?_⟩
  have fills := plainBeliefs.binding_set_fills unallocated selects.winner_mem
  obtain ⟨tier, fact, _, rfl⟩ := BeliefBase.mem_binding_sets selects.winner_mem
  exact acyclic.instantiate_commit plainFrame (tier.bindings_nodup _ fact) fills plainGoal

/-- `X` stands for `Y` and `Z` for `leg(Y)`. -/
def planned : Frame :=
  ⟨[("X", some (.variable "Y")), ("Z", some (.literal (.ofArguments ⟨"leg"⟩ [.variable "Y"])))]⟩

/-- `trip(first, second)[by(third)]`. -/
def trip (first second third : Term) : Literal :=
  (Literal.ofArguments ⟨"trip"⟩ [first, second]).withAnnotations
    [.ofArguments ⟨"by"⟩ [third]]

/-- An agent without rules that believes `trip(3, leg(3))[by("car")]`. -/
def traveller : Agent where
  set := ⟨[], .empty⟩
  aggregation := .sum
  policy := .firstMatch
  beliefs := (BeliefBase.empty.add (trip (.value (.int 3))
    (.literal (.ofArguments ⟨"leg"⟩ [.value (.int 3)])) (.value (.string "car")))).2

theorem planned_slots {name : String} {content : Term}
    (found : planned.value? name = some content) :
    name = "X" ∧ content = .variable "Y" ∨
      name = "Z" ∧ content = .literal (.ofArguments ⟨"leg"⟩ [.variable "Y"]) := by
  have member := Frame.mem_slots_of_value found
  simpa only [planned, List.mem_cons, Prod.mk.injEq, Option.some.injEq, List.not_mem_nil,
    or_false] using member

theorem planned_acyclic : planned.Acyclic := by
  apply Frame.Acyclic.of_rank fun name => if name = "Y" then 0 else 1
  rintro name other ⟨content, found, occurs⟩
  rcases planned_slots found with ⟨rfl, rfl⟩ | ⟨rfl, rfl⟩
  · obtain rfl := List.mem_singleton.mp occurs
    decide
  · obtain rfl := List.mem_singleton.mp occurs
    decide

/-- The three goal variables are one unbound variable twice, once in a nested literal, and
one in the annotation. -/
theorem trip_substituted :
    (trip (.variable "X") (.variable "Z") (.variable "W")).isPlain = true ∧ planned.Plain ∧
      planned.Acyclic ∧ traveller.start.beliefs.Plain ∧
      ∃ after,
        traveller.unify 0 (trip (.variable "X") (.variable "Z") (.variable "W"))
          (some (.raw (.value (.bool true)))) ⟨planned, [], traveller.start⟩ =
            some (.ok Truth.one, after) ∧
        after.frame.instantiate (trip (.variable "X") (.variable "Z") (.variable "W")) =
          (planned.instantiate (trip (.variable "X") (.variable "Z") (.variable "W"))).substitute
            [("Y", .value (.int 3)), ("W", .value (.string "car"))] := by
  have plainFrame : planned.Plain := by
    intro name content found
    rcases planned_slots found with ⟨-, rfl⟩ | ⟨-, rfl⟩
    · rfl
    · rfl
  have plainBeliefs : traveller.start.beliefs.Plain := by
    constructor
    · decide
    · decide
  have sets : traveller.start.beliefs.bindingSets
      (planned.instantiate (trip (.variable "X") (.variable "Z") (.variable "W"))) =
        [[("Y", .value (.int 3)), ("W", .value (.string "car"))]] := by
    cbv
  have answered : ∃ after,
      traveller.unify 0 (trip (.variable "X") (.variable "Z") (.variable "W"))
        (some (.raw (.value (.bool true)))) ⟨planned, [], traveller.start⟩ =
          some (.ok Truth.one, after) := by
    refine ⟨⟨⟨[("W", some (.value (.string "car"))), ("X", some (.variable "Y")),
      ("Y", some (.value (.int 3))),
      ("Z", some (.literal (.ofArguments ⟨"leg"⟩ [.variable "Y"])))]⟩, [],
      traveller.start.recordUnify true⟩, ?_⟩
    cbv
  obtain ⟨after, answered⟩ := answered
  obtain ⟨winner, mind, selects, _, _, same⟩ := unify_substitutes traveller 0
    (trip (.variable "X") (.variable "Z") (.variable "W")) _ _ after (by decide) plainFrame
    planned_acyclic plainBeliefs answered
  have isWinner := selects.winner_mem
  rw [sets, List.mem_singleton] at isWinner
  rw [isWinner] at same
  exact ⟨by decide, plainFrame, planned_acyclic, plainBeliefs, after, answered, same⟩

end Agent

end Deliberation
