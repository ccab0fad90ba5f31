import Deliberation.Proofs.Frame.Carried
import Deliberation.Proofs.Match.Candidates
import Deliberation.Proofs.Match.Query
import Mathlib.Data.List.Permutation

/-!
# Reading committed bindings back

The names of a binding set differ, so each of its terms stands in the slot of its name
once the set is bound. Resolving that name starts from the term with the name on the
chain. A raw value is read back as it is; a value that is carried by variables is read
back while their names are new to the chain and unallocated.
-/

namespace Deliberation

set_option autoImplicit false

theorem Tier.bindings_nodup (tier : Tier) (goal fact : Literal) :
    ((tier.bindings goal fact).map Prod.fst).Nodup := by
  rw [Tier.bindings_eq]
  exact first_offers_nodup _

/-- Resolving a committed name is resolving its term, with the name on the chain. -/
theorem resolve_committed {base : BeliefBase} {goal : Literal} {set : Bindings}
    (found : set ∈ base.bindingSets goal) {name : String} {term : Term}
    (member : (name, term) ∈ set) (frame : Frame) :
    (frame.commit set).resolve (.variable name) = (frame.commit set).resolveFrom [name] term := by
  obtain ⟨tier, fact, _, rfl⟩ := BeliefBase.mem_binding_sets found
  have stored := frame.commit_content_of_nodup (tier.bindings_nodup goal fact) member
  refine Frame.resolve_allocated ?_
  rw [Frame.value_eq, stored]
  rfl

namespace Agent

/-- A true query binds the set that is selected. Each raw value that the set carries is
read back from its name when all carriers are passed; otherwise the first carrier that
is not passed decides. -/
theorem unify_reads_back (agent : Agent) (depth : Nat) (goal : Literal) (guard : Option Step)
    (state after : State)
    (answered : agent.unify depth goal guard state = some (.ok Truth.one, after)) :
    ∃ winner mind,
      agent.Selects guard state.frame
        (state.mind.beliefs.bindingSets (state.frame.instantiate goal)) state.mind
        (.ok (some winner)) mind ∧
      after = ⟨state.frame.commit winner, state.output, mind.recordUnify true⟩ ∧
      ∀ name term raw, (name, term) ∈ winner → term.raw? = some raw →
        (after.frame.Passes [name] term.carriers →
          after.frame.resolve (.variable name) = .value raw) ∧
        ∀ before carrier behind, term.carriers = before ++ carrier :: behind →
          after.frame.Passes [name] before →
          (carrier ∈ before.reverse ++ [name] →
            after.frame.resolve (.variable name) = .variable carrier) ∧
          ∀ content, carrier ∉ before.reverse ++ [name] →
            after.frame.value? carrier = some content →
            after.frame.resolve (.variable name) =
              after.frame.resolveFrom (carrier :: (before.reverse ++ [name])) content := by
  obtain ⟨choice, mind, selected, answers⟩ := (unify_eq_some_iff ..).mp answered
  have selects := (agent.selects_iff ..).mpr ⟨depth, selected⟩
  rcases choice with fault | _ | winner
  · simp [State.answered] at answers
  · simp [State.answered, Truth.one, Truth.zero, Truth.ofBool] at answers
  · obtain rfl := (Prod.mk.inj answers).2
    refine ⟨winner, mind, selects, rfl, ?_⟩
    intro name term raw member reads
    dsimp only
    rw [resolve_committed selects.winner_mem member]
    constructor
    · intro passes
      exact passes.resolve_value reads
    · intro before carrier behind carried passes
      exact passes.resolve_stopped carried

/-- `item(term)`. -/
def item (term : Term) : Literal :=
  .ofArguments ⟨"item"⟩ [term]

/-- An agent without rules that believes `item(term)`. -/
def keeper (term : Term) : Agent where
  set := ⟨[], .empty⟩
  aggregation := .sum
  policy := .firstMatch
  beliefs := (BeliefBase.empty.add (item term)).2

def wondering (term : Term) : State :=
  ⟨.withVariables ["X"], [], (keeper term).start⟩

/-- The value 1, carried by `Y` inside of `Z`. -/
def wrapped : Term :=
  .bound "Z" (.bound "Y" (.value (.int 1)))

theorem wrapped_item_read_back :
    ∃ after, (keeper wrapped).unify 0 (item (.variable "X")) none (wondering wrapped) =
        some (.ok Truth.one, after) ∧
      after.frame.value? "X" = some wrapped ∧
      after.frame.resolve (.variable "X") = .value (.int 1) := by
  have answered : (keeper wrapped).unify 0 (item (.variable "X")) none (wondering wrapped) =
      some (.ok Truth.one,
        ⟨⟨[("X", some wrapped)]⟩, [], (keeper wrapped).start.recordUnify true⟩) := by
    cbv
  have sets : (wondering wrapped).mind.beliefs.bindingSets
      ((wondering wrapped).frame.instantiate (item (.variable "X"))) = [[("X", wrapped)]] := by
    cbv
  obtain ⟨winner, mind, selects, _, reads⟩ :=
    unify_reads_back _ 0 (item (.variable "X")) none _ _ answered
  obtain rfl : winner = [("X", wrapped)] := by
    have first := selects.1
    rw [sets] at first
    exact Option.some.inj (Except.ok.inj first)
  refine ⟨_, answered, rfl, (reads "X" wrapped (.int 1) List.mem_cons_self rfl).1 ?_⟩
  exact ⟨by decide, by decide, by decide⟩

/-- The value 1, carried by a variable that has the name asked for. -/
def looped : Term :=
  .bound "X" (.value (.int 1))

/-- `X` is bound to a term with a raw value and resolves to itself. -/
theorem looped_item_not_read_back :
    ∃ after mind, (keeper looped).unify 0 (item (.variable "X")) none (wondering looped) =
        some (.ok Truth.one, after) ∧
      (keeper looped).Selects none (wondering looped).frame
        ((wondering looped).mind.beliefs.bindingSets
          ((wondering looped).frame.instantiate (item (.variable "X"))))
        (wondering looped).mind (.ok (some [("X", looped)])) mind ∧
      looped.raw? = some (.int 1) ∧
      after.frame.resolve (.variable "X") = .variable "X" := by
  refine ⟨⟨⟨[("X", some looped)]⟩, [], (keeper looped).start.recordUnify true⟩, _, ?_,
    ⟨?_, rfl⟩, rfl, ?_⟩
  · cbv
  · cbv
  · cbv

end Agent

end Deliberation
