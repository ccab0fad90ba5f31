import Deliberation.Proofs.Match.Candidates
import Deliberation.Proofs.Match.Query
import Deliberation.Proofs.Term.Assigned
import Deliberation.Proofs.Term.Shape
import Mathlib.Data.List.Permutation

/-!
# How complete queries are

Suppose that values for its unbound variables make a fact of a goal. The shapes of the
two are then the same, and every unbound leaf of the goal meets a raw value, so a goal
with such a leaf is answered, and so is a ground one. Unbound variables in annotations
of nested literals or of annotations are no leaves; a goal with these alone is neither
ground nor able to bind anything, and finds no fact at all.
-/

namespace Deliberation

set_option autoImplicit false

/-- Whether an unbound variable stands where the exact tier pairs leaves. -/
def Literal.hasFreeLeaf (goal : Literal) : Bool :=
  (goal.argumentLeaves ++ goal.annotationLeaves).any fun leaf => leaf.unbound?.isSome

theorem Literal.has_free_leaf_iff (goal : Literal) :
    goal.hasFreeLeaf = true ↔
      ∃ name, Term.variable name ∈ goal.leaves ∨ Term.variable name ∈ goal.annotationLeaves := by
  rw [hasFreeLeaf, List.any_eq_true, argument_leaves_eq]
  simp only [List.mem_append, Option.isSome_iff_exists]
  constructor
  · rintro ⟨leaf, member, name, free⟩
    cases leaf <;> simp_all [Term.unbound?]
    exact ⟨name, member⟩
  · rintro ⟨name, member⟩
    exact ⟨.variable name, member, name, rfl⟩

theorem exists_partner {α β : Type} {related : α → β → Prop} {left : List α} {right : List β}
    (pairs : List.Forall₂ related left right) {first : α} (member : first ∈ left) :
    ∃ second, (first, second) ∈ left.zip right ∧ related first second := by
  induction pairs with
  | nil => cases member
  | @cons head other rest others same _ ih =>
      rw [List.zip_cons_cons]
      rcases List.mem_cons.mp member with rfl | inRest
      · exact ⟨other, List.mem_cons_self, same⟩
      · obtain ⟨second, paired, same⟩ := ih inRest
        exact ⟨second, List.mem_cons_of_mem _ paired, same⟩

theorem agrees_of_same {left right : Term} (same : left.same right = true) :
    Agrees left right := by
  rcases same_raw left right same with ⟨leftNone, _⟩ | both
  · exact .inr ⟨.inl leftNone, same⟩
  · exact .inl both

/-- What is the same as a raw value is one. -/
theorem eq_value_of_same {raw : Value} {term : Term} (same : (Term.value raw).same term = true) :
    ∃ other, term = .value other := by
  cases term <;> simp_all [Term.same]

section Becoming

variable {goal fact : Literal} {values : String → Value}
  (becomes : (goal.assign values).same fact = true)

include becomes

theorem matches_exact_of_becomes : goal.matchesExact .rotating fact = true := by
  apply Literal.matches_exact_of_marks .rotating
  · rw [← (assign_marks values).2 goal]
    exact same_marks.2 _ _ becomes
  · rw [← goal.assign_annotation_marks values]
    exact Literal.same_annotation_marks becomes

theorem agree_of_becomes (ground : goal.isGround = true) :
    List.Forall₂ Agrees goal.leaves fact.leaves := by
  rw [(assign_ground values).2 goal ground] at becomes
  exact (same_leaves.2 goal fact becomes).imp fun _ _ => agrees_of_same

/-- An unbound leaf of the goal is aligned with a raw value. -/
theorem free_leaf_meets_value {name : String}
    (free : Term.variable name ∈ goal.leaves ∨ Term.variable name ∈ goal.annotationLeaves) :
    ∃ raw, (Term.variable name, Term.value raw) ∈ Tier.exact.aligned goal fact := by
  have leaves := same_leaves.2 _ _ becomes
  have notes := Literal.same_annotation_leaves becomes
  rw [(assign_leaves values).2 goal, List.forall₂_map_left_iff] at leaves
  rw [goal.assign_annotation_leaves values, List.forall₂_map_left_iff] at notes
  rw [Tier.aligned, ← Literal.annotation_leaves_eq, ← Literal.annotation_leaves_eq]
  rcases free with inLeaves | inNotes
  · obtain ⟨partner, paired, same⟩ := exists_partner leaves inLeaves
    obtain ⟨raw, rfl⟩ := eq_value_of_same same
    exact ⟨raw, List.mem_append_left _ paired⟩
  · obtain ⟨partner, paired, same⟩ := exists_partner notes inNotes
    obtain ⟨raw, rfl⟩ := eq_value_of_same same
    exact ⟨raw, List.mem_append_right _ paired⟩

theorem binds_of_becomes (free : goal.hasFreeLeaf = true) :
    Tier.exact.bindings goal fact ≠ [] := by
  obtain ⟨name, free⟩ := goal.has_free_leaf_iff.mp free
  obtain ⟨raw, paired⟩ := free_leaf_meets_value becomes free
  have offered : (name, Term.value raw) ∈ pairOffers (Tier.exact.aligned goal fact) :=
    List.mem_filterMap.mpr ⟨_, paired, rfl⟩
  rw [Tier.bindings_eq]
  cases made : pairOffers (Tier.exact.aligned goal fact) with
  | nil =>
      rw [made] at offered
      cases offered
  | cons first rest => exact List.cons_ne_nil _ _

theorem accepts_of_becomes (room : goal.isGround = true ∨ goal.hasFreeLeaf = true) :
    AcceptsExactly goal fact (Tier.exact.bindings goal fact) where
  digests := matches_exact_of_becomes becomes
  kept := (keeps_first_iff _ _).mpr (Tier.bindings_eq .exact goal fact)
  equal := agree_of_becomes becomes
  binds := by
    intro notGround
    rcases room with ground | free
    · rw [notGround] at ground
      exact absurd ground (by decide)
    · exact binds_of_becomes becomes free

end Becoming

/-- Without a ground goal, a set needs an unbound leaf to bind. -/
theorem room_of_accepted {digests : Prop} (tier : Tier) {goal fact : Literal} {set : Bindings}
    (accepted : Accepts digests (tier.aligned goal fact) goal fact set) :
    goal.isGround = true ∨ goal.hasFreeLeaf = true := by
  cases ground : goal.isGround with
  | true => exact .inl rfl
  | false =>
      right
      have isSet := (keeps_first_iff _ _).mp accepted.kept
      rw [← Tier.bindings_eq] at isSet
      obtain ⟨offer, member⟩ := List.exists_mem_of_ne_nil set (accepted.binds ground)
      rw [isSet] at member
      rw [goal.has_free_leaf_iff]
      exact ⟨offer.1, (Tier.mem_bindings member).1.imp And.left And.left⟩

/-- A goal that values for its unbound variables make a stored fact is answered when it
is ground or has an unbound leaf, and refused otherwise. -/
theorem unify_answers_becoming (goal : Literal) (state : State) (values : String → Value)
    (fact : Literal) (stored : fact ∈ state.mind.beliefs.query fact.negated fact.functor)
    (becomes : ((state.frame.instantiate goal).assign values).same fact = true) :
    ∃ after, unify goal none state =
      some (.ok (Truth.ofBool ((state.frame.instantiate goal).isGround ||
        (state.frame.instantiate goal).hasFreeLeaf)), after) := by
  obtain ⟨after, answered⟩ := unguarded_answer goal state
  refine ⟨after, ?_⟩
  rw [answered]
  generalize state.frame.instantiate goal = inner at becomes
  obtain ⟨functor, negated⟩ := ((Literal.same_iff _ _).mp becomes).1
  rw [← functor, ← negated, inner.assign_functor, inner.assign_negated] at stored
  have productive : state.mind.beliefs.bindingSets inner ≠ [] ↔
      inner.isGround = true ∨ inner.hasFreeLeaf = true := by
    rw [BeliefBase.binding_sets_ne_nil_iff]
    constructor
    · rintro ⟨_, _, _, accepted | accepted⟩
      · exact room_of_accepted .exact accepted
      · exact room_of_accepted .valueExact accepted
    · intro room
      exact ⟨fact, stored, _, .inl (accepts_of_becomes becomes room)⟩
  have answer : (!(state.mind.beliefs.bindingSets inner).isEmpty) =
      (inner.isGround || inner.hasFreeLeaf) := by
    rw [Bool.eq_iff_iff, Bool.or_eq_true, ← productive]
    simp
  rw [answer]

/-- `report(detail[source(term)], argument)`. -/
def sourced (term : Term) (arguments : List Term) : Literal :=
  .ofArguments ⟨"report"⟩
    (.literal ((Literal.atom ⟨"detail"⟩).withAnnotations [.ofArguments ⟨"source"⟩ [term]]) ::
      arguments)

def told (arguments : List Term) : State :=
  ⟨.empty, [], .believing (sourced (.value (.string "self")) arguments) .zero⟩

/-- The unbound leaf lets the fact in; the source of the detail is not looked at. -/
theorem sourced_report_answered :
    sourced (.value (.string "self")) [.value (.int 1)] ∈
        (told [.value (.int 1)]).mind.beliefs.query false ⟨"report"⟩ ∧
      (((told [.value (.int 1)]).frame.instantiate
          (sourced (.variable "S") [.variable "X"])).assign
        (fun name => if name = "X" then .int 1 else .string "self")).same
          (sourced (.value (.string "self")) [.value (.int 1)]) = true ∧
      ∃ after, unify (sourced (.variable "S") [.variable "X"]) none (told [.value (.int 1)]) =
        some (.ok Truth.one, after) := by
  have stored : sourced (.value (.string "self")) [.value (.int 1)] ∈
      (told [.value (.int 1)]).mind.beliefs.query false ⟨"report"⟩ := List.mem_singleton.mpr rfl
  have becomes : (((told [.value (.int 1)]).frame.instantiate
      (sourced (.variable "S") [.variable "X"])).assign
        (fun name => if name = "X" then .int 1 else .string "self")).same
          (sourced (.value (.string "self")) [.value (.int 1)]) = true := by
    cbv
  obtain ⟨after, answered⟩ := unify_answers_becoming _ _ _ _ stored becomes
  refine ⟨stored, becomes, after, answered.trans ?_⟩
  cbv

/-- With its only variable in the annotation of a nested literal, a goal that one value
makes a stored fact is refused. -/
theorem sourced_detail_refused :
    sourced (.value (.string "self")) [] ∈ (told []).mind.beliefs.query false ⟨"report"⟩ ∧
      (((told []).frame.instantiate (sourced (.variable "S") [])).assign
        (fun _ => .string "self")).same (sourced (.value (.string "self")) []) = true ∧
      ¬∃ after, unify (sourced (.variable "S") []) none (told []) =
        some (.ok Truth.one, after) := by
  refine ⟨List.mem_singleton.mpr rfl, by cbv, ?_⟩
  rintro ⟨after, answered⟩
  have refused : (unify (sourced (.variable "S") []) none (told [])).map Prod.fst =
      some (.ok Truth.zero) := by
    cbv
  rw [answered] at refused
  exact absurd refused (by simp [Truth.one, Truth.zero, Truth.ofBool])

end Deliberation
