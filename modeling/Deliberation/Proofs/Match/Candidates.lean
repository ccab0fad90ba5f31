import Deliberation.Proofs.Match.Offers
import Deliberation.Proofs.Term.Leaves
import Mathlib.Data.List.Forall2
import Mathlib.Tactic.SplitIfs

/-!
# What the candidates of a goal are

A fact is accepted exactly when its digests agree with those of the goal, in both
parts or in the arguments alone, and when it either binds something or, before a
ground goal, has equal leaves. The answer is all sets of the facts accepted with
both parts, in the order of the facts; else all sets of those accepted by their
arguments; else nothing. Approximate pairing never adds to it.
-/

namespace Deliberation

set_option autoImplicit false

/-- Two leaves agree by their raw values, or as terms where one of them has none. -/
def Agrees (left right : Term) : Prop :=
  (∃ leftRaw rightRaw, left.raw? = some leftRaw ∧ right.raw? = some rightRaw ∧
      leftRaw.same rightRaw = true) ∨
    ((left.raw? = none ∨ right.raw? = none) ∧ left.same right = true)

/-- A goal accepts a fact under a condition on their digests, with some of their
leaves paired for the set. -/
structure Accepts (digests : Prop) (aligned : List (Term × Term)) (goal fact : Literal)
    (set : Bindings) : Prop where
  digests : digests
  kept : KeepsFirst aligned set
  equal : goal.isGround = true → List.Forall₂ Agrees goal.leaves fact.leaves
  binds : goal.isGround = false → set ≠ []

def AcceptsExactly (goal fact : Literal) : Bindings → Prop :=
  Accepts (goal.matchesExact .rotating fact = true)
    (goal.leaves.zip fact.leaves ++
      (goal.annotations.flatMap Literal.leaves).zip (fact.annotations.flatMap Literal.leaves))
    goal fact

def AcceptsByValue (goal fact : Literal) : Bindings → Prop :=
  Accepts (goal.matchesValue .rotating fact = true) (goal.leaves.zip fact.leaves) goal fact

/-- The sets of all accepted facts, in the order of the facts. -/
inductive Collects (accepts : Literal → Bindings → Prop) : List Literal → List Bindings → Prop where
  | nothing : Collects accepts [] []
  | take {fact : Literal} {facts : List Literal} {set : Bindings} {sets : List Bindings}
      (accepted : accepts fact set) (others : Collects accepts facts sets) :
      Collects accepts (fact :: facts) (set :: sets)
  | skip {fact : Literal} {facts : List Literal} {sets : List Bindings}
      (refused : ∀ set, ¬accepts fact set) (others : Collects accepts facts sets) :
      Collects accepts (fact :: facts) sets

theorem collects_iff_filter_map {accepts : Literal → Bindings → Prop}
    {match? : Literal → Option Bindings}
    (decides : ∀ fact set, accepts fact set ↔ match? fact = some set)
    (facts : List Literal) (sets : List Bindings) :
    Collects accepts facts sets ↔ sets = facts.filterMap match? := by
  constructor
  · intro collected
    induction collected with
    | nothing => rfl
    | take accepted _ ih => rw [List.filterMap_cons_some ((decides ..).mp accepted), ih]
    | @skip fact _ _ refused _ ih =>
        have unmatched : match? fact = none := by
          apply Option.eq_none_iff_forall_ne_some.mpr
          intro set found
          exact refused set ((decides ..).mpr found)
        rw [List.filterMap_cons_none unmatched, ih]
  · rintro rfl
    induction facts with
    | nil => exact .nothing
    | cons fact facts ih =>
        cases found : match? fact with
        | none =>
            rw [List.filterMap_cons_none found]
            refine .skip ?_ ih
            intro set accepted
            rw [(decides ..).mp accepted] at found
            simp at found
        | some set =>
            rw [List.filterMap_cons_some found]
            exact .take ((decides ..).mpr found) ih

theorem leaf_agrees_iff (left right : Term) : leafAgrees left right = true ↔ Agrees left right := by
  unfold leafAgrees Agrees
  cases leftFound : left.raw? <;> cases rightFound : right.raw? <;> simp

theorem leaves_agree_iff (left right : List Term) :
    leavesAgree left right = true ↔ List.Forall₂ Agrees left right := by
  induction left generalizing right with
  | nil => cases right <;> simp [leavesAgree]
  | cons head rest ih =>
      cases right with
      | nil => simp [leavesAgree]
      | cons other others => simp [leavesAgree, leaf_agrees_iff, ih]

namespace Tier

/-- The pairs of leaves that a tier looks at. -/
def aligned (tier : Tier) (goal fact : Literal) : List (Term × Term) :=
  match tier with
  | .exact =>
      goal.leaves.zip fact.leaves ++
        (goal.annotations.flatMap Literal.leaves).zip (fact.annotations.flatMap Literal.leaves)
  | .valueExact => goal.leaves.zip fact.leaves
  | .any => []

theorem bindings_eq (tier : Tier) (goal fact : Literal) :
    tier.bindings goal fact = firstOffers (pairOffers (tier.aligned goal fact)) := by
  cases tier with
  | exact =>
      rw [bindings, aligned, pairOffers, List.filterMap_append]
      simp only [offers, Literal.argument_leaves_eq, Literal.annotation_leaves_eq]
  | valueExact =>
      rw [bindings, aligned, pairOffers]
      simp only [offers, fuzzyOffers, Literal.argument_leaves_eq, List.append_nil]
  | any => rfl

theorem match_eq_some_iff (tier : Tier) (compares : tier.comparesGround = true)
    (goal fact : Literal) (set : Bindings) :
    tier.match? goal fact = some set ↔
      Accepts (tier.admits goal fact = true) (tier.aligned goal fact) goal fact set := by
  have kept : KeepsFirst (tier.aligned goal fact) set ↔ tier.bindings goal fact = set := by
    rw [keeps_first_iff, bindings_eq, eq_comm]
  unfold match?
  constructor
  · intro found
    split at found
    next admitted =>
      dsimp only at found
      split at found
      next ground =>
        rw [Bool.and_eq_true] at ground
        split at found
        next agree =>
          rw [leaves_agree_iff, Literal.argument_leaves_eq, Literal.argument_leaves_eq] at agree
          refine ⟨admitted, kept.mpr (Option.some.inj found), fun _ => agree, ?_⟩
          intro notGround
          rw [ground.2] at notGround
          exact absurd notGround (by decide)
        next => simp at found
      next notGround =>
        split at found
        next => simp at found
        next nonempty =>
          rw [compares, Bool.true_and] at notGround
          refine ⟨admitted, kept.mpr (Option.some.inj found), ?_, ?_⟩
          · intro ground
            exact absurd ground notGround
          · rintro - rfl
            rw [Option.some.inj found] at nonempty
            exact nonempty rfl
    next => simp at found
  · intro told
    rcases told with ⟨admitted, keeps, equal, binds⟩
    rw [if_pos admitted]
    dsimp only
    rw [kept.mp keeps, compares, Bool.true_and]
    cases ground : goal.isGround with
    | true =>
        have agree : leavesAgree goal.argumentLeaves fact.argumentLeaves = true := by
          rw [leaves_agree_iff, Literal.argument_leaves_eq, Literal.argument_leaves_eq]
          exact equal ground
        simp [agree]
    | false => simp [binds ground]

theorem match_set {tier : Tier} {goal fact : Literal} {set : Bindings}
    (found : tier.match? goal fact = some set) : set = tier.bindings goal fact := by
  unfold match? at found
  dsimp only at found
  split_ifs at found <;> exact (Option.some.inj found).symm

/-- A set pairs unbound leaves of the goal with leaves of the fact that are not
unbound, both among the arguments or both among the annotations. -/
theorem mem_bindings {tier : Tier} {goal fact : Literal} {offer : String × Term}
    (member : offer ∈ tier.bindings goal fact) :
    ((Term.variable offer.1 ∈ goal.leaves ∧ offer.2 ∈ fact.leaves) ∨
      (Term.variable offer.1 ∈ goal.annotationLeaves ∧ offer.2 ∈ fact.annotationLeaves)) ∧
      ∀ name, offer.2 ≠ .variable name := by
  rw [bindings_eq] at member
  obtain ⟨isPair, bound⟩ := mem_pair_offers (mem_first_offers member)
  refine ⟨?_, bound⟩
  rw [Literal.annotation_leaves_eq, Literal.annotation_leaves_eq]
  cases tier with
  | exact => exact (List.mem_append.mp isPair).imp List.of_mem_zip List.of_mem_zip
  | valueExact => exact .inl (List.of_mem_zip isPair)
  | any => cases isPair

theorem any_matches_nothing (goal fact : Literal) : Tier.any.match? goal fact = none := by
  simp [match?, admits, bindings, comparesGround, fuzzyOffers, firstOffers]

/-- A ground goal has no unbound leaf in either part, so no position makes an offer. -/
theorem ground_bindings (tier : Tier) (goal fact : Literal) (ground : goal.isGround = true) :
    tier.bindings goal fact = [] := by
  have valuesBound : ∀ pair ∈ goal.leaves.zip fact.leaves, ∀ name, pair.1 ≠ .variable name := by
    intro pair member name isFree
    have isLeaf := (List.of_mem_zip member).1
    rw [isFree] at isLeaf
    exact ground_leaves_not_free.2 goal ground name isLeaf
  have notesBound : ∀ pair ∈ (goal.annotations.flatMap Literal.leaves).zip
      (fact.annotations.flatMap Literal.leaves), ∀ name, pair.1 ≠ .variable name := by
    intro pair member name isFree
    have isLeaf := (List.of_mem_zip member).1
    rw [isFree, ← Literal.annotation_leaves_eq] at isLeaf
    exact goal.ground_annotation_leaves_not_free ground name isLeaf
  have bound : ∀ pair ∈ tier.aligned goal fact, ∀ name, pair.1 ≠ .variable name := by
    cases tier with
    | exact =>
        intro pair member
        exact (List.mem_append.mp member).elim (valuesBound pair) (notesBound pair)
    | valueExact => exact valuesBound
    | any => simp [aligned]
  have silent : pairOffers (tier.aligned goal fact) = [] := by
    rw [pairOffers, List.filterMap_eq_nil_iff]
    intro pair member
    refine Option.eq_none_iff_forall_ne_some.mpr fun offer made => ?_
    exact bound pair member offer.1 ((offer_eq_some_iff ..).mp made).1
  rw [bindings_eq, silent]
  rfl

end Tier

namespace BeliefBase

theorem mem_matches_iff (base : BeliefBase) (tier : Tier) (goal : Literal) (set : Bindings) :
    set ∈ base.matches tier goal ↔
      ∃ fact ∈ base.query goal.negated goal.functor, tier.match? goal fact = some set := by
  rw [BeliefBase.matches, List.mem_filterMap]

theorem any_matches_eq (base : BeliefBase) (goal : Literal) : base.matches .any goal = [] := by
  rw [BeliefBase.matches, List.filterMap_eq_nil_iff]
  intro fact _
  exact Tier.any_matches_nothing goal fact

theorem candidates_eq (base : BeliefBase) (goal : Literal) :
    base.candidates goal =
      if base.matches .exact goal ≠ [] then some (.exact, base.matches .exact goal)
      else if base.matches .valueExact goal ≠ [] then
        some (.valueExact, base.matches .valueExact goal)
      else none := by
  simp only [candidates, Tier.all, firstMatches, any_matches_eq]
  cases base.matches .exact goal with
  | cons set sets => rfl
  | nil =>
      cases base.matches .valueExact goal with
      | cons set sets => rfl
      | nil => rfl

theorem mem_binding_sets {base : BeliefBase} {goal : Literal} {set : Bindings}
    (member : set ∈ base.bindingSets goal) :
    ∃ tier : Tier, ∃ fact ∈ base.query goal.negated goal.functor,
      set = tier.bindings goal fact := by
  have ofTier (tier : Tier) (inTier : set ∈ base.matches tier goal) :
      ∃ fact ∈ base.query goal.negated goal.functor, set = tier.bindings goal fact := by
    obtain ⟨fact, isFact, found⟩ := (mem_matches_iff ..).mp inTier
    exact ⟨fact, isFact, Tier.match_set found⟩
  rw [bindingSets, candidates_eq] at member
  split_ifs at member
  · exact ⟨.exact, ofTier .exact member⟩
  · exact ⟨.valueExact, ofTier .valueExact member⟩
  · cases member

/-- Some fact makes a goal productive, in both parts or by its arguments. -/
theorem binding_sets_ne_nil_iff (base : BeliefBase) (goal : Literal) :
    base.bindingSets goal ≠ [] ↔
      ∃ fact ∈ base.query goal.negated goal.functor, ∃ set,
        AcceptsExactly goal fact set ∨ AcceptsByValue goal fact set := by
  have found (tier : Tier) (compares : tier.comparesGround = true) :
      base.matches tier goal ≠ [] ↔ ∃ fact ∈ base.query goal.negated goal.functor, ∃ set,
        Accepts (tier.admits goal fact = true) (tier.aligned goal fact) goal fact set := by
    constructor
    · intro productive
      obtain ⟨set, member⟩ := List.exists_mem_of_ne_nil _ productive
      obtain ⟨fact, isFact, found⟩ := (mem_matches_iff ..).mp member
      exact ⟨fact, isFact, set, (Tier.match_eq_some_iff tier compares ..).mp found⟩
    · rintro ⟨fact, isFact, set, accepted⟩
      have found := (Tier.match_eq_some_iff tier compares ..).mpr accepted
      exact List.ne_nil_of_mem ((mem_matches_iff ..).mpr ⟨fact, isFact, found⟩)
  have productive : base.bindingSets goal ≠ [] ↔
      base.matches .exact goal ≠ [] ∨ base.matches .valueExact goal ≠ [] := by
    rw [bindingSets, candidates_eq]
    split_ifs <;> simp_all
  rw [productive, found .exact rfl, found .valueExact rfl]
  constructor
  · rintro (⟨fact, isFact, set, accepted⟩ | ⟨fact, isFact, set, accepted⟩)
    · exact ⟨fact, isFact, set, .inl accepted⟩
    · exact ⟨fact, isFact, set, .inr accepted⟩
  · rintro ⟨fact, isFact, set, accepted | accepted⟩
    · exact .inl ⟨fact, isFact, set, accepted⟩
    · exact .inr ⟨fact, isFact, set, accepted⟩

theorem ground_matches (base : BeliefBase) (tier : Tier) (goal : Literal)
    (ground : goal.isGround = true) : ∀ set ∈ base.matches tier goal, set = [] := by
  intro set member
  obtain ⟨fact, _, found⟩ := (mem_matches_iff ..).mp member
  cases compares : tier.comparesGround with
  | true =>
      have accepted := (Tier.match_eq_some_iff tier compares goal fact set).mp found
      rw [(keeps_first_iff ..).mp accepted.kept, ← Tier.bindings_eq]
      exact Tier.ground_bindings tier goal fact ground
  | false =>
      cases tier with
      | exact => exact absurd compares (by decide)
      | valueExact => exact absurd compares (by decide)
      | any =>
          rw [Tier.any_matches_nothing] at found
          simp at found

/-- The candidates are the sets of all facts accepted in both parts; without such
facts they are the sets of all facts accepted by their arguments, and without
these there are none. The sets of a ground goal are empty. -/
theorem candidates_iff_accepted (base : BeliefBase) (goal : Literal)
    (found : Option (Tier × List Bindings)) :
    base.candidates goal = found ↔
      ∃ exact byValue : List Bindings,
        Collects (AcceptsExactly goal) (base.query goal.negated goal.functor) exact ∧
        Collects (AcceptsByValue goal) (base.query goal.negated goal.functor) byValue ∧
        (goal.isGround = true → ∀ set ∈ exact ++ byValue, set = []) ∧
        found =
          if exact ≠ [] then some (.exact, exact)
          else if byValue ≠ [] then some (.valueExact, byValue)
          else none := by
  have exactly (sets : List Bindings) :
      Collects (AcceptsExactly goal) (base.query goal.negated goal.functor) sets ↔
        sets = base.matches .exact goal :=
    collects_iff_filter_map
      (fun fact set => (Tier.match_eq_some_iff .exact rfl goal fact set).symm) _ _
  have byValue (sets : List Bindings) :
      Collects (AcceptsByValue goal) (base.query goal.negated goal.functor) sets ↔
        sets = base.matches .valueExact goal :=
    collects_iff_filter_map
      (fun fact set => (Tier.match_eq_some_iff .valueExact rfl goal fact set).symm) _ _
  rw [candidates_eq]
  constructor
  · rintro rfl
    refine ⟨_, _, (exactly _).mpr rfl, (byValue _).mpr rfl, ?_, rfl⟩
    intro ground set member
    exact (List.mem_append.mp member).elim
      (base.ground_matches .exact goal ground set)
      (base.ground_matches .valueExact goal ground set)
  · intro told
    rcases told with ⟨exact, others, exactCollected, othersCollected, _, rfl⟩
    rw [(exactly exact).mp exactCollected, (byValue others).mp othersCollected]

end BeliefBase

end Deliberation
