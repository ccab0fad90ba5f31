import Deliberation.Proofs.Belief.Refinement
import Deliberation.Proofs.Match.Candidates
import Deliberation.Proofs.Match.Query
import Deliberation.Proofs.Term.Equivalence
import Deliberation.Proofs.Term.Shape
import Mathlib.Data.List.Permutation

/-!
# Queries forget the history of their facts

A tier matches a fact as it matches any other fact that is the same, so what it finds
depends on which facts are there and not on how they came. More facts can move the
answer to an earlier tier, which hides the sets of the later ones, but never make a goal
fail that was met before. The same facts in another order are met in the same tier, with
the same sets in another order.
-/

namespace Deliberation

set_option autoImplicit false

section Lists

variable {α β : Type}

/-- The items of one list stand for those of the other, in some order. -/
def Rearranged (related : α → β → Prop) (left : List α) (right : List β) : Prop :=
  ∃ middle, left.Perm middle ∧ List.Forall₂ related middle right

theorem rearranged_eq_iff (left right : List α) :
    Rearranged (· = ·) left right ↔ left.Perm right := by
  simp only [Rearranged, List.forall₂_eq_eq_eq]
  constructor
  · rintro ⟨middle, moved, rfl⟩
    exact moved
  · intro moved
    exact ⟨right, moved, rfl⟩

namespace Rearranged

variable {related : α → β → Prop} {left : List α} {right : List β}

theorem nil_iff (rearranged : Rearranged related left right) : left = [] ↔ right = [] := by
  rcases rearranged with ⟨middle, moved, pairs⟩
  rw [← List.length_eq_zero_iff, ← List.length_eq_zero_iff, moved.length_eq, pairs.length_eq]

theorem filter_map {γ δ : Type} {results : γ → δ → Prop} {read : α → Option γ}
    {readOther : β → Option δ}
    (respected : ∀ first second, related first second →
      Option.Rel results (read first) (readOther second))
    (rearranged : Rearranged related left right) :
    Rearranged results (left.filterMap read) (right.filterMap readOther) := by
  rcases rearranged with ⟨middle, moved, pairs⟩
  exact ⟨middle.filterMap read, moved.filterMap read,
    List.rel_filterMap (fun first second => respected first second) pairs⟩

end Rearranged

/-- Lists of distinct items that cover each other differ in the order alone. -/
theorem rearranged_of_covers {related : α → α → Prop} (equivalence : Equivalence related)
    {left right : List α} (distinctLeft : left.Pairwise fun first second => ¬related first second)
    (distinctRight : right.Pairwise fun first second => ¬related first second)
    (covered : ∀ item ∈ left, ∃ other ∈ right, related item other)
    (covers : ∀ other ∈ right, ∃ item ∈ left, related item other) :
    Rearranged related left right := by
  -- The partner of the first item on the right is taken out of the left list, wherever
  -- it stands there; the items that are left still cover each other.
  induction right generalizing left with
  | nil =>
      have nothing : left = [] := by
        rw [List.eq_nil_iff_forall_not_mem]
        intro item member
        obtain ⟨other, impossible, _⟩ := covered item member
        cases impossible
      exact ⟨[], by rw [nothing], .nil⟩
  | cons head rest ih =>
      obtain ⟨apart, distinctRest⟩ := List.pairwise_cons.mp distinctRight
      obtain ⟨partner, member, same⟩ := covers head List.mem_cons_self
      obtain ⟨before, behind, rfl⟩ := List.append_of_mem member
      have moved : (before ++ partner :: behind).Perm (partner :: (before ++ behind)) :=
        List.perm_middle
      have distinct : (partner :: (before ++ behind)).Pairwise
          fun first second => ¬related first second :=
        (moved.pairwise_iff fun differ same => differ (equivalence.symm same)).mp distinctLeft
      obtain ⟨partnerApart, distinctOthers⟩ := List.pairwise_cons.mp distinct
      have coveredOthers : ∀ item ∈ before ++ behind, ∃ other ∈ rest, related item other := by
        intro item isOther
        obtain ⟨other, found, sameOther⟩ :=
          covered item (moved.mem_iff.mpr (List.mem_cons_of_mem _ isOther))
        rcases List.mem_cons.mp found with rfl | inRest
        · exact absurd (equivalence.trans same (equivalence.symm sameOther))
            (partnerApart item isOther)
        · exact ⟨other, inRest, sameOther⟩
      have coversRest : ∀ other ∈ rest, ∃ item ∈ before ++ behind, related item other := by
        intro other inRest
        obtain ⟨item, found, sameOther⟩ := covers other (List.mem_cons_of_mem _ inRest)
        rcases List.mem_cons.mp (moved.mem_iff.mp found) with rfl | isOther
        · exact absurd (equivalence.trans (equivalence.symm same) sameOther) (apart other inRest)
        · exact ⟨item, isOther, sameOther⟩
      obtain ⟨middle, movedOthers, pairs⟩ :=
        ih distinctOthers distinctRest coveredOthers coversRest
      exact ⟨partner :: middle, moved.trans (movedOthers.cons partner), .cons same pairs⟩

end Lists

/-- Two offers to one name, of terms that are the same. -/
def SameOffer (left right : String × Term) : Prop :=
  left.1 = right.1 ∧ left.2.same right.2 = true

def SameSet : Bindings → Bindings → Prop :=
  List.Forall₂ SameOffer

theorem same_unbound {left right : Term} (same : left.same right = true) :
    left.unbound? = right.unbound? := by
  cases left <;> cases right <;> simp_all [Term.same, Term.unbound?]

theorem offer_same {given other : Term} (same : given.same other = true) (wanted : Term) :
    Option.Rel SameOffer (offer? wanted given) (offer? wanted other) := by
  unfold offer?
  rw [same_unbound same]
  cases wanted.unbound? with
  | none => exact .none
  | some name =>
      cases other.unbound? with
      | none => exact .some ⟨rfl, same⟩
      | some _ => exact .none

theorem first_offers_same {left right : Bindings} (same : SameSet left right) :
    SameSet (firstOffers left) (firstOffers right) := by
  induction same with
  | nil => exact .nil
  | @cons first second _ _ pair _ ih =>
      refine .cons pair (List.rel_filter ?_ ih)
      intro kept other sameNames
      dsimp only
      rw [sameNames.1, pair.1]

section Leaves

variable {wanted given other : List Term}

theorem zip_same (same : List.Forall₂ (fun left right => left.same right = true) given other)
    (wanted : List Term) :
    List.Forall₂ (fun left right => left.1 = right.1 ∧ left.2.same right.2 = true)
      (wanted.zip given) (wanted.zip other) := by
  induction same generalizing wanted with
  | nil =>
      rw [List.zip_nil_right]
      exact .nil
  | cons head _ ih =>
      cases wanted with
      | nil => exact .nil
      | cons first rest => exact .cons ⟨rfl, head⟩ (ih rest)

theorem Agrees.same {left middle right : Term} (agrees : Agrees left middle)
    (same : middle.same right = true) : Agrees left right := by
  rcases agrees with ⟨leftRaw, middleRaw, isLeft, isMiddle, sameRaw⟩ | ⟨noRaw, sameTerm⟩
  · rcases same_raw middle right same with ⟨noMiddle, _⟩ |
      ⟨middleRaw', rightRaw, isMiddle', isRight, sameNext⟩
    · rw [isMiddle] at noMiddle
      cases noMiddle
    · obtain rfl := Option.some.inj (isMiddle.symm.trans isMiddle')
      exact .inl ⟨leftRaw, rightRaw, isLeft, isRight, Value.same_trans sameRaw sameNext⟩
  · have sameEnds := same_transitive.1 left middle right sameTerm same
    rcases same_raw left right sameEnds with ⟨noLeft, _⟩ | both
    · exact .inr ⟨.inl noLeft, sameEnds⟩
    · exact .inl both

theorem agree_same (agree : List.Forall₂ Agrees wanted given)
    (same : List.Forall₂ (fun left right => left.same right = true) given other) :
    List.Forall₂ Agrees wanted other := by
  induction agree generalizing other with
  | nil =>
      cases same
      exact .nil
  | cons head _ ih =>
      cases same with
      | cons sameHead sameRest => exact .cons (head.same sameHead) (ih sameRest)

end Leaves

namespace Tier

variable {fact other : Literal} (same : fact.same other = true)

include same

theorem admits_same (tier : Tier) (goal : Literal) :
    tier.admits goal fact = tier.admits goal other := by
  have values := Literal.value_digest_of_shape .rotating
    (Literal.value_shape_eq_of_marks (same_marks.2 fact other same))
  have notes := Literal.annotation_digest_of_shape .rotating
    (Literal.annotation_shape_eq_of_marks (Literal.same_annotation_marks same))
  cases tier <;> simp [admits, Literal.matchesExact, Literal.matchesValue, values, notes]

theorem aligned_same (tier : Tier) (goal : Literal) :
    List.Forall₂ (fun left right => left.1 = right.1 ∧ left.2.same right.2 = true)
      (tier.aligned goal fact) (tier.aligned goal other) := by
  have values := zip_same (same_leaves.2 fact other same) goal.leaves
  have notes := Literal.same_annotation_leaves same
  rw [Literal.annotation_leaves_eq, Literal.annotation_leaves_eq] at notes
  cases tier with
  | exact => exact List.rel_append values (zip_same notes _)
  | valueExact => exact values
  | any => exact .nil

theorem bindings_same (tier : Tier) (goal : Literal) :
    SameSet (tier.bindings goal fact) (tier.bindings goal other) := by
  rw [bindings_eq, bindings_eq]
  refine first_offers_same (List.rel_filterMap ?_ (aligned_same same tier goal))
  rintro ⟨wanted, given⟩ ⟨_, met⟩ ⟨rfl, sameTerm⟩
  exact offer_same sameTerm wanted

theorem leaves_agree_same (goal : Literal) :
    leavesAgree goal.argumentLeaves fact.argumentLeaves =
      leavesAgree goal.argumentLeaves other.argumentLeaves := by
  have forward := same_leaves.2 fact other same
  have backward := same_leaves.2 other fact (Literal.same_equivalence.symm same)
  simp only [Literal.argument_leaves_eq]
  rw [Bool.eq_iff_iff, leaves_agree_iff, leaves_agree_iff]
  exact ⟨fun agree => agree_same agree forward, fun agree => agree_same agree backward⟩

/-- Facts that are the same are matched alike, with sets that are the same. -/
theorem match_same (tier : Tier) (goal : Literal) :
    Option.Rel SameSet (tier.match? goal fact) (tier.match? goal other) := by
  have sets := bindings_same same tier goal
  have empty : (tier.bindings goal fact).isEmpty = (tier.bindings goal other).isEmpty := by
    rw [Bool.eq_iff_iff, List.isEmpty_iff_length_eq_zero, List.isEmpty_iff_length_eq_zero,
      sets.length_eq]
  unfold match?
  rw [admits_same same, leaves_agree_same same]
  dsimp only
  rw [empty]
  split_ifs
  all_goals first | exact .none | exact .some sets

theorem accepts_same (tier : Tier) (compares : tier.comparesGround = true) {goal : Literal}
    {set : Bindings}
    (accepted : Accepts (tier.admits goal fact = true) (tier.aligned goal fact) goal fact set) :
    ∃ sameSet, Accepts (tier.admits goal other = true) (tier.aligned goal other) goal other
      sameSet := by
  have alike := match_same same tier goal
  rw [(match_eq_some_iff tier compares ..).mpr accepted] at alike
  cases met : tier.match? goal other with
  | none =>
      rw [met] at alike
      cases alike
  | some sameSet => exact ⟨sameSet, (match_eq_some_iff tier compares ..).mp met⟩

end Tier

namespace BeliefBase

variable {base other : BeliefBase} {goal : Literal}

/-- Facts in another order lead to the same tier and to the sets in another order. -/
theorem candidates_rearranged {related : Literal → Literal → Prop}
    {relatedSets : Bindings → Bindings → Prop}
    (respected : ∀ tier : Tier, ∀ first second, related first second →
      Option.Rel relatedSets (tier.match? goal first) (tier.match? goal second))
    (rearranged : Rearranged related (base.query goal.negated goal.functor)
      (other.query goal.negated goal.functor)) :
    (base.candidates goal).map Prod.fst = (other.candidates goal).map Prod.fst ∧
      Rearranged relatedSets (base.bindingSets goal) (other.bindingSets goal) := by
  have tiers (tier : Tier) : Rearranged relatedSets (base.matches tier goal)
      (other.matches tier goal) := rearranged.filter_map (respected tier)
  simp only [bindingSets, candidates_eq, Ne, (tiers .exact).nil_iff, (tiers .valueExact).nil_iff]
  split_ifs with noneExactly noneByValue
  · exact ⟨rfl, [], .refl [], .nil⟩
  · exact ⟨rfl, tiers .valueExact⟩
  · exact ⟨rfl, tiers .exact⟩

/-- The base that a history of requests leaves, from an empty one. -/
def after (history : List Request) : BeliefBase :=
  (serveAll BeliefBase.serve history .empty).2

/-- Whatever the one base contains, the other contains. -/
def Within (base other : BeliefBase) : Prop :=
  ∀ fact, base.containsLiteral fact = true → other.containsLiteral fact = true

open Ledger in
/-- What is there is a list of distinct facts, each under its own sign and functor. -/
theorem after_represents (history : List Request) :
    ∃ ledger : Ledger, Distinct ledger.facts ∧
      (∀ fact, (after history).containsLiteral fact = listed fact ledger.facts) ∧
      ∀ negated path, (after history).query negated path =
        ledger.facts.filter fun fact => fact.negated = negated ∧ fact.functor = path := by
  have represents : (after history).Represents (serveAll Ledger.serve history .empty).2 :=
    ((Represents.cleared .empty).serve_all history).2
  exact ⟨_, represents.distinct, represents.contains_literal, represents.query⟩

section Histories

variable {early late : List Request}

theorem Within.covered (within : (after early).Within (after late)) (negated : Bool)
    (path : Path) :
    ∀ fact ∈ (after early).query negated path, ∃ kept ∈ (after late).query negated path,
      fact.same kept = true := by
  obtain ⟨first, _, containsFirst, queryFirst⟩ := after_represents early
  obtain ⟨second, _, containsSecond, querySecond⟩ := after_represents late
  intro fact member
  rw [queryFirst, List.mem_filter, decide_eq_true_iff] at member
  rcases member with ⟨isFact, rfl, rfl⟩
  have contained := within fact
  rw [containsFirst, containsSecond, Ledger.listed_iff, Ledger.listed_iff] at contained
  obtain ⟨kept, isKept, same⟩ := contained ⟨fact, isFact, Literal.same_equivalence.refl fact⟩
  refine ⟨kept, ?_, same⟩
  rw [querySecond, List.mem_filter, decide_eq_true_iff]
  exact ⟨isKept, (Ledger.same_sign _ _ same).symm, (Ledger.same_functor _ _ same).symm⟩

theorem query_distinct (history : List Request) (negated : Bool) (path : Path) :
    ((after history).query negated path).Pairwise
      fun first second => ¬first.same second = true := by
  obtain ⟨ledger, distinct, _, query⟩ := after_represents history
  rw [query]
  refine List.Pairwise.filter _ (distinct.imp fun apart same => ?_)
  rw [same] at apart
  cases apart

theorem query_nodup (history : List Request) (negated : Bool) (path : Path) :
    ((after history).query negated path).Nodup := by
  refine (query_distinct history negated path).imp ?_
  rintro fact _ apart rfl
  exact apart (Literal.same_equivalence.refl fact)

theorem query_rearranged (there : (after early).Within (after late))
    (back : (after late).Within (after early)) (negated : Bool) (path : Path) :
    Rearranged (fun first second => first.same second = true)
      ((after early).query negated path) ((after late).query negated path) := by
  refine rearranged_of_covers Literal.same_equivalence (query_distinct early negated path)
    (query_distinct late negated path) (there.covered negated path) fun kept member => ?_
  obtain ⟨fact, isFact, same⟩ := back.covered negated path kept member
  exact ⟨fact, isFact, Literal.same_equivalence.symm same⟩

theorem Within.finds (within : (after early).Within (after late)) (goal : Literal)
    (found : (after early).bindingSets goal ≠ []) : (after late).bindingSets goal ≠ [] := by
  rw [binding_sets_ne_nil_iff] at found ⊢
  rcases found with ⟨fact, isFact, set, accepted⟩
  obtain ⟨kept, isKept, same⟩ := within.covered _ _ fact isFact
  refine ⟨kept, isKept, ?_⟩
  rcases accepted with exactly | byValue
  · obtain ⟨sameSet, kept⟩ := Tier.accepts_same same .exact rfl exactly
    exact ⟨sameSet, .inl kept⟩
  · obtain ⟨sameSet, kept⟩ := Tier.accepts_same same .valueExact rfl byValue
    exact ⟨sameSet, .inr kept⟩

end Histories

/-- Of two histories, let the later base contain all that the earlier one contains: a goal
that is met before is met later. Let both contain the same: the tier is the same, and the
sets are the same in some order. Let them hold equal facts: so are the sets. -/
theorem queries_forget_history (early late : List Request) (goal : Literal) :
    ((after early).Within (after late) → ∀ frame output tally,
      (∃ state, unify goal none ⟨frame, output, ⟨after early, tally⟩⟩ =
        some (.ok Truth.one, state)) →
      ∃ state, unify goal none ⟨frame, output, ⟨after late, tally⟩⟩ =
        some (.ok Truth.one, state)) ∧
    ((after early).Within (after late) ∧ (after late).Within (after early) →
      ((after early).candidates goal).map Prod.fst = ((after late).candidates goal).map Prod.fst ∧
      Rearranged SameSet ((after early).bindingSets goal) ((after late).bindingSets goal)) ∧
    ((∀ negated path fact, fact ∈ (after early).query negated path ↔
        fact ∈ (after late).query negated path) →
      ((after early).candidates goal).map Prod.fst = ((after late).candidates goal).map Prod.fst ∧
      ((after early).bindingSets goal).Perm ((after late).bindingSets goal)) := by
  refine ⟨?_, ?_, ?_⟩
  · intro within frame output tally answered
    rw [unguarded_true_iff] at answered ⊢
    exact within.finds _ answered
  · rintro ⟨there, back⟩
    exact candidates_rearranged (fun tier first second same => Tier.match_same same tier goal)
      (query_rearranged there back _ _)
  · intro equal
    have moved := (List.perm_ext_iff_of_nodup (query_nodup early _ _) (query_nodup late _ _)).mpr
      (equal goal.negated goal.functor)
    rw [← rearranged_eq_iff] at moved ⊢
    refine candidates_rearranged (fun tier first second same => ?_) moved
    rw [same]
    cases tier.match? goal second with
    | none => exact .none
    | some set => exact .some rfl

/-- `report(argument)`, with a source among its annotations or without. -/
def report (argument : Term) (sources : List Term) : Literal :=
  (Literal.ofArguments ⟨"report"⟩ [argument]).withAnnotations
    (sources.map fun source => .ofArguments ⟨"source"⟩ [source])

/-- The fact that comes second moves the answer to the exact tier, where the first one is
not found any more. -/
example :
    let goal := report (.variable "X") [.value (.string "self")]
    let known := report (.value (.int 3)) []
    let better := report (.value (.int 4)) [.value (.string "self")]
    (after [.add known]).candidates goal =
        some (.valueExact, [[("X", .value (.int 3))]]) ∧
      (after [.add known, .add better]).candidates goal =
        some (.exact, [[("X", .value (.int 4))]]) := by
  cbv

end BeliefBase

end Deliberation
