import Deliberation.Match.Candidates

/-!
# First offers, position by position

Paired leaves are read by position here. A position makes an offer where an
unbound variable of the goal meets a leaf that is no unbound variable, and the
first position that offers to a name is the one that is kept. Kept offers stand
in the order of their positions, so this reading leaves one list only.
-/

namespace Deliberation

set_option autoImplicit false

/-- The variable of the goal and the leaf that it meets at a position. -/
def OfferAt (aligned : List (Term × Term)) (position : Nat) (offer : String × Term) : Prop :=
  aligned[position]? = some (.variable offer.1, offer.2) ∧ ∀ name, offer.2 ≠ .variable name

def FirstOfferAt (aligned : List (Term × Term)) (position : Nat) (offer : String × Term) : Prop :=
  OfferAt aligned position offer ∧
    ∀ earlier < position, ∀ leaf, ¬OfferAt aligned earlier (offer.1, leaf)

/-- A set lists the first offers to all names, by rising position. -/
def KeepsFirst (aligned : List (Term × Term)) (set : Bindings) : Prop :=
  ∃ entries : List (Nat × String × Term),
    entries.map Prod.snd = set ∧
    entries.Pairwise (fun left right => left.1 < right.1) ∧
    ∀ position offer, (position, offer) ∈ entries ↔ FirstOfferAt aligned position offer

def pairOffers (aligned : List (Term × Term)) : Bindings :=
  aligned.filterMap fun pair => offer? pair.1 pair.2

theorem mem_first_offers {offer : String × Term} {list : Bindings}
    (member : offer ∈ firstOffers list) : offer ∈ list := by
  induction list with
  | nil => exact member
  | cons first rest ih =>
      rcases List.mem_cons.mp member with same | later
      · rw [same]
        exact List.mem_cons_self
      · exact List.mem_cons_of_mem _ (ih (List.mem_filter.mp later).1)

theorem first_offers_nodup (list : Bindings) : ((firstOffers list).map Prod.fst).Nodup := by
  induction list with
  | nil => exact List.nodup_nil
  | cons first rest ih =>
      rw [firstOffers, List.map_cons, List.nodup_cons]
      constructor
      · intro repeated
        obtain ⟨other, kept, same⟩ := List.mem_map.mp repeated
        exact of_decide_eq_true (List.mem_filter.mp kept).2 same
      · exact ih.sublist (List.filter_sublist.map Prod.fst)

theorem offer_eq_some_iff (wanted given : Term) (offer : String × Term) :
    offer? wanted given = some offer ↔
      wanted = .variable offer.1 ∧ given = offer.2 ∧ ∀ name, offer.2 ≠ .variable name := by
  rcases offer with ⟨name, leaf⟩
  cases wanted <;> cases given <;> simp [offer?, Term.unbound?] <;> grind

theorem mem_pair_offers {offer : String × Term} {aligned : List (Term × Term)}
    (member : offer ∈ pairOffers aligned) :
    (Term.variable offer.1, offer.2) ∈ aligned ∧ ∀ name, offer.2 ≠ .variable name := by
  obtain ⟨⟨wanted, given⟩, isPair, made⟩ := List.mem_filterMap.mp member
  obtain ⟨rfl, rfl, bound⟩ := (offer_eq_some_iff ..).mp made
  exact ⟨isPair, bound⟩

theorem offer_at_zero (pair : Term × Term) (rest : List (Term × Term)) (offer : String × Term) :
    OfferAt (pair :: rest) 0 offer ↔ offer? pair.1 pair.2 = some offer := by
  rcases pair with ⟨wanted, given⟩
  rw [offer_eq_some_iff]
  simp [OfferAt, and_assoc]

theorem offer_at_succ (pair : Term × Term) (rest : List (Term × Term)) (position : Nat)
    (offer : String × Term) :
    OfferAt (pair :: rest) (position + 1) offer ↔ OfferAt rest position offer := by
  simp [OfferAt]

theorem first_offer_at_zero (pair : Term × Term) (rest : List (Term × Term))
    (offer : String × Term) :
    FirstOfferAt (pair :: rest) 0 offer ↔ offer? pair.1 pair.2 = some offer := by
  simp [FirstOfferAt, offer_at_zero]

/-- Behind a pair, the first offers are those of the rest that are not made to the
name that the pair itself offers to. -/
theorem first_offer_at_succ (pair : Term × Term) (rest : List (Term × Term)) (position : Nat)
    (offer : String × Term) :
    FirstOfferAt (pair :: rest) (position + 1) offer ↔
      FirstOfferAt rest position offer ∧ ∀ leaf, offer? pair.1 pair.2 ≠ some (offer.1, leaf) := by
  constructor
  · intro told
    rcases told with ⟨made, first⟩
    refine ⟨⟨(offer_at_succ ..).mp made, ?_⟩, ?_⟩
    · intro earlier before leaf found
      exact first (earlier + 1) (by omega) leaf ((offer_at_succ ..).mpr found)
    · intro leaf found
      exact first 0 (by omega) leaf ((offer_at_zero ..).mpr found)
  · intro told
    rcases told with ⟨⟨made, first⟩, unoffered⟩
    refine ⟨(offer_at_succ ..).mpr made, ?_⟩
    intro earlier before leaf found
    cases earlier with
    | zero => exact unoffered leaf ((offer_at_zero ..).mp found)
    | succ earlier =>
        exact first earlier (by omega) leaf ((offer_at_succ ..).mp found)

def later (entry : Nat × String × Term) : Nat × String × Term :=
  (entry.1 + 1, entry.2)

theorem mem_later_zero (entries : List (Nat × String × Term)) (offer : String × Term) :
    (0, offer) ∉ entries.map later := by
  simp [later]

theorem mem_later_succ (entries : List (Nat × String × Term)) (position : Nat)
    (offer : String × Term) :
    (position + 1, offer) ∈ entries.map later ↔ (position, offer) ∈ entries := by
  simp only [List.mem_map, later, Prod.mk.injEq, Nat.add_right_cancel_iff]
  constructor
  · intro told
    rcases told with ⟨⟨found, entry⟩, member, rfl, rfl⟩
    exact member
  · intro member
    exact ⟨_, member, rfl, rfl⟩

theorem pairwise_later {entries : List (Nat × String × Term)}
    (rising : entries.Pairwise fun left right => left.1 < right.1) :
    (entries.map later).Pairwise fun left right => left.1 < right.1 := by
  rw [List.pairwise_map]
  exact rising.imp fun before => Nat.succ_lt_succ before

theorem keeps_first_cons_none {pair : Term × Term} {rest : List (Term × Term)} {set : Bindings}
    (silent : offer? pair.1 pair.2 = none) (kept : KeepsFirst rest set) :
    KeepsFirst (pair :: rest) set := by
  rcases kept with ⟨entries, contents, rising, members⟩
  have sameContents : (entries.map later).map Prod.snd = set := by
    rw [List.map_map]
    exact contents
  refine ⟨entries.map later, sameContents, pairwise_later rising, ?_⟩
  intro position offer
  cases position with
  | zero => simp [mem_later_zero, first_offer_at_zero, silent]
  | succ position => simp [mem_later_succ, first_offer_at_succ, members, silent]

/-- A pair that makes an offer outdoes the later offers to its name. -/
theorem keeps_first_cons_some {pair : Term × Term} {rest : List (Term × Term)} {set : Bindings}
    {made : String × Term} (found : offer? pair.1 pair.2 = some made)
    (kept : KeepsFirst rest set) :
    KeepsFirst (pair :: rest) (made :: set.filter fun other => decide (other.1 ≠ made.1)) := by
  rcases kept with ⟨entries, contents, rising, members⟩
  let others := entries.filter fun entry => decide (entry.2.1 ≠ made.1)
  have othersRising : others.Pairwise fun left right => left.1 < right.1 := rising.filter _
  refine ⟨(0, made) :: others.map later, ?_, ?_, ?_⟩
  · have sameContents :
        others.map Prod.snd = set.filter fun other => decide (other.1 ≠ made.1) := by
      rw [← contents, List.filter_map]
      rfl
    rw [List.map_cons, List.map_map, ← sameContents]
    rfl
  · refine List.pairwise_cons.mpr ⟨?_, pairwise_later othersRising⟩
    intro entry member
    obtain ⟨earlier, _, rfl⟩ := List.mem_map.mp member
    exact Nat.succ_pos _
  · intro position offer
    cases position with
    | zero => simp [mem_later_zero, first_offer_at_zero, found, eq_comm]
    | succ position =>
        have unoffered : (∀ leaf, offer? pair.1 pair.2 ≠ some (offer.1, leaf)) ↔
            offer.1 ≠ made.1 := by
          rw [found]
          constructor
          · intro apart same
            exact apart made.2 (by rw [same])
          · intro apart leaf same
            exact apart (congrArg Prod.fst (Option.some.inj same)).symm
        rw [first_offer_at_succ, unoffered, ← members]
        simp [mem_later_succ, others]

theorem keeps_first_offers (aligned : List (Term × Term)) :
    KeepsFirst aligned (firstOffers (pairOffers aligned)) := by
  induction aligned with
  | nil => exact ⟨[], rfl, List.Pairwise.nil, by simp [FirstOfferAt, OfferAt]⟩
  | cons pair rest ih =>
      cases found : offer? pair.1 pair.2 with
      | none =>
          have same : pairOffers (pair :: rest) = pairOffers rest := by
            simp [pairOffers, found]
          rw [same]
          exact keeps_first_cons_none found ih
      | some made =>
          have more : pairOffers (pair :: rest) = made :: pairOffers rest := by
            simp [pairOffers, found]
          rw [more, firstOffers]
          exact keeps_first_cons_some found ih

theorem keeps_first_unique {aligned : List (Term × Term)} {left right : Bindings}
    (keptLeft : KeepsFirst aligned left) (keptRight : KeepsFirst aligned right) :
    left = right := by
  rcases keptLeft with ⟨leftEntries, rfl, leftRising, leftMembers⟩
  rcases keptRight with ⟨rightEntries, rfl, rightRising, rightMembers⟩
  have leftNodup : leftEntries.Nodup := leftRising.imp fun before same => by
    rw [same] at before
    exact Nat.lt_irrefl _ before
  have rightNodup : rightEntries.Nodup := rightRising.imp fun before same => by
    rw [same] at before
    exact Nat.lt_irrefl _ before
  have members : ∀ entry, entry ∈ leftEntries ↔ entry ∈ rightEntries := fun entry =>
    (leftMembers entry.1 entry.2).trans (rightMembers entry.1 entry.2).symm
  have sameEntries : leftEntries = rightEntries :=
    List.Perm.eq_of_pairwise (fun _ _ _ _ before after => absurd after (Nat.lt_asymm before))
      leftRising rightRising ((List.perm_ext_iff_of_nodup leftNodup rightNodup).mpr members)
  rw [sameEntries]

theorem keeps_first_iff (aligned : List (Term × Term)) (set : Bindings) :
    KeepsFirst aligned set ↔ set = firstOffers (pairOffers aligned) := by
  constructor
  · intro kept
    exact keeps_first_unique kept (keeps_first_offers aligned)
  · rintro rfl
    exact keeps_first_offers aligned

end Deliberation
