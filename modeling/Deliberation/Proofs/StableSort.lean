import Deliberation.StableSort
import Mathlib.Data.List.Sort

/-!
# Sorting moves elements and keeps them all

The order alone decides where an element goes, so a change that the order does not see
can be made before or after sorting. Elements that may precede each other stay as they
stand, and a list in order is settled by how such elements stand in it.
-/

namespace Deliberation

set_option autoImplicit false

variable {α β : Type} (precedes : α → α → Bool)

theorem stable_sort_eq (list : List α) :
    stableSort precedes list =
      list.insertionSort fun left right => precedes left right = true := by
  have inserted : ∀ (element : α) (sorted : List α), insertSorted precedes element sorted =
      sorted.orderedInsert (fun left right => precedes left right = true) element := by
    intro element sorted
    induction sorted with
    | nil => rfl
    | cons head rest ih => rw [insertSorted, List.orderedInsert_cons, ih]
  induction list with
  | nil => rfl
  | cons head rest ih => rw [stableSort, List.insertionSort_cons, ih, inserted]

theorem stable_sort_perm (list : List α) : (stableSort precedes list).Perm list := by
  rw [stable_sort_eq]
  exact List.perm_insertionSort _ list

variable {precedes}

theorem stable_sort_map {other : β → β → Bool} {change : α → β}
    (unseen : ∀ left right, other (change left) (change right) = precedes left right)
    (list : List α) :
    stableSort other (list.map change) = (stableSort precedes list).map change := by
  rw [stable_sort_eq, stable_sort_eq]
  refine (List.map_insertionSort _ _ change list fun left _ right _ => ?_).symm
  rw [unseen]

theorem stable_sort_in_order
    (total : ∀ left right, precedes left right = true ∨ precedes right left = true)
    (trans : ∀ first second third, precedes first second = true → precedes second third = true →
      precedes first third = true)
    (list : List α) :
    (stableSort precedes list).Pairwise fun earlier later => precedes earlier later = true := by
  have isTotal : Std.Total fun left right => precedes left right = true := ⟨total⟩
  have isTrans : IsTrans α fun left right => precedes left right = true := ⟨trans⟩
  rw [stable_sort_eq]
  exact List.pairwise_insertionSort _ list

/-- Elements that may precede each other stay as they stand. -/
theorem stable_sort_filter {keep : α → Bool}
    (tied : ∀ left right, keep left = true → keep right = true → precedes left right = true)
    (list : List α) : (stableSort precedes list).filter keep = list.filter keep := by
  have allTied : (list.filter keep).Pairwise fun left right => precedes left right = true := by
    refine List.pairwise_of_forall_mem_list fun left isLeft right isRight => ?_
    exact tied left right (List.mem_filter.mp isLeft).2 (List.mem_filter.mp isRight).2
  have kept := (List.sublist_insertionSort allTied List.filter_sublist).filter keep
  rw [List.filter_filter, ← stable_sort_eq] at kept
  simp only [Bool.and_self] at kept
  have sameLength := ((stable_sort_perm precedes list).filter keep).length_eq
  exact (kept.eq_of_length sameLength.symm).symm

/-- Each may precede the other. -/
def tied (precedes : α → α → Bool) (left right : α) : Bool :=
  precedes left right && precedes right left

section InOrder

variable (reflexive : ∀ element, precedes element element = true)

include reflexive

theorem mem_of_tied_alike {left right : List α}
    (alike : ∀ element, left.filter (tied precedes element) =
      right.filter (tied precedes element)) {element : α} (member : element ∈ left) :
    element ∈ right := by
  have self : tied precedes element element = true := by simp [tied, reflexive]
  have kept := List.mem_filter.mpr ⟨member, self⟩
  rw [alike element] at kept
  exact (List.mem_filter.mp kept).1

theorem head_precedes {head : α} {rest : List α}
    (inOrder : (head :: rest).Pairwise fun earlier later => precedes earlier later = true)
    {element : α} (member : element ∈ head :: rest) : precedes head element = true := by
  rcases List.mem_cons.mp member with rfl | behind
  · exact reflexive element
  · exact List.rel_of_pairwise_cons inOrder behind

/-- Two lists in order are equal if all tied elements stand alike in them. -/
theorem eq_of_in_order {left right : List α}
    (leftOrder : left.Pairwise fun earlier later => precedes earlier later = true)
    (rightOrder : right.Pairwise fun earlier later => precedes earlier later = true)
    (alike : ∀ element, left.filter (tied precedes element) =
      right.filter (tied precedes element)) : left = right := by
  induction left generalizing right with
  | nil =>
      cases right with
      | nil => rfl
      | cons other others =>
          cases mem_of_tied_alike reflexive (fun element => (alike element).symm)
            (List.mem_cons_self (a := other) (l := others))
  | cons head rest ih =>
      have headKept :=
        mem_of_tied_alike reflexive alike (List.mem_cons_self (a := head) (l := rest))
      cases right with
      | nil => cases headKept
      | cons other others =>
          have otherKept := mem_of_tied_alike reflexive (fun element => (alike element).symm)
            (List.mem_cons_self (a := other) (l := others))
          -- Each head may precede the other, so both come first among those tied with them.
          have both : tied precedes head other = true := by
            rw [tied, head_precedes reflexive leftOrder otherKept,
              head_precedes reflexive rightOrder headKept]
            rfl
          have self : tied precedes head head = true := by simp [tied, reflexive]
          have heads := alike head
          rw [List.filter_cons_of_pos self, List.filter_cons_of_pos both] at heads
          obtain ⟨rfl, -⟩ := List.cons.inj heads
          refine congrArg (head :: ·) (ih leftOrder.of_cons rightOrder.of_cons fun element => ?_)
          have here := alike element
          by_cases isTied : tied precedes element head = true
          · rw [List.filter_cons_of_pos isTied, List.filter_cons_of_pos isTied] at here
            exact (List.cons.inj here).2
          · rwa [List.filter_cons_of_neg isTied, List.filter_cons_of_neg isTied] at here

end InOrder

end Deliberation
