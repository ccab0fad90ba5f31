import Deliberation.Proofs.StableSort
import Deliberation.Proofs.Term.Structure

/-!
# The order of annotations

Annotations are sorted by functor, and those of one functor stay as they stand. So what a
list of annotations is sorted to is settled by its sublists of one functor each, sorting
what is sorted changes nothing, and a change that keeps functors can be made before or
after sorting.
-/

namespace Deliberation

set_option autoImplicit false

namespace Path

theorem precedes_total (left right : Path) :
    left.precedes right = true ∨ right.precedes left = true := by
  simp only [precedes, decide_eq_true_eq]
  exact String.le_total left.text right.text

theorem precedes_trans {first second third : Path} (early : first.precedes second = true)
    (late : second.precedes third = true) : first.precedes third = true := by
  simp only [precedes, decide_eq_true_eq] at early late ⊢
  exact String.le_trans early late

theorem precedes_self (path : Path) : path.precedes path = true := by
  simp only [precedes, decide_eq_true_eq]
  exact String.le_refl path.text

theorem precedes_both_iff (left right : Path) :
    (left.precedes right = true ∧ right.precedes left = true) ↔ left = right := by
  constructor
  · rintro ⟨early, late⟩
    simp only [precedes, decide_eq_true_eq] at early late
    exact congrArg Path.mk (String.le_antisymm early late)
  · rintro rfl
    exact ⟨precedes_self left, precedes_self left⟩

end Path

section Keys

variable {α : Type} (key : α → Path)

def byKey (left right : α) : Bool :=
  (key left).precedes (key right)

theorem sorted_by_key (list : List α) :
    (stableSort (byKey key) list).Pairwise fun earlier later => byKey key earlier later = true :=
  stable_sort_in_order (fun left right => Path.precedes_total (key left) (key right))
    (fun _ _ _ => Path.precedes_trans) list

/-- The elements of one key stay as they stand. -/
theorem sort_by_key_filter (list : List α) (path : Path) :
    (stableSort (byKey key) list).filter (fun element => key element = path) =
      list.filter fun element => key element = path := by
  refine stable_sort_filter (fun left right isLeft isRight => ?_) list
  rw [decide_eq_true_eq] at isLeft isRight
  rw [byKey, isLeft, isRight]
  exact Path.precedes_self path

/-- What a list is sorted to is settled by its sublists of one key each. -/
theorem sort_by_key_eq_iff (left right : List α) :
    stableSort (byKey key) left = stableSort (byKey key) right ↔
      ∀ path, left.filter (fun element => key element = path) =
        right.filter fun element => key element = path := by
  constructor
  · intro same path
    rw [← sort_by_key_filter key left, same, sort_by_key_filter]
  · intro alike
    refine eq_of_in_order (fun element => Path.precedes_self (key element))
      (sorted_by_key key left) (sorted_by_key key right) fun element => ?_
    have ofOneKey : tied (byKey key) element = fun other => decide (key other = key element) := by
      funext other
      rw [tied, byKey, byKey, Bool.eq_iff_iff, Bool.and_eq_true, Path.precedes_both_iff,
        decide_eq_true_eq]
      exact eq_comm
    rw [ofOneKey, sort_by_key_filter, sort_by_key_filter, alike]

/-- Elements of different keys may be given in any order. -/
theorem sort_by_key_perm {left right : List α} (perm : left.Perm right)
    (distinct : (left.map key).Nodup) :
    stableSort (byKey key) left = stableSort (byKey key) right := by
  have leftPerm := stable_sort_perm (byKey key) left
  have rightPerm := stable_sort_perm (byKey key) right
  refine List.Perm.eq_of_pairwise ?_ (sorted_by_key key left) (sorted_by_key key right)
    ((leftPerm.trans perm).trans rightPerm.symm)
  intro first second onLeft onRight early late
  have sameKey := (Path.precedes_both_iff (key first) (key second)).mp ⟨early, late⟩
  have secondOnLeft := perm.mem_iff.mpr (rightPerm.mem_iff.mp onRight)
  exact List.inj_on_of_nodup_map distinct (leftPerm.mem_iff.mp onLeft) secondOnLeft sameKey

/-- Keys being kept, it does not matter whether sorting comes first. -/
theorem sort_by_key_map {β : Type} {other : β → Path} {change : α → β}
    (keeps : ∀ element, other (change element) = key element) (list : List α) :
    stableSort (byKey other) (list.map change) = (stableSort (byKey key) list).map change := by
  apply stable_sort_map
  intro left right
  rw [byKey, byKey, keeps, keeps]

end Keys

namespace Literal

theorem sort_by_functor_eq (notes : List Literal) :
    sortByFunctor notes = stableSort (byKey functor) notes :=
  rfl

theorem mem_sort_iff (note : Literal) (notes : List Literal) :
    note ∈ sortByFunctor notes ↔ note ∈ notes :=
  (stable_sort_perm _ notes).mem_iff

/-- Sorting what is sorted changes nothing. -/
theorem sort_sorted (notes : List Literal) :
    sortByFunctor (sortByFunctor notes) = sortByFunctor notes := by
  rw [sort_by_functor_eq, sort_by_functor_eq, sort_by_key_eq_iff]
  exact sort_by_key_filter functor notes

theorem sort_map {change : Literal → Literal}
    (keeps : ∀ note, (change note).functor = note.functor) (notes : List Literal) :
    sortByFunctor (notes.map change) = (sortByFunctor notes).map change :=
  sort_by_key_map functor keeps notes

end Literal

mutual

/-- Wherever a term holds a literal, its annotations stand in order. -/
inductive Term.InOrder : Term → Prop
  | value (raw : Value) : Term.InOrder (.value raw)
  | free (name : String) : Term.InOrder (.variable name)
  | carrying {own : Term} (name : String) (inOrder : Term.InOrder own) :
      Term.InOrder (.bound name own)
  | nested {inner : Literal} (inOrder : Literal.InOrder inner) : Term.InOrder (.literal inner)

inductive Literal.InOrder : Literal → Prop
  | literal {arguments : List Term} {annotations : List Literal} (functor : Path)
      (negated ordered : Bool) (ofArguments : ∀ argument ∈ arguments, Term.InOrder argument)
      (ofNotes : ∀ note ∈ annotations, Literal.InOrder note)
      (sorted : Literal.sortByFunctor annotations = annotations) :
      Literal.InOrder (.mk functor negated ordered arguments annotations)

end

end Deliberation
