import Deliberation.Proofs.Frame.Instantiation
import Deliberation.Proofs.Term.Equivalence
import Deliberation.Proofs.Term.Order
import Deliberation.Term.Digest

/-!
# One form for annotations

Annotations are given in some order and stored sorted by functor. Two lists give equal
literals exactly when, functor by functor, the same annotations stand in them in the same
order. With one annotation for each functor any order gives one and the same literal, and
what is stored can be put in again without a change.
-/

namespace Deliberation

set_option autoImplicit false

namespace Literal

/-- What the operations on literals give, whatever they are given. -/
inductive Built : Literal → Prop
  | new (functor : Path) (arguments : List Term) : Built (.ofArguments functor arguments)
  | arguments {whole : Literal} (arguments : List Term) (built : Built whole) :
      Built (whole.withArguments arguments)
  | annotations {whole : Literal} (notes : List Literal) (built : Built whole) :
      Built (whole.withAnnotations notes)
  | negated {whole : Literal} (negated : Bool) (built : Built whole) :
      Built (whole.withNegated negated)
  | ordered {whole : Literal} (ordered : Bool) (built : Built whole) :
      Built (whole.withOrdered ordered)
  | instantiated {whole : Literal} (frame : Frame) (built : Built whole) :
      Built (frame.instantiate whole)

theorem Built.sorted {whole : Literal} (built : whole.Built) :
    sortByFunctor whole.annotations = whole.annotations := by
  induction built with
  | new functor arguments => rfl
  | @arguments whole arguments _ ih =>
      cases whole
      exact ih
  | @annotations whole notes _ _ =>
      cases whole
      exact sort_sorted notes
  | @negated whole negated _ ih =>
      cases whole
      exact ih
  | @ordered whole ordered _ ih =>
      cases whole
      exact ih
  | @instantiated whole frame _ ih =>
      rw [frame.instantiate_annotations, frame.sort_instantiated, ih]

def sameness : Setoid Literal :=
  ⟨fun left right => left.same right = true, same_equivalence⟩

/-- A literal up to equality of literals. -/
def Class : Type :=
  Quotient sameness

namespace Class

def of (inner : Literal) : Class :=
  Quotient.mk sameness inner

def functor : Class → Path :=
  Quotient.lift Literal.functor fun left right same => ((same_iff left right).mp same).1.1

theorem of_functor (inner : Literal) : (of inner).functor = inner.functor :=
  rfl

theorem of_eq_iff (left right : Literal) : of left = of right ↔ left.same right = true :=
  ⟨fun equal => Quotient.exact equal, fun same => Quotient.sound same⟩

end Class

theorem all_same_iff_classes (notes others : List Literal) :
    Literal.allSame notes others = true ↔ notes.map Class.of = others.map Class.of := by
  rw [all_same_iff, ← List.forall₂_eq_eq_eq, List.forall₂_map_left_iff,
    List.forall₂_map_right_iff]
  simp only [Class.of_eq_iff]

/-- The order in which annotations of one functor are given is all that sorting leaves of
the order in which all are given. -/
theorem all_same_sorted_iff (notes others : List Literal) :
    Literal.allSame (sortByFunctor notes) (sortByFunctor others) = true ↔
      ∀ path, Literal.allSame (notes.filter fun note => note.functor = path)
        (others.filter fun note => note.functor = path) = true := by
  have sorted (list : List Literal) :
      (sortByFunctor list).map Class.of = stableSort (byKey Class.functor) (list.map Class.of) :=
    (sort_by_key_map Literal.functor Class.of_functor list).symm
  have ofOne (list : List Literal) (path : Path) :
      (list.filter fun note => note.functor = path).map Class.of =
        (list.map Class.of).filter fun note => note.functor = path := by
    rw [List.filter_map]
    rfl
  simp only [all_same_iff_classes, sorted, ofOne]
  exact sort_by_key_eq_iff Class.functor _ _

theorem with_annotations_same_iff (whole : Literal) (notes others : List Literal) :
    (whole.withAnnotations notes).same (whole.withAnnotations others) = true ↔
      Literal.allSame (sortByFunctor notes) (sortByFunctor others) = true := by
  cases whole with
  | mk functor negated ordered arguments annotations =>
      have sameArguments : Term.allSame arguments arguments = true :=
        (Term.all_same_iff ..).mpr (List.forall₂_same.mpr fun term _ => same_reflexive.1 term)
      simp [withAnnotations, Literal.same, sameArguments]

/-- Two lists of annotations make equal literals exactly when they agree on the annotations
of each functor. One annotation for each functor makes one and the same literal in any
order, and the annotations that a literal has stored change nothing when put in again. -/
theorem annotations_of_one_form (whole : Literal) (notes others : List Literal) :
    ((whole.withAnnotations notes).same (whole.withAnnotations others) = true ↔
      ∀ path, Literal.allSame (notes.filter fun note => note.functor = path)
        (others.filter fun note => note.functor = path) = true) ∧
    (notes.Perm others → (notes.map functor).Nodup →
      whole.withAnnotations notes = whole.withAnnotations others ∧
      ∀ hash : Hasher, (whole.withAnnotations notes).annotationDigest hash =
        (whole.withAnnotations others).annotationDigest hash) ∧
    (whole.Built → whole.withAnnotations whole.annotations = whole) := by
  refine ⟨?_, ?_, ?_⟩
  · rw [with_annotations_same_iff, all_same_sorted_iff]
  · intro perm distinct
    have sorted : sortByFunctor notes = sortByFunctor others :=
      sort_by_key_perm functor perm distinct
    have equal : whole.withAnnotations notes = whole.withAnnotations others := by
      cases whole
      rw [withAnnotations, withAnnotations, sorted]
    exact ⟨equal, fun hash => congrArg (annotationDigest hash) equal⟩
  · intro built
    have sorted := built.sorted
    cases whole
    rw [annotations] at sorted ⊢
    rw [withAnnotations, sorted]

/-- `functor(number)`. -/
def noted (functor : String) (number : Int64) : Literal :=
  .ofArguments ⟨functor⟩ [.value (.int number)]

/-- A trip whose notes are of different functors, given in two orders. -/
theorem noted_trip_of_one_form :
    let notes := [noted "by" 1, noted "at" 2, noted "for" 3]
    let others := [noted "for" 3, noted "by" 1, noted "at" 2]
    let trip := (atom ⟨"trip"⟩).withAnnotations notes
    notes.Perm others ∧ (notes.map functor).Nodup ∧ trip.Built ∧
      trip = (atom ⟨"trip"⟩).withAnnotations others ∧
      trip.withAnnotations trip.annotations = trip ∧
      (trip.withAnnotations [noted "by" 1, noted "at" 2, noted "by" 3]).same
        (trip.withAnnotations [noted "at" 2, noted "by" 1, noted "by" 3]) = true ∧
      (trip.withAnnotations [noted "by" 1, noted "by" 3]).same
        (trip.withAnnotations [noted "by" 3, noted "by" 1]) = false := by
  intro notes others trip
  have perm : notes.Perm others :=
    @List.perm_append_comm _ [noted "by" 1, noted "at" 2] [noted "for" 3]
  have distinct : (notes.map functor).Nodup := by decide
  have built : trip.Built := .annotations notes (.new ⟨"trip"⟩ [])
  have whole := annotations_of_one_form (atom ⟨"trip"⟩) notes others
  have again := annotations_of_one_form trip notes others
  exact ⟨perm, distinct, built, (whole.2.1 perm distinct).1, again.2.2 built,
    by decide +kernel, by decide +kernel⟩

end Literal

end Deliberation
