import Deliberation.Proofs.Frame.Carried
import Deliberation.Proofs.Frame.Structure
import Deliberation.Proofs.StableSort
import Mathlib.Tactic.SplitIfs

/-!
# Instantiating part by part

A literal with an unbound variable somewhere is instantiated part by part: its arguments
are resolved and its annotations instantiated. A ground literal is kept whole. Its parts
come out the same all the same, but for an argument that carries a term: resolving never
leaves such a variable in place, and keeping the literal does. Annotations keep their
functors, so sorting them once more would move none of them.
-/

namespace Deliberation

set_option autoImplicit false

theorem Literal.is_ground_iff (inner : Literal) :
    inner.isGround = true ↔
      (∀ argument ∈ inner.arguments, argument.isGround = true) ∧
        ∀ note ∈ inner.annotations, note.isGround = true := by
  cases inner
  rw [Literal.isGround, Bool.and_eq_true, Term.all_ground_iff, Literal.all_ground_iff]
  rfl

namespace Frame

variable (frame : Frame)

/-- Resolving replaces every variable that carries a term or leaves it without one. -/
theorem resolve_leaves_no_carrier (chain : List String) (term : Term) (name : String)
    (own : Term) : frame.resolveFrom chain term ≠ .bound name own := by
  have resolution : InductiveResolution frame
      (fun chain term => ∀ name own, frame.resolveFrom chain term ≠ .bound name own)
      (fun _ _ => True) := by
    constructor
    case value =>
      intro chain raw name own
      rw [resolveFrom]
      simp
    case stopped =>
      intro chain free onChain name own
      rw [resolve_free_from, if_pos onChain]
      simp
    case followed =>
      intro chain free content fresh found ih
      rw [resolve_free_from, if_neg fresh, found]
      exact ih
    case free =>
      intro chain free fresh found name own
      rw [resolve_free_from, if_neg fresh, found]
      simp
    case carrierStopped =>
      intro chain carrier carried onChain name own
      rw [resolve_bound_from, if_pos onChain]
      simp
    case carrierFollowed =>
      intro chain carrier carried content fresh found ih
      rw [resolve_bound_from, if_neg fresh, found]
      exact ih
    case carrierOpened =>
      intro chain carrier carried fresh found ih
      rw [resolve_bound_from, if_neg fresh, found]
      exact ih
    case nested =>
      intro chain inner _ name own
      rw [resolveFrom]
      simp
    case literal => simp
  exact (resolution.holds chain).1 term name own

theorem instantiate_functor (chain : List String) (inner : Literal) :
    (frame.instantiateFrom chain inner).functor = inner.functor := by
  cases inner
  rw [instantiateFrom]
  split <;> rfl

theorem instantiate_open (chain : List String) (inner : Literal)
    (isOpen : inner.isGround = false) :
    frame.instantiateFrom chain inner =
      .mk inner.functor inner.negated inner.ordered
        (inner.arguments.map (frame.resolveFrom chain))
        (inner.annotations.map (frame.instantiateFrom chain)) := by
  rcases inner with ⟨functor, negated, ordered, arguments, annotations⟩
  rw [Literal.isGround] at isOpen
  rw [instantiateFrom, isOpen, resolve_all_eq, instantiate_all_eq]
  rfl

/-- A ground term is resolved to itself unless it is a variable that carries a term. -/
theorem resolve_ground_iff (chain : List String) (term : Term) (ground : term.isGround = true) :
    frame.resolveFrom chain term = term ↔ ¬∃ name own, term = .bound name own := by
  rcases term with raw | name | ⟨name, own⟩ | inner
  · rw [resolveFrom]
    simp
  · simp [Term.isGround] at ground
  · constructor
    · intro kept
      exact absurd kept (frame.resolve_leaves_no_carrier chain _ name own)
    · intro noCarrier
      exact absurd ⟨name, own, rfl⟩ noCarrier
  · rw [resolveFrom, frame.instantiate_ground chain inner ground]
    simp

theorem instantiate_argument (inner : Literal) (position : Nat) :
    (frame.instantiate inner).arguments[position]? =
      if inner.isGround then inner.arguments[position]?
      else inner.arguments[position]?.map frame.resolve := by
  rw [instantiate]
  split_ifs with ground
  · rw [frame.instantiate_ground [] inner ground]
  · rw [frame.instantiate_open [] inner ((Bool.not_eq_true _).mp ground)]
    exact List.getElem?_map ..

theorem instantiate_annotations (inner : Literal) :
    (frame.instantiate inner).annotations = inner.annotations.map frame.instantiate := by
  rw [instantiate]
  cases ground : inner.isGround with
  | false =>
      rw [frame.instantiate_open [] inner ground]
      rfl
  | true =>
      have groundNotes := ((Literal.is_ground_iff _).mp ground).2
      have kept : inner.annotations.map frame.instantiate = inner.annotations.map id :=
        List.map_congr_left fun note member =>
          frame.instantiate_ground [] note (groundNotes note member)
      rw [frame.instantiate_ground [] inner ground, kept, List.map_id]

/-- Instantiated annotations are sorted as the annotations were. -/
theorem sort_instantiated (notes : List Literal) :
    Literal.sortByFunctor (notes.map frame.instantiate) =
      (Literal.sortByFunctor notes).map frame.instantiate := by
  apply stable_sort_map
  intro left right
  rw [instantiate, instantiate, instantiate_functor, instantiate_functor]

/-- Arguments are instantiated one by one, each to what it resolves to, except for those
of a ground literal that carry a term. Annotations are instantiated one by one. Where
they stand in order, putting the new parts into the literal leaves them in order. -/
theorem instantiate_by_parts (frame : Frame) (inner : Literal) :
    (∀ position : Nat,
      (frame.instantiate inner).arguments[position]? =
          inner.arguments[position]?.map frame.resolve ↔
        ¬(inner.isGround = true ∧
          ∃ name own, inner.arguments[position]? = some (.bound name own))) ∧
    (inner.isGround = true → frame.instantiate inner = inner) ∧
    (∀ position : Nat, (frame.instantiate inner).annotations[position]? =
      inner.annotations[position]?.map frame.instantiate) ∧
    (inner.isGround = false → Literal.sortByFunctor inner.annotations = inner.annotations →
      frame.instantiate inner =
        (inner.withArguments (inner.arguments.map frame.resolve)).withAnnotations
          (inner.annotations.map frame.instantiate)) := by
  refine ⟨?_, frame.instantiate_ground [] inner, ?_, ?_⟩
  · intro position
    rw [instantiate_argument]
    split_ifs with ground
    · cases found : inner.arguments[position]? with
      | none => simp
      | some argument =>
          have groundArgument := ((Literal.is_ground_iff _).mp ground).1 argument
            (List.mem_of_getElem? found)
          have resolved := frame.resolve_ground_iff [] argument groundArgument
          simp only [Option.map_some, Option.some.injEq, ground, true_and, ← resolved]
          exact eq_comm
    · simp [ground]
  · intro position
    rw [instantiate_annotations]
    exact List.getElem?_map ..
  · intro isOpen inOrder
    rw [instantiate, frame.instantiate_open [] inner isOpen]
    cases inner
    change _ = Literal.mk _ _ _ _ (Literal.sortByFunctor _)
    rw [sort_instantiated]
    exact congrArg (fun notes => Literal.mk _ _ _ _ (notes.map frame.instantiate)) inOrder.symm

/-- The number 5, carried by `X`. -/
def taken : Term :=
  .bound "X" (.value (.int 5))

/-- The argument of `seat(X)` resolves to the number that `X` carries, and the literal
keeps `X` all the same. -/
theorem taken_seat_kept :
    (empty.instantiate (.ofArguments ⟨"seat"⟩ [taken])).arguments[0]? = some taken ∧
      (Literal.ofArguments ⟨"seat"⟩ [taken]).arguments[0]?.map empty.resolve =
        some (.value (.int 5)) := by
  constructor
  · cbv
  · cbv

end Frame

end Deliberation
