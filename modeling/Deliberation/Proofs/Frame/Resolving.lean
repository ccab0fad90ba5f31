import Deliberation.Frame.Resolve
import Deliberation.Proofs.Frame.Slots
import Deliberation.Proofs.Term.Plain

/-!
# Resolving plain terms

In a plain literal resolving does not depend on groundness: it goes part by part.
In a frame whose allocated slots all hold raw values a variable resolves to its
value, and to itself if it has none.
-/

namespace Deliberation

set_option autoImplicit false

namespace Frame

variable (frame : Frame)

/-- Every allocated slot holds a raw value. -/
def Raw : Prop :=
  ∀ name term, frame.value? name = some term → ∃ raw, term = .value raw

theorem resolve_free_from (chain : List String) (name : String) :
    frame.resolveFrom chain (.variable name) =
      if name ∈ chain then .variable name
      else
        match frame.value? name with
        | some content => frame.resolveFrom (name :: chain) content
        | none => .variable name := by
  rw [resolveFrom]
  split_ifs with onChain
  · rfl
  · split <;> rename_i found <;> rw [found]

theorem resolve_all_eq (chain : List String) (terms : List Term) :
    frame.resolveAllFrom chain terms = terms.map (frame.resolveFrom chain) := by
  induction terms with
  | nil => rw [resolveAllFrom, List.map_nil]
  | cons head rest ih => rw [resolveAllFrom, ih, List.map_cons]

theorem instantiate_all_eq (chain : List String) (literals : List Literal) :
    frame.instantiateAllFrom chain literals = literals.map (frame.instantiateFrom chain) := by
  induction literals with
  | nil => rw [instantiateAllFrom, List.map_nil]
  | cons head rest ih => rw [instantiateAllFrom, ih, List.map_cons]

theorem instantiate_ground (chain : List String) (inner : Literal)
    (ground : inner.isGround = true) : frame.instantiateFrom chain inner = inner := by
  cases inner
  rw [instantiateFrom]
  exact if_pos ground

theorem resolve_ground_plain (chain : List String) (term : Term) (ground : term.isGround = true)
    (plain : term.isPlain = true) : frame.resolveFrom chain term = term := by
  rcases term with raw | name | ⟨name, own⟩ | inner
  · rw [resolveFrom]
  · simp [Term.isGround] at ground
  · simp [Term.isPlain] at plain
  · rw [resolveFrom, instantiate_ground frame chain inner ground]

/-- A plain literal is instantiated part by part, ground or not. -/
theorem instantiate_plain (chain : List String) (functor : Path) (negated ordered : Bool)
    (arguments : List Term) (annotations : List Literal)
    (plain : (Literal.mk functor negated ordered arguments annotations).isPlain = true) :
    frame.instantiateFrom chain (.mk functor negated ordered arguments annotations) =
      .mk functor negated ordered (arguments.map (frame.resolveFrom chain))
        (annotations.map (frame.instantiateFrom chain)) := by
  rw [instantiateFrom]
  split_ifs with ground
  · rw [Bool.and_eq_true, Term.all_ground_iff, Literal.all_ground_iff] at ground
    have plainArguments := ((Literal.is_plain_iff _).mp plain).1
    have sameArguments : arguments.map (frame.resolveFrom chain) = arguments.map id :=
      List.map_congr_left fun term member => frame.resolve_ground_plain chain term
        (ground.1 term member) (plainArguments term member)
    have sameNotes : annotations.map (frame.instantiateFrom chain) = annotations.map id :=
      List.map_congr_left fun note member =>
        frame.instantiate_ground chain note (ground.2 note member)
    rw [List.map_id] at sameArguments sameNotes
    rw [sameArguments, sameNotes]
  · rw [resolve_all_eq, instantiate_all_eq]

variable {frame}

theorem resolve_allocated {name : String} {content : Term}
    (found : frame.value? name = some content) :
    frame.resolve (.variable name) = frame.resolveFrom [name] content := by
  rw [resolve, resolve_free_from, if_neg List.not_mem_nil, found]

theorem resolve_raw {name : String} {raw : Value}
    (found : frame.value? name = some (.value raw)) :
    frame.resolve (.variable name) = .value raw := by
  rw [resolve_allocated found, resolveFrom]

theorem resolve_absent {name : String} (absent : frame.value? name = none) :
    frame.resolve (.variable name) = .variable name := by
  rw [resolve, resolve_free_from, if_neg List.not_mem_nil, absent]

theorem Raw.resolve_variable (raw : frame.Raw) (name : String) :
    (∃ content, frame.resolveFrom [] (.variable name) = .value content) ∨
      frame.resolveFrom [] (.variable name) = .variable name ∧ frame.value? name = none := by
  cases found : frame.value? name with
  | none => exact .inr ⟨resolve_absent found, rfl⟩
  | some term =>
      obtain ⟨content, rfl⟩ := raw name term found
      exact .inl ⟨content, resolve_raw found⟩

end Frame

end Deliberation
