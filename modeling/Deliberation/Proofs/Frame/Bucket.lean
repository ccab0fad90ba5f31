import Deliberation.Proofs.Frame.Digests
import Deliberation.Proofs.Frame.Resolving

/-!
# Instantiating leaf by leaf

Where slots hold raw values and variables alone, a variable resolves to a raw value or a
variable, through chains of any length and where a chain runs in a circle too. So
instantiating a plain literal puts one leaf in the place of each leaf and touches nothing
else: the literal keeps the marks of all its parts, and with them both shapes and, whatever
the hash function is, both digests.
-/

namespace Deliberation

set_option autoImplicit false

/-- A raw value, or a variable that carries nothing. -/
inductive Term.Bare : Term → Prop
  | value (raw : Value) : Bare (.value raw)
  | free (name : String) : Bare (.variable name)

namespace Term.Bare

variable {term : Term}

theorem marks_eq (bare : term.Bare) : term.marks = [.leaf] := by
  cases bare <;> rfl

theorem leaves_eq (bare : term.Bare) : term.leaves = [term] := by
  cases bare <;> rfl

end Term.Bare

theorem CachedTerm.sound_of_bare {hash : Hasher} {term : CachedTerm} (bare : term.plain.Bare) :
    term.Sound hash := by
  rcases term with raw | name | ⟨name, own⟩ | inner
  · exact sound_value raw
  · exact sound_free name
  all_goals cases bare

namespace Frame

variable (frame : Frame)

/-- Every allocated slot holds a raw value, or a variable that carries nothing. -/
def Shallow : Prop :=
  ∀ name content, frame.value? name = some content → content.Bare

variable {frame}

namespace Shallow

theorem of_slots (slots : ∀ name content, (name, some content) ∈ frame.slots → content.Bare) :
    frame.Shallow :=
  fun name content found => slots name content (mem_slots_of_value found)

/-- No slot has a digest in it, so none can be out of date. -/
theorem sound {slots : CachedFrame} (shallow : slots.plain.Shallow) (hash : Hasher) :
    slots.Sound hash := by
  intro name content found
  apply CachedTerm.sound_of_bare
  apply shallow name
  rw [CachedFrame.plain_value, found, Option.map_some]

variable (shallow : frame.Shallow) (chain : List String)

include shallow

/-- A chain of variables ends at a raw value, at a variable without a value, or where it
comes back to itself, which is at a variable again. -/
theorem resolve_bare {term : Term} (bare : term.Bare) :
    (frame.resolveFrom chain term).Bare := by
  have resolution : InductiveResolution frame
      (fun chain term => term.Bare → (frame.resolveFrom chain term).Bare) fun _ _ => True := by
    constructor
    case value =>
      intro chain raw isBare
      rwa [resolveFrom]
    case stopped =>
      intro chain name onChain isBare
      rwa [resolve_free_from, if_pos onChain]
    case followed =>
      intro chain name content fresh found ih _
      rw [resolve_free_from, if_neg fresh, found]
      exact ih (shallow name content found)
    case free =>
      intro chain name fresh found isBare
      rwa [resolve_free_from, if_neg fresh, found]
    case literal => simp
    -- Variables with values of their own and literals are not bare.
    all_goals
      intros
      rename_i isBare
      cases isBare
  exact (resolution.holds chain).1 term bare

theorem resolve_bare_leafwise {term : Term} (bare : term.Bare) :
    (frame.resolveFrom chain term).marks = term.marks ∧
      (frame.resolveFrom chain term).leaves = term.leaves.map (frame.resolveFrom chain) := by
  have resolved := shallow.resolve_bare chain bare
  rw [resolved.marks_eq, bare.marks_eq, resolved.leaves_eq, bare.leaves_eq, List.map_singleton]
  exact ⟨rfl, rfl⟩

/-- Resolving keeps the marks of what is plain and changes its leaves one by one. -/
theorem leafwise :
    (∀ term : Term, term.isPlain = true →
      (frame.resolveFrom chain term).marks = term.marks ∧
        (frame.resolveFrom chain term).leaves = term.leaves.map (frame.resolveFrom chain)) ∧
    ∀ inner : Literal, inner.isPlain = true →
      (frame.instantiateFrom chain inner).marks = inner.marks ∧
        (frame.instantiateFrom chain inner).leaves =
          inner.leaves.map (frame.resolveFrom chain) := by
  apply InductiveProperty.holds
  constructor
  case value => exact fun raw _ => shallow.resolve_bare_leafwise chain (.value raw)
  case free => exact fun name _ => shallow.resolve_bare_leafwise chain (.free name)
  case carrying => simp [Term.isPlain]
  case nested =>
    intro inner ih plain
    rw [resolveFrom]
    exact ih plain
  case literal =>
    intro functor negated ordered arguments annotations ofArguments _ plain
    have plainArguments := ((Literal.is_plain_iff _).mp plain).1
    rw [frame.instantiate_plain chain functor negated ordered arguments annotations plain]
    constructor
    · exact Literal.marks_of_arguments fun argument member =>
        (ofArguments argument member (plainArguments argument member)).1
    · exact Literal.leaves_of_arguments fun argument member =>
        (ofArguments argument member (plainArguments argument member)).2

variable {inner : Literal} (plain : inner.isPlain = true)

include plain

theorem instantiated_note {note : Literal} (member : note ∈ inner.annotations) :
    (frame.instantiate note).marks = note.marks ∧
      (frame.instantiate note).leaves = note.leaves.map frame.resolve :=
  (shallow.leafwise []).2 note (((Literal.is_plain_iff _).mp plain).2 note member)

theorem instantiate_shapes :
    (frame.instantiate inner).valueShape = inner.valueShape ∧
      (frame.instantiate inner).annotationShape = inner.annotationShape := by
  constructor
  · exact Literal.value_shape_eq_of_marks ((shallow.leafwise []).2 inner plain).1
  · apply Literal.annotation_shape_eq_of_marks
    rw [frame.instantiate_annotations, List.map_map]
    exact List.map_congr_left fun note member => (shallow.instantiated_note plain member).1

theorem instantiate_matches_exact (hash : Hasher) :
    (frame.instantiate inner).matchesExact hash inner = true :=
  Literal.matches_exact_of_shapes hash (shallow.instantiate_shapes plain).1
    (shallow.instantiate_shapes plain).2

theorem instantiate_argument_leaves :
    (frame.instantiate inner).argumentLeaves = inner.argumentLeaves.map frame.resolve := by
  rw [Literal.argument_leaves_eq, Literal.argument_leaves_eq]
  exact ((shallow.leafwise []).2 inner plain).2

theorem instantiate_annotation_leaves :
    (frame.instantiate inner).annotationLeaves = inner.annotationLeaves.map frame.resolve := by
  rw [Literal.annotation_leaves_eq, Literal.annotation_leaves_eq, frame.instantiate_annotations,
    List.flatMap_map, List.map_flatMap]
  exact List.flatMap_congr fun note member => (shallow.instantiated_note plain member).2

end Shallow

/-- What stands in front of the arguments stays, and so does their number. -/
theorem instantiate_head (inner : Literal) :
    (frame.instantiate inner).functor = inner.functor ∧
      (frame.instantiate inner).negated = inner.negated ∧
      (frame.instantiate inner).ordered = inner.ordered ∧
      (frame.instantiate inner).arity = inner.arity := by
  rw [instantiate]
  cases ground : inner.isGround with
  | false =>
      rw [frame.instantiate_open [] inner ground]
      exact ⟨rfl, rfl, rfl, List.length_map _⟩
  | true =>
      rw [frame.instantiate_ground [] inner ground]
      exact ⟨rfl, rfl, rfl, rfl⟩

theorem instantiate_annotation_functors (inner : Literal) :
    (frame.instantiate inner).annotations.map Literal.functor =
      inner.annotations.map Literal.functor := by
  rw [frame.instantiate_annotations, List.map_map]
  exact List.map_congr_left fun note _ => frame.instantiate_functor [] note

/-- In a frame of raw values and variables, instantiating a plain literal keeps its head and
the functors of its annotations, resolves the leaves of its arguments and of its annotations
one by one, and gives a literal of the same shapes, which matches the old one exactly. With
the digests that literals keep, the one that is computed anew matches exactly as well. -/
theorem instantiate_keeps_bucket (shallow : frame.Shallow) {inner : Literal}
    (plain : inner.isPlain = true) :
    ((frame.instantiate inner).functor = inner.functor ∧
      (frame.instantiate inner).negated = inner.negated ∧
      (frame.instantiate inner).ordered = inner.ordered ∧
      (frame.instantiate inner).arity = inner.arity) ∧
    (frame.instantiate inner).annotations.map Literal.functor =
      inner.annotations.map Literal.functor ∧
    ((frame.instantiate inner).valueShape = inner.valueShape ∧
      (frame.instantiate inner).annotationShape = inner.annotationShape) ∧
    (∀ hash, (frame.instantiate inner).matchesExact hash inner = true) ∧
    (frame.instantiate inner).argumentLeaves = inner.argumentLeaves.map frame.resolve ∧
    (frame.instantiate inner).annotationLeaves = inner.annotationLeaves.map frame.resolve ∧
    ∀ (hash : Hasher) (slots : CachedFrame) (whole : CachedLiteral),
      slots.plain = frame → whole.plain = inner → whole.Built hash →
        (slots.instantiate hash whole).plain = frame.instantiate inner ∧
        (slots.instantiate hash whole).matchesExact whole = true := by
  refine ⟨instantiate_head inner, instantiate_annotation_functors inner,
    shallow.instantiate_shapes plain, shallow.instantiate_matches_exact plain,
    shallow.instantiate_argument_leaves plain, shallow.instantiate_annotation_leaves plain, ?_⟩
  rintro hash slots whole rfl rfl built
  have slotsSound := shallow.sound hash
  have content := slotsSound.instantiate_plain built.sound
  refine ⟨content, ?_⟩
  have instantiated := CachedLiteral.Sound.instantiated slotsSound built.sound
  rw [instantiated.matches_exact_eq built.sound, content]
  exact shallow.instantiate_matches_exact plain hash

end Frame

namespace CachedFrame

/-- `A` stands for `B`, which stands for 5, and `X` and `Y` stand for each other. -/
def circling : CachedFrame :=
  ⟨[("A", some (.variable "B")), ("B", some (.value (.int 5))), ("X", some (.variable "Y")),
    ("Y", some (.variable "X"))]⟩

theorem circling_shallow : circling.plain.Shallow := by
  apply Frame.Shallow.of_slots
  intro name content member
  simp only [circling, plain, List.map_cons, List.map_nil, Option.map_some, CachedTerm.plain,
    List.mem_cons, List.not_mem_nil, or_false, Prod.mk.injEq, Option.some.injEq] at member
  rcases member with ⟨-, rfl⟩ | ⟨-, rfl⟩ | ⟨-, rfl⟩ | ⟨-, rfl⟩
  · exact .free "B"
  · exact .value _
  · exact .free "Y"
  · exact .free "X"

/-- `toured(A, leg(X)[by(X)])[by(leg(Y)[by(Y)])]`. -/
def toured : CachedLiteral :=
  (CachedLiteral.ofArguments .rotating ⟨"toured"⟩
      [.variable "A", .literal (.signed .rotating "leg" (.variable "X"))]).withAnnotations .rotating
    [.ofArguments .rotating ⟨"by"⟩ [.literal (.signed .rotating "leg" (.variable "Y"))]]

theorem toured_built : toured.Built .rotating := by
  have leg (name : String) :
      (CachedTerm.literal (.signed .rotating "leg" (.variable name))).Built .rotating :=
    .nested (CachedLiteral.signed_built "leg" (.free name))
  apply CachedLiteral.Built.annotations
  · intro note member
    rw [List.mem_singleton.mp member]
    refine .new ⟨"by"⟩ fun argument inside => ?_
    rw [List.mem_singleton.mp inside]
    exact leg "Y"
  · refine .new ⟨"toured"⟩ fun argument inside => ?_
    rcases List.mem_cons.mp inside with rfl | inside
    · exact .free "A"
    · rw [List.mem_singleton.mp inside]
      exact leg "X"

/-- The number is found at the end of the chain, and the circles stay variables. -/
theorem toured_keeps_bucket :
    circling.plain.Shallow ∧ toured.plain.isPlain = true ∧ toured.Built .rotating ∧
      (circling.instantiate .rotating toured).matchesExact toured = true ∧
      (circling.plain.instantiate toured.plain).argumentLeaves =
        [.value (.int 5), .variable "X"] ∧
      (circling.plain.instantiate toured.plain).annotationLeaves = [.variable "Y"] := by
  have plain : toured.plain.isPlain = true := by decide
  obtain ⟨-, -, -, -, arguments, annotations, kept⟩ :=
    Frame.instantiate_keeps_bucket circling_shallow plain
  have matched := (kept .rotating circling toured rfl rfl toured_built).2
  refine ⟨circling_shallow, plain, toured_built, matched, ?_, ?_⟩
  · rw [arguments]
    with_unfolding_all rfl
  · rw [annotations]
    with_unfolding_all rfl

end CachedFrame

end Deliberation
