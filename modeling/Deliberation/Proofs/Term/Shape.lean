import Deliberation.Proofs.Term.Same
import Deliberation.Term.Digest

/-!
# What digests tell

The words that go into the value digest close no literal that they open, so where a
literal ends is known from its arity alone. That is enough: read from the front, the
words give back the shape of the arguments, and two literals have the same words exactly
when their arguments correspond. Corresponding literals have their leaves in the same
places, so pairing leaves by their order pairs them by their places and drops none.
-/

namespace Deliberation

set_option autoImplicit false

def Term.isLeaf : Term → Bool
  | .literal _ => false
  | .value _ | .variable _ | .bound _ _ => true

/-- Two terms that are no literals, or two literals of one functor, sign and arity whose
arguments correspond in turn. -/
inductive Term.Corresponds : Term → Term → Prop
  | leaves {left right : Term} (leftLeaf : left.isLeaf = true) (rightLeaf : right.isLeaf = true) :
      Corresponds left right
  | literals {left right : Literal} (functor : left.functor = right.functor)
      (negated : left.negated = right.negated) (arity : left.arity = right.arity)
      (arguments : List.Forall₂ Corresponds left.arguments right.arguments) :
      Corresponds (.literal left) (.literal right)

/-- Two literals of one arity whose arguments correspond; the functor is looked at where
there are no arguments. -/
structure Literal.AlikeInShape (left right : Literal) : Prop where
  arity : left.arity = right.arity
  functor : left.arity = 0 → left.functor = right.functor
  arguments : List.Forall₂ Term.Corresponds left.arguments right.arguments

/-- As many annotations, of the same functors and alike in shape one by one. -/
def Literal.AnnotationsAlike (left right : Literal) : Prop :=
  List.Forall₂ (fun note other => note.functor = other.functor ∧ note.AlikeInShape other)
    left.annotations right.annotations

section Reading

theorem Term.marks_of_leaf {term : Term} (leaf : term.isLeaf = true) : term.marks = [.leaf] := by
  rcases term with raw | name | ⟨name, own⟩ | inner
  case literal => cases leaf
  all_goals rfl

theorem Term.corresponds_leaf_iff {left right : Term} (leaf : left.isLeaf = true) :
    left.Corresponds right ↔ right.isLeaf = true := by
  constructor
  · intro corresponds
    cases corresponds with
    | leaves _ rightLeaf => exact rightLeaf
    | literals => cases leaf
  · exact .leaves leaf

theorem Term.corresponds_literal_iff {left right : Literal} :
    (Term.literal left).Corresponds (.literal right) ↔
      left.functor = right.functor ∧ left.negated = right.negated ∧
        left.arity = right.arity ∧
        List.Forall₂ Term.Corresponds left.arguments right.arguments := by
  constructor
  · intro corresponds
    cases corresponds with
    | leaves leaf _ => cases leaf
    | literals functor negated arity arguments => exact ⟨functor, negated, arity, arguments⟩
  · rintro ⟨functor, negated, arity, arguments⟩
    exact .literals functor negated arity arguments

theorem leaf_marks_append_iff {term : Term} (leaf : term.isLeaf = true) (other : Term)
    (rest otherRest : List Mark) :
    term.marks ++ rest = other.marks ++ otherRest ↔
      term.Corresponds other ∧ rest = otherRest := by
  rw [Term.corresponds_leaf_iff leaf, Term.marks_of_leaf leaf]
  rcases other with raw | name | ⟨name, own⟩ | inner
  case literal => simp [Term.marks, Literal.marks_eq, Term.isLeaf]
  all_goals simp [Term.marks, Term.isLeaf]

/-- Of as many terms, the marks tell where each ends. -/
theorem all_marks_append_iff {terms others : List Term}
    (each : ∀ term ∈ terms, ∀ other rest otherRest,
      term.marks ++ rest = other.marks ++ otherRest ↔
        term.Corresponds other ∧ rest = otherRest)
    (asMany : terms.length = others.length) (rest otherRest : List Mark) :
    terms.flatMap Term.marks ++ rest = others.flatMap Term.marks ++ otherRest ↔
      List.Forall₂ Term.Corresponds terms others ∧ rest = otherRest := by
  induction terms generalizing others with
  | nil =>
      obtain rfl := List.eq_nil_of_length_eq_zero asMany.symm
      simp
  | cons term terms ih =>
      obtain ⟨other, others, rfl⟩ := List.exists_cons_of_length_eq_add_one asMany.symm
      obtain ⟨here, later⟩ := List.forall_mem_cons.mp each
      rw [List.flatMap_cons, List.flatMap_cons, List.append_assoc, List.append_assoc, here,
        ih later (Nat.succ.inj asMany), List.forall₂_cons, and_assoc]

/-- The marks of a term give back its shape and whatever stands behind them. -/
theorem marks_append_iff :
    (∀ term other : Term, ∀ rest otherRest,
      term.marks ++ rest = other.marks ++ otherRest ↔
        term.Corresponds other ∧ rest = otherRest) ∧
    ∀ inner other : Literal, ∀ rest otherRest,
      inner.marks ++ rest = other.marks ++ otherRest ↔
        (Term.literal inner).Corresponds (.literal other) ∧ rest = otherRest := by
  apply InductiveProperty.holds
  constructor
  case value => exact fun raw => leaf_marks_append_iff rfl
  case free => exact fun name => leaf_marks_append_iff rfl
  case carrying => exact fun name own _ => leaf_marks_append_iff rfl
  case nested =>
    intro inner ih other rest otherRest
    rcases other with raw | name | ⟨name, own⟩ | other
    case literal => exact ih other rest otherRest
    all_goals
      constructor
      · intro same
        simp [Term.marks, Literal.marks_eq] at same
      · rintro ⟨corresponds, _⟩
        cases corresponds with
        | leaves leaf _ => cases leaf
  case literal =>
    intro functor negated ordered arguments annotations ofArguments _ other rest otherRest
    rw [Term.corresponds_literal_iff, Literal.marks_eq, Literal.marks_eq, List.cons_append,
      List.cons_append, List.cons.injEq, Mark.nested.injEq]
    constructor
    · rintro ⟨⟨sameFunctor, sameSign, sameArity⟩, sameRest⟩
      obtain ⟨correspond, behind⟩ :=
        (all_marks_append_iff ofArguments sameArity rest otherRest).mp sameRest
      exact ⟨⟨sameFunctor, sameSign, sameArity, correspond⟩, behind⟩
    · rintro ⟨⟨sameFunctor, sameSign, sameArity, correspond⟩, behind⟩
      exact ⟨⟨sameFunctor, sameSign, sameArity⟩,
        (all_marks_append_iff ofArguments sameArity rest otherRest).mpr ⟨correspond, behind⟩⟩

end Reading

namespace Literal

variable {left right : Literal}

theorem value_shape_eq_iff : left.valueShape = right.valueShape ↔ left.AlikeInShape right := by
  have opening (inner : Literal) (behind : List Mark) :
      (if inner.arguments.isEmpty then [Mark.functor inner.functor] else []) ++ behind =
        if inner.arity = 0 then .functor inner.functor :: behind else behind := by
    cases arguments : inner.arguments <;> simp [arity, arguments]
  rw [valueShape, valueShape, Term.all_marks_eq, Term.all_marks_eq, List.cons_append,
    List.cons_append, List.cons.injEq, Mark.arity.injEq, opening, opening]
  have marks (asMany : left.arity = right.arity) :=
    all_marks_append_iff (fun term _ => marks_append_iff.1 term) asMany [] []
  simp only [List.append_nil, and_true] at marks
  constructor
  · rintro ⟨asMany, behind⟩
    by_cases bare : left.arity = 0
    · rw [if_pos bare, if_pos (asMany ▸ bare), List.cons.injEq, Mark.functor.injEq] at behind
      exact ⟨asMany, fun _ => behind.1, (marks asMany).mp behind.2⟩
    · rw [if_neg bare, if_neg (asMany ▸ bare)] at behind
      exact ⟨asMany, fun none => absurd none bare, (marks asMany).mp behind⟩
  · rintro ⟨asMany, functor, arguments⟩
    refine ⟨asMany, ?_⟩
    rw [(marks asMany).mpr arguments, asMany]
    by_cases bare : right.arity = 0
    · rw [if_pos bare, if_pos bare, functor (asMany.trans bare)]
    · rw [if_neg bare, if_neg bare]

theorem annotation_shape_eq_iff :
    left.annotationShape = right.annotationShape ↔ left.AnnotationsAlike right := by
  rw [annotationShape, annotationShape, AnnotationsAlike, ← List.forall₂_eq_eq_eq,
    List.forall₂_map_left_iff, List.forall₂_map_right_iff]
  simp only [Prod.mk.injEq, value_shape_eq_iff]

end Literal

section Words

def Mark.words : Mark → List Word
  | .arity count => [.count count]
  | .functor path => [.path path]
  | .leaf => [.byte 0]
  | .nested path negated count =>
      [.byte 1, .path path, .byte (signByte negated), .count count]

theorem sign_byte_eq_iff (left right : Bool) : signByte left = signByte right ↔ left = right := by
  revert left right
  decide

/-- No mark has words that are the beginning of those of another. -/
theorem words_append_iff (mark other : Mark) (rest otherRest : List Word) :
    mark.words ++ rest = other.words ++ otherRest ↔ mark = other ∧ rest = otherRest := by
  cases mark <;> cases other <;> simp [Mark.words, sign_byte_eq_iff, and_assoc]

theorem words_eq_iff (marks others : List Mark) :
    marks.flatMap Mark.words = others.flatMap Mark.words ↔ marks = others := by
  have someWords (mark : Mark) : mark.words ≠ [] := by
    cases mark <;> simp [Mark.words]
  induction marks generalizing others with
  | nil =>
      cases others with
      | nil => simp
      | cons other others => simp [someWords]
  | cons mark marks ih =>
      cases others with
      | nil => simp [someWords]
      | cons other others =>
          rw [List.flatMap_cons, List.flatMap_cons, words_append_iff, List.cons.injEq]
          exact and_congr_right fun _ => ih others

theorem shape_words_from_eq (stack : List (List Term)) :
    shapeWordsFrom stack = (stack.flatMap Term.allMarks).flatMap Mark.words := by
  fun_induction shapeWordsFrom stack with
  | case1 => rfl
  | case2 stack ih => simpa [Term.allMarks] using ih
  | case3 path negated ordered arguments annotations rest stack ih =>
      rw [ih]
      simp [Term.allMarks, Term.marks, Literal.marks, Mark.words]
  | case4 raw rest stack ih =>
      rw [ih]
      simp [Term.allMarks, Term.marks, Mark.words]
  | case5 name rest stack ih =>
      rw [ih]
      simp [Term.allMarks, Term.marks, Mark.words]
  | case6 name own rest stack ih =>
      rw [ih]
      simp [Term.allMarks, Term.marks, Mark.words]

namespace Literal

theorem value_words_eq (inner : Literal) :
    inner.valueWords = inner.valueShape.flatMap Mark.words := by
  rw [valueWords, shapeWords, shape_words_from_eq, valueShape, arity]
  cases inner.arguments with
  | nil => rfl
  | cons argument rest => simp [Mark.words]

theorem value_words_eq_iff {left right : Literal} :
    left.valueWords = right.valueWords ↔ left.AlikeInShape right := by
  rw [value_words_eq, value_words_eq, words_eq_iff, value_shape_eq_iff]

end Literal

/-! The digests of a shape. -/

namespace Literal

variable (hash : Hasher) {left right : Literal}

theorem value_digest_of_shape (shapes : left.valueShape = right.valueShape) :
    left.valueDigest hash = right.valueDigest hash := by
  rw [valueDigest, valueDigest, value_words_eq, value_words_eq, shapes]

theorem annotation_words_eq (inner : Literal) :
    inner.annotationWords hash = noteWords (inner.annotationShape.map fun note =>
      (note.1, hash (note.2.flatMap Mark.words))) := by
  rw [annotationWords, annotationShape, List.map_map]
  refine congrArg noteWords (List.map_congr_left fun note _ => ?_)
  rw [Function.comp_apply, valueDigest, value_words_eq]

theorem annotation_digest_of_shape (shapes : left.annotationShape = right.annotationShape) :
    left.annotationDigest hash = right.annotationDigest hash := by
  rw [annotationDigest, annotationDigest, annotation_words_eq, annotation_words_eq, shapes]

theorem matches_value_iff :
    left.matchesValue hash right = true ↔ left.valueDigest hash = right.valueDigest hash := by
  rw [matchesValue, beq_iff_eq]

theorem matches_exact_iff :
    left.matchesExact hash right = true ↔ left.valueDigest hash = right.valueDigest hash ∧
      left.annotationDigest hash = right.annotationDigest hash := by
  rw [matchesExact, Bool.and_eq_true, beq_iff_eq, beq_iff_eq]

theorem matches_value_of_shape (shapes : left.valueShape = right.valueShape) :
    left.matchesValue hash right = true :=
  (matches_value_iff hash).mpr (value_digest_of_shape hash shapes)

theorem matches_exact_of_shapes (values : left.valueShape = right.valueShape)
    (notes : left.annotationShape = right.annotationShape) :
    left.matchesExact hash right = true :=
  (matches_exact_iff hash).mpr
    ⟨value_digest_of_shape hash values, annotation_digest_of_shape hash notes⟩

theorem matches_exact_of_marks (whole : left.marks = right.marks)
    (notes : left.annotations.map marks = right.annotations.map marks) :
    left.matchesExact hash right = true :=
  matches_exact_of_shapes hash (value_shape_eq_of_marks whole) (annotation_shape_eq_of_marks notes)

theorem matches_value_comm (left right : Literal) :
    left.matchesValue hash right = right.matchesValue hash left := by
  simp only [matchesValue, BEq.comm]

end Literal

theorem note_words_eq_iff (notes others : List (Path × UInt64)) :
    noteWords notes = noteWords others ↔ notes = others := by
  constructor
  · intro same
    obtain ⟨asMany, behind⟩ := List.cons.inj same
    rw [Word.count.injEq] at asMany
    induction notes generalizing others with
    | nil => exact (List.eq_nil_of_length_eq_zero asMany.symm).symm
    | cons note notes ih =>
        obtain ⟨other, others, rfl⟩ := List.exists_cons_of_length_eq_add_one asMany.symm
        simp only [List.flatMap_cons, List.cons_append, List.nil_append, List.cons.injEq,
          Word.path.injEq, Word.digest.injEq] at behind
        obtain ⟨path, digest, behind⟩ := behind
        have asManyBehind := Nat.succ.inj asMany
        rw [Prod.ext path digest, ih others (by rw [noteWords, noteWords, asManyBehind, behind])
          asManyBehind behind]
  · exact congrArg noteWords

end Words

/-- The hash function tells these word sequences apart. -/
def Hasher.Separates (hash : Hasher) (fed : List (List Word)) : Prop :=
  ∀ words ∈ fed, ∀ others ∈ fed, hash words = hash others → words = others

instance (hash : Hasher) (fed : List (List Word)) : Decidable (hash.Separates fed) :=
  inferInstanceAs (Decidable (∀ words ∈ fed, ∀ others ∈ fed, _))

namespace Literal

/-- The word sequences that the digests of a literal and of its annotations are made of. -/
def fed (hash : Hasher) (inner : Literal) : List (List Word) :=
  inner.valueWords :: inner.annotationWords hash :: inner.annotations.map valueWords

theorem alike_of_value_digest {hash : Hasher} {left right : Literal}
    (separates : hash.Separates [left.valueWords, right.valueWords])
    (same : left.valueDigest hash = right.valueDigest hash) : left.AlikeInShape right :=
  value_words_eq_iff.mp
    (separates _ List.mem_cons_self _ (List.mem_cons_of_mem _ List.mem_cons_self) same)

section Digests

variable {hash : Hasher} {left right : Literal}
  (separates : hash.Separates (left.fed hash ++ right.fed hash))

include separates

theorem value_digest_eq_iff :
    left.valueDigest hash = right.valueDigest hash ↔ left.AlikeInShape right := by
  rw [← value_words_eq_iff]
  constructor
  · exact separates _ (by simp [fed]) _ (by simp [fed])
  · exact congrArg hash

theorem annotation_digest_eq_iff :
    left.annotationDigest hash = right.annotationDigest hash ↔ left.AnnotationsAlike right := by
  have words : left.annotationDigest hash = right.annotationDigest hash ↔
      left.annotationWords hash = right.annotationWords hash := by
    constructor
    · exact separates _ (by simp [fed]) _ (by simp [fed])
    · exact congrArg hash
  have pairs (note other : Literal)
      (paired : (note, other) ∈ left.annotations.zip right.annotations) :
      (note.functor, note.valueDigest hash) = (other.functor, other.valueDigest hash) ↔
        note.functor = other.functor ∧ note.AlikeInShape other := by
    obtain ⟨onLeft, onRight⟩ := List.of_mem_zip paired
    rw [Prod.mk.injEq, ← value_words_eq_iff]
    refine and_congr_right fun _ => ⟨separates _ ?_ _ ?_, congrArg hash⟩
    · simp only [fed, List.mem_append, List.mem_cons, List.mem_map]
      exact .inl (.inr (.inr ⟨note, onLeft, rfl⟩))
    · simp only [fed, List.mem_append, List.mem_cons, List.mem_map]
      exact .inr (.inr (.inr ⟨other, onRight, rfl⟩))
  rw [words, annotationWords, annotationWords, note_words_eq_iff, AnnotationsAlike,
    ← List.forall₂_eq_eq_eq, List.forall₂_map_left_iff, List.forall₂_map_right_iff,
    List.forall₂_iff_zip, List.forall₂_iff_zip]
  refine and_congr_right fun _ =>
    ⟨fun same note other paired => ?_, fun alike note other paired => ?_⟩
  · exact (pairs note other paired).mp (same paired)
  · exact (pairs note other paired).mpr (alike paired)

end Digests

end Literal

mutual

/-- The places of the leaves of a term: the argument to take at each literal on the way. -/
def Term.leafPlaces : Term → List (List Nat)
  | .literal (.mk _ _ _ arguments _) => Term.allLeafPlaces 0 arguments
  | .value _ | .variable _ | .bound _ _ => [[]]

/-- The places of the leaves of consecutive arguments, the first of which has this number. -/
def Term.allLeafPlaces (number : Nat) : List Term → List (List Nat)
  | [] => []
  | term :: rest => term.leafPlaces.map (number :: ·) ++ Term.allLeafPlaces (number + 1) rest

end

def Term.at? : List Nat → Term → Option Term
  | [], term => some term
  | number :: rest, .literal inner => inner.arguments[number]?.bind (Term.at? rest)
  | _ :: _, .value _ | _ :: _, .variable _ | _ :: _, .bound _ _ => none

namespace Literal

def leafPlaces (inner : Literal) : List (List Nat) :=
  (Term.literal inner).leafPlaces

def at? (inner : Literal) (place : List Nat) : Option Term :=
  (Term.literal inner).at? place

end Literal

section Places

theorem leaf_places_literal (inner : Literal) :
    (Term.literal inner).leafPlaces = Term.allLeafPlaces 0 inner.arguments := by
  cases inner
  rw [Term.leafPlaces]
  rfl

/-- The arguments in front of the others only shift the numbers. -/
theorem all_leaf_places_at {inner : Literal} {before behind : List Term}
    (parts : inner.arguments = before ++ behind)
    (each : ∀ term ∈ behind,
      (term.leafPlaces.map fun place => term.at? place) = term.leaves.map some) :
    (Term.allLeafPlaces before.length behind).map inner.at? =
      (behind.flatMap Term.leaves).map some := by
  induction behind generalizing before with
  | nil => rfl
  | cons term rest ih =>
      obtain ⟨here, later⟩ := List.forall_mem_cons.mp each
      have found : inner.at? ∘ (before.length :: ·) = fun place => term.at? place := by
        funext place
        simp [Literal.at?, Term.at?, parts]
      have onward := @ih (before ++ [term]) (by simp [parts]) later
      rw [List.length_append, List.length_singleton] at onward
      rw [Term.allLeafPlaces, List.map_append, List.map_map, found, here, onward,
        List.flatMap_cons, List.map_append]

theorem leaf_places_at :
    (∀ term : Term, (term.leafPlaces.map fun place => term.at? place) = term.leaves.map some) ∧
      ∀ inner : Literal, inner.leafPlaces.map inner.at? = inner.leaves.map some := by
  apply InductiveProperty.holds
  constructor
  case value => exact fun raw => rfl
  case free => exact fun name => rfl
  case carrying => exact fun name own _ => rfl
  case nested => exact fun inner ih => ih
  case literal =>
    intro functor negated ordered arguments annotations ofArguments _
    rw [Literal.leaves_eq, Literal.leafPlaces, leaf_places_literal]
    exact @all_leaf_places_at _ [] _ rfl ofArguments

theorem all_leaf_places_congr {terms others : List Term} (number : Nat)
    (correspond : List.Forall₂ Term.Corresponds terms others)
    (each : ∀ term ∈ terms, ∀ other, term.Corresponds other →
      term.leafPlaces = other.leafPlaces) :
    Term.allLeafPlaces number terms = Term.allLeafPlaces number others := by
  induction correspond generalizing number with
  | nil => rfl
  | @cons term other _ _ corresponds _ ih =>
      obtain ⟨here, later⟩ := List.forall_mem_cons.mp each
      rw [Term.allLeafPlaces, Term.allLeafPlaces, here other corresponds, ih (number + 1) later]

theorem leaf_places_of_leaf {term : Term} (leaf : term.isLeaf = true) :
    term.leafPlaces = [[]] := by
  rcases term with raw | name | ⟨name, own⟩ | inner
  case literal => cases leaf
  all_goals rfl

theorem corresponding_leaf_places :
    (∀ term other : Term, term.Corresponds other → term.leafPlaces = other.leafPlaces) ∧
      ∀ inner other : Literal,
        List.Forall₂ Term.Corresponds inner.arguments other.arguments →
          inner.leafPlaces = other.leafPlaces := by
  have ofLeaf (term : Term) (leaf : term.isLeaf = true) (other : Term)
      (corresponds : term.Corresponds other) : term.leafPlaces = other.leafPlaces := by
    rw [leaf_places_of_leaf leaf,
      leaf_places_of_leaf ((Term.corresponds_leaf_iff leaf).mp corresponds)]
  apply InductiveProperty.holds
  constructor
  case value => exact fun raw => ofLeaf _ rfl
  case free => exact fun name => ofLeaf _ rfl
  case carrying => exact fun name own _ => ofLeaf _ rfl
  case nested =>
    intro inner ih other corresponds
    cases corresponds with
    | leaves leaf _ => cases leaf
    | literals _ _ _ arguments => exact ih _ arguments
  case literal =>
    intro functor negated ordered arguments annotations ofArguments _ other correspond
    rw [Literal.leafPlaces, Literal.leafPlaces, leaf_places_literal, leaf_places_literal]
    exact all_leaf_places_congr 0 correspond ofArguments

/-- Leaves are paired by their places, and none is left over. -/
theorem Literal.AlikeInShape.pairing {left right : Literal} (alike : left.AlikeInShape right) :
    left.leafPlaces = right.leafPlaces ∧
    left.argumentLeaves.length = right.argumentLeaves.length ∧
    ((left.argumentLeaves.zip right.argumentLeaves).map fun pair => (some pair.1, some pair.2)) =
      left.leafPlaces.map fun place => (left.at? place, right.at? place) := by
  have places := corresponding_leaf_places.2 left right alike.arguments
  have onLeft := leaf_places_at.2 left
  have onRight := leaf_places_at.2 right
  rw [← places] at onRight
  rw [argument_leaves_eq, argument_leaves_eq]
  refine ⟨places, ?_, ?_⟩
  · have leftCount := congrArg List.length onLeft
    have rightCount := congrArg List.length onRight
    simp only [List.length_map] at leftCount rightCount
    omega
  · calc
      (left.leaves.zip right.leaves).map (fun pair => (some pair.1, some pair.2))
        = (left.leaves.map some).zip (right.leaves.map some) := (List.zip_map ..).symm
      _ = (left.leafPlaces.map left.at?).zip (left.leafPlaces.map right.at?) := by
          rw [onLeft, onRight]
      _ = left.leafPlaces.map fun place => (left.at? place, right.at? place) := List.zip_map' ..

end Places

/-- Where the hash function tells apart what goes into the digests of two literals, equal
value digests mean arguments alike in shape, and equal annotation digests mean annotations
alike in shape besides; so matching by digests is comparing the shapes themselves. The leaves
of the arguments are then in the same places and are paired by these, each with one of the
other. -/
theorem Literal.digests_tell_shape (hash : Hasher) (left right : Literal)
    (separates : hash.Separates (left.fed hash ++ right.fed hash)) :
    (left.valueDigest hash = right.valueDigest hash ↔ left.AlikeInShape right) ∧
    (left.valueDigest hash = right.valueDigest hash ∧
        left.annotationDigest hash = right.annotationDigest hash ↔
      left.AlikeInShape right ∧ left.AnnotationsAlike right) ∧
    (left.matchesValue hash right = true ↔ left.AlikeInShape right) ∧
    (left.matchesExact hash right = true ↔
      left.AlikeInShape right ∧ left.AnnotationsAlike right) ∧
    (left.valueShape = right.valueShape ↔ left.AlikeInShape right) ∧
    (left.valueShape = right.valueShape ∧ left.annotationShape = right.annotationShape ↔
      left.AlikeInShape right ∧ left.AnnotationsAlike right) ∧
    (left.matchesValue hash right = true →
      left.leafPlaces = right.leafPlaces ∧
      left.argumentLeaves.length = right.argumentLeaves.length ∧
      ((left.argumentLeaves.zip right.argumentLeaves).map fun pair =>
          (some pair.1, some pair.2)) =
        left.leafPlaces.map fun place => (left.at? place, right.at? place)) := by
  have values := value_digest_eq_iff separates
  have annotations := annotation_digest_eq_iff separates
  have both : left.valueDigest hash = right.valueDigest hash ∧
      left.annotationDigest hash = right.annotationDigest hash ↔
        left.AlikeInShape right ∧ left.AnnotationsAlike right := by
    rw [values, annotations]
  refine ⟨values, both, (matches_value_iff hash).trans values, (matches_exact_iff hash).trans both,
    value_shape_eq_iff, ?_, ?_⟩
  · rw [value_shape_eq_iff, annotation_shape_eq_iff]
  · exact fun matched => (values.mp ((matches_value_iff hash).mp matched)).pairing

/-- `functor(leg(from, to), stop)[by(person)]`. -/
def Literal.journey (functor : String) (start finish person : Term) : Literal :=
  (ofArguments ⟨functor⟩
      [.literal (ofArguments ⟨"leg"⟩ [start, finish]), .literal (atom ⟨"stop"⟩)]).withAnnotations
    [ofArguments ⟨"by"⟩ [person]]

theorem Literal.journeys_told_alike :
    let route := journey "route" (.value (.int 1)) (.variable "X") (.variable "Y")
    let trip := journey "trip" (.value (.string "home")) (.value (.int 2)) (.value (.bool true))
    Hasher.rotating.Separates (route.fed .rotating ++ trip.fed .rotating) ∧
      route.valueDigest .rotating = trip.valueDigest .rotating ∧ route.AlikeInShape trip ∧
      route.leafPlaces = [[0, 0], [0, 1]] ∧ trip.leafPlaces = [[0, 0], [0, 1]] := by
  intro route trip
  have separates : Hasher.rotating.Separates (route.fed .rotating ++ trip.fed .rotating) := by
    decide +kernel
  have digests : route.valueDigest .rotating = trip.valueDigest .rotating := by decide +kernel
  obtain ⟨byDigest, _, matching, _, _, _, pairing⟩ :=
    digests_tell_shape .rotating route trip separates
  have alike := byDigest.mp digests
  exact ⟨separates, digests, alike, rfl, (pairing (matching.mpr alike)).1.symm⟩

end Deliberation
