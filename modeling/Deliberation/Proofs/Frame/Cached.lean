import Deliberation.Frame.Cached
import Deliberation.Proofs.Frame.Instantiation
import Deliberation.Proofs.Term.Order
import Deliberation.Proofs.Term.Shape

/-!
# Kept digests are those of the content

Every operation on literals that keep their digests does to the content what the operation
on plain literals does, and leaves the digests that the content asks for, as long as that
holds of what it is given. So it holds of everything that is built by these operations, at
any depth of nesting, and comparing kept digests compares contents.
-/

namespace Deliberation

set_option autoImplicit false

section Lists

theorem map_eq_self {α : Type} {change : α → α} {list : List α}
    (keeps : ∀ element ∈ list, change element = element) : list.map change = list :=
  (List.map_congr_left keeps).trans (List.map_id list)

theorem CachedTerm.all_plain_eq (terms : List CachedTerm) :
    CachedTerm.allPlain terms = terms.map CachedTerm.plain := by
  induction terms with
  | nil => rfl
  | cons term rest ih => rw [CachedTerm.allPlain, ih, List.map_cons]

theorem CachedLiteral.all_plain_eq (literals : List CachedLiteral) :
    CachedLiteral.allPlain literals = literals.map CachedLiteral.plain := by
  induction literals with
  | nil => rfl
  | cons inner rest ih => rw [CachedLiteral.allPlain, ih, List.map_cons]

variable (hash : Hasher)

theorem Term.all_cached_eq (terms : List Term) :
    Term.allCached hash terms = terms.map (Term.cached hash) := by
  induction terms with
  | nil => rfl
  | cons term rest ih => rw [Term.allCached, ih, List.map_cons]

theorem Literal.all_cached_eq (literals : List Literal) :
    Literal.allCached hash literals = literals.map (Literal.cached hash) := by
  induction literals with
  | nil => rfl
  | cons inner rest ih => rw [Literal.allCached, ih, List.map_cons]

variable (frame : CachedFrame) (chain : List String)

theorem CachedFrame.resolve_all_eq (terms : List CachedTerm) :
    frame.resolveAllFrom hash chain terms = terms.map (frame.resolveFrom hash chain) := by
  induction terms with
  | nil => rw [CachedFrame.resolveAllFrom, List.map_nil]
  | cons term rest ih => rw [CachedFrame.resolveAllFrom, ih, List.map_cons]

theorem CachedFrame.instantiate_all_eq (literals : List CachedLiteral) :
    frame.instantiateAllFrom hash chain literals =
      literals.map (frame.instantiateFrom hash chain) := by
  induction literals with
  | nil => rw [CachedFrame.instantiateAllFrom, List.map_nil]
  | cons inner rest ih => rw [CachedFrame.instantiateAllFrom, ih, List.map_cons]

end Lists

section Contents

variable (hash : Hasher)

theorem plain_cached :
    (∀ term : Term, (term.cached hash).plain = term) ∧
      ∀ inner : Literal, (inner.cached hash).plain = inner := by
  apply InductiveProperty.holds
  constructor
  case value => exact fun raw => rfl
  case free => exact fun name => rfl
  case carrying =>
    intro name own ih
    rw [Term.cached, CachedTerm.plain, ih]
  case nested =>
    intro inner ih
    rw [Term.cached, CachedTerm.plain, ih]
  case literal =>
    intro functor negated ordered arguments annotations ofArguments ofNotes
    rw [Literal.cached, CachedLiteral.plain, CachedTerm.all_plain_eq, CachedLiteral.all_plain_eq,
      Term.all_cached_eq, Literal.all_cached_eq, List.map_map, List.map_map]
    have sameArguments : arguments.map (CachedTerm.plain ∘ Term.cached hash) = arguments :=
      map_eq_self ofArguments
    have sameNotes : annotations.map (CachedLiteral.plain ∘ Literal.cached hash) = annotations :=
      map_eq_self ofNotes
    rw [sameArguments, sameNotes]

end Contents

namespace Literal

variable (hash : Hasher)

theorem cached_functor (inner : Literal) : (inner.cached hash).functor = inner.functor := by
  cases inner
  rfl

theorem cached_arguments (inner : Literal) :
    (inner.cached hash).arguments = inner.arguments.map (Term.cached hash) := by
  cases inner
  rw [cached, Term.all_cached_eq]
  rfl

theorem cached_annotations (inner : Literal) :
    (inner.cached hash).annotations = inner.annotations.map (Literal.cached hash) := by
  cases inner
  rw [cached, all_cached_eq]
  rfl

theorem cached_value_digest (inner : Literal) :
    (inner.cached hash).valueDigest = inner.valueDigest hash := by
  cases inner
  rfl

theorem cached_annotation_digest (inner : Literal) :
    (inner.cached hash).annotationDigest = inner.annotationDigest hash := by
  cases inner
  rfl

end Literal

/-! The operations do to what is cached as they do to the content. -/

namespace CachedLiteral

variable (hash : Hasher)

theorem rehash_cached (functor : Path) (negated ordered : Bool) (arguments : List Term)
    (notes : List Literal) (valueDigest annotationDigest : UInt64) :
    rehash hash (.mk functor negated ordered (arguments.map (Term.cached hash))
        (notes.map (Literal.cached hash)) valueDigest annotationDigest) =
      (Literal.mk functor negated ordered arguments notes).cached hash := by
  have sameArguments :
      CachedTerm.allPlain (arguments.map (Term.cached hash)) = arguments := by
    rw [CachedTerm.all_plain_eq, List.map_map]
    exact map_eq_self fun term _ => (plain_cached hash).1 term
  have sameNotes : ((notes.map (Literal.cached hash)).map fun note =>
      (note.functor, note.valueDigest)) =
        notes.map fun note => (note.functor, note.valueDigest hash) := by
    rw [List.map_map]
    refine List.map_congr_left fun note _ => ?_
    rw [Function.comp_apply, note.cached_functor, note.cached_value_digest]
  rw [rehash, sameArguments, sameNotes, Literal.cached, Term.all_cached_eq,
    Literal.all_cached_eq]
  rfl

theorem of_arguments_cached (functor : Path) (arguments : List Term) :
    ofArguments hash functor (arguments.map (Term.cached hash)) =
      (Literal.ofArguments functor arguments).cached hash :=
  rehash_cached hash functor false false arguments [] 0 0

theorem with_negated_cached (negated : Bool) (inner : Literal) :
    (inner.cached hash).withNegated negated = (inner.withNegated negated).cached hash := by
  cases inner
  rfl

theorem with_ordered_cached (ordered : Bool) (inner : Literal) :
    (inner.cached hash).withOrdered ordered = (inner.withOrdered ordered).cached hash := by
  cases inner
  rfl

theorem with_arguments_cached (arguments : List Term) (inner : Literal) :
    (inner.cached hash).withArguments hash (arguments.map (Term.cached hash)) =
      (inner.withArguments arguments).cached hash := by
  cases inner
  rw [Literal.cached, withArguments, Literal.all_cached_eq, rehash_cached]
  rfl

theorem with_annotations_cached (notes : List Literal) (inner : Literal) :
    (inner.cached hash).withAnnotations hash (notes.map (Literal.cached hash)) =
      (inner.withAnnotations notes).cached hash := by
  have sorted : sortByFunctor (notes.map (Literal.cached hash)) =
      (Literal.sortByFunctor notes).map (Literal.cached hash) :=
    sort_by_key_map Literal.functor (Literal.cached_functor hash) notes
  cases inner
  rw [Literal.cached, withAnnotations, sorted, Term.all_cached_eq, rehash_cached]
  rfl

end CachedLiteral

/-- A term that keeps the digests its content asks for, with annotations in order. -/
structure CachedTerm.Sound (hash : Hasher) (term : CachedTerm) : Prop where
  inOrder : term.plain.InOrder
  fresh : term.plain.cached hash = term

structure CachedLiteral.Sound (hash : Hasher) (inner : CachedLiteral) : Prop where
  inOrder : inner.plain.InOrder
  fresh : inner.plain.cached hash = inner

def CachedFrame.Sound (hash : Hasher) (frame : CachedFrame) : Prop :=
  ∀ name content, frame.value? name = some content → content.Sound hash

namespace CachedFrame

variable {hash : Hasher} {frame : CachedFrame}

theorem Sound.content {name : String} {content : Term} (sound : frame.Sound hash)
    (found : frame.plain.value? name = some content) :
    frame.value? name = some (content.cached hash) ∧ content.InOrder := by
  rw [plain_value, Option.map_eq_some_iff] at found
  obtain ⟨kept, foundKept, rfl⟩ := found
  obtain ⟨inOrder, fresh⟩ := sound name kept foundKept
  exact ⟨by rw [fresh, foundKept], inOrder⟩

theorem missing {name : String} (absent : frame.plain.value? name = none) :
    frame.value? name = none := by
  rwa [plain_value, Option.map_eq_none_iff] at absent

theorem resolve_free_from (chain : List String) (name : String) :
    frame.resolveFrom hash chain (.variable name) =
      if name ∈ chain then .variable name
      else
        match frame.value? name with
        | some content => frame.resolveFrom hash (name :: chain) content
        | none => .variable name := by
  rw [resolveFrom]
  split
  · rfl
  · split <;> simp_all

theorem resolve_bound_from (chain : List String) (name : String) (own : CachedTerm) :
    frame.resolveFrom hash chain (.bound name own) =
      if name ∈ chain then .variable name
      else
        match frame.value? name with
        | some content => frame.resolveFrom hash (name :: chain) content
        | none => frame.resolveFrom hash (name :: chain) own := by
  rw [resolveFrom]
  split
  · rfl
  · split <;> simp_all

theorem instantiate_ground {chain : List String} {inner : CachedLiteral}
    (ground : inner.isGround = true) : frame.instantiateFrom hash chain inner = inner := by
  cases inner
  rw [instantiateFrom]
  exact if_pos ground

theorem instantiate_open {chain : List String} {inner : CachedLiteral}
    (isOpen : inner.isGround = false) :
    frame.instantiateFrom hash chain inner =
      (inner.withArguments hash
        (inner.arguments.map (frame.resolveFrom hash chain))).withAnnotations hash
          (inner.annotations.map (frame.instantiateFrom hash chain)) := by
  cases inner
  rw [instantiateFrom, isOpen, resolve_all_eq, instantiate_all_eq]
  rfl

/-- Resolving a cached term goes the way of its content and caches the result. -/
def Follows (hash : Hasher) (frame : CachedFrame) (chain : List String) (term : Term) : Prop :=
  term.InOrder →
    frame.resolveFrom hash chain (term.cached hash) =
        (frame.plain.resolveFrom chain term).cached hash ∧
      (frame.plain.resolveFrom chain term).InOrder

def FollowsLiteral (hash : Hasher) (frame : CachedFrame) (chain : List String)
    (inner : Literal) : Prop :=
  inner.InOrder →
    frame.instantiateFrom hash chain (inner.cached hash) =
        (frame.plain.instantiateFrom chain inner).cached hash ∧
      (frame.plain.instantiateFrom chain inner).InOrder

theorem follows_open {chain : List String} {functor : Path} {negated ordered : Bool}
    {arguments : List Term} {annotations : List Literal}
    (isOpen : (Literal.mk functor negated ordered arguments annotations).isGround = false)
    (ofArguments : ∀ term ∈ arguments, frame.Follows hash chain term)
    (ofNotes : ∀ note ∈ annotations, frame.FollowsLiteral hash chain note) :
    frame.FollowsLiteral hash chain (.mk functor negated ordered arguments annotations) := by
  rintro (@⟨_, _, _, _, _, argumentsInOrder, notesInOrder, sorted⟩)
  have followedArguments : (arguments.map (Term.cached hash)).map (frame.resolveFrom hash chain) =
      (arguments.map (frame.plain.resolveFrom chain)).map (Term.cached hash) := by
    rw [List.map_map, List.map_map]
    exact List.map_congr_left fun term member =>
      (ofArguments term member (argumentsInOrder term member)).1
  have followedNotes :
      (annotations.map (Literal.cached hash)).map (frame.instantiateFrom hash chain) =
        (annotations.map (frame.plain.instantiateFrom chain)).map (Literal.cached hash) := by
    rw [List.map_map, List.map_map]
    exact List.map_congr_left fun note member =>
      (ofNotes note member (notesInOrder note member)).1
  have stillSorted : Literal.sortByFunctor (annotations.map (frame.plain.instantiateFrom chain)) =
      annotations.map (frame.plain.instantiateFrom chain) := by
    rw [Literal.sort_map (frame.plain.instantiate_functor chain), sorted]
  rw [frame.plain.instantiate_open chain _ isOpen]
  constructor
  · have isOpenKept : ((Literal.mk functor negated ordered arguments annotations).cached
        hash).isGround = false := by
      rw [CachedLiteral.isGround, (plain_cached hash).2, isOpen]
    rw [instantiate_open isOpenKept, Literal.cached_arguments, Literal.cached_annotations,
      Literal.arguments, Literal.annotations, followedArguments, followedNotes,
      CachedLiteral.with_arguments_cached, CachedLiteral.with_annotations_cached,
      Literal.withArguments, Literal.withAnnotations, stillSorted]
    rfl
  · apply Literal.InOrder.literal functor negated ordered _ _ stillSorted
    · rintro _ member
      obtain ⟨term, onList, rfl⟩ := List.mem_map.mp member
      exact (ofArguments term onList (argumentsInOrder term onList)).2
    · rintro _ member
      obtain ⟨note, onList, rfl⟩ := List.mem_map.mp member
      exact (ofNotes note onList (notesInOrder note onList)).2

theorem Sound.follows (sound : frame.Sound hash) (chain : List String) :
    (∀ term, frame.Follows hash chain term) ∧ ∀ inner, frame.FollowsLiteral hash chain inner := by
  apply @InductiveResolution.holds frame.plain
  constructor
  case value =>
    intro chain raw inOrder
    rw [Term.cached, resolveFrom, Frame.resolveFrom, Term.cached]
    exact ⟨rfl, inOrder⟩
  case stopped =>
    intro chain name onChain inOrder
    rw [Term.cached, resolve_free_from, frame.plain.resolve_free_from, if_pos onChain,
      if_pos onChain, Term.cached]
    exact ⟨rfl, inOrder⟩
  case followed =>
    intro chain name content fresh found ih _
    obtain ⟨kept, contentInOrder⟩ := sound.content found
    rw [Term.cached, resolve_free_from, frame.plain.resolve_free_from, if_neg fresh,
      if_neg fresh, kept, found]
    exact ih contentInOrder
  case free =>
    intro chain name fresh absent inOrder
    rw [Term.cached, resolve_free_from, frame.plain.resolve_free_from, if_neg fresh,
      if_neg fresh, missing absent, absent, Term.cached]
    exact ⟨rfl, inOrder⟩
  case carrierStopped =>
    intro chain name own onChain _
    rw [Term.cached, resolve_bound_from, frame.plain.resolve_bound_from, if_pos onChain,
      if_pos onChain, Term.cached]
    exact ⟨rfl, .free name⟩
  case carrierFollowed =>
    intro chain name own content fresh found ih _
    obtain ⟨kept, contentInOrder⟩ := sound.content found
    rw [Term.cached, resolve_bound_from, frame.plain.resolve_bound_from, if_neg fresh,
      if_neg fresh, kept, found]
    exact ih contentInOrder
  case carrierOpened =>
    intro chain name own fresh absent ih inOrder
    cases inOrder with
    | carrying _ ownInOrder =>
        rw [Term.cached, resolve_bound_from, frame.plain.resolve_bound_from, if_neg fresh,
          if_neg fresh, missing absent, absent]
        exact ih ownInOrder
  case nested =>
    intro chain inner ih inOrder
    cases inOrder with
    | nested innerInOrder =>
        obtain ⟨followed, stillInOrder⟩ := ih innerInOrder
        rw [Term.cached, resolveFrom, Frame.resolveFrom, followed, Term.cached]
        exact ⟨rfl, .nested stillInOrder⟩
  case literal =>
    intro chain functor negated ordered arguments annotations ofArguments ofNotes
    -- A ground literal is kept with the digests it has; only an open one gets new ones.
    cases ground : (Literal.mk functor negated ordered arguments annotations).isGround with
    | false => exact follows_open ground ofArguments ofNotes
    | true =>
        intro inOrder
        have groundKept : ((Literal.mk functor negated ordered arguments annotations).cached
            hash).isGround = true := by
          rw [CachedLiteral.isGround, (plain_cached hash).2, ground]
        rw [instantiate_ground groundKept, frame.plain.instantiate_ground chain _ ground]
        exact ⟨rfl, inOrder⟩

/-- Instantiating does to the content what it does to a plain literal. -/
theorem Sound.instantiate_plain {inner : CachedLiteral} (slots : frame.Sound hash)
    (sound : inner.Sound hash) :
    (frame.instantiate hash inner).plain = frame.plain.instantiate inner.plain := by
  obtain ⟨followed, _⟩ := (slots.follows []).2 inner.plain sound.inOrder
  rw [sound.fresh] at followed
  rw [instantiate, followed, (plain_cached hash).2, Frame.instantiate]

end CachedFrame

end Deliberation
