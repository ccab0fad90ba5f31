import Deliberation.Match.Candidates
import Deliberation.Match.Head
import Deliberation.Proofs.Frame.Cached

/-!
# No digest is ever out of date

Each operation on literals leaves digests that its content asks for where it found such
digests, at any depth of nesting. So a literal that is built by these operations has the
digests that building it afresh would give it, and so has every literal inside it. Equal
literals then have equal digests, and the exact tier misses none of them.
-/

namespace Deliberation

set_option autoImplicit false

variable {hash : Hasher}

theorem CachedTerm.sound_iff (term : CachedTerm) :
    term.Sound hash ↔ ∃ content : Term, content.InOrder ∧ content.cached hash = term := by
  constructor
  · rintro ⟨inOrder, fresh⟩
    exact ⟨term.plain, inOrder, fresh⟩
  · rintro ⟨content, inOrder, rfl⟩
    constructor
    · rwa [(plain_cached hash).1]
    · rw [(plain_cached hash).1]

theorem CachedLiteral.sound_iff (inner : CachedLiteral) :
    inner.Sound hash ↔ ∃ content : Literal, content.InOrder ∧ content.cached hash = inner := by
  constructor
  · rintro ⟨inOrder, fresh⟩
    exact ⟨inner.plain, inOrder, fresh⟩
  · rintro ⟨content, inOrder, rfl⟩
    constructor
    · rwa [(plain_cached hash).2]
    · rw [(plain_cached hash).2]

theorem CachedTerm.all_sound {terms : List CachedTerm}
    (parts : ∀ term ∈ terms, term.Sound hash) :
    ∃ contents : List Term,
      (∀ content ∈ contents, content.InOrder) ∧ contents.map (Term.cached hash) = terms := by
  refine ⟨terms.map plain, ?_, ?_⟩
  · rintro _ member
    obtain ⟨term, onList, rfl⟩ := List.mem_map.mp member
    exact (parts term onList).inOrder
  · rw [List.map_map]
    exact map_eq_self fun term member => (parts term member).fresh

theorem CachedLiteral.all_sound {literals : List CachedLiteral}
    (parts : ∀ inner ∈ literals, inner.Sound hash) :
    ∃ contents : List Literal,
      (∀ content ∈ contents, content.InOrder) ∧ contents.map (Literal.cached hash) = literals := by
  refine ⟨literals.map plain, ?_, ?_⟩
  · rintro _ member
    obtain ⟨inner, onList, rfl⟩ := List.mem_map.mp member
    exact (parts inner onList).inOrder
  · rw [List.map_map]
    exact map_eq_self fun inner member => (parts inner member).fresh

/-! What each operation gives is sound if what it is given is. -/

namespace CachedTerm

theorem sound_value (raw : Value) : (CachedTerm.value raw).Sound hash :=
  ⟨.value raw, rfl⟩

theorem sound_free (name : String) : (CachedTerm.variable name).Sound hash :=
  ⟨.free name, rfl⟩

theorem Sound.carrying {own : CachedTerm} (name : String) (sound : own.Sound hash) :
    (CachedTerm.bound name own).Sound hash :=
  ⟨.carrying name sound.inOrder, congrArg (CachedTerm.bound name) sound.fresh⟩

theorem Sound.nested {inner : CachedLiteral} (sound : inner.Sound hash) :
    (CachedTerm.literal inner).Sound hash :=
  ⟨.nested sound.inOrder, congrArg CachedTerm.literal sound.fresh⟩

theorem Sound.resolved {frame : CachedFrame} {term : CachedTerm} (slots : frame.Sound hash)
    (sound : term.Sound hash) : (frame.resolve hash term).Sound hash := by
  obtain ⟨content, inOrder, rfl⟩ := (sound_iff term).mp sound
  obtain ⟨followed, stillInOrder⟩ := (slots.follows []).1 content inOrder
  rw [CachedFrame.resolve, followed]
  exact (sound_iff _).mpr ⟨_, stillInOrder, rfl⟩

end CachedTerm

namespace CachedLiteral

variable {whole : CachedLiteral}

theorem sound_of_arguments {arguments : List CachedTerm} (functor : Path)
    (parts : ∀ argument ∈ arguments, argument.Sound hash) :
    (ofArguments hash functor arguments).Sound hash := by
  obtain ⟨contents, inOrder, rfl⟩ := CachedTerm.all_sound parts
  rw [of_arguments_cached]
  exact (sound_iff _).mpr ⟨_, .literal functor false false inOrder (by simp) rfl, rfl⟩

theorem Sound.with_negated (negated : Bool) (sound : whole.Sound hash) :
    (whole.withNegated negated).Sound hash := by
  obtain ⟨_, ⟨functor, _, ordered, ofArguments, ofNotes, sorted⟩, rfl⟩ := (sound_iff whole).mp sound
  rw [with_negated_cached]
  exact (sound_iff _).mpr ⟨_, .literal functor negated ordered ofArguments ofNotes sorted, rfl⟩

theorem Sound.with_ordered (ordered : Bool) (sound : whole.Sound hash) :
    (whole.withOrdered ordered).Sound hash := by
  obtain ⟨_, ⟨functor, negated, _, ofArguments, ofNotes, sorted⟩, rfl⟩ := (sound_iff whole).mp sound
  rw [with_ordered_cached]
  exact (sound_iff _).mpr ⟨_, .literal functor negated ordered ofArguments ofNotes sorted, rfl⟩

theorem Sound.with_arguments {arguments : List CachedTerm}
    (parts : ∀ argument ∈ arguments, argument.Sound hash) (sound : whole.Sound hash) :
    (whole.withArguments hash arguments).Sound hash := by
  obtain ⟨_, ⟨functor, negated, ordered, _, ofNotes, sorted⟩, rfl⟩ := (sound_iff whole).mp sound
  obtain ⟨contents, inOrder, rfl⟩ := CachedTerm.all_sound parts
  rw [with_arguments_cached]
  exact (sound_iff _).mpr ⟨_, .literal functor negated ordered inOrder ofNotes sorted, rfl⟩

theorem Sound.with_annotations {notes : List CachedLiteral}
    (parts : ∀ note ∈ notes, note.Sound hash) (sound : whole.Sound hash) :
    (whole.withAnnotations hash notes).Sound hash := by
  obtain ⟨_, ⟨functor, negated, ordered, ofArguments, _, _⟩, rfl⟩ := (sound_iff whole).mp sound
  obtain ⟨contents, inOrder, rfl⟩ := all_sound parts
  rw [with_annotations_cached]
  have stillInOrder : ∀ note ∈ Literal.sortByFunctor contents, note.InOrder :=
    fun note member => inOrder note ((Literal.mem_sort_iff note contents).mp member)
  exact (sound_iff _).mpr ⟨_, .literal functor negated ordered ofArguments stillInOrder
    (Literal.sort_sorted contents), rfl⟩

theorem Sound.instantiated {frame : CachedFrame} (slots : frame.Sound hash)
    (sound : whole.Sound hash) : (frame.instantiate hash whole).Sound hash := by
  obtain ⟨content, inOrder, rfl⟩ := (sound_iff whole).mp sound
  obtain ⟨followed, stillInOrder⟩ := (slots.follows []).2 content inOrder
  rw [CachedFrame.instantiate, followed]
  exact (sound_iff _).mpr ⟨_, stillInOrder, rfl⟩

end CachedLiteral

mutual

/-- What the operations on terms give, whatever they are given of what they gave. -/
inductive CachedTerm.Built (hash : Hasher) : CachedTerm → Prop
  | value (raw : Value) : CachedTerm.Built hash (.value raw)
  | free (name : String) : CachedTerm.Built hash (.variable name)
  | carrying {own : CachedTerm} (name : String) (built : CachedTerm.Built hash own) :
      CachedTerm.Built hash (.bound name own)
  | nested {inner : CachedLiteral} (built : CachedLiteral.Built hash inner) :
      CachedTerm.Built hash (.literal inner)
  | resolved {frame : CachedFrame} {term : CachedTerm}
      (slots : ∀ name content, frame.value? name = some content → CachedTerm.Built hash content)
      (built : CachedTerm.Built hash term) : CachedTerm.Built hash (frame.resolve hash term)

/-- What the operations on literals give, whatever they are given of what they gave. -/
inductive CachedLiteral.Built (hash : Hasher) : CachedLiteral → Prop
  | new {arguments : List CachedTerm} (functor : Path)
      (parts : ∀ argument ∈ arguments, CachedTerm.Built hash argument) :
      CachedLiteral.Built hash (.ofArguments hash functor arguments)
  | atom (functor : Path) : CachedLiteral.Built hash (.atom hash functor)
  | arguments {whole : CachedLiteral} {arguments : List CachedTerm}
      (parts : ∀ argument ∈ arguments, CachedTerm.Built hash argument)
      (built : CachedLiteral.Built hash whole) :
      CachedLiteral.Built hash (whole.withArguments hash arguments)
  | annotations {whole : CachedLiteral} {notes : List CachedLiteral}
      (parts : ∀ note ∈ notes, CachedLiteral.Built hash note)
      (built : CachedLiteral.Built hash whole) :
      CachedLiteral.Built hash (whole.withAnnotations hash notes)
  | negated {whole : CachedLiteral} (negated : Bool) (built : CachedLiteral.Built hash whole) :
      CachedLiteral.Built hash (whole.withNegated negated)
  | ordered {whole : CachedLiteral} (ordered : Bool) (built : CachedLiteral.Built hash whole) :
      CachedLiteral.Built hash (whole.withOrdered ordered)
  | instantiated {frame : CachedFrame} {whole : CachedLiteral}
      (slots : ∀ name content, frame.value? name = some content → CachedTerm.Built hash content)
      (built : CachedLiteral.Built hash whole) :
      CachedLiteral.Built hash (frame.instantiate hash whole)

end

mutual

theorem CachedTerm.Built.sound {term : CachedTerm} : term.Built hash → term.Sound hash
  | .value raw => CachedTerm.sound_value raw
  | .free name => CachedTerm.sound_free name
  | .carrying name built => built.sound.carrying name
  | .nested built => CachedTerm.Sound.nested built.sound
  | .resolved slots built =>
      CachedTerm.Sound.resolved (fun name content found => (slots name content found).sound)
        built.sound

theorem CachedLiteral.Built.sound {whole : CachedLiteral} :
    whole.Built hash → whole.Sound hash
  | .new functor parts =>
      CachedLiteral.sound_of_arguments functor fun argument member => (parts argument member).sound
  | .atom functor => CachedLiteral.sound_of_arguments functor (by simp)
  | .arguments parts built =>
      built.sound.with_arguments fun argument member => (parts argument member).sound
  | .annotations parts built =>
      built.sound.with_annotations fun note member => (parts note member).sound
  | .negated negated built => built.sound.with_negated negated
  | .ordered ordered built => built.sound.with_ordered ordered
  | .instantiated slots built =>
      CachedLiteral.Sound.instantiated (fun name content found => (slots name content found).sound)
        built.sound

end

mutual

/-- A literal stands somewhere in a term, also in what a variable carries. -/
inductive CachedTerm.Holds (inner : CachedLiteral) : CachedTerm → Prop
  | carried {own : CachedTerm} (name : String) (holds : CachedTerm.Holds inner own) :
      CachedTerm.Holds inner (.bound name own)
  | nested {whole : CachedLiteral} (within : CachedLiteral.Within inner whole) :
      CachedTerm.Holds inner (.literal whole)

/-- A literal is another or stands somewhere in its arguments or annotations. -/
inductive CachedLiteral.Within (inner : CachedLiteral) : CachedLiteral → Prop
  | self : CachedLiteral.Within inner inner
  | argument {whole : CachedLiteral} {argument : CachedTerm}
      (member : argument ∈ whole.arguments) (holds : CachedTerm.Holds inner argument) :
      CachedLiteral.Within inner whole
  | note {whole note : CachedLiteral} (member : note ∈ whole.annotations)
      (within : CachedLiteral.Within inner note) : CachedLiteral.Within inner whole

end

section Parts

variable {inner whole : CachedLiteral}

theorem CachedTerm.Sound.carried {name : String} {own : CachedTerm}
    (sound : (CachedTerm.bound name own).Sound hash) : own.Sound hash := by
  obtain ⟨content, inOrder, cached⟩ := (sound_iff _).mp sound
  cases inOrder with
  | carrying carrier ownInOrder =>
      cases cached
      exact (sound_iff _).mpr ⟨_, ownInOrder, rfl⟩
  | _ => cases cached

theorem CachedTerm.Sound.content (sound : (CachedTerm.literal inner).Sound hash) :
    inner.Sound hash := by
  obtain ⟨content, inOrder, cached⟩ := (sound_iff _).mp sound
  cases inOrder with
  | nested innerInOrder =>
      cases cached
      exact (CachedLiteral.sound_iff _).mpr ⟨_, innerInOrder, rfl⟩
  | _ => cases cached

theorem CachedLiteral.Sound.argument {argument : CachedTerm} (sound : whole.Sound hash)
    (member : argument ∈ whole.arguments) : argument.Sound hash := by
  obtain ⟨_, ⟨_, _, _, ofArguments, _, _⟩, rfl⟩ := (sound_iff whole).mp sound
  rw [Literal.cached_arguments] at member
  obtain ⟨content, onList, rfl⟩ := List.mem_map.mp member
  exact (CachedTerm.sound_iff _).mpr ⟨content, ofArguments content onList, rfl⟩

theorem CachedLiteral.Sound.note {note : CachedLiteral} (sound : whole.Sound hash)
    (member : note ∈ whole.annotations) : note.Sound hash := by
  obtain ⟨_, ⟨_, _, _, _, ofNotes, _⟩, rfl⟩ := (sound_iff whole).mp sound
  rw [Literal.cached_annotations] at member
  obtain ⟨content, onList, rfl⟩ := List.mem_map.mp member
  exact (sound_iff _).mpr ⟨content, ofNotes content onList, rfl⟩

mutual

theorem CachedTerm.Holds.sound {term : CachedTerm} :
    CachedTerm.Holds inner term → term.Sound hash → inner.Sound hash
  | .carried _ holds, sound => holds.sound sound.carried
  | .nested within, sound => within.sound sound.content

theorem CachedLiteral.Within.sound {whole : CachedLiteral} :
    inner.Within whole → whole.Sound hash → inner.Sound hash
  | .self, sound => sound
  | .argument member holds, sound => holds.sound (sound.argument member)
  | .note member within, sound => within.sound (sound.note member)

end

end Parts

namespace CachedLiteral

/-- What the same functor, arguments and annotations give when put together anew. -/
def afresh (hash : Hasher) (inner : CachedLiteral) : CachedLiteral :=
  (ofArguments hash inner.functor inner.arguments).withAnnotations hash inner.annotations

/-- Neither the sign nor the ordering marker is in a digest. -/
theorem marked_digests (negated ordered : Bool) (inner : CachedLiteral) :
    ((inner.withNegated negated).withOrdered ordered).valueDigest = inner.valueDigest ∧
      ((inner.withNegated negated).withOrdered ordered).annotationDigest =
        inner.annotationDigest := by
  cases inner
  exact ⟨rfl, rfl⟩

variable {inner left right : CachedLiteral}

theorem Sound.value_digest (sound : inner.Sound hash) :
    inner.valueDigest = inner.plain.valueDigest hash := by
  rw [← inner.plain.cached_value_digest, sound.fresh]

theorem Sound.annotation_digest (sound : inner.Sound hash) :
    inner.annotationDigest = inner.plain.annotationDigest hash := by
  rw [← inner.plain.cached_annotation_digest, sound.fresh]

theorem Sound.rebuilt (sound : inner.Sound hash) :
    ((inner.afresh hash).withNegated inner.negated).withOrdered inner.ordered = inner := by
  obtain ⟨_, ⟨functor, negated, ordered, _, _, sorted⟩, rfl⟩ := (sound_iff inner).mp sound
  rw [afresh, Literal.cached_functor, Literal.cached_arguments, Literal.cached_annotations,
    of_arguments_cached, with_annotations_cached, with_negated_cached, with_ordered_cached]
  rw [Literal.annotations, Literal.ofArguments, Literal.withAnnotations, sorted]
  rfl

/-- Comparing kept digests is matching the contents. -/
theorem Sound.matches_value_eq (onLeft : left.Sound hash) (onRight : right.Sound hash) :
    left.matchesValue right = left.plain.matchesValue hash right.plain := by
  rw [matchesValue, Literal.matchesValue, onLeft.value_digest, onRight.value_digest]

theorem Sound.matches_exact_eq (onLeft : left.Sound hash) (onRight : right.Sound hash) :
    left.matchesExact right = left.plain.matchesExact hash right.plain := by
  rw [matchesExact, Literal.matchesExact, onLeft.value_digest, onRight.value_digest,
    onLeft.annotation_digest, onRight.annotation_digest]

theorem Sound.matches_exact (onLeft : left.Sound hash) (onRight : right.Sound hash)
    (same : left.same right = true) : left.matchesExact right = true := by
  rw [onLeft.matches_exact_eq onRight]
  exact Literal.matches_exact_of_marks hash (same_marks.2 _ _ same)
    (Literal.same_annotation_marks same)

/-- What the tiers of a query ask of a fact is asked of the digests that goal and fact keep. -/
theorem Built.tiers_admit {goal fact : CachedLiteral} (ofGoal : goal.Built .rotating)
    (ofFact : fact.Built .rotating) :
    Tier.exact.admits goal.plain fact.plain = goal.matchesExact fact ∧
      Tier.valueExact.admits goal.plain fact.plain = goal.matchesValue fact :=
  ⟨(ofGoal.sound.matches_exact_eq ofFact.sound).symm,
    (ofGoal.sound.matches_value_eq ofFact.sound).symm⟩

/-- A head and a call are paired under the digests that they keep. -/
theorem Built.match_head_eq {pattern call : CachedLiteral} (ofPattern : pattern.Built .rotating)
    (ofCall : call.Built .rotating) :
    pattern.plain.matchHead? call.plain =
      if pattern.functor = call.functor ∧ pattern.negated = call.negated ∧
          pattern.matchesValue call = true then
        HeadMatch.meetAll? (pattern.plain.argumentLeaves.zip call.plain.argumentLeaves) .empty
      else none := by
  rw [Literal.matchHead?, ofPattern.sound.matches_value_eq ofCall.sound]
  cases pattern
  cases call
  rfl

/-- Every literal inside a literal that is built by the operations has the digests that its
content asks for, which are those it gets when put together anew, and equal literals that
are so built match exactly. -/
theorem digests_never_stale (hash : Hasher) :
    (∀ whole : CachedLiteral, whole.Built hash → ∀ inner : CachedLiteral, inner.Within whole →
      inner.valueDigest = (inner.afresh hash).valueDigest ∧
      inner.annotationDigest = (inner.afresh hash).annotationDigest ∧
      ((inner.afresh hash).withNegated inner.negated).withOrdered inner.ordered = inner ∧
      inner.valueDigest = inner.plain.valueDigest hash ∧
      inner.annotationDigest = inner.plain.annotationDigest hash) ∧
    ∀ left right : CachedLiteral, left.Built hash → right.Built hash →
      left.same right = true → left.matchesExact right = true := by
  constructor
  · intro whole built inner within
    have sound := within.sound built.sound
    have kept := marked_digests inner.negated inner.ordered (inner.afresh hash)
    rw [sound.rebuilt] at kept
    exact ⟨kept.1, kept.2, sound.rebuilt, sound.value_digest, sound.annotation_digest⟩
  · intro left right onLeft onRight same
    exact onLeft.sound.matches_exact onRight.sound same

/-- `functor(argument)[by(argument)]`. -/
def signed (hash : Hasher) (functor : String) (argument : CachedTerm) : CachedLiteral :=
  (ofArguments hash ⟨functor⟩ [argument]).withAnnotations hash [ofArguments hash ⟨"by"⟩ [argument]]

theorem signed_built {argument : CachedTerm} (functor : String) (built : argument.Built hash) :
    (signed hash functor argument).Built hash := by
  have parts : ∀ term ∈ [argument], term.Built hash := by simpa using built
  refine .annotations (fun note member => ?_) (.new ⟨functor⟩ parts)
  rw [List.mem_singleton.mp member]
  exact .new ⟨"by"⟩ parts

theorem signed_instantiated {frame : CachedFrame} {name : String} {content : CachedTerm}
    (functor : String) (reads : frame.resolve hash (.variable name) = content) :
    frame.instantiate hash (signed hash functor (.variable name)) =
      signed hash functor content := by
  rw [CachedFrame.resolve] at reads
  have note : frame.instantiateFrom hash [] (ofArguments hash ⟨"by"⟩ [.variable name]) =
      ofArguments hash ⟨"by"⟩ [content] := by
    rw [CachedFrame.instantiate_open rfl]
    change (withArguments hash [frame.resolveFrom hash [] (.variable name)] _).withAnnotations
      hash [] = _
    rw [reads]
    rfl
  rw [CachedFrame.instantiate, CachedFrame.instantiate_open rfl]
  change (withArguments hash [frame.resolveFrom hash [] (.variable name)] _).withAnnotations hash
    [frame.instantiateFrom hash [] (ofArguments hash ⟨"by"⟩ [.variable name])] = _
  rw [reads, note]
  rfl

/-- A variable in an argument and in an annotation becomes a literal with an annotation. -/
theorem instantiated_not_stale :
    let leg := signed .rotating "leg" (.value (.int 1))
    let trip := signed .rotating "trip" (.variable "X")
    let taken :=
      (CachedFrame.instantiate .rotating ⟨[("X", some (.literal leg))]⟩ trip).withNegated true
    let direct := ((signed .rotating "trip" (.literal leg)).withNegated true).withOrdered true
    taken.Built .rotating ∧ leg.Within taken ∧
      leg.valueDigest = (leg.afresh .rotating).valueDigest ∧
      taken.annotationDigest = (taken.afresh .rotating).annotationDigest ∧
      trip.annotationDigest ≠ taken.annotationDigest ∧ direct.Built .rotating ∧
      taken.same direct = true ∧ taken.matchesExact direct = true := by
  intro leg trip taken direct
  have legBuilt : leg.Built .rotating := signed_built "leg" (.value (.int 1))
  have slots (name : String) (content : CachedTerm)
      (found : CachedFrame.value? ⟨[("X", some (.literal leg))]⟩ name = some content) :
      content.Built .rotating := by
    obtain ⟨slot, onList, holds⟩ := Option.bind_eq_some_iff.mp found
    obtain rfl := List.mem_singleton.mp (List.mem_of_find?_eq_some onList)
    cases holds
    exact .nested legBuilt
  have takenBuilt : taken.Built .rotating :=
    .negated true (.instantiated slots (signed_built "trip" (.free "X")))
  have directBuilt : direct.Built .rotating :=
    .ordered true (.negated true (signed_built "trip" (.nested legBuilt)))
  have reads : CachedFrame.resolve .rotating ⟨[("X", some (.literal leg))]⟩ (.variable "X") =
      .literal leg := by
    rw [CachedFrame.resolve, CachedFrame.resolve_free_from, if_neg List.not_mem_nil]
    change CachedFrame.resolveFrom .rotating _ ["X"] (.literal leg) = _
    rw [CachedFrame.resolveFrom, CachedFrame.instantiate_ground rfl]
  have becomes : taken = (signed .rotating "trip" (.literal leg)).withNegated true :=
    congrArg (withNegated true) (signed_instantiated "trip" reads)
  have within : leg.Within taken := by
    rw [becomes]
    exact .argument List.mem_cons_self (.nested .self)
  have same : taken.same direct = true := by
    rw [becomes]
    decide +kernel
  obtain ⟨fresh, exact⟩ := digests_never_stale .rotating
  have ofLeg := fresh taken takenBuilt leg within
  have ofTaken := fresh taken takenBuilt taken .self
  refine ⟨takenBuilt, within, ofLeg.1, ofTaken.2.1, ?_, directBuilt, same,
    exact taken direct takenBuilt directBuilt same⟩
  rw [becomes]
  decide +kernel

end CachedLiteral

end Deliberation
