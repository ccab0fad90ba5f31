import Deliberation.Proofs.Frame.Assignment
import Deliberation.Proofs.Frame.Structure
import Deliberation.Proofs.Term.Substitution
import Mathlib.Logic.Relation

/-!
# Frames without cycles

A slot mentions the variables of the term in it. Without a cycle of mentions resolving
never meets a name of its chain again, so all that it leaves is unallocated. Binding
unallocated names to raw values then changes what resolving leaves and nothing else: the
values stand where the names stood.
-/

namespace Deliberation

set_option autoImplicit false

namespace Frame

variable (frame : Frame)

/-- No slot holds a variable that carries a term. -/
def Plain : Prop :=
  ∀ name content, frame.value? name = some content → content.isPlain = true

def Mentions (name other : String) : Prop :=
  ∃ content, frame.value? name = some content ∧ other ∈ content.variables

/-- No name is mentioned by its own slot, directly or through others. -/
def Acyclic : Prop :=
  ∀ name, ¬Relation.TransGen frame.Mentions name name

/-- All names of the chain mention all of the names, directly or through others. -/
def Leads (chain names : List String) : Prop :=
  ∀ name ∈ chain, ∀ other ∈ names, Relation.TransGen frame.Mentions name other

variable {frame}

theorem Acyclic.of_rank (rank : String → Nat)
    (falls : ∀ name other, frame.Mentions name other → rank other < rank name) :
    frame.Acyclic := by
  intro name cycle
  have lower : ∀ last, Relation.TransGen frame.Mentions name last → rank last < rank name := by
    intro last path
    induction path with
    | single mentions => exact falls _ _ mentions
    | tail _ mentions ih => exact Nat.lt_trans (falls _ _ mentions) ih
  exact Nat.lt_irrefl _ (lower name cycle)

theorem Leads.enter {chain : List String} {name : String} {content : Term}
    (leads : frame.Leads chain [name]) (found : frame.value? name = some content) :
    frame.Leads (name :: chain) content.variables := by
  intro first onChain other member
  have mentions : frame.Mentions name other := ⟨content, found, member⟩
  rcases List.mem_cons.mp onChain with rfl | before
  · exact .single mentions
  · exact .tail (leads first before name List.mem_cons_self) mentions

theorem Leads.part {chain whole part : List String} (leads : frame.Leads chain whole)
    (within : ∀ name ∈ part, name ∈ whole) : frame.Leads chain part :=
  fun name onChain other member => leads name onChain other (within other member)

/-- Without cycles the variable met next is not on a chain that leads to it. -/
theorem Acyclic.fresh (acyclic : frame.Acyclic) {chain : List String} {name : String}
    (leads : frame.Leads chain [name]) : name ∉ chain :=
  fun onChain => acyclic name (leads name onChain name List.mem_cons_self)

end Frame

/-- What a property has to satisfy at each step of resolving plain terms in a frame
without cycles, where no name is met twice. -/
structure InductiveUnfolding (frame : Frame) (onTerm : List String → Term → Prop)
    (onLiteral : List String → Literal → Prop) : Prop where
  value : ∀ chain raw, onTerm chain (.value raw)
  followed : ∀ chain name content, name ∉ chain → frame.value? name = some content →
    onTerm (name :: chain) content → onTerm chain (.variable name)
  free : ∀ chain name, name ∉ chain → frame.value? name = none → onTerm chain (.variable name)
  nested : ∀ chain inner, onLiteral chain inner → onTerm chain (.literal inner)
  literal : ∀ chain functor negated ordered arguments annotations,
    (Literal.mk functor negated ordered arguments annotations).isPlain = true →
    (∀ term ∈ arguments, onTerm chain term) → (∀ note ∈ annotations, onLiteral chain note) →
      onLiteral chain (.mk functor negated ordered arguments annotations)

theorem InductiveUnfolding.holds {frame : Frame} {onTerm : List String → Term → Prop}
    {onLiteral : List String → Literal → Prop}
    (property : InductiveUnfolding frame onTerm onLiteral) (acyclic : frame.Acyclic)
    (plainFrame : frame.Plain) (chain : List String) :
    (∀ term, term.isPlain = true → frame.Leads chain term.variables → onTerm chain term) ∧
      ∀ inner, inner.isPlain = true → frame.Leads chain inner.variables →
        onLiteral chain inner := by
  -- What is ahead is mentioned by the whole chain, so the stopping cases cannot come up.
  revert chain
  apply InductiveResolution.holds
  constructor
  case value => exact fun chain raw _ _ => property.value chain raw
  case stopped =>
    intro chain name onChain _ leads
    exact absurd onChain (acyclic.fresh leads)
  case followed =>
    intro chain name content fresh found ih _ leads
    exact property.followed chain name content fresh found
      (ih (plainFrame name content found) (leads.enter found))
  case free => exact fun chain name fresh found _ _ => property.free chain name fresh found
  case carrierStopped | carrierFollowed | carrierOpened => simp [Term.isPlain]
  case nested =>
    exact fun chain inner ih plain leads => property.nested chain inner (ih plain leads)
  case literal =>
    intro chain functor negated ordered arguments annotations ofArguments ofNotes plain leads
    have parts := (Literal.is_plain_iff _).mp plain
    refine property.literal chain functor negated ordered arguments annotations plain ?_ ?_
    · intro term member
      refine ofArguments term member (parts.1 term member) (leads.part fun name occurs => ?_)
      exact (Literal.mem_variables_iff _ name).mpr (.inl ⟨term, member, occurs⟩)
    · intro note member
      refine ofNotes note member (parts.2 note member) (leads.part fun name occurs => ?_)
      exact (Literal.mem_variables_iff _ name).mpr (.inr ⟨note, member, occurs⟩)

namespace Frame

/-- In a frame of plain terms resolving keeps terms plain, whatever cycles there are. -/
theorem Plain.resolved {frame : Frame} (plainFrame : frame.Plain) (chain : List String) :
    (∀ term, term.isPlain = true → (frame.resolveFrom chain term).isPlain = true) ∧
      ∀ inner, inner.isPlain = true → (frame.instantiateFrom chain inner).isPlain = true := by
  revert chain
  apply InductiveResolution.holds
  constructor
  case value =>
    intro chain raw _
    rw [resolveFrom]
    rfl
  case stopped =>
    intro chain name onChain _
    rw [resolve_free_from, if_pos onChain]
    rfl
  case followed =>
    intro chain name content fresh found ih _
    rw [resolve_free_from, if_neg fresh, found]
    exact ih (plainFrame name content found)
  case free =>
    intro chain name fresh found _
    rw [resolve_free_from, if_neg fresh, found]
    rfl
  case carrierStopped | carrierFollowed | carrierOpened => simp [Term.isPlain]
  case nested =>
    intro chain inner ih plain
    rw [resolveFrom]
    exact ih plain
  case literal =>
    intro chain functor negated ordered arguments annotations ofArguments ofNotes plain
    have parts := (Literal.is_plain_iff _).mp plain
    rw [frame.instantiate_plain chain functor negated ordered arguments annotations plain]
    apply (Literal.is_plain_iff _).mpr
    constructor
    · intro resolved member
      obtain ⟨argument, isArgument, rfl⟩ := List.mem_map.mp member
      exact ofArguments argument isArgument (parts.1 argument isArgument)
    · intro resolved member
      obtain ⟨note, isNote, rfl⟩ := List.mem_map.mp member
      exact ofNotes note isNote (parts.2 note isNote)

variable {frame : Frame} (acyclic : frame.Acyclic) (plainFrame : frame.Plain)

include acyclic plainFrame

/-- All that resolving leaves is unallocated. -/
theorem Acyclic.leaves_unallocated :
    (∀ term, term.isPlain = true → ∀ name ∈ (frame.resolve term).variables,
      frame.value? name = none) ∧
    ∀ goal, goal.isPlain = true → ∀ name ∈ (frame.instantiate goal).variables,
      frame.value? name = none := by
  have unfolding : InductiveUnfolding frame
      (fun chain term => ∀ name ∈ (frame.resolveFrom chain term).variables,
        frame.value? name = none)
      (fun chain inner => ∀ name ∈ (frame.instantiateFrom chain inner).variables,
        frame.value? name = none) := by
    constructor
    case value => simp [resolveFrom, Term.variables]
    case followed =>
      intro chain name content fresh found ih
      rw [resolve_free_from, if_neg fresh, found]
      exact ih
    case free =>
      intro chain name fresh found
      rw [resolve_free_from, if_neg fresh, found]
      simpa [Term.variables] using found
    case nested =>
      intro chain inner ih
      rw [resolveFrom]
      exact ih
    case literal =>
      intro chain functor negated ordered arguments annotations plain ofArguments ofNotes name
        occurs
      rw [frame.instantiate_plain chain functor negated ordered arguments annotations plain,
        Literal.mem_variables_iff] at occurs
      rcases occurs with ⟨_, isArgument, found⟩ | ⟨_, isNote, found⟩
      · obtain ⟨argument, member, rfl⟩ := List.mem_map.mp isArgument
        exact ofArguments argument member name found
      · obtain ⟨note, member, rfl⟩ := List.mem_map.mp isNote
        exact ofNotes note member name found
  obtain ⟨onTerms, onLiterals⟩ := unfolding.holds acyclic plainFrame []
  exact ⟨fun term plain => onTerms term plain (by simp [Leads]),
    fun goal plain => onLiterals goal plain (by simp [Leads])⟩

theorem Acyclic.unallocated {goal : Literal} (plain : goal.isPlain = true) {name : String}
    (occurs : name ∈ (frame.instantiate goal).variables) : frame.value? name = none :=
  (acyclic.leaves_unallocated plainFrame).2 goal plain name occurs

omit acyclic plainFrame in
theorem commit_value (frame : Frame) {bindings : Bindings}
    (names : (bindings.map Prod.fst).Nodup) (name : String) :
    (frame.commit bindings).value? name =
      (findBinding name bindings).or (frame.value? name) := by
  rw [value_eq, value_eq]
  by_cases present : ∃ binding ∈ bindings, binding.1 = name
  · obtain ⟨⟨_, term⟩, member, rfl⟩ := present
    rw [frame.commit_content_of_nodup names member, find_binding_of_nodup names member]
    rfl
  · have absent : ∀ binding ∈ bindings, binding.1 ≠ name :=
      fun binding member same => present ⟨binding, member, same⟩
    rw [commit_content_absent frame bindings name absent, find_binding_absent absent]
    rfl

/-- Instantiating after a commit is instantiating before it and putting the committed
values in. -/
theorem Acyclic.instantiate_commit {bindings : Bindings}
    (names : (bindings.map Prod.fst).Nodup) (fills : frame.Fills bindings) {goal : Literal}
    (plain : goal.isPlain = true) :
    (frame.commit bindings).instantiate goal = (frame.instantiate goal).substitute bindings := by
  have unfolding : InductiveUnfolding frame
      (fun chain term => (frame.commit bindings).resolveFrom chain term =
        (frame.resolveFrom chain term).substitute bindings)
      (fun chain inner => (frame.commit bindings).instantiateFrom chain inner =
        (frame.instantiateFrom chain inner).substitute bindings) := by
    constructor
    case value => simp [resolveFrom, Term.substitute]
    case followed =>
      -- An allocated name is not among the bindings, so its slot is as before.
      intro chain name content fresh found ih
      have absent : findBinding name bindings = none := by
        apply find_binding_absent
        rintro binding member rfl
        exact absurd (found.symm.trans (fills binding member).1) (by simp)
      rw [resolve_free_from, resolve_free_from, if_neg fresh, if_neg fresh,
        frame.commit_value names, absent, found]
      exact ih
    case free =>
      intro chain name fresh found
      rw [resolve_free_from, resolve_free_from, if_neg fresh, if_neg fresh,
        frame.commit_value names, found]
      dsimp only
      rw [Term.substitute]
      cases bound : findBinding name bindings with
      | none => rfl
      | some term =>
          obtain ⟨raw, rfl⟩ := (fills (name, term) (find_binding_mem bound)).2
          rw [Option.some_or, Option.getD_some]
          dsimp only
          rw [resolveFrom]
    case nested =>
      intro chain inner ih
      rw [resolveFrom, resolveFrom, Term.substitute, ih]
    case literal =>
      intro chain functor negated ordered arguments annotations plain ofArguments ofNotes
      rw [instantiate_plain _ chain functor negated ordered arguments annotations plain,
        instantiate_plain _ chain functor negated ordered arguments annotations plain,
        Literal.substitute, Term.substitute_all_eq, Literal.substitute_all_eq, List.map_map,
        List.map_map, List.map_congr_left ofArguments, List.map_congr_left ofNotes]
      rfl
  exact (unfolding.holds acyclic plainFrame []).2 goal plain (by simp [Leads])

end Frame

namespace Frame.Raw

variable {frame : Frame} (raw : frame.Raw)

include raw

theorem plain : frame.Plain := by
  intro name content found
  obtain ⟨value, rfl⟩ := raw name content found
  rfl

/-- Raw values mention nothing. -/
theorem acyclic : frame.Acyclic := by
  apply Acyclic.of_rank fun _ => 0
  intro name other mentions
  rcases mentions with ⟨content, found, occurs⟩
  obtain ⟨value, rfl⟩ := raw name content found
  simp [Term.variables] at occurs

end Frame.Raw

end Deliberation
