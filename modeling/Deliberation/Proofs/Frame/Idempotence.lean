import Deliberation.Proofs.Frame.Acyclic

/-!
# Resolving once is enough

Without cycles resolving leaves unallocated variables only, and it does not add terms to
variables. A term with no other variables is left as it is, so resolving again changes
nothing.
-/

namespace Deliberation

set_option autoImplicit false

namespace Frame

variable (frame : Frame)

/-- Nothing is changed where no variable is allocated. -/
theorem resolve_unallocated :
    (∀ term : Term, term.isPlain = true → (∀ name ∈ term.variables, frame.value? name = none) →
      ∀ chain, frame.resolveFrom chain term = term) ∧
    ∀ inner : Literal, inner.isPlain = true →
      (∀ name ∈ inner.variables, frame.value? name = none) →
        ∀ chain, frame.instantiateFrom chain inner = inner := by
  apply InductiveProperty.holds
  constructor
  case value =>
    intro raw _ _ chain
    rw [resolveFrom]
  case free =>
    intro name _ unallocated chain
    rw [resolve_free_from, unallocated name (List.mem_singleton.mpr rfl), ite_self]
  case carrying => simp [Term.isPlain]
  case nested =>
    intro inner ih plain unallocated chain
    rw [resolveFrom, ih plain unallocated chain]
  case literal =>
    intro functor negated ordered arguments annotations ofArguments ofNotes plain unallocated chain
    have parts := (Literal.is_plain_iff _).mp plain
    have sameArguments : arguments.map (frame.resolveFrom chain) = arguments.map id := by
      apply List.map_congr_left
      intro term member
      apply ofArguments term member (parts.1 term member)
      intro name occurs
      exact unallocated name ((Literal.mem_variables_iff _ name).mpr (.inl ⟨term, member, occurs⟩))
    have sameNotes : annotations.map (frame.instantiateFrom chain) = annotations.map id := by
      apply List.map_congr_left
      intro note member
      apply ofNotes note member (parts.2 note member)
      intro name occurs
      exact unallocated name ((Literal.mem_variables_iff _ name).mpr (.inr ⟨note, member, occurs⟩))
    rw [frame.instantiate_plain chain functor negated ordered arguments annotations plain,
      sameArguments, sameNotes, List.map_id, List.map_id]

variable {frame}

/-- In a frame without cycles, where no slot and no term has a variable that carries a term,
resolving a term leaves no allocated variable in it, and resolving it again leaves it as it
is. Instantiating a literal does the same with its arguments and its annotations. -/
theorem resolved_for_good (acyclic : frame.Acyclic) (plainFrame : frame.Plain) :
    (∀ term : Term, term.isPlain = true →
      (∀ name ∈ (frame.resolve term).variables, frame.isAllocated name = false) ∧
        frame.resolve (frame.resolve term) = frame.resolve term) ∧
    ∀ literal : Literal, literal.isPlain = true →
      (∀ name ∈ (frame.instantiate literal).variables, frame.isAllocated name = false) ∧
        frame.instantiate (frame.instantiate literal) = frame.instantiate literal := by
  have left := acyclic.leaves_unallocated plainFrame
  have free : ∀ name, frame.value? name = none → frame.isAllocated name = false := by
    intro name found
    rw [isAllocated, found, Option.isSome_none]
  constructor
  · intro term plain
    have resolved := (plainFrame.resolved []).1 term plain
    exact ⟨fun name occurs => free name (left.1 term plain name occurs),
      frame.resolve_unallocated.1 _ resolved (left.1 term plain) []⟩
  · intro literal plain
    have resolved := (plainFrame.resolved []).2 literal plain
    exact ⟨fun name occurs => free name (left.2 literal plain name occurs),
      frame.resolve_unallocated.2 _ resolved (left.2 literal plain) []⟩

/-- `leg(stop)[by(means)]`. -/
def leg (stop means : Term) : Literal :=
  (Literal.ofArguments ⟨"leg"⟩ [stop]).withAnnotations [.ofArguments ⟨"by"⟩ [means]]

/-- `A` stands for a leg that mentions `B` and `C`, and `B` for `C`, which stands for nothing. -/
def layered : Frame :=
  ⟨[("A", some (.literal (leg (.variable "B") (.variable "C")))), ("B", some (.variable "C")),
    ("C", none)]⟩

theorem layered_slots {name : String} {content : Term}
    (found : layered.value? name = some content) :
    name = "A" ∧ content = .literal (leg (.variable "B") (.variable "C")) ∨
      name = "B" ∧ content = .variable "C" := by
  have member := mem_slots_of_value found
  simpa [layered] using member

theorem layered_acyclic : layered.Acyclic := by
  apply Acyclic.of_rank fun name => if name = "A" then 2 else if name = "B" then 1 else 0
  intro name other mentions
  rcases mentions with ⟨content, found, occurs⟩
  rcases layered_slots found with ⟨rfl, rfl⟩ | ⟨rfl, rfl⟩
  · have names : (Term.literal (leg (.variable "B") (.variable "C"))).variables = ["B", "C"] := by
      cbv
    rw [names, List.mem_cons, List.mem_singleton] at occurs
    rcases occurs with rfl | rfl
    · decide
    · decide
  · obtain rfl := List.mem_singleton.mp occurs
    decide

/-- The leg is found under `A`, also in an annotation, and its stop through `B`. -/
theorem layered_resolved :
    layered.Acyclic ∧ layered.Plain ∧ (Term.variable "A").isPlain = true ∧
      (leg (.variable "B") (.variable "A")).isPlain = true ∧
      layered.resolve (.variable "A") = .literal (leg (.variable "C") (.variable "C")) ∧
      (∀ name ∈ (layered.resolve (.variable "A")).variables, layered.isAllocated name = false) ∧
      layered.resolve (layered.resolve (.variable "A")) = layered.resolve (.variable "A") ∧
      layered.instantiate (leg (.variable "B") (.variable "A")) =
        leg (.variable "C") (.literal (leg (.variable "C") (.variable "C"))) ∧
      layered.instantiate (layered.instantiate (leg (.variable "B") (.variable "A"))) =
        layered.instantiate (leg (.variable "B") (.variable "A")) := by
  have plainFrame : layered.Plain := by
    intro name content found
    rcases layered_slots found with ⟨-, rfl⟩ | ⟨-, rfl⟩
    · decide
    · decide
  have settled := resolved_for_good layered_acyclic plainFrame
  have onTerm := settled.1 (.variable "A") rfl
  have onLiteral := settled.2 (leg (.variable "B") (.variable "A")) (by decide)
  refine ⟨layered_acyclic, plainFrame, rfl, by decide, ?_, onTerm.1, onTerm.2, ?_, onLiteral.2⟩
  · cbv
  · cbv

end Frame

end Deliberation
