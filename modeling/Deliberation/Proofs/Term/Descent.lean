import Deliberation.Proofs.Term.Leaves
import Mathlib.Logic.Function.Iterate

/-!
# Finding leaves turn by turn

Leaves are found one at a time: each turn takes a term off the list opened last, or drops that
list when nothing is left of it. A leaf is handed out, a literal has its arguments opened above
its right siblings. What was found together with the leaves of what is still open never changes,
and what is still open gets smaller with every turn, so that all is found in the end.
-/

namespace Deliberation

set_option autoImplicit false

/-- The lists still open, the one opened last in front, and the leaves found before. -/
@[ext]
structure Descent where
  opened : List (List Term)
  found : List Term

namespace Descent

def start (terms : List Term) : Descent :=
  ⟨[terms], []⟩

def turn : Descent → Descent
  | ⟨[], found⟩ => ⟨[], found⟩
  | ⟨[] :: stack, found⟩ => ⟨stack, found⟩
  | ⟨(.literal inner :: rest) :: stack, found⟩ => ⟨inner.arguments :: rest :: stack, found⟩
  | ⟨(leaf :: rest) :: stack, found⟩ => ⟨rest :: stack, found ++ [leaf]⟩

/-- The leaves that are found in the end. -/
def outcome (descent : Descent) : List Term :=
  descent.found ++ descendFrom descent.opened

theorem outcome_turn (descent : Descent) : descent.turn.outcome = descent.outcome := by
  fun_cases turn descent with
  | case1 found => rfl
  | case2 stack found => simp [outcome, descendFrom]
  | case3 inner rest stack found =>
      cases inner
      simp [outcome, descendFrom, Literal.arguments]
  | case4 leaf rest stack found notLiteral =>
      cases leaf with
      | literal inner => exact absurd rfl (notLiteral inner)
      | _ => simp [outcome, descendFrom]

theorem open_size_turn (descent : Descent) :
    openSize descent.turn.opened ≤ openSize descent.opened - 1 := by
  fun_cases turn descent with
  | case1 found => exact Nat.le_refl _
  | case2 stack found => simp [openSize, Term.totalSize]
  | case3 inner rest stack found =>
      cases inner
      simp only [openSize, Term.totalSize, Term.size, Literal.size, Literal.arguments]
      omega
  | case4 leaf rest stack found _ =>
      simp only [openSize, Term.totalSize]
      omega

theorem opened_eq_nil_iff (opened : List (List Term)) : openSize opened = 0 ↔ opened = [] := by
  cases opened <;> simp [openSize]

theorem outcome_turns (turns : Nat) (descent : Descent) :
    (turn^[turns] descent).outcome = descent.outcome := by
  induction turns with
  | zero => rfl
  | succ turns ih => rw [Function.iterate_succ_apply', outcome_turn, ih]

theorem open_size_turns (turns : Nat) (descent : Descent) :
    openSize (turn^[turns] descent).opened ≤ openSize descent.opened - turns := by
  induction turns with
  | zero => exact Nat.le_refl _
  | succ turns ih =>
      have smaller := open_size_turn (turn^[turns] descent)
      rw [Function.iterate_succ_apply']
      omega

/-- After so many turns nothing is open any more. -/
theorem turns_eq (descent : Descent) {turns : Nat} (enough : openSize descent.opened ≤ turns) :
    turn^[turns] descent = ⟨[], descent.outcome⟩ := by
  have spent : openSize (turn^[turns] descent).opened = 0 := by
    have smaller := open_size_turns turns descent
    omega
  have closed : (turn^[turns] descent).opened = [] := (opened_eq_nil_iff _).mp spent
  have kept := outcome_turns turns descent
  rw [outcome, closed, descendFrom, List.append_nil] at kept
  exact Descent.ext closed kept

end Descent

theorem descend_append (left right : List Term) :
    descend (left ++ right) = descend left ++ descend right := by
  rw [descend_eq, descend_eq, descend_eq, List.flatMap_append]

theorem Term.leaves_by_kind (term : Term) :
    term.leaves =
      match term with
      | .literal inner => inner.argumentLeaves
      | leaf => [leaf] := by
  cases term with
  | literal inner => exact (Literal.argument_leaves_eq inner).symm
  | _ => rfl

theorem descend_around (left right : List Term) (term : Term) :
    descend (left ++ term :: right) = descend left ++ term.leaves ++ descend right := by
  rw [descend_append, descend_eq (_ :: _), List.flatMap_cons, ← descend_eq, List.append_assoc]

/-- Turn after turn leads from a list of terms to its leaves, in no more turns than the size of
the list allows, and any further turn changes nothing. The leaves are those of the terms from
left to right, where a literal has those of its arguments and any other term is a leaf itself.
So the leaves of a list in two parts are those of the one and then those of the other, and a
literal without arguments adds none wherever it stands. -/
theorem descent_flattens (terms rest : List Term) (inner : Literal) (further : Nat) :
    Descent.turn^[Term.totalSize terms + 1 + further] (.start terms) = ⟨[], descend terms⟩ ∧
      descend terms = terms.flatMap Term.leaves ∧
      (∀ term : Term, term.leaves =
        match term with
        | .literal inner => inner.argumentLeaves
        | leaf => [leaf]) ∧
      descend (terms ++ rest) = descend terms ++ descend rest ∧
      descend (terms ++ .literal (inner.withArguments []) :: rest) = descend (terms ++ rest) := by
  refine ⟨?_, descend_eq terms, Term.leaves_by_kind, descend_append terms rest, ?_⟩
  · exact Descent.turns_eq (.start terms) (Nat.le_add_right _ _)
  · have nothing : (Term.literal (inner.withArguments [])).leaves = [] := by
      cases inner
      rfl
    rw [descend_around, nothing, List.append_nil, descend_append]

end Deliberation
