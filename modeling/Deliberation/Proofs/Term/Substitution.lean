import Deliberation.Match.Head
import Deliberation.Proofs.Term.Structure

/-!
# Substituting bindings

A binding set is put into a term at all unbound variables that it names, those of nested
literals and of annotations at any depth included. A variable that carries a term is no
occurrence of its name.
-/

namespace Deliberation

set_option autoImplicit false

mutual

def Term.substitute (bindings : Bindings) : Term → Term
  | .value raw => .value raw
  | .variable name => (findBinding name bindings).getD (.variable name)
  | .bound name own => .bound name own
  | .literal inner => .literal (inner.substitute bindings)

def Literal.substitute (bindings : Bindings) : Literal → Literal
  | .mk functor negated ordered arguments annotations =>
      .mk functor negated ordered (Term.substituteAll bindings arguments)
        (Literal.substituteAll bindings annotations)

def Term.substituteAll (bindings : Bindings) : List Term → List Term
  | [] => []
  | term :: rest => term.substitute bindings :: Term.substituteAll bindings rest

def Literal.substituteAll (bindings : Bindings) : List Literal → List Literal
  | [] => []
  | literal :: rest => literal.substitute bindings :: Literal.substituteAll bindings rest

end

variable (bindings : Bindings)

theorem Term.substitute_all_eq (terms : List Term) :
    Term.substituteAll bindings terms = terms.map (Term.substitute bindings) := by
  induction terms with
  | nil => rfl
  | cons head rest ih => rw [Term.substituteAll, ih, List.map_cons]

theorem Literal.substitute_all_eq (literals : List Literal) :
    Literal.substituteAll bindings literals = literals.map (Literal.substitute bindings) := by
  induction literals with
  | nil => rfl
  | cons head rest ih => rw [Literal.substituteAll, ih, List.map_cons]

theorem find_binding_absent {name : String} {bindings : Bindings}
    (absent : ∀ binding ∈ bindings, binding.1 ≠ name) : findBinding name bindings = none := by
  induction bindings with
  | nil => rfl
  | cons binding rest ih =>
      rw [findBinding, if_neg (absent binding List.mem_cons_self)]
      exact ih fun other member => absent other (List.mem_cons_of_mem _ member)

theorem find_binding_mem {name : String} {bindings : Bindings} {term : Term}
    (found : findBinding name bindings = some term) : (name, term) ∈ bindings := by
  induction bindings with
  | nil => simp [findBinding] at found
  | cons binding rest ih =>
      rcases binding with ⟨key, content⟩
      rw [findBinding] at found
      split at found
      next same =>
        rw [same, Option.some.inj found]
        exact List.mem_cons_self
      next => exact List.mem_cons_of_mem _ (ih found)

theorem find_binding_of_nodup {bindings : Bindings} (names : (bindings.map Prod.fst).Nodup)
    {name : String} {term : Term} (member : (name, term) ∈ bindings) :
    findBinding name bindings = some term := by
  induction bindings with
  | nil => cases member
  | cons binding rest ih =>
      obtain ⟨fresh, distinct⟩ := List.nodup_cons.mp names
      rcases List.mem_cons.mp member with rfl | later
      · rw [findBinding, if_pos rfl]
      · have different : binding.1 ≠ name := by
          rintro rfl
          exact fresh (List.mem_map.mpr ⟨_, later, rfl⟩)
        rw [findBinding, if_neg different]
        exact ih distinct later

end Deliberation
