import Deliberation.Proofs.Frame.Resolving

/-!
# Resolving carried values

A term may carry its raw value through variables inside one another. Resolving goes
through such a carrier only while its name is off the chain and its slot is empty. The
first carrier that is not passed decides: a name on the chain is left as it stands, and
a slot that holds a term is followed instead of what the carrier carries.
-/

namespace Deliberation

set_option autoImplicit false

/-- The names of the variables through which a term carries another, outermost first. -/
def Term.carriers : Term → List String
  | .bound name own => name :: own.carriers
  | _ => []

theorem Term.eq_value_of_no_carriers {term : Term} {raw : Value} (reads : term.raw? = some raw)
    (direct : term.carriers = []) : term = .value raw := by
  cases term <;> simp_all [Term.raw?, Term.carriers]

namespace Frame

variable (frame : Frame)

/-- Resolving goes on through all these carriers, one inside the other. -/
structure Passes (chain carriers : List String) : Prop where
  offChain : ∀ name ∈ carriers, name ∉ chain
  distinct : carriers.Nodup
  unallocated : ∀ name ∈ carriers, frame.value? name = none

variable {frame}

/-- What is inside a passed carrier is passed with the carrier on the chain. -/
theorem Passes.inside {chain rest : List String} {name : String}
    (passes : frame.Passes chain (name :: rest)) : frame.Passes (name :: chain) rest := by
  obtain ⟨fresh, distinct⟩ := List.nodup_cons.mp passes.distinct
  refine ⟨?_, distinct, fun other inside => passes.unallocated other (.tail _ inside)⟩
  intro other inside onChain
  rcases List.mem_cons.mp onChain with rfl | onChain
  · exact fresh inside
  · exact passes.offChain other (.tail _ inside) onChain

variable (frame)

theorem resolve_bound_from (chain : List String) (name : String) (own : Term) :
    frame.resolveFrom chain (.bound name own) =
      if name ∈ chain then .variable name
      else frame.resolveFrom (name :: chain) ((frame.value? name).getD own) := by
  rw [resolveFrom]
  split_ifs with onChain
  · rfl
  · split <;> rename_i found <;> rw [found] <;> rfl

variable {frame}

/-- Resolving a term is resolving what is inside the carriers that it passes. -/
theorem Passes.resolve_eq {chain before behind : List String} {term : Term}
    (passes : frame.Passes chain before) (carried : term.carriers = before ++ behind) :
    ∃ inner : Term, inner.carriers = behind ∧ inner.raw? = term.raw? ∧
      frame.resolveFrom chain term = frame.resolveFrom (before.reverse ++ chain) inner := by
  -- Each carrier that is passed joins the chain, so the rest is passed on a longer one.
  induction before generalizing chain term with
  | nil => exact ⟨term, carried, rfl, rfl⟩
  | cons name rest ih =>
      rcases term with _ | _ | ⟨carrier, own⟩ | _
      case bound =>
        obtain ⟨rfl, ownCarried⟩ := List.cons.inj carried
        obtain ⟨inner, isBehind, sameRaw, resolved⟩ := ih passes.inside ownCarried
        refine ⟨inner, isBehind, sameRaw, ?_⟩
        rw [resolve_bound_from, if_neg (passes.offChain carrier List.mem_cons_self),
          passes.unallocated carrier List.mem_cons_self, Option.getD_none, resolved,
          List.reverse_cons, List.append_assoc, List.singleton_append]
      all_goals simp [Term.carriers] at carried

theorem Passes.resolve_value {chain : List String} {term : Term} {raw : Value}
    (passes : frame.Passes chain term.carriers) (reads : term.raw? = some raw) :
    frame.resolveFrom chain term = .value raw := by
  obtain ⟨inner, direct, sameRaw, resolved⟩ := passes.resolve_eq (List.append_nil _).symm
  rw [reads] at sameRaw
  rw [resolved, Term.eq_value_of_no_carriers sameRaw direct, resolveFrom]

/-- The first carrier that is not passed decides what a term resolves to. -/
theorem Passes.resolve_stopped {chain before behind : List String} {carrier : String}
    {term : Term} (passes : frame.Passes chain before)
    (carried : term.carriers = before ++ carrier :: behind) :
    (carrier ∈ before.reverse ++ chain → frame.resolveFrom chain term = .variable carrier) ∧
      ∀ content, carrier ∉ before.reverse ++ chain → frame.value? carrier = some content →
        frame.resolveFrom chain term =
          frame.resolveFrom (carrier :: (before.reverse ++ chain)) content := by
  obtain ⟨inner, isBehind, _, resolved⟩ := passes.resolve_eq carried
  rcases inner with _ | _ | ⟨name, own⟩ | _
  case bound =>
    obtain ⟨rfl, _⟩ := List.cons.inj isBehind
    rw [resolved, resolve_bound_from]
    constructor
    · intro repeated
      exact if_pos repeated
    · intro content fresh allocated
      rw [if_neg fresh, allocated, Option.getD_some]
  all_goals simp [Term.carriers] at isBehind

end Frame

end Deliberation
