import Deliberation.Match.Head
import Deliberation.Proofs.Term.Leaves
import Mathlib.Tactic.SplitIfs

/-!
# What matching a head can leave

Pairing two leaves has one of four effects, and the exports and bindings of a
head match come from these alone. An export names an unbound leaf of the call and
answers with a leaf of the head; a binding gives an unbound leaf of the head a
leaf of the call that is not unbound.
-/

namespace Deliberation

set_option autoImplicit false

theorem unbound_eq_some_iff (term : Term) (name : String) :
    term.unbound? = some name ↔ term = .variable name := by
  cases term <;> simp [Term.unbound?]

theorem unbound_eq_none_iff (term : Term) :
    term.unbound? = none ↔ ∀ name, term ≠ .variable name := by
  cases term <;> simp [Term.unbound?]

namespace HeadMatch

theorem meet_cases {found next : HeadMatch} {pattern call : Term}
    (met : found.meet? pattern call = some next) :
    (∃ name, call = .variable name ∧
      next = { found with exports := found.exports ++ [(name, pattern)] }) ∨
    (∃ name, pattern = .variable name ∧ (∀ other, call ≠ .variable other) ∧
      findBinding name found.bindings = none ∧
      next = { found with bindings := found.bindings ++ [(name, call)] }) ∨
    (∃ name earlier, pattern = .variable name ∧ (∀ other, call ≠ .variable other) ∧
      findBinding name found.bindings = some earlier ∧ earlier.same call = true ∧
      next = found) ∨
    ((∀ other, pattern ≠ .variable other) ∧ (∀ other, call ≠ .variable other) ∧
      valuesClash pattern call = false ∧ next = found) := by
  unfold meet? at met
  split at met
  next name isFree =>
    exact .inl ⟨name, (unbound_eq_some_iff ..).mp isFree, (Option.some.inj met).symm⟩
  next callBound =>
    rw [unbound_eq_none_iff] at callBound
    split at met
    next name isFree =>
      rw [unbound_eq_some_iff] at isFree
      split at met
      next earlier bound =>
        split_ifs at met with same
        exact .inr (.inr (.inl
          ⟨name, earlier, isFree, callBound, bound, same, (Option.some.inj met).symm⟩))
      next unbound =>
        exact .inr (.inl ⟨name, isFree, callBound, unbound, (Option.some.inj met).symm⟩)
    next patternBound =>
      rw [unbound_eq_none_iff] at patternBound
      split_ifs at met with clash
      exact .inr (.inr (.inr
        ⟨patternBound, callBound, (Bool.not_eq_true _).mp clash, (Option.some.inj met).symm⟩))

/-- What a pair exports: an unbound leaf of the call asks for the leaf of the head. -/
def wanted? (pair : Term × Term) : Option (String × Term) :=
  pair.2.unbound?.map fun name => (name, pair.1)

theorem wanted_eq_some_iff (pair : Term × Term) (name : String) (leaf : Term) :
    wanted? pair = some (name, leaf) ↔ pair = (leaf, .variable name) := by
  rcases pair with ⟨pattern, call⟩
  cases call <;> simp [wanted?, Term.unbound?, and_comm]

/-- The names to which a head match can export are the unbound leaves of the call. -/
theorem wanted_names_sublist (leaves terms : List Term) :
    (((leaves.zip terms).filterMap wanted?).map Prod.fst).Sublist
      (terms.filterMap Term.unbound?) := by
  induction leaves generalizing terms with
  | nil => exact List.nil_sublist _
  | cons leaf rest ih =>
      cases terms with
      | nil => exact List.Sublist.refl _
      | cons term others =>
          rw [List.zip_cons_cons]
          cases free : term.unbound? with
          | none =>
              rw [List.filterMap_cons_none free,
                List.filterMap_cons_none (by rw [wanted?, free]; rfl)]
              exact ih others
          | some name =>
              rw [List.filterMap_cons_some free,
                List.filterMap_cons_some (by rw [wanted?, free]; rfl)]
              exact (ih others).cons_cons _

/-- The exports are those of the pairs, position by position. -/
theorem meet_all_exports_eq {pairs : List (Term × Term)} {found last : HeadMatch}
    (met : meetAll? pairs found = some last) :
    last.exports = found.exports ++ pairs.filterMap wanted? := by
  induction pairs generalizing found with
  | nil =>
      rw [← Option.some.inj met, List.filterMap_nil, List.append_nil]
  | cons pair rest ih =>
      rcases pair with ⟨headLeaf, callLeaf⟩
      rw [meetAll?] at met
      split at met
      next next first =>
        rw [ih met]
        rcases meet_cases first with ⟨name, rfl, rfl⟩ | ⟨_, _, bound, _, rfl⟩ |
          ⟨_, _, _, bound, _, _, rfl⟩ | ⟨_, bound, _, rfl⟩
        · simp [wanted?, Term.unbound?]
        all_goals simp [wanted?, (unbound_eq_none_iff callLeaf).mpr bound]
      next => simp at met

/-- Every binding gives an unbound leaf of the head a leaf of the call that is not
unbound. -/
theorem meet_all_bindings {pairs : List (Term × Term)} {found last : HeadMatch}
    (met : meetAll? pairs found = some last) (name : String) (leaf : Term)
    (member : (name, leaf) ∈ last.bindings) :
    (name, leaf) ∈ found.bindings ∨
      (Term.variable name, leaf) ∈ pairs ∧ ∀ other, leaf ≠ .variable other := by
  induction pairs generalizing found with
  | nil =>
      rw [← Option.some.inj met] at member
      exact .inl member
  | cons pair rest ih =>
      rcases pair with ⟨headLeaf, callLeaf⟩
      rw [meetAll?] at met
      split at met
      next next first =>
        rcases ih met with earlier | ⟨later, bound⟩
        · rcases meet_cases first with ⟨_, _, rfl⟩ | ⟨free, rfl, callBound, _, rfl⟩ |
            ⟨_, _, _, _, _, _, rfl⟩ | ⟨_, _, _, rfl⟩
          · exact .inl earlier
          · rcases List.mem_append.mp earlier with old | new
            · exact .inl old
            · rw [List.mem_singleton, Prod.mk.injEq] at new
              rcases new with ⟨rfl, rfl⟩
              exact .inr ⟨List.mem_cons_self, callBound⟩
          · exact .inl earlier
          · exact .inl earlier
        · exact .inr ⟨List.mem_cons_of_mem _ later, bound⟩
      next => simp at met

end HeadMatch

namespace Literal

variable {pattern call : Literal} {head : HeadMatch}

theorem match_head_eq_some_iff :
    pattern.matchHead? call = some head ↔
      (pattern.functor = call.functor ∧ pattern.negated = call.negated ∧
        pattern.matchesValue .rotating call = true) ∧
      HeadMatch.meetAll? (pattern.leaves.zip call.leaves) .empty = some head := by
  rw [matchHead?, argument_leaves_eq, argument_leaves_eq]
  split_ifs with admitted
  · simp [admitted]
  · simp [admitted]

theorem match_head_exports_eq (met : pattern.matchHead? call = some head) :
    head.exports = (pattern.leaves.zip call.leaves).filterMap HeadMatch.wanted? := by
  rw [match_head_eq_some_iff] at met
  exact HeadMatch.meet_all_exports_eq met.2

theorem match_head_exports (met : pattern.matchHead? call = some head) (name : String)
    (leaf : Term) (member : (name, leaf) ∈ head.exports) :
    leaf ∈ pattern.leaves ∧ Term.variable name ∈ call.leaves := by
  rw [match_head_exports_eq met] at member
  obtain ⟨pair, paired, wanted⟩ := List.mem_filterMap.mp member
  rw [(HeadMatch.wanted_eq_some_iff ..).mp wanted] at paired
  exact List.of_mem_zip paired

theorem match_head_bindings (met : pattern.matchHead? call = some head) (name : String)
    (leaf : Term) (member : (name, leaf) ∈ head.bindings) :
    Term.variable name ∈ pattern.leaves ∧ leaf ∈ call.leaves ∧
      ∀ other, leaf ≠ .variable other := by
  rw [match_head_eq_some_iff] at met
  rcases HeadMatch.meet_all_bindings met.2 name leaf member with initial | ⟨paired, bound⟩
  · cases initial
  · exact ⟨(List.of_mem_zip paired).1, (List.of_mem_zip paired).2, bound⟩

end Literal

end Deliberation
