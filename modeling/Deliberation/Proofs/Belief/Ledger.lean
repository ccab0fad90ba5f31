import Deliberation.Proofs.Term.Equivalence
import Mathlib.Data.Finmap
import Mathlib.Tactic.SplitIfs

/-!
# Ledgers

A ledger is what a belief base looks like from outside: all facts of both signs in the
order of arrival, no two of them the same, and a map from paths to single elements. An
entry goes to the end unless it is there; one that is struck out leaves the others in
order. Facts that agree in some view, such as the functor or the sign, can be looked at
alone: entering and striking then happen where the fact itself belongs.
-/

namespace Deliberation

set_option autoImplicit false

structure Ledger where
  facts : List Literal
  singles : Finmap fun _ : Path => Term

namespace Ledger

def empty : Ledger := ⟨[], ∅⟩

def listed (fact : Literal) (facts : List Literal) : Bool :=
  facts.any fact.same

def enter (fact : Literal) (facts : List Literal) : List Literal :=
  if listed fact facts then facts else facts ++ [fact]

def strike (fact : Literal) (facts : List Literal) : List Literal :=
  facts.eraseP fact.same

def Distinct (facts : List Literal) : Prop :=
  facts.Pairwise fun first second => first.same second = false

theorem listed_iff (fact : Literal) (facts : List Literal) :
    listed fact facts = true ↔ ∃ other ∈ facts, fact.same other = true := by
  rw [listed, List.any_eq_true]

theorem enter_length (fact : Literal) (facts : List Literal) :
    (enter fact facts).length = facts.length + if listed fact facts then 0 else 1 := by
  unfold enter
  split_ifs
  · rfl
  · exact List.length_append

theorem strike_length (fact : Literal) (facts : List Literal) :
    (strike fact facts).length + (if listed fact facts then 1 else 0) = facts.length := by
  rw [strike, List.length_eraseP]
  change (if listed fact facts = true then _ else _) + _ = _
  split_ifs with known
  · obtain ⟨other, member, _⟩ := (listed_iff ..).mp known
    exact Nat.sub_add_cancel (List.length_pos_of_mem member)
  · rfl

theorem enter_ne_nil (fact : Literal) (facts : List Literal) : enter fact facts ≠ [] := by
  unfold enter
  split_ifs with known
  · obtain ⟨other, member, _⟩ := (listed_iff ..).mp known
    exact List.ne_nil_of_mem member
  · exact List.append_ne_nil_of_right_ne_nil _ (List.cons_ne_nil _ _)

theorem not_same_of_unlisted {fact : Literal} {facts : List Literal}
    (unknown : listed fact facts = false) : ∀ other ∈ facts, ¬fact.same other = true := by
  intro other member same
  rw [(listed_iff ..).mpr ⟨other, member, same⟩] at unknown
  cases unknown

theorem strike_eq_self {fact : Literal} {facts : List Literal}
    (unknown : listed fact facts = false) : strike fact facts = facts :=
  List.eraseP_of_forall_not (not_same_of_unlisted unknown)

/-- A fact that is entered anew is struck out without a trace. -/
theorem strike_enter {fact : Literal} {facts : List Literal} (unknown : listed fact facts = false) :
    strike fact (enter fact facts) = facts := by
  rw [enter, unknown, if_neg Bool.false_ne_true, strike,
    List.eraseP_append_right _ (not_same_of_unlisted unknown),
    List.eraseP_cons_of_pos (Literal.same_equivalence.refl fact), List.append_nil]

theorem Distinct.enter {facts : List Literal} (distinct : Distinct facts) (fact : Literal) :
    Distinct (enter fact facts) := by
  unfold Ledger.enter
  split_ifs with known
  · exact distinct
  · refine List.pairwise_append.mpr ⟨distinct, List.pairwise_singleton _ _, ?_⟩
    intro other member last isFact
    rw [List.mem_singleton.mp isFact, Literal.same_comm, ← Bool.not_eq_true]
    exact fun same => known ((listed_iff ..).mpr ⟨other, member, same⟩)

theorem Distinct.strike {facts : List Literal} (distinct : Distinct facts) (fact : Literal) :
    Distinct (strike fact facts) :=
  List.Pairwise.eraseP _ distinct

/-- A fact is the same as one of the distinct facts at most. -/
theorem Distinct.once {facts : List Literal} (distinct : Distinct facts) (fact : Literal) :
    facts.Pairwise fun first second => fact.same first = true → ¬fact.same second = true := by
  refine distinct.imp fun {first second} apart sameFirst sameSecond => ?_
  rw [Literal.same_comm] at sameFirst
  rw [Literal.same_equivalence.trans sameFirst sameSecond] at apart
  exact absurd apart (by decide)

/-- Striking out the first of the same is striking out all of them. -/
theorem Distinct.strike_eq {facts : List Literal} (distinct : Distinct facts) (fact : Literal) :
    Ledger.strike fact facts = facts.filter fun other => !fact.same other := by
  have once := distinct.once fact
  rw [Ledger.strike]
  clear distinct
  induction facts with
  | nil => rfl
  | cons head rest ih =>
      rw [List.pairwise_cons] at once
      by_cases same : fact.same head = true
      · rw [List.eraseP_cons_of_pos same, List.filter_cons_of_neg (by simp [same])]
        refine (List.filter_eq_self.mpr fun other member => ?_).symm
        simp [once.1 other member same]
      · rw [List.eraseP_cons_of_neg same, List.filter_cons_of_pos (by simp [same]), ih once.2]

section Views

variable {Key : Type} [DecidableEq Key]

/-- The facts that have a key in some view, in order. -/
def having (view : Literal → Key) (key : Key) (facts : List Literal) : List Literal :=
  facts.filter fun fact => view fact = key

variable (view : Literal → Key)

theorem mem_having_iff (key : Key) (facts : List Literal) (fact : Literal) :
    fact ∈ having view key facts ↔ fact ∈ facts ∧ view fact = key := by
  rw [having, List.mem_filter, decide_eq_true_iff]

theorem Distinct.having {facts : List Literal} (distinct : Distinct facts) (key : Key) :
    Distinct (having view key facts) :=
  List.Pairwise.filter _ distinct

variable {view} (respected : ∀ left right : Literal, left.same right = true →
  view left = view right)

include respected

theorem listed_having (fact : Literal) (facts : List Literal) :
    listed fact (having view (view fact) facts) = listed fact facts := by
  rw [Bool.eq_iff_iff, listed_iff, listed_iff]
  constructor
  · rintro ⟨other, member, same⟩
    exact ⟨other, ((mem_having_iff ..).mp member).1, same⟩
  · rintro ⟨other, member, same⟩
    exact ⟨other, (mem_having_iff ..).mpr ⟨member, (respected _ _ same).symm⟩, same⟩

theorem having_enter (fact : Literal) (facts : List Literal) (key : Key) :
    having view key (enter fact facts) =
      if view fact = key then enter fact (having view key facts) else having view key facts := by
  by_cases isKey : view fact = key
  · subst isKey
    rw [if_pos rfl, enter, enter, listed_having respected]
    split_ifs with known
    · rfl
    · simp [having]
  · rw [if_neg isKey, enter]
    split_ifs with known
    · rfl
    · simp [having, isKey]

theorem having_strike (fact : Literal) (facts : List Literal) (key : Key) :
    having view key (strike fact facts) =
      if view fact = key then strike fact (having view key facts) else having view key facts := by
  by_cases isKey : view fact = key
  · subst isKey
    have inView : (fun other => fact.same other && decide (view other = view fact)) =
        fact.same := by
      funext other
      rw [Bool.and_eq_left_iff_imp]
      exact fun same => decide_eq_true (respected _ _ same).symm
    rw [if_pos rfl, strike, strike, having, having, List.eraseP_filter, inView]
  · rw [if_neg isKey, strike, having, having]
    rcases List.exists_or_eq_self_of_eraseP fact.same facts with unchanged |
      ⟨other, before, behind, _, same, isFacts, isErased⟩
    · rw [unchanged]
    · have outside : view other ≠ key := fun found =>
        isKey ((respected _ _ same).trans found)
      rw [isErased, isFacts]
      simp [outside]

end Views

theorem same_functor (left right : Literal) (same : left.same right = true) :
    left.functor = right.functor :=
  ((Literal.same_iff _ _).mp same).1.1

theorem same_sign (left right : Literal) (same : left.same right = true) :
    left.negated = right.negated :=
  ((Literal.same_iff _ _).mp same).1.2

end Ledger

end Deliberation
