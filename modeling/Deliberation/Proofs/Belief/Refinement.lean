import Deliberation.Proofs.Belief.Buckets

/-!
# A belief base is a ledger

Whatever is asked of a belief base, in whatever order, it answers as a ledger does. Two
storages stand for the two signs of one ledger; each request keeps them in step with it
and is answered alike, and with one request so is every sequence of requests.
-/

namespace Deliberation

set_option autoImplicit false

inductive Request where
  | add (fact : Literal)
  | remove (fact : Literal)
  | putSingle (path : Path) (term : Term)
  | removeSingle (path : Path)
  | clear
  | query (negated : Bool) (path : Path)
  | containsLiteral (fact : Literal)
  | contains (path : Path)
  | single (path : Path)
  | size
  | isEmpty

inductive Reply where
  | done
  | verdict (holds : Bool)
  | facts (facts : List Literal)
  | single (term : Option Term)
  | count (count : Nat)

/-- The replies to a sequence of requests, and the state after it. -/
def serveAll {State : Type} (serve : State → Request → Reply × State) :
    List Request → State → List Reply × State
  | [], state => ([], state)
  | request :: rest, state =>
      let (reply, next) := serve state request
      let (replies, last) := serveAll serve rest next
      (reply :: replies, last)

def BeliefBase.serve (base : BeliefBase) : Request → Reply × BeliefBase
  | .add fact => (base.add fact).map .verdict id
  | .remove fact => (base.remove fact).map .verdict id
  | .putSingle path term => (base.putSingle path term).map .verdict id
  | .removeSingle path => (base.removeSingle path).map .verdict id
  | .clear => (.done, base.clear)
  | .query negated path => (.facts (base.query negated path), base)
  | .containsLiteral fact => (.verdict (base.containsLiteral fact), base)
  | .contains path => (.verdict (base.contains path), base)
  | .single path => (.single (base.single? path), base)
  | .size => (.count base.size, base)
  | .isEmpty => (.verdict base.isEmpty, base)

open Ledger in
def Ledger.serve (ledger : Ledger) : Request → Reply × Ledger
  | .add fact =>
      (.verdict (!listed fact ledger.facts), { ledger with facts := enter fact ledger.facts })
  | .remove fact =>
      (.verdict (listed fact ledger.facts), { ledger with facts := strike fact ledger.facts })
  | .putSingle path term =>
      (.verdict (decide (path ∉ ledger.singles)),
        { ledger with singles := ledger.singles.insert path term })
  | .removeSingle path =>
      (.verdict (decide (path ∈ ledger.singles)),
        { ledger with singles := ledger.singles.erase path })
  | .clear => (.done, .empty)
  | .query negated path =>
      (.facts (ledger.facts.filter fun fact => fact.negated = negated ∧ fact.functor = path),
        ledger)
  | .containsLiteral fact => (.verdict (listed fact ledger.facts), ledger)
  | .contains path =>
      (.verdict (decide ((∃ fact ∈ ledger.facts, fact.functor = path) ∨ path ∈ ledger.singles)),
        ledger)
  | .single path => (.single (ledger.singles.lookup path), ledger)
  | .size => (.count ledger.facts.length, ledger)
  | .isEmpty => (.verdict (decide (ledger.facts = [] ∧ ledger.singles.keys = ∅)), ledger)

namespace BeliefBase

open Ledger

section Signs

variable (base : BeliefBase) (negated : Bool) (storage : Storage)

theorem storage_with_storage (sign : Bool) :
    (base.withStorage negated storage).storage sign =
      if sign = negated then storage else base.storage sign := by
  cases negated <;> cases sign <;> rfl

theorem storage_singles {storage : Storage}
    (kept : storage.singles = (base.storage negated).singles) (sign : Bool) :
    ((base.withStorage negated storage).storage sign).singles = (base.storage sign).singles := by
  rw [storage_with_storage]
  split_ifs with isSign
  · rw [isSign, kept]
  · rfl

theorem exists_of_signs (facts : List Literal) (path : Path) :
    (∃ fact ∈ facts, fact.functor = path) ↔
      (∃ fact ∈ having Literal.negated false facts, fact.functor = path) ∨
        ∃ fact ∈ having Literal.negated true facts, fact.functor = path := by
  constructor
  · rintro ⟨fact, member, isPath⟩
    cases sign : fact.negated with
    | false => exact .inl ⟨fact, (mem_having_iff ..).mpr ⟨member, sign⟩, isPath⟩
    | true => exact .inr ⟨fact, (mem_having_iff ..).mpr ⟨member, sign⟩, isPath⟩
  · rintro (⟨fact, member, isPath⟩ | ⟨fact, member, isPath⟩)
    · exact ⟨fact, ((mem_having_iff ..).mp member).1, isPath⟩
    · exact ⟨fact, ((mem_having_iff ..).mp member).1, isPath⟩

theorem signs_length (facts : List Literal) :
    (having Literal.negated false facts).length + (having Literal.negated true facts).length =
      facts.length := by
  induction facts with
  | nil => rfl
  | cons fact rest ih =>
      unfold having at ih ⊢
      cases sign : fact.negated with
      | false =>
          rw [List.filter_cons_of_pos (by simp [sign]), List.filter_cons_of_neg (by simp [sign]),
            List.length_cons, List.length_cons]
          omega
      | true =>
          rw [List.filter_cons_of_neg (by simp [sign]), List.filter_cons_of_pos (by simp [sign]),
            List.length_cons, List.length_cons]
          omega

end Signs

/-- The base stands for this ledger: each storage has the facts of its sign, and the
single elements lie with the positive facts. -/
structure Represents (base : BeliefBase) (ledger : Ledger) : Prop where
  distinct : Distinct ledger.facts
  signed : ∀ sign, (base.storage sign).Represents (having Literal.negated sign ledger.facts)
  keys : ((base.storage false).singles.map Prod.fst).Nodup
  single : ∀ path, (base.storage false).single? path = ledger.singles.lookup path
  unsigned : (base.storage true).singles = []

namespace Represents

theorem cleared (base : BeliefBase) : base.clear.Represents .empty where
  distinct := List.Pairwise.nil
  signed
    | false => .cleared base.positive
    | true => .cleared base.negative
  keys := List.nodup_nil
  single := fun _ => rfl
  unsigned := rfl

variable {base : BeliefBase} {ledger : Ledger} (represents : base.Represents ledger)

include represents

/-- A storage changes with the facts of its sign and leaves the single elements alone. -/
theorem with_storage {facts : List Literal} {negated : Bool} {storage : Storage}
    (distinct : Distinct facts)
    (changed : storage.Represents (having Literal.negated negated facts))
    (others : ∀ sign, sign ≠ negated →
      having Literal.negated sign facts = having Literal.negated sign ledger.facts)
    (kept : storage.singles = (base.storage negated).singles) :
    (base.withStorage negated storage).Represents { ledger with facts := facts } := by
  have singles := base.storage_singles negated kept
  constructor
  case distinct => exact distinct
  case signed =>
    intro sign
    rw [storage_with_storage]
    split_ifs with isSign
    · rw [isSign]
      exact changed
    · rw [others sign isSign]
      exact represents.signed sign
  case keys =>
    rw [singles]
    exact represents.keys
  case single =>
    intro path
    rw [Storage.single?, singles]
    exact represents.single path
  case unsigned =>
    rw [singles]
    exact represents.unsigned

theorem add (fact : Literal) :
    (base.add fact).1 = (!listed fact ledger.facts) ∧
      (base.add fact).2.Represents { ledger with facts := enter fact ledger.facts } := by
  have put := (represents.signed fact.negated).put fact
  rw [listed_having same_sign] at put
  refine ⟨put.1, represents.with_storage (represents.distinct.enter fact) ?_ ?_ rfl⟩
  · rw [having_enter same_sign, if_pos rfl]
    exact put.2
  · intro sign other
    rw [having_enter same_sign, if_neg (Ne.symm other)]

theorem remove (fact : Literal) :
    (base.remove fact).1 = listed fact ledger.facts ∧
      (base.remove fact).2.Represents { ledger with facts := strike fact ledger.facts } := by
  have removed := (represents.signed fact.negated).remove
    (represents.distinct.having Literal.negated fact.negated) fact
  rw [listed_having same_sign] at removed
  refine ⟨removed.1, represents.with_storage (represents.distinct.strike fact) ?_ ?_
    (Storage.remove_multi_singles ..)⟩
  · rw [having_strike same_sign, if_pos rfl]
    exact removed.2
  · intro sign other
    rw [having_strike same_sign, if_neg (Ne.symm other)]

theorem contains_single (path : Path) :
    (base.storage false).containsSingle path = true ↔ path ∈ ledger.singles := by
  rw [Storage.containsSingle, represents.single, Finmap.lookup_isSome]

/-- The single elements change under the positive sign alone. -/
theorem with_singles {singles : Finmap fun _ : Path => Term} {entries : List (Path × Term)}
    (keys : (entries.map Prod.fst).Nodup)
    (single : ∀ path, Storage.findEntry path entries = singles.lookup path) :
    BeliefBase.Represents { base with positive := { base.positive with singles := entries } }
      { ledger with singles := singles } where
  distinct := represents.distinct
  signed
    | false =>
        have signed := represents.signed false
        ⟨signed.keys, signed.held, signed.counted⟩
    | true => represents.signed true
  keys := keys
  single := single
  unsigned := represents.unsigned

theorem put_single (path : Path) (term : Term) :
    (base.putSingle path term).1 = decide (path ∉ ledger.singles) ∧
      (base.putSingle path term).2.Represents
        { ledger with singles := ledger.singles.insert path term } := by
  constructor
  · rw [decide_not, ← Bool.decide_congr (represents.contains_single path), Bool.decide_eq_true]
    rfl
  · refine represents.with_singles (Storage.put_keys represents.keys path term) fun other => ?_
    rw [Storage.find_put]
    split_ifs with isPath
    · rw [isPath, Finmap.lookup_insert]
    · rw [Finmap.lookup_insert_of_ne _ isPath]
      exact represents.single other

theorem remove_single (path : Path) :
    (base.removeSingle path).1 = decide (path ∈ ledger.singles) ∧
      (base.removeSingle path).2.Represents
        { ledger with singles := ledger.singles.erase path } := by
  constructor
  · rw [← Bool.decide_congr (represents.contains_single path), Bool.decide_eq_true]
    rfl
  · refine represents.with_singles (Storage.drop_keys represents.keys path) fun other => ?_
    rw [show base.positive.singles = (base.storage false).singles from rfl,
      Storage.find_drop represents.keys]
    split_ifs with isPath
    · rw [isPath, Finmap.lookup_erase]
    · rw [Finmap.lookup_erase_ne isPath]
      exact represents.single other

theorem query (negated : Bool) (path : Path) :
    base.query negated path =
      ledger.facts.filter fun fact => fact.negated = negated ∧ fact.functor = path := by
  rw [BeliefBase.query, (represents.signed negated).multi, having, having, List.filter_filter]
  refine congrArg (List.filter · ledger.facts) (funext fun fact => ?_)
  rw [Bool.decide_and, Bool.and_comm]

theorem contains_literal (fact : Literal) :
    base.containsLiteral fact = listed fact ledger.facts := by
  rw [BeliefBase.containsLiteral, (represents.signed fact.negated).contains_item,
    listed_having same_sign]

theorem contains (path : Path) :
    base.contains path = true ↔
      (∃ fact ∈ ledger.facts, fact.functor = path) ∨ path ∈ ledger.singles := by
  have positive : base.positive.containsMulti path = true ↔ _ :=
    (represents.signed false).contains_multi path
  have negative : base.negative.containsMulti path = true ↔ _ :=
    (represents.signed true).contains_multi path
  have single : base.positive.containsSingle path = true ↔ _ := represents.contains_single path
  have unsigned : base.negative.containsSingle path = false := by
    rw [Storage.containsSingle, Storage.single?, show base.negative.singles = []
      from represents.unsigned]
    rfl
  rw [exists_of_signs]
  simp only [BeliefBase.contains, Storage.contains, Bool.or_eq_true, positive, negative, single,
    unsigned, Bool.false_eq_true, or_false]
  exact or_right_comm

theorem size : base.size = ledger.facts.length := by
  have positive : base.positive.size = _ := (represents.signed false).counted
  have negative : base.negative.size = _ := (represents.signed true).counted
  rw [BeliefBase.size, positive, negative, signs_length]

theorem is_empty :
    base.isEmpty = true ↔ ledger.facts = [] ∧ ledger.singles.keys = ∅ := by
  have positive : base.positive.buckets = [] ↔ _ := (represents.signed false).buckets_empty
  have negative : base.negative.buckets = [] ↔ _ := (represents.signed true).buckets_empty
  have unsigned : base.negative.singles = [] := represents.unsigned
  have single : base.positive.singles = [] ↔ ledger.singles.keys = ∅ := by
    rw [Storage.entries_eq_nil_iff, Finset.eq_empty_iff_forall_notMem]
    refine forall_congr' fun path => ?_
    rw [Finmap.mem_keys, ← Finmap.lookup_eq_none, ← represents.single]
    rfl
  have facts : ledger.facts = [] ↔ having Literal.negated false ledger.facts = [] ∧
      having Literal.negated true ledger.facts = [] := by
    have total := signs_length ledger.facts
    simp only [← List.length_eq_zero_iff]
    omega
  rw [facts]
  simp only [BeliefBase.isEmpty, Storage.isEmpty, Bool.and_eq_true, List.isEmpty_iff, positive,
    negative, single, unsigned, and_true]
  exact and_right_comm

/-- One request is answered alike and keeps the base in step with the ledger. -/
theorem serve (request : Request) :
    (base.serve request).1 = (ledger.serve request).1 ∧
      (base.serve request).2.Represents (ledger.serve request).2 := by
  cases request with
  | add fact => exact (represents.add fact).imp (congrArg Reply.verdict) id
  | remove fact => exact (represents.remove fact).imp (congrArg Reply.verdict) id
  | putSingle path term => exact (represents.put_single path term).imp (congrArg Reply.verdict) id
  | removeSingle path => exact (represents.remove_single path).imp (congrArg Reply.verdict) id
  | clear => exact ⟨rfl, cleared base⟩
  | query negated path => exact ⟨congrArg Reply.facts (represents.query negated path), represents⟩
  | containsLiteral fact =>
      exact ⟨congrArg Reply.verdict (represents.contains_literal fact), represents⟩
  | contains path =>
      have answer := Bool.decide_congr (represents.contains path)
      rw [Bool.decide_eq_true] at answer
      exact ⟨congrArg Reply.verdict answer, represents⟩
  | single path => exact ⟨congrArg Reply.single (represents.single path), represents⟩
  | size => exact ⟨congrArg Reply.count represents.size, represents⟩
  | isEmpty =>
      have answer := Bool.decide_congr represents.is_empty
      rw [Bool.decide_eq_true] at answer
      exact ⟨congrArg Reply.verdict answer, represents⟩

end Represents

/-- A run of requests is answered alike and ends in step. -/
theorem Represents.serve_all {base : BeliefBase} {ledger : Ledger}
    (represents : base.Represents ledger) (requests : List Request) :
    (serveAll BeliefBase.serve requests base).1 = (serveAll Ledger.serve requests ledger).1 ∧
      (serveAll BeliefBase.serve requests base).2.Represents
        (serveAll Ledger.serve requests ledger).2 := by
  induction requests generalizing base ledger with
  | nil => exact ⟨rfl, represents⟩
  | cons request rest ih =>
      have first := represents.serve request
      have behind := ih first.2
      exact ⟨congr (congrArg List.cons first.1) behind.1, behind.2⟩

/-- No request tells the base from the ledger. -/
def Shows (base : BeliefBase) (ledger : Ledger) : Prop :=
  ∀ request, (base.serve request).1 = (ledger.serve request).1

/-- From an empty base, every sequence of requests is answered as by one list of facts,
no two of them the same, with one map of single elements; no further request tells the
base that is left from that list and map. -/
theorem serves_as_ledger (requests : List Request) :
    let served := serveAll BeliefBase.serve requests .empty
    let entered := serveAll Ledger.serve requests .empty
    served.1 = entered.1 ∧ Distinct entered.2.facts ∧ served.2.Shows entered.2 := by
  intro served entered
  have kept : served.1 = entered.1 ∧ served.2.Represents entered.2 :=
    (Represents.cleared .empty).serve_all requests
  have distinct := kept.2.distinct
  exact ⟨kept.1, distinct, fun request => (kept.2.serve request).1⟩

end BeliefBase

end Deliberation
