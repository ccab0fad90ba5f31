import Deliberation.Proofs.Belief.Contents
import Deliberation.Proofs.Belief.Ledger
import Mathlib.Algebra.BigOperators.Group.List.Basic

/-!
# Buckets in step

A storage of facts under their functors stands for one list of facts. Each key has one
bucket at most, a bucket has the facts of its functor in order and once more as its
members, and a functor without facts has no bucket. Putting and removing a fact keep all
of this, with the answer that the list gives.
-/

namespace Deliberation

set_option autoImplicit false

namespace Storage

section Entries

variable {Content : Type}

theorem find_drop_other {key other : Path} (different : other ≠ key)
    (entries : List (Path × Content)) :
    findEntry other (dropEntry key entries) = findEntry other entries := by
  induction entries with
  | nil => rfl
  | cons entry rest ih =>
      rcases entry with ⟨here, content⟩
      rw [dropEntry, findEntry]
      split_ifs with isKey isOther isOther
      · exact absurd (isOther.symm.trans isKey) different
      · rfl
      · rw [findEntry, if_pos isOther]
      · rw [findEntry, if_neg isOther, ih]

theorem find_entry_eq_none_iff (key : Path) (entries : List (Path × Content)) :
    findEntry key entries = none ↔ key ∉ entries.map Prod.fst := by
  induction entries with
  | nil => simp [findEntry]
  | cons entry rest ih =>
      rcases entry with ⟨here, content⟩
      rw [findEntry, List.map_cons, List.mem_cons, not_or, ← ih]
      split_ifs with isKey
      · simp [isKey]
      · simp [Ne.symm isKey]

/-- With one entry at most under each key, dropping leaves none. -/
theorem find_drop_same {entries : List (Path × Content)} (keys : (entries.map Prod.fst).Nodup)
    (key : Path) : findEntry key (dropEntry key entries) = none := by
  induction entries with
  | nil => rfl
  | cons entry rest ih =>
      rcases entry with ⟨here, content⟩
      rw [List.map_cons, List.nodup_cons] at keys
      rw [dropEntry]
      split_ifs with isKey
      · rw [find_entry_eq_none_iff, ← isKey]
        exact keys.1
      · rw [findEntry, if_neg isKey, ih keys.2]

theorem drop_keys {entries : List (Path × Content)} (keys : (entries.map Prod.fst).Nodup)
    (key : Path) : ((dropEntry key entries).map Prod.fst).Nodup :=
  keys.sublist ((drop_entry_sublist key entries).map Prod.fst)

theorem put_keys {entries : List (Path × Content)} (keys : (entries.map Prod.fst).Nodup)
    (key : Path) (content : Content) : ((putEntry key content entries).map Prod.fst).Nodup := by
  rw [putEntry, List.map_cons, List.nodup_cons, ← find_entry_eq_none_iff]
  exact ⟨find_drop_same keys key, drop_keys keys key⟩

theorem find_drop {entries : List (Path × Content)} (keys : (entries.map Prod.fst).Nodup)
    (key other : Path) :
    findEntry other (dropEntry key entries) =
      if other = key then none else findEntry other entries := by
  split_ifs with isKey
  · rw [isKey, find_drop_same keys]
  · exact find_drop_other isKey entries

theorem find_put (key other : Path) (content : Content) (entries : List (Path × Content)) :
    findEntry other (putEntry key content entries) =
      if other = key then some content else findEntry other entries := by
  rw [putEntry, findEntry]
  split_ifs with isKey isOther isOther
  · rfl
  · exact absurd isKey.symm isOther
  · exact absurd isOther.symm isKey
  · exact find_drop_other isOther entries

theorem entries_eq_nil_iff (entries : List (Path × Content)) :
    entries = [] ↔ ∀ key, findEntry key entries = none := by
  constructor
  · rintro rfl key
    rfl
  · intro none
    cases entries with
    | nil => rfl
    | cons entry rest =>
        have here := none entry.1
        rw [findEntry, if_pos rfl] at here
        cases here

end Entries

section Leftovers

/-! What is left of a bucket stays in its place unless nothing is left. -/

variable (key : Path) (left : Bucket) (entries : List (Path × Bucket))

theorem left_keys {entries : List (Path × Bucket)} (keys : (entries.map Prod.fst).Nodup) :
    ((if left.isEmpty then dropEntry key entries else putEntry key left entries).map
      Prod.fst).Nodup := by
  split_ifs
  · exact drop_keys keys key
  · exact put_keys keys key left

theorem find_left {entries : List (Path × Bucket)} (keys : (entries.map Prod.fst).Nodup)
    (other : Path) :
    findEntry other (if left.isEmpty then dropEntry key entries else putEntry key left entries) =
      if other = key then (if left.isEmpty then none else some left)
      else findEntry other entries := by
  by_cases isEmpty : left.isEmpty = true
  · rw [if_pos isEmpty, if_pos isEmpty, find_drop keys]
  · rw [if_neg isEmpty, if_neg isEmpty, find_put]

/-- What is dropped makes up the difference of the counts. -/
theorem drop_count :
    countFacts (dropEntry key entries) +
        ((findEntry key entries).elim 0 fun bucket => bucket.order.length) =
      countFacts entries := by
  induction entries with
  | nil => rfl
  | cons entry rest ih =>
      rcases entry with ⟨here, bucket⟩
      rw [dropEntry, findEntry]
      split_ifs with isKey
      · rw [countFacts, Option.elim_some, Nat.add_comm]
      · rw [countFacts, countFacts]
        omega

theorem left_count :
    countFacts (if left.isEmpty then dropEntry key entries else putEntry key left entries) =
      left.order.length + countFacts (dropEntry key entries) := by
  split_ifs with isEmpty
  · rw [List.isEmpty_iff.mp isEmpty, List.length_nil, Nat.zero_add]
  · rfl

end Leftovers

end Storage

/-- Both copies in a bucket are of these facts. -/
structure Bucket.Keeps (bucket : Bucket) (facts : List Literal) : Prop where
  order : bucket.order = facts
  members : bucket.members.Perm facts

namespace Bucket.Keeps

open Ledger

variable {bucket : Bucket} {facts : List Literal}

theorem empty : Bucket.empty.Keeps [] :=
  ⟨rfl, List.Perm.refl _⟩

theorem contains (keeps : bucket.Keeps facts) (fact : Literal) :
    bucket.contains fact = listed fact facts :=
  keeps.members.any_eq

theorem insert (keeps : bucket.Keeps facts) (fact : Literal) :
    (bucket.insert fact).1 = !listed fact facts ∧
      (bucket.insert fact).2.Keeps (enter fact facts) := by
  unfold Bucket.insert enter
  rw [keeps.contains]
  cases listed fact facts with
  | true => exact ⟨rfl, keeps⟩
  | false =>
      refine ⟨rfl, congrArg (· ++ [fact]) keeps.order, ?_⟩
      exact (keeps.members.cons fact).trans (List.perm_append_singleton fact facts).symm

theorem remove (keeps : bucket.Keeps facts) (distinct : Distinct facts) (fact : Literal) :
    (bucket.remove fact).1 = listed fact facts ∧
      (bucket.remove fact).2.Keeps (strike fact facts) := by
  unfold Bucket.remove
  rw [keeps.contains]
  cases known : listed fact facts with
  | true =>
      refine ⟨rfl, ?_, ?_⟩
      · rw [distinct.strike_eq, ← keeps.order]
        rfl
      · have once : bucket.members.Pairwise fun first second =>
            fact.same first = true → fact.same second = true → False := by
          refine (keeps.members.pairwise_iff ?_).mpr (distinct.once fact)
          exact fun none sameSecond sameFirst => none sameFirst sameSecond
        exact keeps.members.eraseP fact.same once
  | false =>
      rw [strike_eq_self known]
      exact ⟨rfl, keeps⟩

end Bucket.Keeps

namespace Storage

open Ledger

theorem opened_order (storage : Storage) (key : Path) :
    ((storage.bucket? key).getD .empty).order = storage.multi key := by
  unfold Storage.multi
  cases storage.bucket? key <;> rfl

theorem multi_length (storage : Storage) (key : Path) :
    (storage.multi key).length =
      (findEntry key storage.buckets).elim 0 fun bucket => bucket.order.length := by
  rw [Storage.multi, Storage.bucket?]
  cases findEntry key storage.buckets <;> rfl

/-- A bucket is there exactly when there are facts to keep in it. -/
def Holds (found : Option Bucket) (facts : List Literal) : Prop :=
  match found with
  | some bucket => bucket.Keeps facts ∧ facts ≠ []
  | none => facts = []

theorem holds_unless_empty {bucket : Bucket} {facts : List Literal}
    (keeps : bucket.Keeps facts) :
    Holds (if bucket.isEmpty then none else some bucket) facts := by
  split_ifs with isEmpty
  · exact keeps.order.symm.trans (List.isEmpty_iff.mp isEmpty)
  · refine ⟨keeps, fun none => isEmpty ?_⟩
    rw [Bucket.isEmpty, keeps.order, none]
    rfl

/-- The storage stands for these facts, each under its functor. -/
structure Represents (storage : Storage) (facts : List Literal) : Prop where
  keys : (storage.buckets.map Prod.fst).Nodup
  held : ∀ path, Holds (storage.bucket? path) (having Literal.functor path facts)
  counted : storage.size = facts.length

namespace Represents

variable {storage : Storage} {facts : List Literal}

theorem cleared (storage : Storage) : storage.clear.Represents [] where
  keys := List.nodup_nil
  held := fun _ => rfl
  counted := rfl

variable (represents : storage.Represents facts)

include represents

theorem multi (path : Path) : storage.multi path = having Literal.functor path facts := by
  have held := represents.held path
  unfold Storage.multi
  cases found : storage.bucket? path with
  | none =>
      rw [found] at held
      exact held.symm
  | some bucket =>
      rw [found] at held
      exact held.1.order

theorem contains_multi (path : Path) :
    storage.containsMulti path = true ↔ ∃ fact ∈ facts, fact.functor = path := by
  have some_of : (∃ fact ∈ facts, fact.functor = path) ↔
      having Literal.functor path facts ≠ [] := by
    simp [having, List.filter_eq_nil_iff]
  have held := represents.held path
  rw [some_of, Storage.containsMulti]
  cases found : storage.bucket? path with
  | none =>
      rw [found] at held
      rw [show having Literal.functor path facts = [] from held]
      simp
  | some bucket =>
      rw [found] at held
      simpa using held.2

theorem contains_item (fact : Literal) :
    storage.containsItem fact.functor fact = listed fact facts := by
  have held := represents.held fact.functor
  rw [← listed_having same_functor fact facts, Storage.containsItem]
  cases found : storage.bucket? fact.functor with
  | none =>
      rw [found] at held
      rw [show having Literal.functor fact.functor facts = [] from held]
      rfl
  | some bucket =>
      rw [found] at held
      exact held.1.contains fact

theorem buckets_empty : storage.buckets = [] ↔ facts = [] := by
  rw [entries_eq_nil_iff, List.eq_nil_iff_forall_not_mem]
  constructor
  · intro absent fact member
    have present := (represents.contains_multi fact.functor).mpr ⟨fact, member, rfl⟩
    rw [Storage.containsMulti, Storage.bucket?, absent] at present
    cases present
  · intro none path
    rw [← Option.not_isSome_iff_eq_none]
    intro present
    obtain ⟨fact, member, _⟩ := (represents.contains_multi path).mp present
    exact none fact member

/-- The bucket that is there or is opened under a functor. -/
theorem opened (path : Path) :
    ((storage.bucket? path).getD .empty).Keeps (having Literal.functor path facts) := by
  have held := represents.held path
  cases found : storage.bucket? path with
  | none =>
      rw [found] at held
      rw [show having Literal.functor path facts = [] from held]
      exact .empty
  | some bucket =>
      rw [found] at held
      exact held.1

/-- The facts outside the bucket of a functor make up the rest of the count. -/
theorem outside (path : Path) :
    countFacts (dropEntry path storage.buckets) + (having Literal.functor path facts).length =
      facts.length := by
  have total := drop_count path storage.buckets
  rw [← multi_length, represents.multi] at total
  exact total.trans represents.counted

theorem put (fact : Literal) :
    (storage.putMulti fact.functor fact).1 = !listed fact facts ∧
      (storage.putMulti fact.functor fact).2.Represents (enter fact facts) := by
  have inserted := (represents.opened fact.functor).insert fact
  rw [listed_having same_functor] at inserted
  refine ⟨inserted.1, ?_⟩
  constructor
  case keys => exact put_keys represents.keys _ _
  case held =>
    intro path
    rw [Storage.putMulti, Storage.bucket?, find_put, having_enter same_functor]
    by_cases isPath : path = fact.functor
    · rw [isPath, if_pos rfl, if_pos rfl]
      exact ⟨inserted.2, enter_ne_nil _ _⟩
    · rw [if_neg isPath, if_neg (Ne.symm isPath)]
      exact represents.held path
  case counted =>
    have others := represents.outside fact.functor
    have entered := enter_length fact (having Literal.functor fact.functor facts)
    have size : (storage.putMulti fact.functor fact).2.size =
        (((storage.bucket? fact.functor).getD .empty).insert fact).2.order.length +
          countFacts (dropEntry fact.functor storage.buckets) :=
      rfl
    rw [listed_having same_functor] at entered
    rw [size, inserted.2.order, entered, enter_length]
    omega

theorem remove (distinct : Distinct facts) (fact : Literal) :
    (storage.removeMulti fact.functor fact).1 = listed fact facts ∧
      (storage.removeMulti fact.functor fact).2.Represents (strike fact facts) := by
  have held := represents.held fact.functor
  unfold Storage.removeMulti
  cases found : storage.bucket? fact.functor with
  | none =>
      rw [found] at held
      have unknown : listed fact facts = false := by
        rw [← listed_having same_functor, show having Literal.functor fact.functor facts = []
          from held]
        rfl
      rw [strike_eq_self unknown]
      exact ⟨unknown.symm, represents⟩
  | some bucket =>
      rw [found] at held
      have removed := held.1.remove (distinct.having Literal.functor fact.functor) fact
      rw [listed_having same_functor] at removed
      refine ⟨removed.1, ?_⟩
      constructor
      case keys => exact left_keys _ _ represents.keys
      case held =>
        intro path
        rw [Storage.bucket?, find_left _ _ represents.keys, having_strike same_functor]
        by_cases isPath : path = fact.functor
        · rw [if_pos isPath, if_pos isPath.symm, isPath]
          exact holds_unless_empty removed.2
        · rw [if_neg isPath, if_neg (Ne.symm isPath)]
          exact represents.held path
      case counted =>
        have others := represents.outside fact.functor
        have struck := strike_length fact (having Literal.functor fact.functor facts)
        have struckAll := strike_length fact facts
        rw [listed_having same_functor, ← removed.2.order] at struck
        rw [Storage.size, left_count]
        omega

end Represents

end Storage

end Deliberation
