import Deliberation.Belief.Base

/-!
# What lies in a belief base

Adding a fact brings in that fact at most, removing one brings in nothing, and
neither touches the single elements. Answers to queries lie in the base.
-/

namespace Deliberation

set_option autoImplicit false

theorem Bucket.mem_insert {bucket : Bucket} {fact other : Literal}
    (member : other ∈ (bucket.insert fact).2.order) : other = fact ∨ other ∈ bucket.order := by
  unfold Bucket.insert at member
  split at member
  next => exact .inr member
  next =>
    rcases List.mem_append.mp member with old | new
    · exact .inr old
    · exact .inl (List.mem_singleton.mp new)

theorem Bucket.mem_remove {bucket : Bucket} {fact other : Literal}
    (member : other ∈ (bucket.remove fact).2.order) : other ∈ bucket.order := by
  unfold Bucket.remove at member
  split at member
  next => exact (List.mem_filter.mp member).1
  next => exact member

namespace Storage

def facts (storage : Storage) : List Literal :=
  storage.buckets.flatMap fun entry => entry.2.order

section Entries

variable {Content : Type}

theorem mem_of_find_entry {key : Path} {content : Content} {entries : List (Path × Content)}
    (found : findEntry key entries = some content) : (key, content) ∈ entries := by
  induction entries with
  | nil => cases found
  | cons entry rest ih =>
      rcases entry with ⟨other, old⟩
      rw [findEntry] at found
      split at found
      next isKey =>
        rw [← isKey, ← Option.some.inj found]
        exact List.mem_cons_self
      next => exact List.mem_cons_of_mem _ (ih found)

theorem drop_entry_sublist (key : Path) (entries : List (Path × Content)) :
    (dropEntry key entries).Sublist entries := by
  induction entries with
  | nil => exact List.Sublist.refl _
  | cons entry rest ih =>
      rcases entry with ⟨other, old⟩
      rw [dropEntry]
      split
      next => exact List.sublist_cons_self _ rest
      next => exact ih.cons_cons _

end Entries

theorem mem_facts_of_bucket {storage : Storage} {key : Path} {bucket : Bucket} {fact : Literal}
    (found : storage.bucket? key = some bucket) (member : fact ∈ bucket.order) :
    fact ∈ storage.facts :=
  List.mem_flatMap.mpr ⟨(key, bucket), mem_of_find_entry found, member⟩

theorem mem_facts_of_drop {storage : Storage} {key : Path} {fact : Literal}
    (member : fact ∈ (dropEntry key storage.buckets).flatMap fun entry => entry.2.order) :
    fact ∈ storage.facts := by
  obtain ⟨entry, kept, member⟩ := List.mem_flatMap.mp member
  exact List.mem_flatMap.mpr ⟨entry, (drop_entry_sublist ..).subset kept, member⟩

theorem mem_facts_of_put {storage : Storage} {key : Path} {bucket : Bucket} {fact : Literal}
    (member : fact ∈ (putEntry key bucket storage.buckets).flatMap fun entry => entry.2.order) :
    fact ∈ bucket.order ∨ fact ∈ storage.facts := by
  rw [putEntry, List.flatMap_cons, List.mem_append] at member
  exact member.imp id mem_facts_of_drop

theorem mem_multi {storage : Storage} {key : Path} {fact : Literal}
    (member : fact ∈ storage.multi key) : fact ∈ storage.facts := by
  unfold multi at member
  split at member
  next bucket found => exact mem_facts_of_bucket found member
  next => cases member

theorem mem_put_multi {storage : Storage} {key : Path} {fact other : Literal}
    (member : other ∈ (storage.putMulti key fact).2.facts) :
    other = fact ∨ other ∈ storage.facts := by
  rcases mem_facts_of_put member with inserted | old
  · refine (Bucket.mem_insert inserted).imp id fun opened => ?_
    cases found : storage.bucket? key with
    | none => simp [found, Bucket.empty] at opened
    | some bucket =>
        rw [found] at opened
        exact mem_facts_of_bucket found opened
  · exact .inr old

theorem mem_remove_multi {storage : Storage} {key : Path} {fact other : Literal}
    (member : other ∈ (storage.removeMulti key fact).2.facts) : other ∈ storage.facts := by
  unfold removeMulti at member
  split at member
  next => exact member
  next bucket found =>
    rw [facts] at member
    dsimp only at member
    split at member
    next => exact mem_facts_of_drop member
    next =>
      rcases mem_facts_of_put member with left | old
      · exact mem_facts_of_bucket found (Bucket.mem_remove left)
      · exact old

@[simp]
theorem put_multi_singles (storage : Storage) (key : Path) (fact : Literal) :
    (storage.putMulti key fact).2.singles = storage.singles :=
  rfl

@[simp]
theorem remove_multi_singles (storage : Storage) (key : Path) (fact : Literal) :
    (storage.removeMulti key fact).2.singles = storage.singles := by
  unfold removeMulti
  split <;> rfl

end Storage

namespace BeliefBase

variable (base : BeliefBase)

/-- The facts of both signs. -/
def facts : List Literal :=
  base.positive.facts ++ base.negative.facts

def singles : List (Path × Term) :=
  base.positive.singles ++ base.negative.singles

theorem mem_facts_of_storage {negated : Bool} {fact : Literal}
    (member : fact ∈ (base.storage negated).facts) : fact ∈ base.facts := by
  cases negated with
  | false => exact List.mem_append_left _ member
  | true => exact List.mem_append_right _ member

theorem mem_facts_with_storage {negated : Bool} {storage : Storage} {fact : Literal}
    (member : fact ∈ (base.withStorage negated storage).facts) :
    fact ∈ storage.facts ∨ fact ∈ base.facts := by
  cases negated with
  | false => exact (List.mem_append.mp member).imp id (List.mem_append_right _)
  | true => exact (List.mem_append.mp member).symm.imp id (List.mem_append_left _)

theorem mem_query {negated : Bool} {path : Path} {fact : Literal}
    (member : fact ∈ base.query negated path) : fact ∈ base.facts :=
  base.mem_facts_of_storage (Storage.mem_multi member)

theorem mem_add {fact other : Literal} (member : other ∈ (base.add fact).2.facts) :
    other = fact ∨ other ∈ base.facts := by
  rcases base.mem_facts_with_storage member with changed | old
  · exact (Storage.mem_put_multi changed).imp id base.mem_facts_of_storage
  · exact .inr old

theorem mem_remove {fact other : Literal} (member : other ∈ (base.remove fact).2.facts) :
    other ∈ base.facts := by
  rcases base.mem_facts_with_storage member with changed | old
  · exact base.mem_facts_of_storage (Storage.mem_remove_multi changed)
  · exact old

theorem with_storage_singles {negated : Bool} {storage : Storage}
    (same : storage.singles = (base.storage negated).singles) :
    (base.withStorage negated storage).singles = base.singles := by
  cases negated with
  | false => exact congrArg (· ++ base.negative.singles) same
  | true => exact congrArg (base.positive.singles ++ ·) same

@[simp]
theorem add_singles (fact : Literal) : (base.add fact).2.singles = base.singles :=
  base.with_storage_singles (Storage.put_multi_singles ..)

@[simp]
theorem remove_singles (fact : Literal) : (base.remove fact).2.singles = base.singles :=
  base.with_storage_singles (Storage.remove_multi_singles ..)

end BeliefBase

end Deliberation
