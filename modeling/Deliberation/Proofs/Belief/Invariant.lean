import Deliberation.Proofs.Belief.Buckets
import Mathlib.Algebra.BigOperators.Group.Finset.Basic

/-!
# Storages under any changes

Whatever facts and single elements are put under whatever keys and taken away again, no
bucket is left empty and the two copies in a bucket agree. The facts listed under the
keys then settle every other answer about facts: which facts are there, which keys are
taken, how many facts there are and whether there are any. So a new fact that is put and
taken away leaves no trace.
-/

namespace Deliberation

set_option autoImplicit false

open Ledger

/-- No fact is there twice, and the members are those in order. -/
structure Bucket.InStep (bucket : Bucket) : Prop where
  distinct : Distinct bucket.order
  members : bucket.members.Perm bucket.order

structure Bucket.Sound (bucket : Bucket) : Prop extends bucket.InStep where
  filled : bucket.order ≠ []

namespace Bucket.InStep

variable {bucket : Bucket}

theorem empty : Bucket.empty.InStep :=
  ⟨List.Pairwise.nil, List.Perm.refl _⟩

theorem keeps (inStep : bucket.InStep) : bucket.Keeps bucket.order :=
  ⟨rfl, inStep.members⟩

theorem insert (inStep : bucket.InStep) (fact : Literal) : (bucket.insert fact).2.Sound := by
  have kept := (inStep.keeps.insert fact).2
  constructor
  case filled =>
    rw [kept.order]
    exact enter_ne_nil fact bucket.order
  case toInStep =>
    constructor
    · rw [kept.order]
      exact inStep.distinct.enter fact
    · rw [kept.order]
      exact kept.members

theorem remove (inStep : bucket.InStep) (fact : Literal) : (bucket.remove fact).2.InStep := by
  have kept := (inStep.keeps.remove inStep.distinct fact).2
  constructor
  · rw [kept.order]
    exact inStep.distinct.strike fact
  · rw [kept.order]
    exact kept.members

end Bucket.InStep

namespace Storage

/-- With one entry at most under each key, the count adds up what is under the keys. -/
theorem count_facts_eq {entries : List (Path × Bucket)} (keys : (entries.map Prod.fst).Nodup) :
    countFacts entries = ∑ key ∈ (entries.map Prod.fst).toFinset,
      ((findEntry key entries).elim 0 fun bucket => bucket.order.length) := by
  induction entries with
  | nil => rfl
  | cons entry rest ih =>
      rcases entry with ⟨here, bucket⟩
      rw [List.map_cons, List.nodup_cons] at keys
      have others : ∀ key ∈ (rest.map Prod.fst).toFinset,
          findEntry key ((here, bucket) :: rest) = findEntry key rest := by
        intro key member
        rw [findEntry, if_neg]
        rintro rfl
        exact keys.1 (List.mem_toFinset.mp member)
      rw [countFacts, ih keys.2, List.map_cons, List.toFinset_cons, Finset.sum_insert, findEntry,
        if_pos rfl, Option.elim_some]
      · refine congrArg (bucket.order.length + ·) (Finset.sum_congr rfl fun key member => ?_)
        rw [others key member]
      · rw [List.mem_toFinset]
        exact keys.1

/-- One bucket under each key at most and one single element, and all buckets sound. -/
structure Sound (storage : Storage) : Prop where
  keys : (storage.buckets.map Prod.fst).Nodup
  singleKeys : (storage.singles.map Prod.fst).Nodup
  buckets : ∀ entry ∈ storage.buckets, entry.2.Sound

inductive Change where
  | putMulti (key : Path) (fact : Literal)
  | removeMulti (key : Path) (fact : Literal)
  | putSingle (key : Path) (term : Term)
  | removeSingle (key : Path)
  | clear

def apply (storage : Storage) : Change → Storage
  | .putMulti key fact => (storage.putMulti key fact).2
  | .removeMulti key fact => (storage.removeMulti key fact).2
  | .putSingle key term => (storage.putSingle key term).2
  | .removeSingle key => (storage.removeSingle key).2
  | .clear => storage.clear

/-- The storage after these changes, from the empty one. -/
def after (changes : List Change) : Storage :=
  changes.foldl apply empty

namespace Sound

variable {storage : Storage}

theorem empty : Storage.empty.Sound :=
  ⟨List.nodup_nil, List.nodup_nil, fun _ member => absurd member List.not_mem_nil⟩

variable (sound : storage.Sound)

include sound

theorem bucket {key : Path} {bucket : Bucket} (found : storage.bucket? key = some bucket) :
    bucket.Sound :=
  sound.buckets (key, bucket) (mem_of_find_entry found)

theorem opened (key : Path) : ((storage.bucket? key).getD .empty).InStep := by
  cases found : storage.bucket? key with
  | none => exact .empty
  | some bucket => exact (sound.bucket found).toInStep

theorem dropped (key : Path) : ∀ entry ∈ dropEntry key storage.buckets, entry.2.Sound :=
  fun entry kept => sound.buckets entry ((drop_entry_sublist ..).subset kept)

theorem replaced (key : Path) {bucket : Bucket} (fresh : bucket.Sound) :
    ∀ entry ∈ putEntry key bucket storage.buckets, entry.2.Sound :=
  List.forall_mem_cons.mpr ⟨fresh, sound.dropped key⟩

theorem put_multi (key : Path) (fact : Literal) : (storage.putMulti key fact).2.Sound where
  keys := put_keys sound.keys key _
  singleKeys := sound.singleKeys
  buckets := sound.replaced key ((sound.opened key).insert fact)

theorem remove_multi (key : Path) (fact : Literal) : (storage.removeMulti key fact).2.Sound := by
  unfold removeMulti
  cases found : storage.bucket? key with
  | none => exact sound
  | some bucket =>
      have left := (sound.bucket found).toInStep.remove fact
      refine ⟨left_keys key _ sound.keys, sound.singleKeys, ?_⟩
      dsimp only
      split_ifs with isEmpty
      · exact sound.dropped key
      · refine sound.replaced key ⟨left, fun none => isEmpty ?_⟩
        exact List.isEmpty_iff.mpr none

theorem put_single (key : Path) (term : Term) : (storage.putSingle key term).2.Sound where
  keys := sound.keys
  singleKeys := put_keys sound.singleKeys key term
  buckets := sound.buckets

theorem remove_single (key : Path) : (storage.removeSingle key).2.Sound where
  keys := sound.keys
  singleKeys := drop_keys sound.singleKeys key
  buckets := sound.buckets

theorem apply (change : Change) : (storage.apply change).Sound := by
  cases change with
  | putMulti key fact => exact sound.put_multi key fact
  | removeMulti key fact => exact sound.remove_multi key fact
  | putSingle key term => exact sound.put_single key term
  | removeSingle key => exact sound.remove_single key
  | clear => exact .empty

theorem apply_all (changes : List Change) : (changes.foldl Storage.apply storage).Sound := by
  induction changes generalizing storage with
  | nil => exact sound
  | cons change rest ih => exact ih (sound.apply change)

theorem contains_item (key : Path) (fact : Literal) :
    storage.containsItem key fact = listed fact (storage.multi key) := by
  unfold Storage.containsItem Storage.multi
  cases found : storage.bucket? key with
  | none => rfl
  | some bucket => exact (sound.bucket found).toInStep.keeps.contains fact

theorem contains_multi_iff (key : Path) :
    storage.containsMulti key = true ↔ storage.multi key ≠ [] := by
  unfold Storage.containsMulti Storage.multi
  cases found : storage.bucket? key with
  | none => simp
  | some bucket => simp [(sound.bucket found).filled]

theorem multi_put (key other : Path) (fact : Literal) :
    (storage.putMulti key fact).2.multi other =
      if other = key then enter fact (storage.multi key) else storage.multi other := by
  rw [Storage.multi, putMulti, Storage.bucket?, find_put]
  split_ifs with isKey
  · have kept := ((sound.opened key).keeps.insert fact).2
    rw [opened_order] at kept
    exact kept.order
  · rfl

theorem multi_remove (key other : Path) (fact : Literal) :
    (storage.removeMulti key fact).2.multi other =
      if other = key then strike fact (storage.multi key) else storage.multi other := by
  unfold removeMulti
  cases found : storage.bucket? key with
  | none =>
      have nothing : storage.multi key = [] := by
        rw [Storage.multi, found]
      split_ifs with isKey
      · rw [isKey, nothing]
        rfl
      · rfl
  | some bucket =>
      have inStep := (sound.bucket found).toInStep
      have kept := (inStep.keeps.remove inStep.distinct fact).2
      have here : storage.multi key = bucket.order := by
        rw [Storage.multi, found]
      rw [here, ← kept.order, Storage.multi, Storage.bucket?, find_left key _ sound.keys]
      split_ifs with isKey isEmpty
      · exact (List.isEmpty_iff.mp isEmpty).symm
      · rfl
      · rfl

theorem is_empty_iff :
    storage.isEmpty = true ↔ ∀ key, storage.multi key = [] ∧ storage.single? key = none := by
  rw [Storage.isEmpty, Bool.and_eq_true, List.isEmpty_iff, List.isEmpty_iff,
    entries_eq_nil_iff, entries_eq_nil_iff, ← forall_and]
  refine forall_congr' fun key => and_congr_left' ?_
  have taken := sound.contains_multi_iff key
  rw [Storage.containsMulti, Option.isSome_iff_ne_none, not_iff_not] at taken
  exact taken

theorem mem_keys_iff (key : Path) :
    key ∈ (storage.buckets.map Prod.fst).toFinset ↔ storage.multi key ≠ [] := by
  have taken := sound.contains_multi_iff key
  rw [Storage.containsMulti, Option.isSome_iff_ne_none, Storage.bucket?, Ne,
    find_entry_eq_none_iff, not_not] at taken
  rw [List.mem_toFinset]
  exact taken

theorem size_eq_sum :
    storage.size =
      ∑ key ∈ (storage.buckets.map Prod.fst).toFinset, (storage.multi key).length := by
  rw [Storage.size, count_facts_eq sound.keys]
  exact Finset.sum_congr rfl fun key _ => (storage.multi_length key).symm

end Sound

/-- All that can be asked of the one is answered by the other alike. -/
structure Alike (left right : Storage) : Prop where
  multi : ∀ key, left.multi key = right.multi key
  single : ∀ key, left.single? key = right.single? key
  containsItem : ∀ key fact, left.containsItem key fact = right.containsItem key fact
  containsMulti : ∀ key, left.containsMulti key = right.containsMulti key
  containsSingle : ∀ key, left.containsSingle key = right.containsSingle key
  contains : ∀ key, left.contains key = right.contains key
  size : left.size = right.size
  isEmpty : left.isEmpty = right.isEmpty

/-- What is listed under the keys and the single elements settle all other answers. -/
theorem Sound.alike {left right : Storage} (sound : left.Sound) (soundRight : right.Sound)
    (multi : ∀ key, left.multi key = right.multi key)
    (single : ∀ key, left.single? key = right.single? key) : left.Alike right := by
  have containsMulti : ∀ key, left.containsMulti key = right.containsMulti key := by
    intro key
    rw [Bool.eq_iff_iff, sound.contains_multi_iff, soundRight.contains_multi_iff, multi]
  have containsSingle : ∀ key, left.containsSingle key = right.containsSingle key := by
    intro key
    rw [Storage.containsSingle, Storage.containsSingle, single]
  constructor
  case multi => exact multi
  case single => exact single
  case containsMulti => exact containsMulti
  case containsSingle => exact containsSingle
  case containsItem =>
    intro key fact
    rw [sound.contains_item, soundRight.contains_item, multi]
  case contains =>
    intro key
    rw [Storage.contains, Storage.contains, containsMulti, containsSingle]
  case size =>
    have keys : (left.buckets.map Prod.fst).toFinset = (right.buckets.map Prod.fst).toFinset := by
      ext key
      rw [sound.mem_keys_iff, soundRight.mem_keys_iff, multi]
    rw [sound.size_eq_sum, soundRight.size_eq_sum, keys]
    exact Finset.sum_congr rfl fun key _ => by rw [multi]
  case isEmpty =>
    rw [Bool.eq_iff_iff, sound.is_empty_iff, soundRight.is_empty_iff]
    simp only [multi, single]

theorem put_multi_reports (storage : Storage) (key : Path) (fact : Literal) :
    (storage.putMulti key fact).1 = !storage.containsItem key fact := by
  unfold putMulti containsItem Bucket.insert
  cases storage.bucket? key with
  | none => rfl
  | some bucket =>
      dsimp only [Option.getD_some]
      split_ifs with known <;> simp [known]

theorem remove_multi_reports (storage : Storage) (key : Path) (fact : Literal) :
    (storage.removeMulti key fact).1 = storage.containsItem key fact := by
  unfold removeMulti containsItem Bucket.remove
  cases storage.bucket? key with
  | none => rfl
  | some bucket =>
      dsimp only
      split_ifs with known <;> simp [known]

/-- A new fact is put and taken away again, and nothing shows it. -/
theorem Sound.put_then_remove {storage : Storage} (sound : storage.Sound) {key : Path}
    {fact : Literal} (unknown : storage.containsItem key fact = false) :
    (storage.putMulti key fact).1 = true ∧
      ((storage.putMulti key fact).2.removeMulti key fact).1 = true ∧
      ((storage.putMulti key fact).2.removeMulti key fact).2.Alike storage := by
  have put := sound.put_multi key fact
  have unlisted : listed fact (storage.multi key) = false := by
    rw [← sound.contains_item, unknown]
  refine ⟨?_, ?_, (put.remove_multi key fact).alike sound ?_ ?_⟩
  · rw [put_multi_reports, unknown]
    rfl
  · rw [remove_multi_reports, put.contains_item, sound.multi_put, if_pos rfl, listed_iff]
    refine ⟨fact, ?_, Literal.same_equivalence.refl fact⟩
    rw [enter, unlisted]
    exact List.mem_append_right _ List.mem_cons_self
  · intro other
    rw [put.multi_remove, sound.multi_put, sound.multi_put, if_pos rfl, strike_enter unlisted]
    split_ifs with isKey
    · rw [isKey]
    · rfl
  · intro other
    rw [single?, remove_multi_singles, put_multi_singles, ← single?]

/-- The answers of a storage tell of the same facts, those that it lists under its keys. -/
structure Faithful (storage : Storage) : Prop where
  items : ∀ key fact, storage.containsItem key fact = true ↔
    ∃ other ∈ storage.multi key, fact.same other = true
  taken : ∀ key, storage.containsMulti key = true ↔ storage.multi key ≠ []
  size : ∃ keys : Finset Path, (∀ key, key ∈ keys ↔ storage.multi key ≠ []) ∧
    storage.size = ∑ key ∈ keys, (storage.multi key).length
  nothing : storage.isEmpty = true ↔ ∀ key, storage.multi key = [] ∧ storage.single? key = none
  restored : ∀ key fact, storage.containsItem key fact = false →
    (storage.putMulti key fact).1 = true ∧
      ((storage.putMulti key fact).2.removeMulti key fact).1 = true ∧
      ((storage.putMulti key fact).2.removeMulti key fact).2.Alike storage

theorem Sound.faithful {storage : Storage} (sound : storage.Sound) : storage.Faithful where
  items := fun key fact => by rw [sound.contains_item, listed_iff]
  taken := sound.contains_multi_iff
  size := ⟨_, sound.mem_keys_iff, sound.size_eq_sum⟩
  nothing := sound.is_empty_iff
  restored := fun _ _ => sound.put_then_remove

/-- Whatever changes are made under whatever keys, the buckets stay sound and the answers agree. -/
theorem sound_after (changes : List Change) : (after changes).Sound ∧ (after changes).Faithful := by
  have sound := Sound.empty.apply_all changes
  exact ⟨sound, sound.faithful⟩

/-- Under a key that is not its functor a fact is there once, whatever its ordering marker. -/
example :
    (after [.putMulti ⟨"a"⟩ (.atom ⟨"p"⟩), .putMulti ⟨"b"⟩ (.atom ⟨"p"⟩),
      .putMulti ⟨"a"⟩ ((Literal.atom ⟨"p"⟩).withOrdered true),
      .removeMulti ⟨"b"⟩ (.atom ⟨"p"⟩)]).buckets =
        [(⟨"a"⟩, ⟨[.atom ⟨"p"⟩], [.atom ⟨"p"⟩]⟩)] := by
  cbv

end Storage

end Deliberation
