import Deliberation.Rule
import Mathlib.Data.List.Basic
import Mathlib.Data.List.Induction
import Mathlib.Tactic.SplitIfs

/-!
# The index of registered rules

An index that rules are registered in has an entry for the path of each of them and
for no other. The entry lists the places of the rules with that path, in order. One
registration adds one number at the end of one entry.
-/

namespace Deliberation

set_option autoImplicit false

namespace PathIndex

theorem find_entry_push (path other : Path) (number : Nat) (entries : List (Path × List Nat)) :
    findEntry other (pushEntry path number entries) =
      if other = path then some ((findEntry path entries).getD [] ++ [number])
      else findEntry other entries := by
  induction entries with
  | nil => grind [findEntry, pushEntry]
  | cons entry rest ih =>
      rcases entry with ⟨key, numbers⟩
      by_cases isPath : key = path
      · grind [findEntry, pushEntry]
      · rw [pushEntry, if_neg isPath, findEntry, ih, findEntry, findEntry, if_neg isPath]
        grind

theorem numbers_push (index : PathIndex) (path other : Path) (number : Nat) :
    (index.push path number).numbers? other =
      if other = path then some ((index.numbers? path).getD [] ++ [number])
      else index.numbers? other :=
  find_entry_push path other number index.entries

end PathIndex

/-- The places of the rules with a path, in order. -/
def numbersOf (rules : List Rule) (path : Path) : List Nat :=
  (List.range rules.length).filter fun number => rules[number]?.map Rule.path = some path

theorem mem_numbers_of_iff (rules : List Rule) (path : Path) (number : Nat) :
    number ∈ numbersOf rules path ↔ ∃ rule, rules[number]? = some rule ∧ rule.path = path := by
  rw [numbersOf, List.mem_filter, List.mem_range, decide_eq_true_iff, Option.map_eq_some_iff]
  constructor
  · exact And.right
  · intro found
    refine ⟨?_, found⟩
    rcases found with ⟨rule, isThere, _⟩
    exact (List.getElem?_eq_some_iff.mp isThere).1

theorem numbers_of_eq_nil_iff (rules : List Rule) (path : Path) :
    numbersOf rules path = [] ↔ ∀ rule ∈ rules, rule.path ≠ path := by
  rw [List.eq_nil_iff_forall_not_mem]
  constructor
  · intro noNumber rule member samePath
    obtain ⟨number, isThere⟩ := List.mem_iff_getElem?.mp member
    exact noNumber number ((mem_numbers_of_iff ..).mpr ⟨rule, isThere, samePath⟩)
  · intro noRule number listed
    obtain ⟨rule, isThere, samePath⟩ := (mem_numbers_of_iff ..).mp listed
    exact noRule rule (List.mem_of_getElem? isThere) samePath

/-- One more rule keeps the places of the others and takes the next one. -/
theorem numbers_of_append (rules : List Rule) (rule : Rule) (path : Path) :
    numbersOf (rules ++ [rule]) path =
      numbersOf rules path ++ if path = rule.path then [rules.length] else [] := by
  have others : (List.range rules.length).filter
      (fun number => (rules ++ [rule])[number]?.map Rule.path = some path) =
        numbersOf rules path := by
    apply List.filter_congr
    intro number inRange
    rw [List.getElem?_append_left (List.mem_range.mp inRange)]
  rw [numbersOf, List.length_append, List.length_singleton, List.range_succ, List.filter_append,
    others]
  congr 1
  rw [List.filter_singleton, List.getElem?_append_right (Nat.le_refl _), Nat.sub_self]
  grind

/-- The numbers of a path lead to the rules with that path. -/
theorem rules_of_numbers (rules : List Rule) (path : Path) :
    (numbersOf rules path).map (fun number => rules[number]?) =
      (rules.filter fun rule => rule.path = path).map some := by
  induction rules using List.reverseRecOn with
  | nil => rfl
  | append_singleton rest rule ih =>
      have others : (numbersOf rest path).map (fun number => (rest ++ [rule])[number]?) =
          (numbersOf rest path).map fun number => rest[number]? := by
        refine List.map_congr_left fun number member => ?_
        rw [numbersOf, List.mem_filter, List.mem_range] at member
        exact List.getElem?_append_left member.1
      rw [numbers_of_append, List.map_append, others, ih, List.filter_append, List.map_append]
      by_cases isPath : path = rule.path
      · simp [isPath]
      · simp [isPath, Ne.symm isPath]

/-- The index has the places of the rules under their paths, and nothing else. -/
def Registry.Indexed (registry : Registry) : Prop :=
  ∀ path, registry.index.numbers? path =
    if numbersOf registry.rules path = [] then none else some (numbersOf registry.rules path)

namespace Registry

theorem empty_indexed : empty.Indexed :=
  fun _ => rfl

theorem Indexed.numbers_getD {registry : Registry} (indexed : registry.Indexed) (path : Path) :
    (registry.index.numbers? path).getD [] = numbersOf registry.rules path := by
  rw [indexed path]
  split_ifs with noNumber
  · exact noNumber.symm
  · rfl

theorem Indexed.register {registry : Registry} (indexed : registry.Indexed) (rule : Rule) :
    (registry.register rule).2.Indexed := by
  intro path
  change (registry.index.push rule.path registry.size).numbers? path =
    if numbersOf (registry.rules ++ [rule]) path = [] then none
    else some (numbersOf (registry.rules ++ [rule]) path)
  rw [PathIndex.numbers_push, numbers_of_append]
  by_cases samePath : path = rule.path
  · rw [if_pos samePath, if_pos samePath, ← samePath, indexed.numbers_getD, if_neg (by simp)]
    rfl
  · rw [if_neg samePath, if_neg samePath, List.append_nil]
    exact indexed path

theorem Indexed.register_all {registry : Registry} (indexed : registry.Indexed)
    (rules : List Rule) : (registry.registerAll rules).Indexed := by
  induction rules generalizing registry with
  | nil => exact indexed
  | cons rule rest ih => exact ih (indexed.register rule)

theorem register_all_rules (registry : Registry) (rules : List Rule) :
    (registry.registerAll rules).rules = registry.rules ++ rules := by
  induction rules generalizing registry with
  | nil => exact (List.append_nil _).symm
  | cons rule rest ih =>
      have first : ((registry.register rule).2.registerAll rest).rules =
          registry.rules ++ [rule] ++ rest := ih _
      rw [List.append_assoc, List.singleton_append] at first
      exact first

theorem registered_rules (rules : List Rule) : (empty.registerAll rules).rules = rules :=
  register_all_rules empty rules

theorem registered_indexed (rules : List Rule) : (empty.registerAll rules).Indexed :=
  empty_indexed.register_all rules

end Registry

end Deliberation
