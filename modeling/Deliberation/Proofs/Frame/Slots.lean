import Deliberation.Frame.Basic
import Mathlib.Tactic.SplitIfs

/-!
# Looking up slots

Everything that a frame tells about a name is told by the content of its slot:
nothing when the name is not declared, an empty content when it is unbound. So
each operation has one lemma about the content that it leaves under a name.
-/

namespace Deliberation

set_option autoImplicit false

namespace Frame

theorem find_put_same (name : String) (content : Option Term)
    (slots : List (String × Option Term)) :
    findSlot name (putSlot name content slots) = some content := by
  induction slots with
  | nil => simp [putSlot, findSlot]
  | cons slot rest ih =>
      rcases slot with ⟨key, old⟩
      simp only [putSlot]
      split_ifs with same before
      · simp [findSlot]
      · simp [findSlot]
      · simp [findSlot, same, ih]

theorem find_put_other {name other : String} (different : other ≠ name)
    (content : Option Term) (slots : List (String × Option Term)) :
    findSlot other (putSlot name content slots) = findSlot other slots := by
  induction slots with
  | nil => simp [putSlot, findSlot, different.symm]
  | cons slot rest ih =>
      rcases slot with ⟨key, old⟩
      simp only [putSlot]
      split_ifs with same before
      · subst same
        simp [findSlot, different.symm]
      · simp [findSlot, different.symm]
      · simp [findSlot, ih]

/-- The content of the slot of a name, if it is declared. -/
def content? (frame : Frame) (name : String) : Option (Option Term) :=
  findSlot name frame.slots

theorem is_declared_eq (frame : Frame) (name : String) :
    frame.isDeclared name = (frame.content? name).isSome := rfl

theorem value_eq (frame : Frame) (name : String) :
    frame.value? name = (frame.content? name).join := rfl

theorem is_allocated_eq (frame : Frame) (name : String) :
    frame.isAllocated name = (frame.value? name).isSome := rfl

theorem mem_slots_of_value {frame : Frame} {name : String} {content : Term}
    (found : frame.value? name = some content) : (name, some content) ∈ frame.slots := by
  rcases frame with ⟨slots⟩
  induction slots with
  | nil => simp [value?, findSlot] at found
  | cons slot rest ih =>
      rcases slot with ⟨key, held⟩
      simp only [value?, findSlot] at found
      split_ifs at found with same
      · rw [Option.join_eq_some_iff] at found
        rw [same, Option.some.inj found]
        exact List.mem_cons_self
      · exact List.mem_cons_of_mem _ (ih found)

theorem slot_eq_of_content_eq {before after : Frame} {name : String}
    (same : after.content? name = before.content? name) :
    after.slot? name = before.slot? name :=
  congrArg _ same

@[simp]
theorem bind_content_same (frame : Frame) (name : String) (term : Term) :
    (frame.bind name term).content? name = some (some term) :=
  find_put_same name (some term) frame.slots

@[simp]
theorem bind_content_other (frame : Frame) {name other : String} (different : other ≠ name)
    (term : Term) : (frame.bind name term).content? other = frame.content? other :=
  find_put_other different (some term) frame.slots

@[simp]
theorem commit_nil (frame : Frame) : frame.commit [] = frame := rfl

@[simp]
theorem commit_cons (frame : Frame) (binding : String × Term) (rest : Bindings) :
    frame.commit (binding :: rest) = (frame.bind binding.1 binding.2).commit rest := rfl

theorem commit_content_absent (frame : Frame) (bindings : Bindings) (name : String)
    (absent : ∀ binding ∈ bindings, binding.1 ≠ name) :
    (frame.commit bindings).content? name = frame.content? name := by
  induction bindings generalizing frame with
  | nil => rfl
  | cons binding rest ih =>
      have here := absent binding List.mem_cons_self
      rw [commit_cons, ih _ fun other member => absent other (List.mem_cons_of_mem _ member)]
      exact bind_content_other frame here.symm binding.2

/-- A committed name holds one of the terms committed to it. -/
theorem commit_content_present (frame : Frame) (bindings : Bindings) (name : String)
    (present : ∃ binding ∈ bindings, binding.1 = name) :
    ∃ term, (name, term) ∈ bindings ∧
      (frame.commit bindings).content? name = some (some term) := by
  induction bindings generalizing frame with
  | nil =>
      rcases present with ⟨_, member, _⟩
      cases member
  | cons binding rest ih =>
      rw [commit_cons]
      by_cases later : ∃ other ∈ rest, other.1 = name
      · obtain ⟨term, member, holds⟩ := ih (frame.bind binding.1 binding.2) later
        exact ⟨term, List.mem_cons_of_mem _ member, holds⟩
      · rcases present with ⟨found, member, isName⟩
        have isHead : found = binding := by
          rcases List.mem_cons.mp member with same | inRest
          · exact same
          · exact absurd ⟨found, inRest, isName⟩ later
        subst isHead
        have absent : ∀ other ∈ rest, other.1 ≠ name := fun other inRest same =>
          later ⟨other, inRest, same⟩
        refine ⟨found.2, ?_, ?_⟩
        · rw [← isName]
          exact List.mem_cons_self
        · rw [commit_content_absent _ _ _ absent, ← isName]
          exact bind_content_same frame found.1 found.2

theorem commit_append (frame : Frame) (before behind : Bindings) :
    frame.commit (before ++ behind) = (frame.commit before).commit behind :=
  List.foldl_append

/-- The last term committed to a name stays in its slot. -/
theorem commit_content_last (frame : Frame) (before : Bindings) {behind : Bindings}
    {name : String} (term : Term) (last : ∀ binding ∈ behind, binding.1 ≠ name) :
    (frame.commit (before ++ (name, term) :: behind)).content? name = some (some term) := by
  rw [commit_append, commit_cons, commit_content_absent _ _ _ last]
  exact bind_content_same (frame.commit before) name term

theorem commit_content_of_nodup (frame : Frame) {bindings : Bindings}
    (names : (bindings.map Prod.fst).Nodup) {name : String} {term : Term}
    (member : (name, term) ∈ bindings) :
    (frame.commit bindings).content? name = some (some term) := by
  obtain ⟨before, behind, rfl⟩ := List.append_of_mem member
  apply commit_content_last
  rw [List.map_append, List.map_cons, List.nodup_append] at names
  have fresh := (List.nodup_cons.mp names.2.1).1
  intro binding later same
  exact fresh (List.mem_map.mpr ⟨binding, later, same⟩)

theorem declare_one_content (frame : Frame) (name other : String) :
    (frame.declareOne name).content? other =
      if other = name then some ((frame.content? name).getD none) else frame.content? other := by
  unfold declareOne
  split_ifs with declared same same
  · subst same
    rw [is_declared_eq] at declared
    obtain ⟨content, found⟩ := Option.isSome_iff_exists.mp declared
    rw [found]
    rfl
  · rfl
  · subst same
    rw [is_declared_eq, Bool.not_eq_true, Option.isSome_eq_false_iff, Option.isNone_iff_eq_none]
      at declared
    rw [declared]
    exact find_put_same other none frame.slots
  · exact find_put_other same none frame.slots

theorem declare_value (frame : Frame) (names : List String) (name : String) :
    (frame.declare names).value? name = frame.value? name := by
  unfold declare
  induction names generalizing frame with
  | nil => rfl
  | cons first rest ih =>
      rw [List.foldl_cons, ih, value_eq, value_eq, declare_one_content]
      split_ifs with same
      · subst same
        cases frame.content? name with
        | none => rfl
        | some content => rfl
      · rfl

theorem with_variables_value (names : List String) (name : String) :
    (withVariables names).value? name = none :=
  declare_value empty names name

end Frame

end Deliberation
