import Deliberation.Proofs.Process.Basic

/-!
# Invariants of processes

What holds of the mind before every access of every process may be relied on by each of
them, whatever the schedule lets the others do in between. So an invariant is shown of one
access at a time, and of processes that run at the same time by showing it of each.
-/

namespace Deliberation

set_option autoImplicit false

namespace Process

variable {α β : Type}

/-- With fair minds found, fair minds are left, and the result is good. -/
def Keeps (fair : Mind → Prop) (good : α → Prop) : Process α → Prop
  | .done result => good result
  | .short => True
  | .access change next => ∀ mind, fair mind → fair (change mind) ∧ (next mind).Keeps fair good
  | .ask next => ∀ answer, (next answer).Keeps fair good

variable {fair : Mind → Prop} {good : α → Prop} {fine : β → Prop}

theorem Keeps.run {process : Process α} (keeps : process.Keeps fair good) {schedule rest : Schedule}
    {mind last : Mind} {result : α} (start : fair mind)
    (ended : process.run schedule mind = some (result, last, rest)) : good result ∧ fair last := by
  induction process generalizing schedule mind with
  | done =>
      obtain ⟨rfl, sameRest⟩ := Prod.mk.inj (Option.some.inj ended)
      obtain ⟨rfl, _⟩ := Prod.mk.inj sameRest
      exact ⟨keeps, start⟩
  | short => cases ended
  | access change next ih =>
      obtain ⟨left, later⟩ := keeps mind start
      exact ih mind later left ended
  | ask next ih =>
      cases schedule with
      | nil => exact ih [] (keeps []) start ended
      | cons answer later => exact ih answer (keeps answer) start ended

theorem Keeps.bind {process : Process α} (keeps : process.Keeps fair good) {next : α → Process β}
    (later : ∀ result, good result → (next result).Keeps fair fine) :
    (process.bind next).Keeps fair fine := by
  induction process with
  | done result => exact later result keeps
  | short => trivial
  | access change rest ih =>
      intro mind start
      exact ⟨(keeps mind start).1, ih mind (keeps mind start).2⟩
  | ask rest ih => exact fun answer => ih answer (keeps answer)

theorem Keeps.map {process : Process α} (keeps : process.Keeps fair good) {change : α → β}
    (changed : ∀ result, good result → fine (change result)) :
    (process.map change).Keeps fair fine :=
  keeps.bind changed

theorem Keeps.mono {process : Process α} {right : α → Prop} (keeps : process.Keeps fair good)
    (enough : ∀ result, good result → right result) : process.Keeps fair right := by
  rw [← process.map_id]
  exact keeps.map enough

theorem any_of_keeps {first : α} {others : List α}
    (each : ∀ result ∈ first :: others, good result) : (anyOf first others).Keeps fair good := by
  rw [anyOf]
  split_ifs
  · exact each first List.mem_cons_self
  · intro answer
    change good ((first :: others).getD (answer.headD 0) first)
    rw [List.getD_eq_getElem?_getD]
    cases found : (first :: others)[answer.headD 0]? with
    | none => exact each first List.mem_cons_self
    | some result => exact each result (List.mem_of_getElem? found)

section Together

variable {stops : α → Bool}

theorem finish_keeps {slots : List (Slot α)} (each : ∀ slot ∈ slots, slot.left.Keeps fair good)
    (stopped : Bool) :
    (finish stops stopped slots).Keeps fair fun results => ∀ result ∈ results, good result := by
  induction slots generalizing stopped with
  | nil => exact fun result member => absurd member List.not_mem_nil
  | cons slot rest ih =>
      have others : ∀ other ∈ rest, other.left.Keeps fair good :=
        fun other member => each other (List.mem_cons_of_mem _ member)
      rw [finish]
      split_ifs
      · exact ih others stopped
      · refine (each slot List.mem_cons_self).bind fun result isGood => ?_
        refine (ih others (stopped || stops result)).map fun results areGood => ?_
        exact List.forall_mem_cons.mpr ⟨isGood, areGood⟩

theorem advance_keeps {slot : Slot α} (keeps : slot.left.Keeps fair good)
    {next : Slot α → Process β}
    (later : ∀ other : Slot α, other.left.Keeps fair good → (next other).Keeps fair fine) :
    (slot.advance next).Keeps fair fine := by
  obtain ⟨started, left⟩ := slot
  cases left with
  | done result => exact later ⟨true, .done result⟩ keeps
  | short => trivial
  | access change rest =>
      intro mind start
      exact ⟨(keeps mind start).1, later ⟨true, rest mind⟩ (keeps mind start).2⟩
  | ask rest => exact fun answer => later ⟨true, rest answer⟩ (keeps answer)

/-- A turn goes to one slot and leaves the others what they were. -/
theorem interleave_keeps {slots : List (Slot α)}
    (each : ∀ slot ∈ slots, slot.left.Keeps fair good) (turns : List Nat) :
    (interleave stops turns slots).Keeps fair fun results => ∀ result ∈ results, good result := by
  induction turns generalizing slots with
  | nil => exact finish_keeps each _
  | cons turn turns ih =>
      rw [interleave]
      cases found : slots[turn]? with
      | none => exact ih each
      | some slot =>
          refine advance_keeps (each slot (List.mem_of_getElem? found)) fun other keeps => ?_
          refine ih fun kept member => ?_
          rcases List.mem_or_eq_of_mem_set member with old | rfl
          · exact each kept old
          · exact keeps

variable (stops) in
theorem each_keeps {processes : List (Process α)}
    (kept : ∀ process ∈ processes, process.Keeps fair good) (concurrent : Bool) :
    (each stops concurrent processes).Keeps fair fun results =>
      ∀ result ∈ results, good result := by
  have fresh : ∀ slot ∈ processes.map Slot.fresh, slot.left.Keeps fair good := by
    intro slot member
    obtain ⟨process, isProcess, rfl⟩ := List.mem_map.mp member
    exact kept process isProcess
  have inTurn : (inTurn stops processes).Keeps fair fun results =>
      ∀ result ∈ results, good result :=
    finish_keeps fresh false
  cases concurrent with
  | false => exact inTurn
  | true =>
      rcases processes with _ | ⟨first, _ | ⟨second, others⟩⟩
      · exact inTurn
      · exact inTurn
      · exact fun turns => interleave_keeps fresh turns

end Together

end Process

end Deliberation
