import Deliberation.Process.Basic
import Mathlib.Tactic.SplitIfs

/-!
# Laws of processes

Processes are put together by `bind`, which is associative, and a run of what is put
together is one run after the other, each with what the one before left of the schedule.
Nothing that combines several processes looks at a result but to tell whether it stops the
others. So what is done to every result may as well be done afterwards.
-/

namespace Deliberation

set_option autoImplicit false

namespace Process

variable {α β γ : Type}

theorem bind_assoc (process : Process α) (next : α → Process β) (last : β → Process γ) :
    (process.bind next).bind last = process.bind fun result => (next result).bind last := by
  induction process with
  | done => rfl
  | short => rfl
  | access change rest ih => exact congrArg (access change) (funext ih)
  | ask rest ih => exact congrArg ask (funext ih)

theorem map_id (process : Process α) : process.map id = process := by
  induction process with
  | done => rfl
  | short => rfl
  | access change rest ih => exact congrArg (access change) (funext ih)
  | ask rest ih => exact congrArg ask (funext ih)

theorem map_bind (process : Process α) (change : α → β) (next : β → Process γ) :
    (process.map change).bind next = process.bind fun result => next (change result) :=
  bind_assoc ..

theorem bind_map (process : Process α) (next : α → Process β) (change : β → γ) :
    (process.bind next).map change = process.bind fun result => (next result).map change :=
  bind_assoc ..

theorem map_map (process : Process α) (change : α → β) (more : β → γ) :
    (process.map change).map more = process.map fun result => more (change result) :=
  bind_assoc ..

theorem run_bind (process : Process α) (next : α → Process β) (schedule : Schedule)
    (mind : Mind) :
    (process.bind next).run schedule mind =
      (process.run schedule mind).bind fun ended => (next ended.1).run ended.2.2 ended.2.1 := by
  induction process generalizing schedule mind with
  | done => rfl
  | short => rfl
  | access change rest ih => exact ih mind schedule (change mind)
  | ask rest ih =>
      cases schedule with
      | nil => exact ih [] [] mind
      | cons answer later => exact ih answer later mind

theorem run_map (process : Process α) (change : α → β) (schedule : Schedule) (mind : Mind) :
    (process.map change).run schedule mind =
      (process.run schedule mind).map fun ended => (change ended.1, ended.2) := by
  rw [map, run_bind]
  cases process.run schedule mind <;> rfl

end Process

namespace Slot

variable {α β : Type} (change : α → β)

def map (slot : Slot α) : Slot β :=
  ⟨slot.started, slot.left.map change⟩

theorem advance_map {γ : Type} (next : Slot β → Process γ) (slot : Slot α) :
    (slot.map change).advance next = slot.advance fun later => next (later.map change) := by
  obtain ⟨started, left⟩ := slot
  cases left <;> rfl

theorem map_advance {γ : Type} (next : Slot α → Process β) (change : β → γ) (slot : Slot α) :
    (slot.advance next).map change = slot.advance fun later => (next later).map change := by
  obtain ⟨started, left⟩ := slot
  cases left <;> rfl

theorem has_stopped_map (stops : β → Bool) (slot : Slot α) :
    (slot.map change).hasStopped stops = slot.hasStopped fun result => stops (change result) := by
  obtain ⟨started, left⟩ := slot
  cases left <;> rfl

end Slot

namespace Process

section Together

variable {α β : Type} (stops : β → Bool) (change : α → β)

theorem finish_map (stopped : Bool) (slots : List (Slot α)) :
    finish stops stopped (slots.map (Slot.map change)) =
      (finish (fun result => stops (change result)) stopped slots).map (List.map change) := by
  induction slots generalizing stopped with
  | nil => rfl
  | cons slot rest ih =>
      rw [List.map_cons, finish, finish]
      have kept : (slot.map change).started = slot.started := rfl
      have left : (slot.map change).left = slot.left.map change := rfl
      rw [kept, left]
      split_ifs
      · exact ih stopped
      · rw [map_bind, bind_map]
        refine congrArg (fun next => bind next slot.left) (funext fun result => ?_)
        rw [ih, map_map, map_map]
        rfl

theorem interleave_map (turns : List Nat) (slots : List (Slot α)) :
    interleave stops turns (slots.map (Slot.map change)) =
      (interleave (fun result => stops (change result)) turns slots).map (List.map change) := by
  induction turns generalizing slots with
  | nil =>
      rw [interleave, interleave, finish_map, List.any_map]
      simp only [Function.comp_def, Slot.has_stopped_map]
  | cons turn turns ih =>
      rw [interleave, interleave, List.getElem?_map]
      cases slots[turn]? with
      | none => exact ih slots
      | some slot =>
          dsimp only [Option.map_some]
          rw [Slot.advance_map, Slot.map_advance]
          refine congrArg (fun next => slot.advance next) (funext fun later => ?_)
          rw [← List.map_set, ih]

theorem in_turn_map (processes : List (Process α)) :
    inTurn stops (processes.map (map change)) =
      (inTurn (fun result => stops (change result)) processes).map (List.map change) := by
  have slots : (processes.map (map change)).map Slot.fresh =
      (processes.map Slot.fresh).map (Slot.map change) := by
    rw [List.map_map, List.map_map]
    rfl
  rw [inTurn, inTurn, slots, finish_map]

theorem together_map (processes : List (Process α)) :
    together stops (processes.map (map change)) =
      (together (fun result => stops (change result)) processes).map (List.map change) := by
  rcases processes with _ | ⟨first, _ | ⟨second, others⟩⟩
  · exact in_turn_map stops change []
  · exact in_turn_map stops change [first]
  · have slots : ((first :: second :: others).map (map change)).map Slot.fresh =
        ((first :: second :: others).map Slot.fresh).map (Slot.map change) := by
      rw [List.map_map, List.map_map]
      rfl
    refine congrArg ask (funext fun turns => ?_)
    exact (congrArg (interleave stops turns) slots).trans (interleave_map ..)

/-- Changing every result changes the list of the results that they come to. -/
theorem each_map (concurrent : Bool) (processes : List (Process α)) :
    each stops concurrent (processes.map (map change)) =
      (each (fun result => stops (change result)) concurrent processes).map (List.map change) := by
  rw [each, each]
  split_ifs
  · exact together_map ..
  · exact in_turn_map ..

end Together

section Single

variable {α : Type} (stops : α → Bool)

theorem finish_stopped (processes : List (Process α)) :
    finish stops true (processes.map Slot.fresh) = .done [] := by
  induction processes with
  | nil => rfl
  | cons process rest ih => exact ih

theorem in_turn_cons (process : Process α) (rest : List (Process α)) :
    inTurn stops (process :: rest) =
      process.bind fun result =>
        if stops result then .done [result] else (inTurn stops rest).map (result :: ·) := by
  rw [inTurn, List.map_cons, finish]
  refine congrArg (fun next => bind next process) (funext fun result => ?_)
  split_ifs with isStop
  · rw [Bool.false_or, isStop, finish_stopped]
    rfl
  · rw [Bool.false_or, (Bool.not_eq_true _).mp isStop]
    rfl

/-- A process that no other runs beside is asked for no turns. -/
theorem each_single (concurrent : Bool) (process : Process α) :
    each stops concurrent [process] = process.map fun result => [result] := by
  have single : inTurn stops [process] = process.map fun result => [result] := by
    rw [in_turn_cons]
    refine congrArg (fun next => bind next process) (funext fun result => ?_)
    split_ifs <;> rfl
  cases concurrent <;> exact single

end Single

end Process

end Deliberation
