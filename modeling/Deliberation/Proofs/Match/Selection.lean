import Deliberation.Match.Unify

/-!
# How a guard selects a binding set

A selection is described by what its guard runs do, whichever way they are
performed: sets refused one after another, and then a set that is accepted, a
fault, or the end of the list. Every trial starts from the same frame with its
own set bound, and from the mind that the trial before it left.
-/

namespace Deliberation

set_option autoImplicit false

/-- What an action does from a state, if it ends. -/
abbrev Runs := State → Outcome → State → Prop

def endsOf (action : Action) : Runs := fun state outcome after =>
  action state = some (outcome, after)

/-- One term is left, and its raw value is the boolean true. -/
def LeavesTrue (output : List Term) : Prop :=
  ∃ term, output = [term] ∧ term.raw? = some (.bool true)

/-- Trials that end without a fault and refuse their sets, from one mind to another. -/
inductive Refuses (runs : Runs) (frame : Frame) : List Bindings → Mind → Mind → Prop where
  | nothing (mind : Mind) : Refuses runs frame [] mind mind
  | next {set : Bindings} {rest : List Bindings} {mind last : Mind} {truth : Truth}
      {after : State} (ended : runs ⟨frame.commit set, [], mind⟩ (.ok truth) after)
      (refused : ¬LeavesTrue after.output) (others : Refuses runs frame rest after.mind last) :
      Refuses runs frame (set :: rest) mind last

inductive Chooses (runs : Runs) (frame : Frame) :
    List Bindings → Mind → Except Fault (Option Bindings) → Mind → Prop where
  | winner {before behind : List Bindings} {set : Bindings} {mind between : Mind}
      {truth : Truth} {after : State} (refused : Refuses runs frame before mind between)
      (ended : runs ⟨frame.commit set, [], between⟩ (.ok truth) after)
      (accepted : LeavesTrue after.output) :
      Chooses runs frame (before ++ set :: behind) mind (.ok (some set)) after.mind
  | faulted {before behind : List Bindings} {set : Bindings} {mind between : Mind}
      {fault : Fault} {after : State} (refused : Refuses runs frame before mind between)
      (ended : runs ⟨frame.commit set, [], between⟩ (.error fault) after) :
      Chooses runs frame (before ++ set :: behind) mind (.error fault) after.mind
  | exhausted {sets : List Bindings} {mind last : Mind}
      (refused : Refuses runs frame sets mind last) :
      Chooses runs frame sets mind (.ok none) last

theorem accepting_iff (output : List Term) : accepting output = true ↔ LeavesTrue output := by
  unfold accepting LeavesTrue
  split
  next term => simp
  next many =>
    constructor
    · intro impossible
      exact absurd impossible (by decide)
    · intro told
      rcases told with ⟨term, single, _⟩
      exact absurd single (many term)

theorem Chooses.behind_refused {runs : Runs} {frame : Frame} {set : Bindings}
    {rest : List Bindings} {mind last : Mind} {truth : Truth} {after : State}
    {choice : Except Fault (Option Bindings)}
    (ended : runs ⟨frame.commit set, [], mind⟩ (.ok truth) after)
    (refused : ¬LeavesTrue after.output) (later : Chooses runs frame rest after.mind choice last) :
    Chooses runs frame (set :: rest) mind choice last := by
  cases later with
  | winner before wins accepted => exact .winner (.next ended refused before) wins accepted
  | faulted before faults => exact .faulted (.next ended refused before) faults
  | exhausted before => exact .exhausted (.next ended refused before)

theorem Chooses.winner_mem {runs : Runs} {frame : Frame} {sets : List Bindings}
    {set : Bindings} {mind last : Mind}
    (chosen : Chooses runs frame sets mind (.ok (some set)) last) : set ∈ sets := by
  cases chosen with
  | winner => exact List.mem_append_right _ List.mem_cons_self

theorem Chooses.fault_of_trial {runs : Runs} {frame : Frame} {sets : List Bindings}
    {mind last : Mind} {fault : Fault} (chosen : Chooses runs frame sets mind (.error fault) last) :
    ∃ state after, runs state (.error fault) after := by
  cases chosen with
  | faulted _ ended => exact ⟨_, _, ended⟩

section Invariant

variable {runs : Runs} {frame : Frame} {sets : List Bindings} (holds : Mind → Prop)
  (kept : ∀ set ∈ sets, ∀ mind outcome after, holds mind →
    runs ⟨frame.commit set, [], mind⟩ outcome after → holds after.mind)

include kept

/-- What each trial keeps true of the mind is true after all of them. -/
theorem Refuses.invariant {mind last : Mind} (refused : Refuses runs frame sets mind last)
    (start : holds mind) : holds last := by
  induction refused with
  | nothing mind => exact start
  | @next set rest mind last truth after ended _ _ ih =>
      have left := kept set List.mem_cons_self mind _ after start ended
      exact ih (fun other member => kept other (List.mem_cons_of_mem _ member)) left

theorem Chooses.invariant {mind last : Mind} {choice : Except Fault (Option Bindings)}
    (chosen : Chooses runs frame sets mind choice last) (start : holds mind) : holds last := by
  have trial {before behind : List Bindings} {set : Bindings} {between : Mind}
      {outcome : Outcome} {after : State} (inOrder : sets = before ++ set :: behind)
      (refused : Refuses runs frame before mind between)
      (ended : runs ⟨frame.commit set, [], between⟩ outcome after) : holds after.mind := by
    rw [inOrder] at kept
    have passed := refused.invariant holds
      (fun other member => kept other (List.mem_append_left _ member)) start
    exact kept set (List.mem_append_right _ List.mem_cons_self) between _ after passed ended
  cases chosen with
  | winner refused ended _ => exact trial rfl refused ended
  | faulted refused ended => exact trial rfl refused ended
  | exhausted refused => exact refused.invariant holds kept start

end Invariant

section Guarded

variable (guard : Action) (frame : Frame)

theorem chooses_of_select_guarded (sets : List Bindings) (mind last : Mind)
    (choice : Except Fault (Option Bindings))
    (selected : selectGuarded guard frame sets mind = some (choice, last)) :
    Chooses (endsOf guard) frame sets mind choice last := by
  induction sets generalizing mind with
  | nil =>
      obtain ⟨rfl, rfl⟩ := Prod.mk.inj (Option.some.inj selected)
      exact .exhausted (.nothing mind)
  | cons set rest ih =>
      rw [selectGuarded] at selected
      split at selected
      next => simp at selected
      next fault after ended =>
        obtain ⟨rfl, rfl⟩ := Prod.mk.inj (Option.some.inj selected)
        have first : Chooses (endsOf guard) frame ([] ++ set :: rest) mind (.error fault)
          after.mind := .faulted (.nothing mind) ended
        exact first
      next truth after ended =>
        split at selected
        next accepted =>
          obtain ⟨rfl, rfl⟩ := Prod.mk.inj (Option.some.inj selected)
          have first : Chooses (endsOf guard) frame ([] ++ set :: rest) mind (.ok (some set))
            after.mind := .winner (.nothing mind) ended ((accepting_iff _).mp accepted)
          exact first
        next refused =>
          rw [accepting_iff] at refused
          exact (ih after.mind selected).behind_refused ended refused

/-- Refused sets are passed over by the search. -/
theorem select_guarded_refused {before : List Bindings} (behind : List Bindings)
    {mind between : Mind} (refused : Refuses (endsOf guard) frame before mind between) :
    selectGuarded guard frame (before ++ behind) mind =
      selectGuarded guard frame behind between := by
  induction refused with
  | nothing mind => rfl
  | @next set rest mind last truth after ended refused others ih =>
      have trial : guard ⟨frame.commit set, [], mind⟩ = some (.ok truth, after) := ended
      rw [← accepting_iff] at refused
      rw [List.cons_append, selectGuarded, trial]
      dsimp only
      rw [if_neg refused, ih]

theorem select_guarded_iff (sets : List Bindings) (mind last : Mind)
    (choice : Except Fault (Option Bindings)) :
    selectGuarded guard frame sets mind = some (choice, last) ↔
      Chooses (endsOf guard) frame sets mind choice last := by
  constructor
  · exact chooses_of_select_guarded guard frame sets mind last choice
  · intro chosen
    cases chosen with
    | @winner before behind set _ between truth after refused ended accepted =>
        have trial : guard ⟨frame.commit set, [], between⟩ = some (.ok truth, after) := ended
        rw [select_guarded_refused guard frame _ refused, selectGuarded, trial]
        dsimp only
        rw [if_pos ((accepting_iff _).mpr accepted)]
    | @faulted before behind set _ between fault after refused ended =>
        have trial : guard ⟨frame.commit set, [], between⟩ = some (.error fault, after) := ended
        rw [select_guarded_refused guard frame _ refused, selectGuarded, trial]
    | exhausted refused =>
        have passed := select_guarded_refused guard frame [] refused
        rw [List.append_nil] at passed
        rw [passed, selectGuarded]

end Guarded

end Deliberation
