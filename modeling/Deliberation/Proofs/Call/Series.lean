import Deliberation.Proofs.Call.Depth
import Mathlib.Tactic.SplitIfs

/-!
# Series of runs

The trials of a guard, the steps of a body and the candidates of a call are run one
after another, and each run that is over decides whether there is a next one. The
four loops that do so end where their series do, and a series ends exactly when all
the runs that it comes to start end.
-/

namespace Deliberation

set_option autoImplicit false

/-- Runs one after another, each of which may hand something on to the next. -/
structure Series (Item Carried : Type) where
  start : Item → Carried → Step × State
  onward : Outcome → State → Item → Carried → Option Carried

/-- The trials of a guard: a set that is refused hands on the mind. -/
def trials (guard : Step) (frame : Frame) : Series Bindings Mind where
  start set mind := (guard, ⟨frame.commit set, [], mind⟩)
  onward outcome after _ _ :=
    match outcome with
    | .error _ => none
    | .ok _ => if accepting after.output then none else some after.mind

/-- The steps of a body, with the truth of the steps before. -/
def members : Series Step (Truth × State) where
  start step carried := (step, carried.2)
  onward outcome after _ carried :=
    match outcome with
    | .error _ => none
    | .ok next =>
        if (carried.1 * next).value then some (carried.1 * next, after) else none

/-- The candidates of a call; only a policy that wants all of them goes on after a
true one. -/
def contenders (policy : Policy) : Series Candidate Mind where
  start candidate mind := (candidate.body, candidate.entry mind)
  onward outcome after _ _ :=
    match outcome with
    | .error _ => none
    | .ok truth =>
        if policy ≠ .aggregateAll ∧ truth.value = true then none
        else some after.mind.recordRule

namespace Series

variable {Item Carried : Type} (series : Series Item Carried)

/-- Whether the runs of a series are all over, under the depth of the given runs. -/
def ends (run : Step → Action) : List Item → Carried → Bool
  | [], _ => true
  | item :: rest, carried =>
      match run (series.start item carried).1 (series.start item carried).2 with
      | none => false
      | some (outcome, after) =>
          match series.onward outcome after item carried with
          | none => true
          | some next => ends run rest next

theorem ends_extends {smaller larger : Step → Action}
    (runs : ∀ step, Extends (smaller step) (larger step)) (items : List Item) (carried : Carried)
    (ended : series.ends smaller items carried = true) :
    series.ends larger items carried = true := by
  induction items generalizing carried with
  | nil => rfl
  | cons item rest ih =>
      rw [ends] at ended ⊢
      cases found : smaller (series.start item carried).1 (series.start item carried).2 with
      | none =>
          rw [found] at ended
          simp at ended
      | some ending =>
          rw [runs _ _ _ found]
          rw [found] at ended
          dsimp only at ended ⊢
          cases hands : series.onward ending.1 ending.2 item carried with
          | none => rfl
          | some next =>
              rw [hands] at ended
              exact ih next ended

end Series

theorem trials_hand_on {guard : Step} {frame : Frame} {outcome : Outcome} {after : State}
    {set : Bindings} {mind next : Mind}
    (hands : (trials guard frame).onward outcome after set mind = some next) :
    next = after.mind := by
  cases outcome with
  | error fault => simp [trials] at hands
  | ok truth =>
      simp only [trials] at hands
      split_ifs at hands
      exact (Option.some.inj hands).symm

theorem members_hand_on {outcome : Outcome} {after : State} {step : Step}
    {carried next : Truth × State}
    (hands : members.onward outcome after step carried = some next) : next.2 = after := by
  cases outcome with
  | error fault => simp [members] at hands
  | ok truth =>
      simp only [members] at hands
      split_ifs at hands
      rw [← Option.some.inj hands]

theorem contenders_hand_on {policy : Policy} {outcome : Outcome} {after : State}
    {candidate : Candidate} {mind next : Mind}
    (hands : (contenders policy).onward outcome after candidate mind = some next) :
    next = after.mind.recordRule := by
  cases outcome with
  | error fault => simp [contenders] at hands
  | ok truth =>
      simp only [contenders] at hands
      split_ifs at hands
      exact (Option.some.inj hands).symm

theorem trials_ends (run : Step → Action) (guard : Step) (frame : Frame) (sets : List Bindings)
    (mind : Mind) :
    (selectGuarded (run guard) frame sets mind).isSome =
      (trials guard frame).ends run sets mind := by
  induction sets generalizing mind with
  | nil => rfl
  | cons set rest ih =>
      rw [selectGuarded, Series.ends]
      dsimp only [trials]
      cases run guard ⟨frame.commit set, [], mind⟩ with
      | none => rfl
      | some ending =>
          rcases ending with ⟨fault | truth, after⟩
          · rfl
          · dsimp only
            split_ifs with accepted
            · rfl
            · exact ih after.mind

theorem members_ends (call : Proxy → Action) (steps : List Step) (truth : Truth) (state : State) :
    (Step.runAll call steps truth state).isSome =
      members.ends (fun step => step.run call) steps (truth, state) := by
  induction steps generalizing truth state with
  | nil =>
      rw [Step.runAll]
      rfl
  | cons step rest ih =>
      rw [Step.runAll, Series.ends]
      dsimp only [members]
      cases step.run call state with
      | none => rfl
      | some ending =>
          rcases ending with ⟨fault | next, after⟩
          · rfl
          · dsimp only
            split_ifs with holds
            · exact ih (truth * next) after
            · rfl

section Contenders

variable (call : Proxy → Action)

theorem first_ends {policy : Policy} (stops : policy ≠ .aggregateAll) (candidates : List Candidate)
    (state : State) :
    (runFirst call candidates state).isSome =
      (contenders policy).ends (fun step => step.run call) candidates state.mind := by
  induction candidates generalizing state with
  | nil => rfl
  | cons candidate rest ih =>
      rw [runFirst, Series.ends, Candidate.run]
      dsimp only [contenders, Candidate.body, Candidate.entry]
      rw [Step.run]
      cases Step.runAll call candidate.rule.steps Truth.one ⟨candidate.frame, [], state.mind⟩ with
      | none => rfl
      | some ending =>
          rcases ending with ⟨fault | truth, after⟩
          · rfl
          · dsimp only
            split_ifs with holds known known
            · rfl
            · exact absurd ⟨stops, holds⟩ known
            · exact absurd known.2 holds
            · exact ih { state with mind := after.mind.recordRule }

theorem all_ends (candidates : List Candidate) (mind : Mind) :
    (completeAll call candidates mind).isSome =
      (contenders .aggregateAll).ends (fun step => step.run call) candidates mind := by
  induction candidates generalizing mind with
  | nil => rfl
  | cons candidate rest ih =>
      rw [completeAll, Series.ends, Candidate.run]
      dsimp only [contenders, Candidate.body, Candidate.entry]
      rw [Step.run]
      cases Step.runAll call candidate.rule.steps Truth.one ⟨candidate.frame, [], mind⟩ with
      | none => rfl
      | some ending =>
          rcases ending with ⟨fault | truth, after⟩
          · rfl
          · dsimp only
            rw [if_neg fun known => known.1 rfl]
            dsimp only
            refine Eq.trans ?_ (ih after.mind.recordRule)
            cases completeAll call rest after.mind.recordRule with
            | none => rfl
            | some last => rcases last with ⟨fault | completions, last⟩ <;> rfl

end Contenders

namespace Agent

def Halts (agent : Agent) (run : Step × State) : Prop :=
  ∃ outcome after, agent.Ends run.1 run.2 outcome after

/-- The runs that a series comes to start: the first one, and those that follow
when it hands something on. -/
inductive StartsIn {Item Carried : Type} (agent : Agent) (series : Series Item Carried) :
    List Item → Carried → Step × State → Prop where
  | here (item : Item) (rest : List Item) (carried : Carried) :
      StartsIn agent series (item :: rest) carried (series.start item carried)
  | later {item : Item} {rest : List Item} {carried next : Carried} {outcome : Outcome}
      {after : State} {started : Step × State}
      (ended : agent.Ends (series.start item carried).1 (series.start item carried).2 outcome after)
      (hands : series.onward outcome after item carried = some next)
      (others : StartsIn agent series rest next started) :
      StartsIn agent series (item :: rest) carried started

variable (agent : Agent)

theorem series_ends_iff {Item Carried : Type} (series : Series Item Carried) (items : List Item)
    (carried : Carried) :
    (∃ depth, series.ends (agent.run depth) items carried = true) ↔
      ∀ started, agent.StartsIn series items carried started → agent.Halts started := by
  induction items generalizing carried with
  | nil =>
      constructor
      · intro _ started inTurn
        cases inTurn
      · intro _
        exact ⟨0, rfl⟩
  | cons item rest ih =>
      constructor
      · intro told started inTurn
        rcases told with ⟨depth, ended⟩
        rw [Series.ends] at ended
        split at ended
        next => simp at ended
        next outcome after found =>
          cases inTurn with
          | here => exact ⟨outcome, after, depth, found⟩
          | later first hands others =>
              obtain ⟨rfl, rfl⟩ := agent.ends_unique ⟨depth, found⟩ first
              rw [hands] at ended
              exact (ih _).mp ⟨depth, ended⟩ started others
      · intro halt
        obtain ⟨outcome, after, depth, found⟩ := halt _ (.here item rest carried)
        cases hands : series.onward outcome after item carried with
        | none =>
            refine ⟨depth, ?_⟩
            rw [Series.ends, found]
            dsimp only
            rw [hands]
        | some next =>
            have others : ∀ started, agent.StartsIn series rest next started →
                agent.Halts started :=
              fun started inTurn => halt started (.later ⟨depth, found⟩ hands inTurn)
            obtain ⟨restDepth, ended⟩ := (ih next).mpr others
            have first := agent.run_extends (Nat.le_max_left depth restDepth) _ _ _ found
            refine ⟨max depth restDepth, ?_⟩
            rw [Series.ends, first]
            dsimp only
            rw [hands]
            apply series.ends_extends _ rest next ended
            exact fun step => agent.run_extends (Nat.le_max_right depth restDepth) step

/-- What holds at the start of a series and is handed on holds wherever it starts a
run. -/
theorem starts_in_invariant {Item Carried : Type} {series : Series Item Carried}
    {items : List Item} {carried : Carried} {started : Step × State}
    (invariant : Carried → Prop)
    (handed : ∀ item ∈ items, ∀ current, invariant current → ∀ outcome after next,
      agent.Ends (series.start item current).1 (series.start item current).2 outcome after →
        series.onward outcome after item current = some next → invariant next)
    (inTurn : agent.StartsIn series items carried started) (holds : invariant carried) :
    ∃ item ∈ items, ∃ current, invariant current ∧ started = series.start item current := by
  induction inTurn with
  | here item rest carried => exact ⟨item, List.mem_cons_self, carried, holds, rfl⟩
  | @later item rest carried next outcome after started ended hands _ ih =>
      have first := handed item List.mem_cons_self carried holds outcome after next ended hands
      have others := ih (fun other member => handed other (List.mem_cons_of_mem _ member)) first
      rcases others with ⟨found, member, current, holds, same⟩
      exact ⟨found, List.mem_cons_of_mem _ member, current, holds, same⟩

theorem starts_in_item {Item Carried : Type} {series : Series Item Carried} {items : List Item}
    {carried : Carried} {started : Step × State}
    (inTurn : agent.StartsIn series items carried started) :
    ∃ item ∈ items, ∃ current, started = series.start item current := by
  obtain ⟨item, member, current, _, same⟩ := agent.starts_in_invariant (fun _ => True)
    (fun _ _ _ _ _ _ _ _ _ => trivial) inTurn trivial
  exact ⟨item, member, current, same⟩

end Agent

end Deliberation
