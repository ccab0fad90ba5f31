import Deliberation.Proofs.Match.Assignment
import Deliberation.Proofs.Process.InOrder
import Deliberation.Proofs.Process.Invariant
import Deliberation.Proofs.Step.Plain

/-!
# Steps assign slots once

A plain step keeps a sound state up to the counters that it moves itself, whatever
its outcome. What its calls do is left to the handler; a guard runs in copies of the
frame, so that only what it does to the beliefs reaches the state after it.
-/

namespace Deliberation

set_option autoImplicit false

theorem run_raw_same {term : Term} {state after : State} {outcome : Outcome}
    (ended : runRaw term state = some (outcome, after)) :
    after.frame = state.frame ∧ after.mind = state.mind := by
  unfold runRaw at ended
  split at ended
  case h_4 | h_5 => split at ended <;> grind
  all_goals grind

theorem run_expression_same {body : Expression} {state after : State} {outcome : Outcome}
    (ended : runExpression body state = some (outcome, after)) :
    after.frame = state.frame ∧ after.mind = state.mind := by
  unfold runExpression at ended
  split at ended <;> grind

theorem increment_run_ok {direction : Increment} {name : String} {before after : Frame}
    (moved : direction.run name before = .ok after) :
    ∃ next, after = before.bind name (.value next) := by
  unfold Increment.run at moved
  split at moved
  next => simp at moved
  next content _ =>
    split at moved
    next => simp at moved
    next next _ => exact ⟨next, (Except.ok.inj moved).symm⟩

theorem Frame.bind_kept (frame : Frame) (name : String) (term : Term) :
    Frame.Kept [name] frame (frame.bind name term) := by
  have contents : ∀ other, (frame.bind name term).content? other =
      if other = name then some (some term) else frame.content? other := by
    intro other
    split_ifs with same
    · rw [same, bind_content_same]
    · exact bind_content_other frame same term
  constructor
  case declared =>
    intro other isDeclared
    rw [is_declared_eq] at isDeclared ⊢
    rw [contents]
    split_ifs with same
    · rfl
    · exact isDeclared
  case allocated =>
    intro other isAllocated
    rw [is_allocated_eq, value_eq] at isAllocated ⊢
    rw [contents]
    split_ifs with same
    · rfl
    · exact isAllocated
  case assigned =>
    intro other held uncounted holds
    rw [List.mem_singleton] at uncounted
    rw [value_eq] at holds ⊢
    rw [contents, if_neg uncounted]
    exact holds

theorem run_belief_assigns_once (change : BeliefChange) {literal : Literal}
    (plain : literal.isPlain = true) : AssignsOnce [] (runBelief change literal) := by
  intro state outcome after sound ended
  obtain ⟨_, rfl⟩ := Prod.mk.inj (Option.some.inj ended)
  refine sound.keeps_same_frame [] rfl ?_
  cases change with
  | add => exact sound.plain.add (sound.raw.instantiated_plain plain)
  | remove => exact sound.plain.remove _

theorem run_increment_assigns_once (direction : Increment) (name : String) :
    AssignsOnce [name] (runIncrement direction name) := by
  intro state outcome after sound ended
  unfold runIncrement at ended
  split at ended
  next frame moved =>
    obtain ⟨_, rfl⟩ := Prod.mk.inj (Option.some.inj ended)
    obtain ⟨next, rfl⟩ := increment_run_ok moved
    have single : ∀ binding ∈ [(name, Term.value next)],
        ∃ content, binding.2 = .value content := by simp
    have raw := sound.raw.commit single
    exact ⟨state.frame.bind_kept name (.value next), raw, sound.plain⟩
  next problem _ =>
    obtain ⟨_, rfl⟩ := Prod.mk.inj (Option.some.inj ended)
    exact sound.keeps_same_frame [name] rfl sound.plain

/-- The mind holds no variable that carries a term. -/
def Mind.Plain (mind : Mind) : Prop :=
  mind.beliefs.Plain

namespace Course

/-- From raw frames, and with plain minds found at every access, slots are assigned at most
once and minds are left plain. -/
def AssignsOnce (counters : List String) (course : Course) : Prop :=
  ∀ attempt, attempt.frame.Raw → (course attempt).Keeps Mind.Plain fun ended =>
    Frame.Kept counters attempt.frame ended.2.frame ∧ ended.2.frame.Raw

variable {counters : List String} {course : Course}

theorem AssignsOnce.under (once : course.AssignsOnce counters) (schedule : Schedule) :
    Deliberation.AssignsOnce counters (course.under schedule) := by
  intro state outcome after sound ended
  obtain ⟨⟨⟨_, attempt⟩, mind, rest⟩, ran, same⟩ := Option.map_eq_some_iff.mp ended
  obtain ⟨_, rfl⟩ := Prod.mk.inj same
  obtain ⟨⟨kept, raw⟩, plain⟩ := (once state.attempt sound.raw).run sound.plain ran
  exact ⟨kept, raw, plain⟩

theorem one_access_assigns_once {action : Action}
    (once : Deliberation.AssignsOnce counters action) :
    (oneAccess action).AssignsOnce counters := by
  intro attempt raw mind plain
  dsimp only
  cases ended : action (attempt.beside mind) with
  | none => exact ⟨plain, trivial⟩
  | some found =>
      have keeps := once (attempt.beside mind) found.1 found.2 ⟨raw, plain⟩ ended
      exact ⟨keeps.sound.plain, keeps.frame, keeps.sound.raw⟩

theorem done_assigns_once (outcome : Outcome) :
    AssignsOnce [] fun attempt => .done (outcome, attempt) :=
  fun attempt raw => ⟨.refl [] attempt.frame, raw⟩

end Course

section Queries

/-- Each tier finds the facts of its time, which are plain at any time. -/
theorem find_sets_keeps {frame : Frame} {goal : Literal}
    (unallocated : ∀ name ∈ goal.variables, frame.value? name = none) (tiers : List Tier) :
    (findSets goal tiers).Keeps Mind.Plain fun sets => ∀ set ∈ sets, frame.Fills set := by
  induction tiers with
  | nil => exact fun set member => absurd member List.not_mem_nil
  | cons tier rest ih =>
      intro mind plain
      refine ⟨plain, ?_⟩
      dsimp only
      split
      next => exact ih
      next set sets found =>
        intro other member
        rw [← found] at member
        exact BeliefBase.Plain.matches_fill plain unallocated member

variable {guard : Option Course} {frame : Frame} {sets : List Bindings}
  (guarded : ∀ course ∈ guard, ∃ counters, course.AssignsOnce counters)
  (ready : ∀ set ∈ sets, (frame.commit set).Raw)

include guarded ready

theorem choose_set_keeps (parallel : Bool) :
    (chooseSet guard parallel frame sets).Keeps Mind.Plain fun choice =>
      ∀ set, choice = .ok (some set) → set ∈ sets := by
  cases guard with
  | none => exact fun set same => List.mem_of_head? (Except.ok.inj same)
  | some course =>
      obtain ⟨counters, once⟩ := guarded course rfl
      have tried : ∀ trial ∈ sets.map (trySet course frame),
          trial.Keeps Mind.Plain fun found => ∀ set, found = some (.ok set) → set ∈ sets := by
        intro trial member
        obtain ⟨set, isSet, rfl⟩ := List.mem_map.mp member
        refine (once ⟨frame.commit set, []⟩ (ready set isSet)).map fun ended _ chosen isFound => ?_
        rcases ended with ⟨fault | truth, after⟩
        · cases isFound
        · dsimp only at isFound
          split_ifs at isFound
          exact Except.ok.inj (Option.some.inj isFound) ▸ isSet
      refine (Process.each_keeps _ tried parallel).bind fun trials found => ?_
      split
      next => exact fun set isChosen => by cases isChosen
      next first others present =>
        have each : ∀ ended ∈ first :: others, ∀ set, ended = .ok set → set ∈ sets := by
          intro ended member set isOk
          rw [← present, List.mem_filterMap] at member
          obtain ⟨trial, isTrial, rfl⟩ := member
          exact found _ isTrial set (congrArg some isOk)
        refine (Process.any_of_keeps each).map fun ended isGood set isChosen => ?_
        cases ended with
        | error fault => cases isChosen
        | ok chosen =>
            obtain rfl := Option.some.inj (Except.ok.inj isChosen)
            exact isGood _ rfl

end Queries

/-- A query assigns once if its guard does, whatever counters the guard moves. -/
theorem unify_assigns_once {goal : Literal} (plain : goal.isPlain = true) {guard : Option Course}
    (guarded : ∀ course ∈ guard, ∃ counters, course.AssignsOnce counters) (parallel : Bool) :
    (unifyCourse goal guard parallel).AssignsOnce [] := by
  intro attempt raw
  have unallocated : ∀ name ∈ (attempt.frame.instantiate goal).variables,
      attempt.frame.value? name = none :=
    fun _ occurs => raw.unallocated plain occurs
  refine (find_sets_keeps unallocated Tier.all).bind fun sets fill => ?_
  have ready : ∀ set ∈ sets, (attempt.frame.commit set).Raw :=
    fun set member => ((fill set member).commit raw).2
  refine (choose_set_keeps guarded ready parallel).bind fun choice isSet => ?_
  rcases choice with fault | _ | set
  · exact ⟨.refl [] attempt.frame, raw⟩
  · exact fun mind plain => ⟨plain, .refl [] attempt.frame, raw⟩
  · exact fun mind plain => ⟨plain, (fill set (isSet set rfl)).commit raw⟩

section Bodies

variable {call : Bool → Proxy → Course} {parallel : Bool}

theorem all_assign_once {steps : List Step}
    (members : ∀ step ∈ steps, (step.course call parallel).AssignsOnce step.counters)
    (truth : Truth) :
    (Step.allCourse call parallel steps truth).AssignsOnce (Step.allCounters steps) := by
  induction steps generalizing truth with
  | nil => exact Course.done_assigns_once _
  | cons step rest ih =>
      intro attempt raw
      have inHead : ∀ name ∈ step.counters, name ∈ Step.allCounters (step :: rest) :=
        fun name member => List.mem_append_left _ member
      refine (members step List.mem_cons_self attempt raw).bind fun ended ⟨kept, stillRaw⟩ => ?_
      rcases ended with ⟨fault | next, after⟩
      · exact ⟨kept.mono inHead, stillRaw⟩
      · dsimp only
        split_ifs
        · have later := ih (fun other member => members other (List.mem_cons_of_mem _ member))
            (truth * next) after stillRaw
          exact later.mono fun last keptLater => ⟨kept.trans keptLater.1, keptLater.2⟩
        · exact ⟨kept.mono inHead, stillRaw⟩

/-- A plain step assigns once if the calls in it do, its own counters aside. -/
theorem step_assigns_once
    (calls : ∀ parallel target, target.literal.isPlain = true →
      (call parallel target).AssignsOnce [])
    (step : Step) (plain : step.isPlain = true) :
    ∀ parallel, (step.course call parallel).AssignsOnce step.counters := by
  revert step
  apply InductiveStepProperty.holds
  constructor
  case raw =>
    intro term _ parallel
    refine Course.one_access_assigns_once fun state outcome after sound ended => ?_
    obtain ⟨sameFrame, sameMind⟩ := run_raw_same ended
    exact sound.keeps_same_frame [] sameFrame (sameMind ▸ sound.plain)
  case belief =>
    exact fun change literal plain _ =>
      Course.one_access_assigns_once (run_belief_assigns_once change plain)
  case query => exact fun goal plain => unify_assigns_once plain (by simp)
  case guarded =>
    intro goal guard ih plain
    rw [Step.isPlain, Bool.and_eq_true] at plain
    refine unify_assigns_once plain.1 fun course isGuard => ?_
    exact ⟨guard.counters, Option.some.inj isGuard ▸ ih plain.2 false⟩
  case call => exact fun literal _ _ => Course.done_assigns_once _
  case expression =>
    intro body _ parallel
    refine Course.one_access_assigns_once fun state outcome after sound ended => ?_
    obtain ⟨sameFrame, sameMind⟩ := run_expression_same ended
    exact sound.keeps_same_frame [] sameFrame (sameMind ▸ sound.plain)
  case increment =>
    exact fun direction name _ _ =>
      Course.one_access_assigns_once (run_increment_assigns_once direction name)
  case rule =>
    intro identifier steps ih plain parallel
    rw [Step.isPlain, Step.all_plain_iff] at plain
    exact all_assign_once (fun step member => ih step member (plain step member) parallel) Truth.one
  case proxy => exact fun target plain parallel => calls parallel target plain
  case scripted =>
    intro script _ parallel
    refine Course.one_access_assigns_once fun state outcome after sound ended => ?_
    obtain ⟨_, rfl⟩ := Prod.mk.inj (Option.some.inj ended)
    exact sound.keeps_same_frame [] rfl sound.plain

end Bodies

end Deliberation
