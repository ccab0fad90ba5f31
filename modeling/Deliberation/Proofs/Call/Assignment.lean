import Deliberation.Proofs.Call.Depth
import Deliberation.Proofs.Call.ListOrder
import Deliberation.Proofs.Call.Response
import Deliberation.Proofs.Match.Head
import Deliberation.Proofs.Step.Assignment

/-!
# Calls assign slots once

A call hands terms over twice, and both times they fill the frame that they go to:
the bindings of a head fill the fresh frame of a candidate, and the answers of a
candidate fill the frame of the caller. So candidates start sound, and what the
policies adopt keeps the caller. This is so under every schedule.
-/

namespace Deliberation

set_option autoImplicit false

/-- What a candidate of a plain call brings along, given the frame of the caller. -/
structure Candidate.Ready (frame : Frame) (candidate : Candidate) : Prop where
  plain : candidate.body.isPlain = true
  raw : candidate.frame.Raw
  unallocated : ∀ wanted ∈ candidate.head.exports, frame.value? wanted.1 = none
  leaf : ∀ wanted ∈ candidate.head.exports,
    (∃ name, wanted.2 = .variable name) ∨ ∃ content, wanted.2 = .value content

theorem with_variables_raw (names : List String) : (Frame.withVariables names).Raw := by
  intro name term holds
  rw [Frame.with_variables_value] at holds
  simp at holds

namespace Candidate

variable {set : RuleSet} {frame : Frame} {call : Literal} {candidate : Candidate}

/-- The bindings of a head that meets a plain call fill a fresh frame. -/
theorem head_fills (plain : call.isPlain = true)
    (met : candidate.rule.identifier.matchHead? call = some candidate.head) :
    (Frame.withVariables candidate.rule.variableNames).Fills candidate.head.bindings := by
  intro binding member
  have paired := Literal.match_head_bindings met binding.1 binding.2 member
  have isValue := Literal.leaf_eq_value plain paired.2.1 paired.2.2
  exact ⟨Frame.with_variables_value _ _, isValue⟩

theorem ready_of_plain (plainSet : set.Plain) (frameRaw : frame.Raw) {literal : Literal}
    (plain : literal.isPlain = true)
    (known : set.rule? candidate.number = some candidate.rule)
    (met : candidate.rule.identifier.matchHead? (frame.instantiate literal) =
      some candidate.head) :
    candidate.Ready frame := by
  have plainRule := plainSet.rule known
  constructor
  case plain =>
    rw [body, Step.isPlain, Step.all_plain_iff]
    exact plainRule.2
  case raw =>
    have fills := head_fills (frameRaw.instantiated_plain plain) met
    exact (fills.commit (with_variables_raw _)).2
  case unallocated =>
    intro wanted isExport
    have inCall := (Literal.match_head_exports met wanted.1 wanted.2 isExport).2
    exact frameRaw.unallocated plain (free_leaf_mem_variables.2 _ wanted.1 inCall)
  case leaf =>
    intro wanted isExport
    have inHead := (Literal.match_head_exports met wanted.1 wanted.2 isExport).1
    by_cases free : ∃ name, wanted.2 = .variable name
    · exact .inl free
    · exact .inr (Literal.leaf_eq_value plainRule.1 inHead fun name isFree => free ⟨name, isFree⟩)

/-- The answers that a candidate draws from a raw frame fill the frame of the caller. -/
theorem Ready.exports_fill (ready : candidate.Ready frame) {last : Frame} (raw : last.Raw) :
    frame.Fills (candidate.head.exports.filterMap (export? last)) := by
  intro answer member
  obtain ⟨wanted, isExport, found⟩ := List.mem_filterMap.mp member
  have drawn := (export_eq_some_iff ..).mp found
  have isAnswer := drawn.1
  have bound := drawn.2
  subst isAnswer
  refine ⟨ready.unallocated wanted isExport, ?_⟩
  rcases ready.leaf wanted isExport with ⟨name, isFree⟩ | ⟨content, isValue⟩
  · dsimp only at bound ⊢
    rw [isFree, Frame.resolve] at bound ⊢
    rcases raw.resolve_variable name with ⟨content, resolved⟩ | ⟨resolved, _⟩
    · exact ⟨content, resolved⟩
    · rw [resolved] at bound
      simp [Term.isVariable] at bound
  · refine ⟨content, ?_⟩
    dsimp only
    rw [isValue, Frame.resolve, Frame.resolveFrom]

/-- The answers of a candidate are drawn from a raw frame, and minds stay plain. -/
theorem Ready.course_keeps (ready : candidate.Ready frame) {call : Bool → Proxy → Course}
    (calls : ∀ parallel target, target.literal.isPlain = true →
      (call parallel target).AssignsOnce [])
    {fine : Bindings → Prop}
    (drawn : ∀ last : Frame, last.Raw → fine (candidate.head.exports.filterMap (export? last)))
    (parallel : Bool) :
    (candidate.course call parallel).Keeps Mind.Plain (AnswersWith fine) := by
  have body := step_assigns_once calls candidate.body ready.plain parallel ⟨candidate.frame, []⟩
    ready.raw
  refine body.bind fun ended ⟨_, raw⟩ => ?_
  rcases ended with ⟨fault | truth, after⟩
  · exact fun completion isOk => by cases isOk
  · refine fun mind plain => ⟨plain, ?_⟩
    rintro _ ⟨rfl⟩
    exact drawn after.frame raw

end Candidate

namespace Agent

variable {agent : Agent} (plainSet : agent.set.Plain)

include plainSet

theorem lineup_ready {target : Proxy} (plain : target.literal.isPlain = true) {frame : Frame}
    (raw : frame.Raw) :
    ∀ candidate ∈ agent.lineup (frame.instantiate target.literal) target.candidates,
      candidate.Ready frame := by
  intro candidate member
  rw [mem_lineup_iff, mem_candidates_iff] at member
  exact Candidate.ready_of_plain plainSet raw plain member.2.1 member.2.2

theorem performing_assigns_once (depth : Nat) (parallel : Bool) (target : Proxy)
    (plain : target.literal.isPlain = true) :
    (agent.performing depth parallel target).AssignsOnce [] := by
  induction depth generalizing parallel target with
  | zero => exact fun attempt raw => trivial
  | succ depth ih =>
      intro attempt raw
      have nothing : attempt.frame.Fills [] := fun _ member => absurd member List.not_mem_nil
      have ready := lineup_ready plainSet plain raw
      have kept : ∀ candidate ∈ agent.lineup (attempt.frame.instantiate target.literal)
          target.candidates, (candidate.course (agent.performing depth) parallel).Keeps Mind.Plain
            (AnswersWith attempt.frame.Fills) :=
        fun candidate member => (ready candidate member).course_keeps ih
          (fun last => (ready candidate member).exports_fill) parallel
      rw [performing_eq]
      exact (responding_keeps nothing kept target.literal.ordered).map fun response fills =>
        fills.1.commit raw

/-- Under every schedule a plain step of an agent with plain rules keeps a sound state,
counters aside. -/
theorem step_course_assigns_once {step : Step} (plain : step.isPlain = true) (depth : Nat)
    (parallel : Bool) (schedule : Schedule) :
    AssignsOnce step.counters ((agent.stepCourse depth parallel step).under schedule) :=
  (step_assigns_once (performing_assigns_once plainSet depth) step plain parallel).under schedule

/-- A plain step of an agent with plain rules keeps a sound state, counters aside. -/
theorem ends_keeps {step : Step} (plain : step.isPlain = true) {state after : State}
    {outcome : Outcome} (sound : state.Sound) (ended : agent.Ends step state outcome after) :
    state.Keeps step.counters after := by
  rcases ended with ⟨depth, ended⟩
  have once := step_course_assigns_once plainSet plain depth false []
  rw [step_course_unscheduled] at once
  exact once state outcome after sound ended

end Agent

end Deliberation
