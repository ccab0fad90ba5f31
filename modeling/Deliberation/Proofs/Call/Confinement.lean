import Deliberation.Proofs.Call.Depth
import Deliberation.Proofs.Call.Report
import Deliberation.Proofs.Frame.Slots
import Deliberation.Proofs.Match.Head
import Mathlib.Data.List.Permutation

/-!
# What a call can change in its caller

A candidate works in a frame and with an output of its own, so a call that fails
or faults leaves the frame and the output of its caller as they were, whatever
its candidates did. A call that succeeds adds to the output and answers unbound
leaves of the call; no other slot is touched.
-/

namespace Deliberation

set_option autoImplicit false

def succeeds : Outcome → Bool
  | .ok truth => truth.value
  | .error _ => false

/-- The bounds on what a call changes, for the names that its exports may use. -/
structure Confined (answerable : String → Prop) (state : State) (outcome : Outcome)
    (after : State) : Prop where
  failed : succeeds outcome = false → after.frame = state.frame ∧ after.output = state.output
  appended : ∃ added, after.output = state.output ++ added
  answered : ∀ name, after.frame.slot? name ≠ state.frame.slot? name → answerable name

/-- The answers go to unbound leaves of the call. -/
def Literal.answering (call : Literal) : Guarantee where
  mind := fun _ => True
  fault := fun _ => True
  answers := fun answers => ∀ answer ∈ answers, Term.variable answer.1 ∈ call.leaves
  silence := fun _ member => absurd member List.not_mem_nil

theorem Candidate.kept_answering {literal : Literal} {candidate : Candidate}
    (met : candidate.rule.identifier.matchHead? literal = some candidate.head)
    (call : Proxy → Action) : literal.answering.KeptBy call candidate := by
  apply Guarantee.kept_by_of_body
  · exact fun mind fault after _ _ => ⟨trivial, trivial⟩
  · intro mind truth after _ _
    refine ⟨trivial, fun answer member => ?_⟩
    obtain ⟨wanted, isExport, found⟩ := List.mem_filterMap.mp member
    obtain ⟨rfl, _⟩ := (export_eq_some_iff ..).mp found
    exact (Literal.match_head_exports met wanted.1 wanted.2 isExport).2

/-- A report that is silent unless it is true, and whose answers go to unbound leaves of
the call, confines what its delivery changes. -/
theorem Report.deliver_confined {report : Report} {call : Literal}
    (silent : succeeds report.outcome = false → report = .silent report.outcome report.mind)
    (names : ∀ answer ∈ report.answers, Term.variable answer.1 ∈ call.leaves) (state : State) :
    Confined (fun name => Term.variable name ∈ call.leaves) state report.outcome
      (report.deliver state).2 where
  failed := by
    intro fails
    rw [silent fails, deliver_silent]
    exact ⟨rfl, rfl⟩
  appended := ⟨report.output, rfl⟩
  answered := by
    intro name changed
    by_cases answered : ∃ answer ∈ report.answers, answer.1 = name
    · rcases answered with ⟨answer, member, rfl⟩
      exact names answer member
    · refine absurd (Frame.slot_eq_of_content_eq ?_) changed
      exact Frame.commit_content_absent _ _ _ fun answer member same =>
        answered ⟨answer, member, same⟩

namespace Agent

variable (agent : Agent)

theorem perform_confined {depth : Nat} {target : Proxy} {state after : State} {outcome : Outcome}
    (ended : agent.perform depth target state = some (outcome, after)) :
    Confined (fun name =>
      Term.variable name ∈ (state.frame.instantiate target.literal).leaves)
      state outcome after := by
  obtain ⟨report, reported, delivered⟩ := (agent.perform_some_iff ..).mp ended
  obtain ⟨rfl, rfl⟩ := Prod.mk.inj delivered
  cases depth with
  | zero => cases reported
  | succ depth =>
      have meets : (state.frame.instantiate target.literal).answering.Meets report := by
        refine report_succ_meets (fun candidate member => ?_) trivial reported
        rw [mem_lineup_iff, mem_candidates_iff] at member
        exact Candidate.kept_answering member.2.2 _
      refine Report.deliver_confined (fun fails => ?_) meets.answers state
      refine (report_silent reported fun truth isTruth => ?_).1
      rw [isTruth] at fails
      exact fails

/-- A call that fails or faults leaves its caller alone. A call that succeeds only
adds to the output and only changes slots of unbound leaves of the call. -/
theorem call_confined (target : Proxy) (state after : State) (outcome : Outcome)
    (ended : agent.Ends (.proxy target) state outcome after) :
    (succeeds outcome = false → after.frame = state.frame ∧ after.output = state.output) ∧
    (succeeds outcome = true →
      (∃ added, after.output = state.output ++ added) ∧
      ∀ name, after.frame.slot? name ≠ state.frame.slot? name →
        Term.variable name ∈ (state.frame.instantiate target.literal).argumentLeaves) := by
  rcases ended with ⟨depth, ended⟩
  rw [run, Step.run] at ended
  obtain ⟨failed, appended, answered⟩ := agent.perform_confined ended
  rw [Literal.argument_leaves_eq]
  exact ⟨failed, fun _ => ⟨appended, answered⟩⟩

/-- An agent whose first rule puts out 1 and answers nothing, being false; its
second rule puts out 2 and answers 7. -/
def clerk : Agent where
  set := ⟨[
    .write (.ofArguments ⟨"answer"⟩ [.variable "X"]) [.raw (.value (.int 1)),
      .raw (.value (.bool false))],
    .write (.ofArguments ⟨"answer"⟩ [.value (.int 7)]) [.raw (.value (.int 2))]],
    (PathIndex.empty.push ⟨"answer"⟩ 0).push ⟨"answer"⟩ 1⟩
  aggregation := .sum
  policy := .firstMatch
  beliefs := .empty

def question : Proxy :=
  ⟨.ofArguments ⟨"answer"⟩ [.variable "Y"], [0, 5, 1]⟩

def asking : State :=
  ⟨⟨[("Y", none), ("Z", some (.value (.int 1)))]⟩, [.value (.int 0)], clerk.start⟩

def replied : State :=
  ⟨⟨[("Y", some (.value (.int 7))), ("Z", some (.value (.int 1)))]⟩,
    [.value (.int 0), .value (.int 2)], ⟨.empty, ⟨0, 0, 2⟩⟩⟩

/-- The output of the refusing rule is gone, and `Y` alone is answered. -/
theorem question_confined :
    clerk.Ends (.proxy question) asking (.ok Truth.one) replied ∧
      (∃ added, replied.output = asking.output ++ added) ∧
      ∀ name, replied.frame.slot? name ≠ asking.frame.slot? name →
        Term.variable name ∈ (asking.frame.instantiate question.literal).argumentLeaves := by
  have ended : clerk.Ends (.proxy question) asking (.ok Truth.one) replied := by
    refine ⟨1, ?_⟩
    cbv
  have confined := clerk.call_confined question asking replied (.ok Truth.one) ended
  exact ⟨ended, confined.2 rfl⟩

end Agent

end Deliberation
