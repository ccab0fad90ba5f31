import Deliberation.Proofs.Call.Candidates
import Deliberation.Proofs.Truth
import Mathlib.Tactic.SplitIfs

/-!
# The report of a call

What a call gives its caller is settled before the caller is touched. It is a report made
of the instantiated call and the mind, and the caller takes it over: the answers are bound
in the caller's frame and the terms go behind its output. So two callers whose frames
agree on the call get one report, whatever else their frames and outputs hold.
-/

namespace Deliberation

set_option autoImplicit false

structure Report where
  outcome : Outcome
  output : List Term
  answers : Bindings
  mind : Mind

namespace Report

/-- Neither terms nor answers; what has been done to the mind stays. -/
def silent (outcome : Outcome) (mind : Mind) : Report :=
  ⟨outcome, [], [], mind⟩

def of (completed : Completion) (mind : Mind) : Report :=
  ⟨.ok completed.truth, completed.output, completed.exports, mind⟩

/-- The answers of the first true completion and the outputs of all of them. -/
def ofAll (completions : List Completion) (mind : Mind) : Report :=
  let successes := completions.filter fun completed => completed.truth.value
  ⟨.ok (disjoin completions), successes.flatMap Completion.output,
    (successes.head?.map Completion.exports).getD [], mind⟩

def deliver (report : Report) (state : State) : Outcome × State :=
  (report.outcome,
    ⟨state.frame.commit report.answers, state.output ++ report.output, report.mind⟩)

theorem deliver_silent (outcome : Outcome) (mind : Mind) (state : State) :
    (silent outcome mind).deliver state = (outcome, { state with mind := mind }) := by
  rw [deliver, silent, List.append_nil]
  rfl

theorem deliver_of_all (completions : List Completion) (mind : Mind) (state : State) :
    (ofAll completions mind).deliver state =
      (.ok (disjoin completions), State.adoptAll { state with mind := mind } completions) := by
  rw [deliver, ofAll, State.adoptAll]
  cases completions.filter fun completed => completed.truth.value <;> rfl

end Report

def reportFirst (call : Proxy → Action) : List Candidate → Mind → Option Report
  | [], mind => some (.silent (.ok Truth.zero) mind)
  | candidate :: rest, mind =>
      match candidate.run call mind with
      | none => none
      | some (.error fault, after) => some (.silent (.error fault) after)
      | some (.ok completed, after) =>
          if completed.truth.value then some (.of completed after)
          else reportFirst call rest after

def reportEvery (call : Proxy → Action) (candidates : List Candidate) (mind : Mind) :
    Option Report :=
  match completeAll call candidates mind with
  | none => none
  | some (.error fault, after) => some (.silent (.error fault) after)
  | some (.ok completions, after) => some (.ofAll completions after)

theorem run_first_eq (call : Proxy → Action) (candidates : List Candidate) (state : State) :
    runFirst call candidates state =
      (reportFirst call candidates state.mind).map (·.deliver state) := by
  induction candidates generalizing state with
  | nil => simp [runFirst, reportFirst, Report.deliver_silent]
  | cons candidate rest ih =>
      rw [runFirst, reportFirst]
      cases candidate.run call state.mind with
      | none => rfl
      | some result =>
          rcases result with ⟨fault | completed, after⟩
          · simp [Report.deliver_silent]
          · dsimp only
            split_ifs
            · rfl
            · rw [ih]
              rfl

theorem run_every_eq (call : Proxy → Action) (candidates : List Candidate) (state : State) :
    runEvery call candidates state =
      (reportEvery call candidates state.mind).map (·.deliver state) := by
  rw [runEvery, reportEvery]
  cases completeAll call candidates state.mind with
  | none => rfl
  | some result =>
      rcases result with ⟨fault | completions, after⟩
      · simp [Report.deliver_silent]
      · simp [Report.deliver_of_all]

section Silence

variable {call : Proxy → Action} {candidates : List Candidate} {mind : Mind} {report : Report}

/-- A report that is not true has neither terms nor answers. -/
theorem report_first_silent (reported : reportFirst call candidates mind = some report)
    (fails : ∀ truth, report.outcome = .ok truth → truth.value = false) :
    report = .silent report.outcome report.mind ∧
      ∀ truth, report.outcome = .ok truth → truth = Truth.zero := by
  induction candidates generalizing mind with
  | nil =>
      obtain rfl := Option.some.inj reported
      exact ⟨rfl, fun truth isTruth => (Except.ok.inj isTruth).symm⟩
  | cons candidate rest ih =>
      rw [reportFirst] at reported
      split at reported
      next => cases reported
      next fault after _ =>
        obtain rfl := Option.some.inj reported
        exact ⟨rfl, fun truth isTruth => by cases isTruth⟩
      next completed after _ =>
        split_ifs at reported with holds
        · obtain rfl := Option.some.inj reported
          rw [fails completed.truth rfl] at holds
          cases holds
        · exact ih reported

theorem report_every_silent (reported : reportEvery call candidates mind = some report)
    (fails : ∀ truth, report.outcome = .ok truth → truth.value = false) :
    report = .silent report.outcome report.mind := by
  rw [reportEvery] at reported
  split at reported
  next => cases reported
  next fault after _ =>
    obtain rfl := Option.some.inj reported
    rfl
  next completions after _ =>
    obtain rfl := Option.some.inj reported
    have noSuccess : completions.filter (fun completed => completed.truth.value) = [] := by
      have value := fails (disjoin completions) rfl
      rw [disjoin_value, List.any_eq_false] at value
      exact List.filter_eq_nil_iff.mpr value
    rw [Report.ofAll, noSuccess]
    rfl

end Silence

section Single

/-! A loop over one candidate. -/

theorem Report.of_all_single (completed : Completion) (mind : Mind) :
    ofAll [completed] mind =
      if completed.truth.value then .of completed mind else .silent (.ok completed.truth) mind := by
  have truth : disjoin [completed] = completed.truth := Truth.zero_add completed.truth
  rw [ofAll, truth]
  split_ifs with holds
  · simp [of, holds]
  · simp [silent, holds]

/-- The report on a run that no other follows, with what its refusal comes to. -/
def Report.ofRun (refusal : Truth → Truth) (ended : Except Fault Completion × Mind) : Report :=
  match ended.1 with
  | .error fault => .silent (.error fault) ended.2
  | .ok completed =>
      if completed.truth.value then .of completed ended.2
      else .silent (.ok (refusal completed.truth)) ended.2

theorem report_first_single (call : Proxy → Action) (candidate : Candidate) (mind : Mind) :
    reportFirst call [candidate] mind =
      (candidate.run call mind).map (.ofRun fun _ => Truth.zero) := by
  rw [reportFirst]
  cases candidate.run call mind with
  | none => rfl
  | some ended =>
      rcases ended with ⟨fault | completed, after⟩
      · rfl
      · dsimp only [Option.map_some, Report.ofRun]
        split_ifs <;> rfl

theorem report_every_single (call : Proxy → Action) (candidate : Candidate) (mind : Mind) :
    reportEvery call [candidate] mind =
      (candidate.run call mind).map (.ofRun fun truth => truth) := by
  rw [reportEvery, completeAll]
  cases candidate.run call mind with
  | none => rfl
  | some ended =>
      rcases ended with ⟨fault | completed, after⟩
      · rfl
      · dsimp only [Option.map_some, completeAll, Report.ofRun]
        rw [Report.of_all_single]

end Single

/-- What is guaranteed of a loop over candidates, however it ends: of the mind that it
hands on, of the fault that it may raise and of its answers. -/
structure Guarantee where
  mind : Mind → Prop
  fault : Fault → Prop
  answers : Bindings → Prop
  silence : answers []

namespace Guarantee

variable (guarantee : Guarantee)

structure Covers {α : Type} (fine : α → Prop) (result : Except Fault α) (after : Mind) :
    Prop where
  mind : guarantee.mind after
  fault : ∀ fault, result = .error fault → guarantee.fault fault
  value : ∀ value, result = .ok value → fine value

def KeptBy (call : Proxy → Action) (candidate : Candidate) : Prop :=
  ∀ mind result after, guarantee.mind mind → candidate.run call mind = some (result, after) →
    guarantee.Covers (fun completed => guarantee.answers completed.exports) result after

structure Meets (report : Report) : Prop where
  mind : guarantee.mind report.mind
  fault : ∀ fault, report.outcome = .error fault → guarantee.fault fault
  answers : guarantee.answers report.answers

variable {guarantee}

theorem Covers.of_error {α : Type} {fine : α → Prop} {fault : Fault} {after : Mind}
    (settled : guarantee.mind after) (allowed : guarantee.fault fault) :
    guarantee.Covers fine (.error fault) after where
  mind := settled
  fault := fun other isFault => Except.error.inj isFault ▸ allowed
  value := fun value isValue => by cases isValue

theorem Covers.of_ok {α : Type} {fine : α → Prop} {value : α} {after : Mind}
    (settled : guarantee.mind after) (allowed : fine value) :
    guarantee.Covers fine (.ok value) after where
  mind := settled
  fault := fun fault isFault => by cases isFault
  value := fun other isValue => Except.ok.inj isValue ▸ allowed

/-- A guarantee of the body, whichever way it ends, is one of the candidate. -/
theorem kept_by_of_body {call : Proxy → Action} {candidate : Candidate}
    (faulted : ∀ mind fault after, guarantee.mind mind →
      candidate.body.run call (candidate.entry mind) = some (.error fault, after) →
        guarantee.mind after.mind ∧ guarantee.fault fault)
    (finished : ∀ mind truth after, guarantee.mind mind →
      candidate.body.run call (candidate.entry mind) = some (.ok truth, after) →
        guarantee.mind after.mind.recordRule ∧
          guarantee.answers (candidate.completion truth after).exports) :
    guarantee.KeptBy call candidate := by
  intro mind result last start ended
  cases result with
  | error fault =>
      obtain ⟨after, bodyEnded, rfl⟩ := (Candidate.run_error_iff ..).mp ended
      obtain ⟨settled, allowed⟩ := faulted mind fault after start bodyEnded
      exact .of_error settled allowed
  | ok completed =>
      obtain ⟨truth, after, bodyEnded, rfl, rfl⟩ := (Candidate.run_ok_iff ..).mp ended
      obtain ⟨settled, allowed⟩ := finished mind truth after start bodyEnded
      exact .of_ok settled allowed

theorem meets_silent {outcome : Outcome} {after : Mind} (settled : guarantee.mind after)
    (allowed : ∀ fault, outcome = .error fault → guarantee.fault fault) :
    guarantee.Meets (.silent outcome after) :=
  ⟨settled, allowed, guarantee.silence⟩

section Loops

variable {call : Proxy → Action} {candidates : List Candidate}
  (kept : ∀ candidate ∈ candidates, guarantee.KeptBy call candidate)

include kept

theorem report_first_meets {mind : Mind} {report : Report} (start : guarantee.mind mind)
    (reported : reportFirst call candidates mind = some report) : guarantee.Meets report := by
  induction candidates generalizing mind with
  | nil =>
      obtain rfl := Option.some.inj reported
      exact meets_silent start fun fault isFault => by cases isFault
  | cons candidate rest ih =>
      rw [reportFirst] at reported
      split at reported
      next => cases reported
      next fault after found =>
        obtain rfl := Option.some.inj reported
        have covers := kept candidate List.mem_cons_self mind _ after start found
        exact meets_silent covers.mind fun other isFault =>
          covers.fault other (congrArg _ (Except.error.inj isFault))
      next completed after found =>
        have covers := kept candidate List.mem_cons_self mind _ after start found
        split_ifs at reported
        · obtain rfl := Option.some.inj reported
          exact ⟨covers.mind, fun fault isFault => (by cases isFault), covers.value completed rfl⟩
        · exact ih (fun other member => kept other (List.mem_cons_of_mem _ member)) covers.mind
            reported

theorem complete_all_covers {mind last : Mind} {result : Except Fault (List Completion)}
    (start : guarantee.mind mind) (ended : completeAll call candidates mind = some (result, last)) :
    guarantee.Covers
      (fun completions => ∀ completed ∈ completions, guarantee.answers completed.exports)
      result last := by
  induction candidates generalizing mind result with
  | nil =>
      obtain ⟨rfl, rfl⟩ := (complete_all_nil ..).mp ended
      exact .of_ok start fun completed member => absurd member List.not_mem_nil
  | cons candidate rest ih =>
      have here := kept candidate List.mem_cons_self mind
      have others : ∀ other ∈ rest, guarantee.KeptBy call other :=
        fun other member => kept other (List.mem_cons_of_mem _ member)
      cases result with
      | error fault =>
          rcases (complete_all_error_cons ..).mp ended with found | ⟨_, between, found, restEnded⟩
          · have covers := here _ last start found
            exact .of_error covers.mind (covers.fault fault rfl)
          · have later := ih others (here _ between start found).mind restEnded
            exact .of_error later.mind (later.fault fault rfl)
      | ok completions =>
          obtain ⟨first, between, rests, found, restEnded, rfl⟩ :=
            (complete_all_ok_cons ..).mp ended
          have covers := here _ between start found
          have later := ih others covers.mind restEnded
          refine .of_ok later.mind fun completed member => ?_
          rcases List.mem_cons.mp member with rfl | member
          · exact covers.value completed rfl
          · exact later.value rests rfl completed member

theorem report_every_meets {mind : Mind} {report : Report} (start : guarantee.mind mind)
    (reported : reportEvery call candidates mind = some report) : guarantee.Meets report := by
  rw [reportEvery] at reported
  split at reported
  next => cases reported
  next fault after found =>
    obtain rfl := Option.some.inj reported
    have covers := complete_all_covers kept start found
    exact meets_silent covers.mind fun other isFault =>
      covers.fault other (congrArg _ (Except.error.inj isFault))
  next completions after found =>
    obtain rfl := Option.some.inj reported
    have covers := complete_all_covers kept start found
    refine ⟨covers.mind, fun fault isFault => (by cases isFault), ?_⟩
    rw [Report.ofAll]
    dsimp only
    cases successes : completions.filter fun completed => completed.truth.value with
    | nil => exact guarantee.silence
    | cons first others =>
        have isFirst : first ∈ completions.filter fun completed => completed.truth.value := by
          rw [successes]
          exact List.mem_cons_self
        exact covers.value completions rfl first (List.mem_filter.mp isFirst).1

end Loops

end Guarantee

namespace Agent

variable (agent : Agent)

/-- What the candidates of a call report with at most `depth` calls nested. -/
def report (depth : Nat) (call : Literal) (numbers : List Nat) (mind : Mind) : Option Report :=
  match depth with
  | 0 => none
  | depth + 1 =>
      if agent.policy = .aggregateAll then
        reportEvery (agent.perform depth) (agent.lineup call numbers) mind
      else reportFirst (agent.perform depth) (agent.lineup call numbers) mind

theorem report_first_match (takesOne : agent.policy = .firstMatch) (depth : Nat)
    (call : Literal) (numbers : List Nat) (mind : Mind) :
    agent.report (depth + 1) call numbers mind =
      reportFirst (agent.perform depth) (agent.candidates call numbers) mind := by
  simp only [report, lineup, takesOne, reduceCtorEq, if_false]

theorem report_aggregate_all (takesAll : agent.policy = .aggregateAll) (depth : Nat)
    (call : Literal) (numbers : List Nat) (mind : Mind) :
    agent.report (depth + 1) call numbers mind =
      reportEvery (agent.perform depth) (agent.candidates call numbers) mind := by
  simp only [report, lineup, takesAll, if_true]

/-- What the truth of a refusal comes to when no other candidate is left: the policies
that take one candidate give no degree. -/
def refusal (truth : Truth) : Truth :=
  if agent.policy = .aggregateAll then truth else Truth.zero

theorem report_single {call : Literal} {numbers : List Nat} {candidate : Candidate}
    (inLine : agent.lineup call numbers = [candidate]) (depth : Nat) (mind : Mind) :
    agent.report (depth + 1) call numbers mind =
      (candidate.run (agent.perform depth) mind).map (.ofRun agent.refusal) := by
  rw [report, inLine]
  unfold refusal
  split_ifs
  · exact report_every_single ..
  · exact report_first_single ..

/-- A call is its report, taken over by the caller. -/
theorem perform_eq (depth : Nat) (target : Proxy) (state : State) :
    agent.perform depth target state =
      (agent.report depth (state.frame.instantiate target.literal) target.candidates
        state.mind).map (·.deliver state) := by
  cases depth with
  | zero => rfl
  | succ depth =>
      rw [perform_succ, report]
      split_ifs
      · exact run_every_eq ..
      · exact run_first_eq ..

theorem perform_some_iff (depth : Nat) (target : Proxy) (state after : State)
    (outcome : Outcome) :
    agent.perform depth target state = some (outcome, after) ↔
      ∃ report, agent.report depth (state.frame.instantiate target.literal) target.candidates
        state.mind = some report ∧ report.deliver state = (outcome, after) := by
  rw [perform_eq, Option.map_eq_some_iff]

variable {agent}

theorem report_silent {depth : Nat} {call : Literal} {numbers : List Nat} {mind : Mind}
    {report : Report} (reported : agent.report depth call numbers mind = some report)
    (fails : ∀ truth, report.outcome = .ok truth → truth.value = false) :
    report = .silent report.outcome report.mind ∧
      ∀ truth, report.outcome = .ok truth → agent.refusal truth = truth := by
  cases depth with
  | zero => cases reported
  | succ depth =>
      rw [Agent.report] at reported
      unfold refusal
      split_ifs at reported ⊢
      · exact ⟨report_every_silent reported fails, fun truth _ => rfl⟩
      · have silent := report_first_silent reported fails
        exact ⟨silent.1, fun truth isTruth => (silent.2 truth isTruth).symm⟩

theorem report_succ_meets {guarantee : Guarantee} {depth : Nat} {call : Literal}
    {numbers : List Nat}
    (kept : ∀ candidate ∈ agent.lineup call numbers,
      guarantee.KeptBy (agent.perform depth) candidate)
    {mind : Mind} (start : guarantee.mind mind) {report : Report}
    (reported : agent.report (depth + 1) call numbers mind = some report) :
    guarantee.Meets report := by
  rw [Agent.report] at reported
  split_ifs at reported
  · exact Guarantee.report_every_meets kept start reported
  · exact Guarantee.report_first_meets kept start reported

end Agent

end Deliberation
