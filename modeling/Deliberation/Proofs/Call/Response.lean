import Deliberation.Process.Call
import Deliberation.Proofs.Call.Report
import Deliberation.Proofs.Process.Invariant

/-!
# The response to a call

A call as a process comes to a response, which is made without the frame and the output of the
caller and taken over by them at the end. With the mind that is found then it is a report.
A schedule may let the response depend on what other runs do to the mind, and on nothing else
of the caller.
-/

namespace Deliberation

set_option autoImplicit false

structure Response where
  outcome : Outcome
  output : List Term
  answers : Bindings

namespace Response

def silent (outcome : Outcome) : Response :=
  ⟨outcome, [], []⟩

def of (completion : Completion) : Response :=
  ⟨.ok completion.truth, completion.output, completion.exports⟩

/-- The answers of the first true completion and the outputs of all of them. -/
def ofAll (completions : List Completion) : Response :=
  let successes := completions.filter fun completion => completion.truth.value
  ⟨.ok (disjoin completions), successes.flatMap Completion.output,
    (successes.head?.map Completion.exports).getD []⟩

/-- To a call that goes for the first true completion. -/
def first (results : List (Except Fault Completion)) : Response :=
  match results.find? decides with
  | none => silent (.ok Truth.zero)
  | some (.error fault) => silent (.error fault)
  | some (.ok completion) => of completion

/-- To a call that goes for all completions. -/
def every : Except Fault (List Completion) → Response
  | .error fault => silent (.error fault)
  | .ok completions => ofAll completions

def deliver (response : Response) (attempt : Attempt) : Outcome × Attempt :=
  (response.outcome, ⟨attempt.frame.commit response.answers, attempt.output ++ response.output⟩)

def report (response : Response) (mind : Mind) : Report :=
  ⟨response.outcome, response.output, response.answers, mind⟩

theorem deliver_silent (outcome : Outcome) (attempt : Attempt) :
    (silent outcome).deliver attempt = (outcome, attempt) := by
  rw [deliver, silent, List.append_nil]
  rfl

theorem deliver_of_all (completions : List Completion) (attempt : Attempt) :
    (ofAll completions).deliver attempt =
      (.ok (disjoin completions), attempt.adoptAll completions) := by
  rw [deliver, ofAll, Attempt.adoptAll]
  cases completions.filter fun completion => completion.truth.value <;> rfl

end Response

section Policies

variable (call : Bool → Proxy → Course) (parallel ordered : Bool) (candidates : List Candidate)

def respondFirst : Process Response :=
  (Process.inTurn decides (candidates.map (Candidate.course call parallel))).map Response.first

def respondEvery : Process Response :=
  (completeCourse call parallel ordered candidates).map Response.every

theorem first_course_eq (attempt : Attempt) :
    firstCourse call parallel candidates attempt =
      (respondFirst call parallel candidates).map (·.deliver attempt) := by
  rw [firstCourse, respondFirst, Process.map_map]
  refine congrArg (Process.map · _) (funext fun results => ?_)
  rw [Response.first]
  rcases results.find? decides with _ | ⟨fault | completion⟩
  · exact (Response.deliver_silent ..).symm
  · exact (Response.deliver_silent ..).symm
  · rfl

theorem every_course_eq (attempt : Attempt) :
    everyCourse call parallel ordered candidates attempt =
      (respondEvery call parallel ordered candidates).map (·.deliver attempt) := by
  rw [everyCourse, respondEvery, Process.map_map]
  refine congrArg (Process.map · _) (funext fun collected => ?_)
  cases collected with
  | error fault => exact (Response.deliver_silent ..).symm
  | ok completions => exact (Response.deliver_of_all ..).symm

end Policies

section Silence

/-! A response that is not true has neither terms nor answers. -/

theorem Response.first_silent {results : List (Except Fault Completion)}
    (fails : ∀ truth, (first results).outcome = .ok truth → truth.value = false) :
    first results = silent (first results).outcome ∧
      ∀ truth, (first results).outcome = .ok truth → truth = Truth.zero := by
  unfold first at fails ⊢
  cases found : results.find? decides with
  | none => exact ⟨rfl, fun truth isTruth => (Except.ok.inj isTruth).symm⟩
  | some result =>
      rw [found] at fails
      cases result with
      | error fault => exact ⟨rfl, fun truth isTruth => by cases isTruth⟩
      | ok completion =>
          have holds : decides (.ok completion) = true := List.find?_some found
          rw [decides, fails completion.truth rfl] at holds
          cases holds

theorem Response.every_silent {collected : Except Fault (List Completion)}
    (fails : ∀ truth, (every collected).outcome = .ok truth → truth.value = false) :
    every collected = silent (every collected).outcome := by
  cases collected with
  | error fault => rfl
  | ok completions =>
      have noSuccess : completions.filter (fun completion => completion.truth.value) = [] := by
        have value := fails (disjoin completions) rfl
        rw [disjoin_value, List.any_eq_false] at value
        exact List.filter_eq_nil_iff.mpr value
      rw [every, ofAll, noSuccess]
      rfl

end Silence

section Answers

/-- A completion has answers of this kind; a fault has none. -/
def AnswersWith (fine : Bindings → Prop) (ended : Except Fault Completion) : Prop :=
  ∀ completion, ended = .ok completion → fine completion.exports

variable {fine : Bindings → Prop}

theorem collect_keeps {fair : Mind → Prop} {results : List (Except Fault Completion)}
    (each : ∀ result ∈ results, AnswersWith fine result) :
    (collect results).Keeps fair fun collected =>
      ∀ completions, collected = .ok completions →
        ∀ completion ∈ completions, fine completion.exports := by
  rw [collect]
  cases results.filterMap fault? with
  | nil =>
      rintro _ ⟨rfl⟩ completion member
      obtain ⟨result, isResult, found⟩ := List.mem_filterMap.mp member
      cases result with
      | error fault => cases found
      | ok other =>
          obtain rfl := Option.some.inj found
          exact each _ isResult other rfl
  | cons first others =>
      have anything : (Process.anyOf first others).Keeps fair fun _ => True :=
        Process.any_of_keeps fun _ _ => trivial
      exact anything.map fun fault _ completions isOk => by cases isOk

theorem complete_course_keeps {call : Bool → Proxy → Course} {parallel : Bool}
    {candidates : List Candidate} {fair : Mind → Prop}
    (kept : ∀ candidate ∈ candidates,
      (candidate.course call parallel).Keeps fair (AnswersWith fine)) (ordered : Bool) :
    (completeCourse call parallel ordered candidates).Keeps fair fun collected =>
      ∀ completions, collected = .ok completions →
        ∀ completion ∈ completions, fine completion.exports :=
  (Process.each_keeps _ (List.forall_mem_map.mpr kept) _).bind fun _ each => collect_keeps each

namespace Response

variable (nothing : fine [])

include nothing

theorem first_answers {results : List (Except Fault Completion)}
    (each : ∀ result ∈ results, AnswersWith fine result) : fine (first results).answers := by
  rw [first]
  split
  next => exact nothing
  next => exact nothing
  next completion found => exact each _ (List.mem_of_find?_eq_some found) completion rfl

theorem every_answers {collected : Except Fault (List Completion)}
    (each : ∀ completions, collected = .ok completions →
      ∀ completion ∈ completions, fine completion.exports) : fine (every collected).answers := by
  cases collected with
  | error fault => exact nothing
  | ok completions =>
      change fine (((completions.filter fun completion => completion.truth.value).head?.map
        Completion.exports).getD [])
      cases found : (completions.filter fun completion => completion.truth.value).head? with
      | none => exact nothing
      | some completion =>
          have member := List.mem_of_head? found
          exact each completions rfl completion (List.mem_filter.mp member).1

end Response

end Answers

section Single

/-! A call of one candidate. -/

/-- The response after the run of the candidate, with what its refusal comes to. -/
def Response.ofRun (refusal : Truth → Truth) : Except Fault Completion → Response
  | .error fault => silent (.error fault)
  | .ok completion =>
      if completion.truth.value then of completion else silent (.ok (refusal completion.truth))

variable (call : Bool → Proxy → Course) (parallel : Bool) (candidate : Candidate)

theorem respond_first_single :
    respondFirst call parallel [candidate] =
      (candidate.course call parallel).map (.ofRun fun _ => Truth.zero) := by
  have single : Process.inTurn decides [candidate.course call parallel] =
      (candidate.course call parallel).map fun ended => [ended] :=
    Process.each_single decides false _
  rw [respondFirst, List.map_singleton, single, Process.map_map]
  refine congrArg (Process.map · _) (funext fun ended => ?_)
  cases ended with
  | error fault => rfl
  | ok completion =>
      rw [Response.first, Response.ofRun, List.find?_cons, decides]
      cases completion.truth.value <;> rfl

theorem respond_every_single (ordered : Bool) :
    respondEvery call parallel ordered [candidate] =
      (candidate.course call parallel).map (.ofRun fun truth => truth) := by
  rw [respondEvery, completeCourse, List.map_singleton, Process.each_single, Process.map_bind,
    Process.bind_map]
  refine congrArg (Process.bind · _) (funext fun ended => ?_)
  cases ended with
  | error fault => rfl
  | ok completion =>
      have truth : disjoin [completion] = completion.truth := Truth.zero_add completion.truth
      refine congrArg Process.done ?_
      rw [Response.ofRun]
      change Response.ofAll [completion] = _
      rw [Response.ofAll, truth]
      split_ifs with holds
      · simp [Response.of, holds]
      · simp [Response.silent, holds]

end Single

namespace Agent

variable (agent : Agent)

/-- What the candidates of a call come to with at most `depth` calls nested. -/
def responding (depth : Nat) (parallel ordered : Bool) (call : Literal) (numbers : List Nat) :
    Process Response :=
  match depth with
  | 0 => .short
  | depth + 1 =>
      if agent.policy = .aggregateAll then
        respondEvery (agent.performing depth) parallel ordered (agent.lineup call numbers)
      else respondFirst (agent.performing depth) parallel (agent.lineup call numbers)

/-- A call is its response, taken over by the caller. -/
theorem performing_eq (depth : Nat) (parallel : Bool) (target : Proxy) (attempt : Attempt) :
    agent.performing depth parallel target attempt =
      (agent.responding depth parallel target.literal.ordered
        (attempt.frame.instantiate target.literal) target.candidates).map
          (·.deliver attempt) := by
  cases depth with
  | zero => rfl
  | succ depth =>
      rw [performing, responding, lineup]
      cases agent.policy
      · exact first_course_eq ..
      · exact first_course_eq ..
      · exact every_course_eq ..

/-- The response under a schedule, with the mind at the end. -/
def reportUnder (schedule : Schedule) (depth : Nat) (parallel ordered : Bool) (call : Literal)
    (numbers : List Nat) (mind : Mind) : Option Report :=
  ((agent.responding depth parallel ordered call numbers).run schedule mind).map fun ended =>
    ended.1.report ended.2.1

theorem performing_under (schedule : Schedule) (depth : Nat) (parallel : Bool) (target : Proxy)
    (state : State) :
    (agent.performing depth parallel target).under schedule state =
      (agent.reportUnder schedule depth parallel target.literal.ordered
        (state.frame.instantiate target.literal) target.candidates state.mind).map
          (·.deliver state) := by
  rw [Course.under, performing_eq, Process.run_map, reportUnder, Option.map_map, Option.map_map]
  rfl

theorem responding_single {call : Literal} {numbers : List Nat} {candidate : Candidate}
    (inLine : agent.lineup call numbers = [candidate]) (depth : Nat) (parallel ordered : Bool) :
    agent.responding (depth + 1) parallel ordered call numbers =
      (candidate.course (agent.performing depth) parallel).map (.ofRun agent.refusal) := by
  rw [responding, inLine]
  unfold refusal
  split_ifs
  · exact respond_every_single ..
  · exact respond_first_single ..

/-- The marker that counts is that of the proxy, not that of the literal made of it. -/
theorem responding_with_ordered (marked : Bool) (depth : Nat) (parallel ordered : Bool)
    (call : Literal) (numbers : List Nat) :
    agent.responding depth parallel ordered (call.withOrdered marked) numbers =
      agent.responding depth parallel ordered call numbers := by
  cases call
  cases depth <;> rfl

/-- A response that is not true has nothing but its outcome, and of a truth what the policy
makes of it. -/
def SilentUnlessTrue (response : Response) : Prop :=
  (∀ truth, response.outcome = .ok truth → truth.value = false) →
    response = .silent response.outcome ∧
      ∀ truth, response.outcome = .ok truth → agent.refusal truth = truth

/-- What the accesses of all candidates keep is kept by the call, and what holds of the
answers of all candidates holds of the answers in the response. -/
theorem responding_keeps {agent : Agent} {fair : Mind → Prop} {fine : Bindings → Prop}
    (nothing : fine []) {call : Literal} {numbers : List Nat} {depth : Nat} {parallel : Bool}
    (kept : ∀ candidate ∈ agent.lineup call numbers,
      (candidate.course (agent.performing depth) parallel).Keeps fair (AnswersWith fine))
    (ordered : Bool) :
    (agent.responding (depth + 1) parallel ordered call numbers).Keeps fair fun response =>
      fine response.answers ∧ agent.SilentUnlessTrue response := by
  unfold responding SilentUnlessTrue refusal
  split_ifs
  · exact (complete_course_keeps kept ordered).map fun collected areFine =>
      ⟨Response.every_answers nothing areFine,
        fun fails => ⟨Response.every_silent fails, fun _ _ => rfl⟩⟩
  · have inTurn := Process.each_keeps decides (List.forall_mem_map.mpr kept) false
    refine inTurn.map fun results areFine =>
      ⟨Response.first_answers nothing areFine, fun fails => ?_⟩
    have silent := Response.first_silent fails
    exact ⟨silent.1, fun truth isTruth => (silent.2 truth isTruth).symm⟩

end Agent

end Deliberation
