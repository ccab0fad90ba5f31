import Deliberation.Proofs.Call.Answers
import Deliberation.Proofs.Call.Report
import Deliberation.Proofs.Truth

/-!
# Calls with more candidates

A call whose rules are listed in two parts is a call of the first part and then, in the
caller as it was but with the mind that this leaves, a call of the second. Taking one
candidate, the second part matters only if the first refuses; taking all of them, what
the two give is put together.
-/

namespace Deliberation

set_option autoImplicit false

/-- Ends false, without a fault. -/
def refuses : Outcome → Bool
  | .ok truth => !truth.value
  | .error _ => false

theorem disjoin_from (completions : List Completion) (truth : Truth) :
    completions.foldl (fun truth completed => truth + completed.truth) truth =
      truth + disjoin completions := by
  induction completions generalizing truth with
  | nil => exact (Truth.add_zero truth).symm
  | cons completed rest ih =>
      have all : disjoin (completed :: rest) = completed.truth + disjoin rest := by
        rw [disjoin, List.foldl_cons, Truth.zero_add]
        exact ih completed.truth
      rw [List.foldl_cons, ih, all, Truth.add_assoc]

theorem disjoin_append (earlier later : List Completion) :
    disjoin (earlier ++ later) = disjoin earlier + disjoin later := by
  rw [disjoin, List.foldl_append]
  exact disjoin_from later (disjoin earlier)

theorem report_first_append (call : Proxy → Action) (earlier later : List Candidate)
    (mind : Mind) :
    reportFirst call (earlier ++ later) mind =
      (reportFirst call earlier mind).bind fun report =>
        if refuses report.outcome then reportFirst call later report.mind else some report := by
  induction earlier generalizing mind with
  | nil => rfl
  | cons candidate rest ih =>
      rw [List.cons_append, reportFirst, reportFirst]
      cases candidate.run call mind with
      | none => rfl
      | some result =>
          rcases result with ⟨fault | completed, after⟩
          · rfl
          · dsimp only
            split_ifs with holds
            · simp [Report.of, refuses, holds]
            · exact ih after

theorem complete_all_append (call : Proxy → Action) (earlier later : List Candidate)
    (mind last : Mind) (completions : List Completion) :
    completeAll call (earlier ++ later) mind = some (.ok completions, last) ↔
      ∃ first between others, completeAll call earlier mind = some (.ok first, between) ∧
        completeAll call later between = some (.ok others, last) ∧
        completions = first ++ others := by
  induction earlier generalizing mind completions with
  | nil =>
      simp only [List.nil_append, complete_all_nil]
      grind
  | cons candidate rest ih =>
      simp only [List.cons_append, complete_all_ok_cons, ih]
      grind

/-- The first part has the answers if one of its completions is true. -/
theorem adopt_all_append (first others : List Completion) (frame : Frame)
    (between last : Mind) :
    State.adoptAll ⟨frame, [], last⟩ (first ++ others) =
      ⟨if (disjoin first).value then (State.adoptAll ⟨frame, [], between⟩ first).frame
        else (State.adoptAll ⟨frame, [], last⟩ others).frame,
        (State.adoptAll ⟨frame, [], between⟩ first).output ++
          (State.adoptAll ⟨frame, [], last⟩ others).output,
        last⟩ := by
  cases successes : first.filter fun completed => completed.truth.value with
  | nil =>
      have fails : (disjoin first).value = false := by
        rw [disjoin_value, List.any_eq_false]
        exact List.filter_eq_nil_iff.mp successes
      simp [State.adoptAll, successes, fails]
  | cons success rest =>
      have holds : (disjoin first).value = true := by
        have member : success ∈ first.filter fun completed => completed.truth.value := by
          rw [successes]
          exact List.mem_cons_self
        rw [disjoin_value, List.any_eq_true]
        exact ⟨success, List.mem_filter.mp member⟩
      simp [State.adoptAll, successes, holds]

theorem run_every_ok_iff (call : Proxy → Action) (candidates : List Candidate)
    (state after : State) (truth : Truth) :
    runEvery call candidates state = some (.ok truth, after) ↔
      ∃ completions mind, completeAll call candidates state.mind = some (.ok completions, mind) ∧
        truth = disjoin completions ∧
        after = State.adoptAll { state with mind := mind } completions := by
  rw [run_every_iff]
  simp only [reduceCtorEq, false_and, and_false, exists_false, false_or, Except.ok.injEq]

/-- When all candidates of both parts end without a fault, what they give is put
together. -/
theorem run_every_append (call : Proxy → Action) (earlier later : List Candidate)
    (frame : Frame) (mind : Mind) (truth : Truth) (after : State) :
    runEvery call (earlier ++ later) ⟨frame, [], mind⟩ = some (.ok truth, after) ↔
      ∃ left first right last,
        runEvery call earlier ⟨frame, [], mind⟩ = some (.ok left, first) ∧
        runEvery call later ⟨frame, [], first.mind⟩ = some (.ok right, last) ∧
        truth = left + right ∧
        after = ⟨if left.value then first.frame else last.frame, first.output ++ last.output,
          last.mind⟩ := by
  constructor
  · intro ended
    obtain ⟨completions, final, found, rfl, rfl⟩ := (run_every_ok_iff ..).mp ended
    obtain ⟨first, between, others, foundFirst, foundOthers, rfl⟩ :=
      (complete_all_append ..).mp found
    have firstEnded := (run_every_ok_iff call earlier ⟨frame, [], mind⟩ _ _).mpr
      ⟨first, between, foundFirst, rfl, rfl⟩
    have othersEnded := (run_every_ok_iff call later ⟨frame, [], between⟩ _ _).mpr
      ⟨others, final, foundOthers, rfl, rfl⟩
    exact ⟨_, _, _, _, firstEnded, othersEnded, disjoin_append first others,
      adopt_all_append first others frame between final⟩
  · rintro ⟨left, first, right, last, firstEnded, othersEnded, rfl, rfl⟩
    obtain ⟨completions, between, foundFirst, rfl, rfl⟩ := (run_every_ok_iff ..).mp firstEnded
    obtain ⟨others, final, foundOthers, rfl, rfl⟩ := (run_every_ok_iff ..).mp othersEnded
    refine (run_every_ok_iff ..).mpr ⟨completions ++ others, final, ?_, ?_, ?_⟩
    · exact (complete_all_append ..).mpr ⟨_, between, _, foundFirst, foundOthers, rfl⟩
    · exact (disjoin_append completions others).symm
    · exact (adopt_all_append completions others frame between final).symm

namespace Agent

variable (agent : Agent)

theorem candidates_append (call : Literal) (earlier later : List Nat) :
    agent.candidates call (earlier ++ later) =
      agent.candidates call earlier ++ agent.candidates call later :=
  List.filterMap_append

theorem report_append_first (takesOne : agent.policy = .firstMatch) (depth : Nat)
    (call : Literal) (earlier later : List Nat) (mind : Mind) :
    agent.report depth call (earlier ++ later) mind =
      (agent.report depth call earlier mind).bind fun report =>
        if refuses report.outcome then agent.report depth call later report.mind
        else some report := by
  cases depth with
  | zero => rfl
  | succ depth =>
      simp only [agent.report_first_match takesOne, candidates_append]
      exact report_first_append ..

theorem perform_append_first (takesOne : agent.policy = .firstMatch) (depth : Nat)
    (literal : Literal) (earlier later : List Nat) (frame : Frame) (mind : Mind) :
    agent.perform depth ⟨literal, earlier ++ later⟩ ⟨frame, [], mind⟩ =
      (agent.perform depth ⟨literal, earlier⟩ ⟨frame, [], mind⟩).bind fun ended =>
        if refuses ended.1 then agent.perform depth ⟨literal, later⟩ ⟨frame, [], ended.2.mind⟩
        else some ended := by
  simp only [perform_eq, agent.report_append_first takesOne]
  cases agent.report depth (frame.instantiate literal) earlier mind with
  | none => rfl
  | some report =>
      dsimp only [Option.bind_some, Option.map_some, Report.deliver]
      split_ifs <;> rfl

theorem perform_append_every (takesAll : agent.policy = .aggregateAll) (depth : Nat)
    (literal : Literal) (earlier later : List Nat) (frame : Frame) (mind : Mind) (truth : Truth)
    (after : State) :
    agent.perform depth ⟨literal, earlier ++ later⟩ ⟨frame, [], mind⟩ =
        some (.ok truth, after) ↔
      ∃ left first right last,
        agent.perform depth ⟨literal, earlier⟩ ⟨frame, [], mind⟩ = some (.ok left, first) ∧
        agent.perform depth ⟨literal, later⟩ ⟨frame, [], first.mind⟩ = some (.ok right, last) ∧
        truth = left + right ∧
        after = ⟨if left.value then first.frame else last.frame, first.output ++ last.output,
          last.mind⟩ := by
  cases depth with
  | zero => simp [perform]
  | succ depth =>
      simp only [perform_succ, takesAll, if_true, lineup, candidates_append]
      exact run_every_append ..

theorem ends_proxy_iff (target : Proxy) (state : State) (outcome : Outcome) (after : State) :
    agent.Ends (.proxy target) state outcome after ↔
      ∃ depth, agent.perform depth target state = some (outcome, after) := by
  simp only [Ends, run, Step.run]

/-- Two calls that end do so under one depth. -/
theorem perform_together {first second : Proxy} {state other : State}
    {ended otherEnded : Outcome × State}
    (firstEnds : ∃ depth, agent.perform depth first state = some ended)
    (secondEnds : ∃ depth, agent.perform depth second other = some otherEnded) :
    ∃ depth, agent.perform depth first state = some ended ∧
      agent.perform depth second other = some otherEnded := by
  rcases firstEnds with ⟨depth, firstEnded⟩
  rcases secondEnds with ⟨deeper, secondEnded⟩
  exact ⟨max depth deeper,
    agent.perform_extends (Nat.le_max_left depth deeper) _ _ _ firstEnded,
    agent.perform_extends (Nat.le_max_right depth deeper) _ _ _ secondEnded⟩

section Parts

variable (literal : Literal) (frame : Frame) (mind : Mind) (earlier later : List Nat)

theorem ends_append_first (takesOne : agent.policy = .firstMatch) (outcome : Outcome)
    (after : State) :
    agent.Ends (.proxy ⟨literal, earlier ++ later⟩) ⟨frame, [], mind⟩ outcome after ↔
      (agent.Ends (.proxy ⟨literal, earlier⟩) ⟨frame, [], mind⟩ outcome after ∧
        refuses outcome = false) ∨
      ∃ refused between,
        agent.Ends (.proxy ⟨literal, earlier⟩) ⟨frame, [], mind⟩ refused between ∧
        refuses refused = true ∧
        agent.Ends (.proxy ⟨literal, later⟩) ⟨frame, [], between.mind⟩ outcome after := by
  simp only [ends_proxy_iff]
  constructor
  · rintro ⟨depth, ended⟩
    rw [agent.perform_append_first takesOne, Option.bind_eq_some_iff] at ended
    obtain ⟨⟨first, between⟩, firstEnded, ended⟩ := ended
    split_ifs at ended with refused
    · exact .inr ⟨first, between, ⟨depth, firstEnded⟩, refused, depth, ended⟩
    · obtain ⟨rfl, rfl⟩ := Prod.mk.inj (Option.some.inj ended)
      exact .inl ⟨⟨depth, firstEnded⟩, (Bool.not_eq_true _).mp refused⟩
  · rintro (⟨⟨depth, ended⟩, decided⟩ | ⟨first, between, firstEnds, refused, laterEnds⟩)
    · refine ⟨depth, ?_⟩
      rw [agent.perform_append_first takesOne, ended, Option.bind_some, if_neg]
      simp [decided]
    · obtain ⟨depth, firstEnded, laterEnded⟩ := agent.perform_together firstEnds laterEnds
      refine ⟨depth, ?_⟩
      rw [agent.perform_append_first takesOne, firstEnded, Option.bind_some, if_pos refused,
        laterEnded]

theorem ends_append_every (takesAll : agent.policy = .aggregateAll) (truth : Truth)
    (after : State) :
    agent.Ends (.proxy ⟨literal, earlier ++ later⟩) ⟨frame, [], mind⟩ (.ok truth) after ↔
      ∃ left first right last,
        agent.Ends (.proxy ⟨literal, earlier⟩) ⟨frame, [], mind⟩ (.ok left) first ∧
        agent.Ends (.proxy ⟨literal, later⟩) ⟨frame, [], first.mind⟩ (.ok right) last ∧
        truth = left + right ∧
        after = ⟨if left.value then first.frame else last.frame, first.output ++ last.output,
          last.mind⟩ := by
  simp only [ends_proxy_iff]
  constructor
  · rintro ⟨depth, ended⟩
    obtain ⟨left, first, right, last, firstEnded, lastEnded, both⟩ :=
      (agent.perform_append_every takesAll ..).mp ended
    exact ⟨left, first, right, last, ⟨depth, firstEnded⟩, ⟨depth, lastEnded⟩, both⟩
  · rintro ⟨left, first, right, last, firstEnds, lastEnds, both⟩
    obtain ⟨depth, firstEnded, lastEnded⟩ := agent.perform_together firstEnds lastEnds
    exact ⟨depth, (agent.perform_append_every takesAll ..).mpr
      ⟨left, first, right, last, firstEnded, lastEnded, both⟩⟩

end Parts

/-- The body asks for the stock `X` and puts it out. -/
def announced : Rule :=
  .write (pair (.variable "X") (.variable "Y"))
    [.test (stock (.variable "X")) none, .raw (.literal (stock (.variable "X")))]

def announcer (policy : Policy) : Agent :=
  { broker announced with policy := policy }

/-- `R` is answered 3, with 3 put out and counted this many times. -/
def announcedTimes (times : Nat) : State :=
  ⟨⟨[("R", some (.value (.int 3)))]⟩,
    List.replicate times (.literal (stock (.value (.int 3)))),
    ⟨(announcer .firstMatch).beliefs, ⟨times, times, times⟩⟩⟩

end Agent

end Deliberation
