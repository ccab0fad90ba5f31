import Deliberation.Agent
import Deliberation.Proofs.StableSort

/-!
# What one candidate of a call does

The loops over candidates are opened here once, at their first candidate. A
candidate sees nothing of the caller but the mind; what it leaves is a fault or a
completion, and only a policy hands a completion on to the caller.
-/

namespace Deliberation

set_option autoImplicit false

namespace Candidate

/-- What the state at the end of the body leaves for the caller. -/
def completion (candidate : Candidate) (truth : Truth) (after : State) : Completion :=
  ⟨truth, after.output, candidate.head.exports.filterMap (export? after.frame)⟩

/-- The rule of a candidate, run as a step. -/
def body (candidate : Candidate) : Step :=
  .rule candidate.rule.identifier candidate.rule.steps

def entry (candidate : Candidate) (mind : Mind) : State :=
  ⟨candidate.frame, [], mind⟩

theorem of_eq_some_iff (set : RuleSet) (call : Literal) (number : Nat) (candidate : Candidate) :
    of? set call number = some candidate ↔
      candidate.number = number ∧ set.rule? number = some candidate.rule ∧
        candidate.rule.identifier.matchHead? call = some candidate.head := by
  unfold of?
  constructor
  · intro found
    split at found
    next => simp at found
    next rule known =>
      split at found
      next => simp at found
      next head met =>
        obtain rfl := Option.some.inj found
        exact ⟨rfl, known, met⟩
  · intro told
    rcases told with ⟨rfl, known, met⟩
    simp [known, met]

theorem export_eq_some_iff (frame : Frame) (wanted answer : String × Term) :
    export? frame wanted = some answer ↔
      answer = (wanted.1, frame.resolve wanted.2) ∧ answer.2.isVariable = false := by
  unfold export?
  cases frame.resolve wanted.2 <;> grind [Term.isVariable]

theorem run_error_iff (call : Proxy → Action) (candidate : Candidate) (mind last : Mind)
    (fault : Fault) :
    candidate.run call mind = some (.error fault, last) ↔
      ∃ after, candidate.body.run call (candidate.entry mind) = some (.error fault, after) ∧
        last = after.mind := by
  rw [run, body, Step.run, entry]
  cases Step.runAll call candidate.rule.steps Truth.one ⟨candidate.frame, [], mind⟩ with
  | none => simp
  | some result =>
      rcases result with ⟨outcome, after⟩
      cases outcome <;> grind

theorem run_ok_iff (call : Proxy → Action) (candidate : Candidate) (mind last : Mind)
    (completed : Completion) :
    candidate.run call mind = some (.ok completed, last) ↔
      ∃ truth after, candidate.body.run call (candidate.entry mind) = some (.ok truth, after) ∧
        completed = candidate.completion truth after ∧ last = after.mind.recordRule := by
  rw [run, body, Step.run, entry]
  cases Step.runAll call candidate.rule.steps Truth.one ⟨candidate.frame, [], mind⟩ with
  | none => simp
  | some result =>
      rcases result with ⟨outcome, after⟩
      cases outcome with
      | error fault => simp
      | ok truth => grind [completion]

end Candidate

/-- The left one may be tried first. -/
def scoresAsHigh (score : Nat → Float) (left right : Candidate) : Bool :=
  decide (Double.rank (score right.number) ≤ Double.rank (score left.number))

/-- The order is that of the scores alone. -/
theorem rank_candidates_eq (score : Nat → Float) (candidates : List Candidate) :
    rankCandidates score candidates = stableSort (scoresAsHigh score) candidates := by
  have unseen : ∀ left right : Candidate,
      decide ((Double.rank (score right.number), right).1 ≤
        (Double.rank (score left.number), left).1) = scoresAsHigh score left right :=
    fun _ _ => rfl
  unfold rankCandidates
  dsimp only
  rw [stable_sort_map unseen, List.map_map]
  exact List.map_id _

theorem mem_rank_candidates_iff (score : Nat → Float) (candidates : List Candidate)
    (candidate : Candidate) :
    candidate ∈ rankCandidates score candidates ↔ candidate ∈ candidates := by
  rw [rank_candidates_eq, (stable_sort_perm _ candidates).mem_iff]

namespace Agent

variable (agent : Agent)

theorem mem_candidates_iff (call : Literal) (numbers : List Nat) (candidate : Candidate) :
    candidate ∈ agent.candidates call numbers ↔
      candidate.number ∈ numbers ∧ agent.set.rule? candidate.number = some candidate.rule ∧
        candidate.rule.identifier.matchHead? call = some candidate.head := by
  rw [candidates, List.mem_filterMap]
  constructor
  · intro told
    rcases told with ⟨number, member, found⟩
    obtain ⟨rfl, known, met⟩ := (Candidate.of_eq_some_iff ..).mp found
    exact ⟨member, known, met⟩
  · intro told
    rcases told with ⟨member, known, met⟩
    exact ⟨candidate.number, member, (Candidate.of_eq_some_iff ..).mpr ⟨rfl, known, met⟩⟩

/-- The candidates of a call in the order in which the policy takes them. -/
def lineup (call : Literal) (numbers : List Nat) : List Candidate :=
  match agent.policy with
  | .bestScore => rankCandidates agent.score (agent.candidates call numbers)
  | _ => agent.candidates call numbers

theorem mem_lineup_iff (call : Literal) (numbers : List Nat) (candidate : Candidate) :
    candidate ∈ agent.lineup call numbers ↔ candidate ∈ agent.candidates call numbers := by
  unfold lineup
  split
  next => exact mem_rank_candidates_iff agent.score _ candidate
  next => exact Iff.rfl

/-- A call under one more depth: one loop over the line-up, with the policy deciding
which. -/
theorem perform_succ (depth : Nat) (target : Proxy) (state : State) :
    agent.perform (depth + 1) target state =
      if agent.policy = .aggregateAll then
        runEvery (agent.perform depth)
          (agent.lineup (state.frame.instantiate target.literal) target.candidates) state
      else
        runFirst (agent.perform depth)
          (agent.lineup (state.frame.instantiate target.literal) target.candidates) state := by
  rw [perform, lineup]
  cases agent.policy <;> rfl

end Agent

theorem run_first_nil (call : Proxy → Action) (state : State) (outcome : Outcome)
    (after : State) :
    runFirst call [] state = some (outcome, after) ↔ outcome = .ok Truth.zero ∧ after = state := by
  rw [runFirst]
  simp only [Option.some.injEq, Prod.mk.injEq]
  exact and_congr eq_comm eq_comm

theorem run_first_cons (call : Proxy → Action) (candidate : Candidate) (rest : List Candidate)
    (state : State) (outcome : Outcome) (after : State) :
    runFirst call (candidate :: rest) state = some (outcome, after) ↔
      (∃ fault mind, candidate.run call state.mind = some (.error fault, mind) ∧
        outcome = .error fault ∧ after = { state with mind := mind }) ∨
      (∃ completed mind, candidate.run call state.mind = some (.ok completed, mind) ∧
        completed.truth.value = true ∧ outcome = .ok completed.truth ∧
        after = State.adopt { state with mind := mind } completed) ∨
      ∃ completed mind, candidate.run call state.mind = some (.ok completed, mind) ∧
        completed.truth.value = false ∧
        runFirst call rest { state with mind := mind } = some (outcome, after) := by
  constructor
  · intro ended
    rw [runFirst] at ended
    split at ended
    next => simp at ended
    next fault mind found =>
      obtain ⟨rfl, rfl⟩ := Prod.mk.inj (Option.some.inj ended)
      exact .inl ⟨fault, mind, found, rfl, rfl⟩
    next completed mind found =>
      split at ended
      next holds =>
        obtain ⟨rfl, rfl⟩ := Prod.mk.inj (Option.some.inj ended)
        exact .inr (.inl ⟨completed, mind, found, holds, rfl, rfl⟩)
      next fails =>
        exact .inr (.inr ⟨completed, mind, found, (Bool.not_eq_true _).mp fails, ended⟩)
  · intro told
    rcases told with ⟨fault, mind, found, rfl, rfl⟩ | ⟨completed, mind, found, holds, rfl, rfl⟩ |
      ⟨completed, mind, found, fails, ended⟩
    · rw [runFirst, found]
    · rw [runFirst, found]
      simp [holds]
    · rw [runFirst, found]
      simp [fails, ended]

theorem complete_all_nil (call : Proxy → Action) (mind last : Mind)
    (result : Except Fault (List Completion)) :
    completeAll call [] mind = some (result, last) ↔ result = .ok [] ∧ last = mind := by
  rw [completeAll]
  simp only [Option.some.injEq, Prod.mk.injEq]
  exact and_congr eq_comm eq_comm

theorem complete_all_error_cons (call : Proxy → Action) (candidate : Candidate)
    (rest : List Candidate) (mind last : Mind) (fault : Fault) :
    completeAll call (candidate :: rest) mind = some (.error fault, last) ↔
      candidate.run call mind = some (.error fault, last) ∨
      ∃ completed between, candidate.run call mind = some (.ok completed, between) ∧
        completeAll call rest between = some (.error fault, last) := by
  rw [completeAll]
  cases candidate.run call mind with
  | none => simp
  | some result =>
      rcases result with ⟨result, between⟩
      cases result with
      | error earlier => simp
      | ok completed =>
          dsimp only
          split
          next unended => simp [unended]
          next found => grind
          next found => grind

theorem complete_all_ok_cons (call : Proxy → Action) (candidate : Candidate)
    (rest : List Candidate) (mind last : Mind) (completions : List Completion) :
    completeAll call (candidate :: rest) mind = some (.ok completions, last) ↔
      ∃ completed between others, candidate.run call mind = some (.ok completed, between) ∧
        completeAll call rest between = some (.ok others, last) ∧
        completions = completed :: others := by
  rw [completeAll]
  cases candidate.run call mind with
  | none => simp
  | some result =>
      rcases result with ⟨result, between⟩
      cases result with
      | error earlier => simp
      | ok completed =>
          dsimp only
          split
          next unended => simp [unended]
          next found => simp [found]
          next others after found => grind

theorem disjoin_value (completions : List Completion) :
    (disjoin completions).value = completions.any fun completed => completed.truth.value := by
  have folded : ∀ truth : Truth,
      (completions.foldl (fun truth completed => truth + completed.truth) truth).value =
        (truth.value || completions.any fun completed => completed.truth.value) := by
    induction completions with
    | nil => simp
    | cons completed rest ih =>
        intro truth
        rw [List.foldl_cons, ih, List.any_cons, ← Bool.or_assoc]
        rfl
  rw [disjoin, folded]
  rfl

theorem run_every_iff (call : Proxy → Action) (candidates : List Candidate) (state : State)
    (outcome : Outcome) (after : State) :
    runEvery call candidates state = some (outcome, after) ↔
      (∃ fault mind, completeAll call candidates state.mind = some (.error fault, mind) ∧
        outcome = .error fault ∧ after = { state with mind := mind }) ∨
      ∃ completions mind, completeAll call candidates state.mind = some (.ok completions, mind) ∧
        outcome = .ok (disjoin completions) ∧
        after = State.adoptAll { state with mind := mind } completions := by
  rw [runEvery]
  cases completeAll call candidates state.mind with
  | none => simp
  | some result =>
      rcases result with ⟨result, mind⟩
      cases result with
      | error fault => grind
      | ok completions => grind

end Deliberation
