import Deliberation.Proofs.Call.Depth
import Deliberation.Proofs.Frame.Resolving
import Deliberation.Proofs.Match.Head
import Mathlib.Data.List.Permutation

/-!
# Answers of a call

A policy that takes one candidate adopts the first whose body ends true. Every position
of the call that holds an unbound variable asks for the leaf of the head that it meets,
and these are resolved where the body ended. The answers are bound in the order of the
positions and one name may stand at several of them, so the last answer to it counts.
-/

namespace Deliberation

set_option autoImplicit false

namespace Candidate

/-- What a pair of leaves answers to the caller in the frame where the body ended. -/
def answer? (frame : Frame) (pair : Term × Term) : Option (String × Term) :=
  (HeadMatch.wanted? pair).bind (export? frame)

theorem answer_eq_some_iff (frame : Frame) (pair : Term × Term) (answer : String × Term) :
    answer? frame pair = some answer ↔
      pair.2 = .variable answer.1 ∧ answer.2 = frame.resolve pair.1 ∧
        answer.2.isVariable = false := by
  rcases pair with ⟨leaf, wanted⟩
  rcases answer with ⟨name, term⟩
  simp only [answer?, Option.bind_eq_some_iff, export_eq_some_iff]
  constructor
  · rintro ⟨⟨asked, asks⟩, made, given, bound⟩
    obtain ⟨rfl, rfl⟩ := Prod.mk.inj ((HeadMatch.wanted_eq_some_iff ..).mp made)
    obtain ⟨rfl, isTerm⟩ := Prod.mk.inj given
    exact ⟨rfl, isTerm, bound⟩
  · rintro ⟨rfl, rfl, bound⟩
    exact ⟨(name, leaf), (HeadMatch.wanted_eq_some_iff ..).mpr rfl, rfl, bound⟩

theorem completion_answers {candidate : Candidate} {call : Literal}
    (met : candidate.rule.identifier.matchHead? call = some candidate.head) (truth : Truth)
    (last : State) :
    (candidate.completion truth last).exports =
      (candidate.rule.identifier.leaves.zip call.leaves).filterMap (answer? last.frame) := by
  rw [completion, Literal.match_head_exports_eq met, List.filterMap_filterMap]
  rfl

/-- A name that is answered at a position, and at none behind it, is bound to that
answer. -/
theorem answer_bound (frame : Frame) {callee : Frame} {before behind : List (Term × Term)}
    {leaf : Term} {name : String} (answered : (callee.resolve leaf).isVariable = false)
    (silent : ∀ other, (other, Term.variable name) ∈ behind →
      (callee.resolve other).isVariable = true) :
    (frame.commit ((before ++ (leaf, .variable name) :: behind).filterMap
      (answer? callee))).value? name = some (callee.resolve leaf) := by
  have here : answer? callee (leaf, .variable name) = some (name, callee.resolve leaf) :=
    (answer_eq_some_iff ..).mpr ⟨rfl, rfl, answered⟩
  rw [List.filterMap_append, List.filterMap_cons_some here, Frame.value_eq,
    Frame.commit_content_last]
  · rfl
  · -- An answer behind that is bound to the name would come from a silent position.
    intro binding member same
    obtain ⟨⟨other, asked⟩, paired, made⟩ := List.mem_filterMap.mp member
    obtain ⟨rfl, isAnswer, bound⟩ := (answer_eq_some_iff ..).mp made
    rw [same] at paired
    rw [isAnswer, silent other paired] at bound
    exact absurd bound (by decide)

end Candidate

namespace Agent

variable (agent : Agent)

/-- The first candidate whose body ends true, with its truth and the state that it ends
in. Those before it end false and hand on their minds. -/
inductive FirstTrue : List Candidate → Mind → Candidate → Truth → State → Prop where
  | here {candidate : Candidate} {rest : List Candidate} {mind : Mind} {truth : Truth}
      {last : State} (ended : agent.Ends candidate.body (candidate.entry mind) (.ok truth) last)
      (holds : truth.value = true) : FirstTrue (candidate :: rest) mind candidate truth last
  | later {candidate winner : Candidate} {rest : List Candidate} {mind : Mind}
      {refused truth : Truth} {between last : State}
      (ended : agent.Ends candidate.body (candidate.entry mind) (.ok refused) between)
      (fails : refused.value = false)
      (others : FirstTrue rest between.mind.recordRule winner truth last) :
      FirstTrue (candidate :: rest) mind winner truth last

variable {agent}

theorem FirstTrue.mem {candidates : List Candidate} {mind : Mind} {winner : Candidate}
    {truth : Truth} {last : State} (first : agent.FirstTrue candidates mind winner truth last) :
    winner ∈ candidates := by
  induction first with
  | here => exact List.mem_cons_self
  | later _ _ _ ih => exact List.mem_cons_of_mem _ ih

/-- A loop that ends true adopts the completion of the first true candidate. -/
theorem run_first_adopts {depth : Nat} {candidates : List Candidate} {state after : State}
    {truth : Truth}
    (ended : runFirst (agent.perform depth) candidates state = some (.ok truth, after))
    (holds : truth.value = true) :
    ∃ winner last, agent.FirstTrue candidates state.mind winner truth last ∧
      after.frame = state.frame.commit (winner.completion truth last).exports := by
  induction candidates generalizing state with
  | nil =>
      obtain ⟨isZero, _⟩ := (run_first_nil ..).mp ended
      rw [Except.ok.inj isZero] at holds
      exact absurd holds (by decide)
  | cons candidate rest ih =>
      rcases (run_first_cons ..).mp ended with ⟨fault, mind, _, isFault, _⟩ |
        ⟨completed, mind, found, _, isTruth, rfl⟩ | ⟨completed, mind, found, fails, ended⟩
      · simp at isFault
      · obtain ⟨bodyTruth, last, bodyEnded, rfl, rfl⟩ := (Candidate.run_ok_iff ..).mp found
        obtain rfl : truth = bodyTruth := Except.ok.inj isTruth
        exact ⟨candidate, last, .here ⟨depth, bodyEnded⟩ holds, rfl⟩
      · obtain ⟨refused, between, bodyEnded, rfl, rfl⟩ := (Candidate.run_ok_iff ..).mp found
        obtain ⟨winner, last, first, adopted⟩ := ih ended
        exact ⟨winner, last, .later ⟨depth, bodyEnded⟩ fails first, adopted⟩

/-- A true call reads back, from each of its unbound variables, the raw value that the
head of the winner has at the last position of that variable where it has an answer. -/
theorem call_answers (stops : agent.policy ≠ .aggregateAll) {target : Proxy}
    {state after : State} {truth : Truth}
    (ended : agent.Ends (.proxy target) state (.ok truth) after) (holds : truth.value = true) :
    ∃ winner last,
      agent.FirstTrue
        (agent.lineup (state.frame.instantiate target.literal) target.candidates) state.mind
        winner truth last ∧
      ∀ before behind leaf name raw,
        winner.rule.identifier.argumentLeaves.zip
            (state.frame.instantiate target.literal).argumentLeaves =
          before ++ (leaf, .variable name) :: behind →
        last.frame.resolve leaf = .value raw →
        (∀ other, (other, Term.variable name) ∈ behind →
          (last.frame.resolve other).isVariable = true) →
        after.frame.resolve (.variable name) = .value raw := by
  rcases ended with ⟨_ | depth, ended⟩
  · simp [run, Step.run, perform] at ended
  · rw [run, Step.run, perform_succ, if_neg stops] at ended
    obtain ⟨winner, last, first, adopted⟩ := run_first_adopts ended holds
    refine ⟨winner, last, first, ?_⟩
    intro before behind leaf name raw paired resolved silent
    have member := first.mem
    rw [mem_lineup_iff, mem_candidates_iff] at member
    rw [Literal.argument_leaves_eq, Literal.argument_leaves_eq] at paired
    rw [adopted, Candidate.completion_answers member.2.2, paired]
    have answered : (last.frame.resolve leaf).isVariable = false := by
      rw [resolved]
      rfl
    rw [Frame.resolve, Frame.resolve_free_from, if_neg List.not_mem_nil,
      Candidate.answer_bound _ answered silent, resolved]
    dsimp only
    rw [Frame.resolveFrom]

/-- `pair(first, second)`. -/
def pair (first second : Term) : Literal :=
  .ofArguments ⟨"pair"⟩ [first, second]

def stock (term : Term) : Literal :=
  .ofArguments ⟨"stock"⟩ [term]

/-- An agent with one rule and three in stock. -/
def broker (rule : Rule) : Agent where
  set := ⟨[rule], PathIndex.empty.push rule.path 0⟩
  aggregation := .sum
  policy := .firstMatch
  beliefs := (BeliefBase.empty.add (stock (.value (.int 3)))).2

/-- The call `pair(R, R)`. -/
def twice : Proxy :=
  ⟨pair (.variable "R") (.variable "R"), [0]⟩

def seeking (rule : Rule) : State :=
  ⟨.withVariables ["R"], [], (broker rule).start⟩

/-- The body asks for the stock `X` and leaves `Y` unbound. -/
def half : Rule :=
  .write (pair (.variable "X") (.variable "Y")) [.test (stock (.variable "X")) none]

def halved : Candidate :=
  ⟨0, half, ⟨[], [("R", .variable "X"), ("R", .variable "Y")]⟩⟩

/-- Only the first position has an answer, which is what the caller reads. -/
theorem half_pair_answered :
    (broker half).policy ≠ .aggregateAll ∧
      ∃ after, (broker half).Ends (.proxy twice) (seeking half) (.ok Truth.one) after ∧
        Truth.one.value = true ∧
        after.frame.resolve (.variable "R") = .value (.int 3) := by
  have stops : (broker half).policy ≠ .aggregateAll := by decide
  have ended : (broker half).Ends (.proxy twice) (seeking half) (.ok Truth.one)
      ⟨⟨[("R", some (.value (.int 3)))]⟩, [], ⟨(broker half).beliefs, ⟨1, 1, 1⟩⟩⟩ := by
    refine ⟨1, ?_⟩
    cbv
  have bodyEnded : (broker half).Ends halved.body (halved.entry (broker half).start)
      (.ok Truth.one)
      ⟨⟨[("X", some (.value (.int 3))), ("Y", none)]⟩, [],
        ⟨(broker half).beliefs, ⟨1, 1, 0⟩⟩⟩ := by
    refine ⟨0, ?_⟩
    cbv
  have inOrder : (broker half).lineup ((seeking half).frame.instantiate twice.literal)
      twice.candidates = [halved] := by
    cbv
  obtain ⟨winner, last, first, answers⟩ := call_answers stops ended rfl
  rw [inOrder] at first
  cases first with
  | here wonEnded _ =>
      obtain ⟨_, rfl⟩ := ends_unique _ bodyEnded wonEnded
      refine ⟨stops, _, ended, rfl, answers [] [(.variable "Y", .variable "R")] (.variable "X") "R"
        (.int 3) ?_ ?_ ?_⟩
      · cbv
      · cbv
      · intro other silent
        obtain rfl := (Prod.mk.inj (List.mem_singleton.mp silent)).1
        cbv
  | later _ _ others => cases others

/-- A fact-like rule `pair(1, 2)`. -/
def uneven : Rule :=
  .write (pair (.value (.int 1)) (.value (.int 2))) []

def unevenMet : Candidate :=
  ⟨0, uneven, ⟨[], [("R", .value (.int 1)), ("R", .value (.int 2))]⟩⟩

/-- The head has 1 where the call has `R` first, and the caller reads 2. -/
theorem uneven_pair_answered_once :
    ∃ after last, (broker uneven).policy = .firstMatch ∧
      (broker uneven).Ends (.proxy twice) (seeking uneven) (.ok Truth.one) after ∧
      (broker uneven).FirstTrue ((broker uneven).lineup
        ((seeking uneven).frame.instantiate twice.literal) twice.candidates)
        (seeking uneven).mind unevenMet Truth.one last ∧
      (unevenMet.rule.identifier.argumentLeaves.zip
        ((seeking uneven).frame.instantiate twice.literal).argumentLeaves)[0]? =
          some (.value (.int 1), .variable "R") ∧
      last.frame.resolve (.value (.int 1)) = .value (.int 1) ∧
      after.frame.resolve (.variable "R") = .value (.int 2) := by
  have inOrder : (broker uneven).lineup ((seeking uneven).frame.instantiate twice.literal)
      twice.candidates = [unevenMet] := by
    cbv
  refine ⟨⟨⟨[("R", some (.value (.int 2)))]⟩, [], ⟨(broker uneven).beliefs, ⟨0, 0, 1⟩⟩⟩,
    unevenMet.entry (broker uneven).start, rfl, ⟨1, ?_⟩, ?_, ?_, ?_, ?_⟩
  · cbv
  · rw [inOrder]
    refine .here ⟨0, ?_⟩ rfl
    cbv
  · cbv
  · cbv
  · cbv

end Agent

end Deliberation
