import Deliberation.Proofs.Call.Composition
import Deliberation.Proofs.Step.Pure

/-!
# Where the policies agree

A candidate with a pure body leaves nothing to the next one but a higher count, so every
candidate comes to the completion that it would come to by itself. If none faults, then
taking the first true completion and taking all of them differ in what comes after the first
true one only: in the degree of the truth, in outputs behind the first, and in the counts.
-/

namespace Deliberation

set_option autoImplicit false

/-- Whoever answers calls and whatever has been counted, the candidate ends with this. -/
def Candidate.Completes (candidate : Candidate) (beliefs : BeliefBase)
    (completed : Completion) : Prop :=
  ∀ call tally, ∃ counted, candidate.run call ⟨beliefs, tally⟩ =
    some (.ok completed, ⟨beliefs, counted⟩)

/-- One run that does not fault shows how all runs of a pure candidate end. -/
theorem Candidate.pure_completes {candidate : Candidate} (pure : candidate.body.isPure = true)
    {call : Proxy → Action} {beliefs : BeliefBase} {tally : Tally}
    (faultless : ∀ fault after,
      candidate.body.run call (candidate.entry ⟨beliefs, tally⟩) ≠ some (.error fault, after)) :
    ∃ completed, candidate.Completes beliefs completed := by
  have alike other := pure_step_ends_alike call other candidate.body pure candidate.frame []
    beliefs tally
  obtain ⟨outcome, last, written, counted, _, ended, _⟩ := alike call tally
  cases outcome with
  | error fault => exact absurd ended (faultless fault _)
  | ok truth =>
      refine ⟨candidate.completion truth ⟨last, written, ⟨beliefs, counted⟩⟩, ?_⟩
      intro other otherTally
      obtain ⟨_, _, _, _, otherCounted, first, second⟩ := alike other otherTally
      rw [ended] at first
      obtain ⟨rfl, sameState⟩ := Prod.mk.inj (Option.some.inj first)
      obtain ⟨rfl, rfl, _⟩ := State.mk.inj sameState
      exact ⟨otherCounted.recordRule, (candidate.run_ok_iff ..).mpr ⟨truth, _, second, rfl, rfl⟩⟩

namespace Report

/-- The first true completion, with its answers and its output. -/
def ofFirst (completions : List Completion) (mind : Mind) : Report :=
  match completions.find? fun completed => completed.truth.value with
  | some completed => .of completed mind
  | none => .silent (.ok Truth.zero) mind

theorem of_first_cons (completed : Completion) (rest : List Completion) (mind : Mind) :
    ofFirst (completed :: rest) mind =
      if completed.truth.value then .of completed mind else ofFirst rest mind := by
  rw [ofFirst, List.find?_cons]
  cases completed.truth.value <;> rfl

/-- One truth value and the same answers, with output to follow where all are taken. -/
theorem first_and_all_agree (completions : List Completion) (mind other : Mind) :
    ∃ first all answers added more,
      ofFirst completions mind = ⟨.ok first, added, answers, mind⟩ ∧
      ofAll completions other = ⟨.ok all, added ++ more, answers, other⟩ ∧
      first.value = all.value := by
  have first : completions.find? (fun completed => completed.truth.value) =
      (completions.filter fun completed => completed.truth.value).head? :=
    List.head?_filter.symm
  have value := disjoin_value completions
  rw [ofFirst, ofAll, first]
  cases successes : completions.filter fun completed => completed.truth.value with
  | nil =>
      refine ⟨Truth.zero, disjoin completions, [], [], [], rfl, rfl, ?_⟩
      rw [value, List.any_eq_false.mpr (List.filter_eq_nil_iff.mp successes)]
      rfl
  | cons winner others =>
      have listed : winner ∈ completions.filter fun completed => completed.truth.value := by
        rw [successes]
        exact List.mem_cons_self
      obtain ⟨member, holds⟩ := List.mem_filter.mp listed
      refine ⟨winner.truth, disjoin completions, winner.exports, winner.output,
        others.flatMap Completion.output, rfl, rfl, ?_⟩
      rw [value, holds, List.any_eq_true.mpr ⟨winner, member, holds⟩]

end Report

theorem exists_all_complete {beliefs : BeliefBase} {candidates : List Candidate}
    (completes : ∀ candidate ∈ candidates, ∃ completed, candidate.Completes beliefs completed) :
    ∃ completions, List.Forall₂
      (fun candidate completed => candidate.Completes beliefs completed)
        candidates completions := by
  induction candidates with
  | nil => exact ⟨[], .nil⟩
  | cons candidate rest ih =>
      obtain ⟨completed, here⟩ := completes candidate List.mem_cons_self
      obtain ⟨others, later⟩ :=
        ih fun other member => completes other (List.mem_cons_of_mem candidate member)
      exact ⟨completed :: others, .cons here later⟩

section Loops

variable {beliefs : BeliefBase} {candidates : List Candidate} {completions : List Completion}
  (complete : List.Forall₂ (fun candidate completed => candidate.Completes beliefs completed)
    candidates completions)
  (call : Proxy → Action)

include complete

theorem report_first_completed (tally : Tally) :
    ∃ counted, reportFirst call candidates ⟨beliefs, tally⟩ =
      some (.ofFirst completions ⟨beliefs, counted⟩) := by
  induction complete generalizing tally with
  | nil => exact ⟨tally, rfl⟩
  | @cons candidate completed rest others here _ ih =>
      obtain ⟨counted, ended⟩ := here call tally
      rw [reportFirst, ended]
      simp only [Report.of_first_cons]
      by_cases holds : completed.truth.value = true
      · simp only [if_pos holds]
        exact ⟨counted, rfl⟩
      · simp only [if_neg holds]
        exact ih counted

theorem complete_all_completed (tally : Tally) :
    ∃ counted, completeAll call candidates ⟨beliefs, tally⟩ =
      some (.ok completions, ⟨beliefs, counted⟩) := by
  induction complete generalizing tally with
  | nil => exact ⟨tally, rfl⟩
  | cons here _ ih =>
      obtain ⟨between, ended⟩ := here call tally
      obtain ⟨counted, found⟩ := ih between
      exact ⟨counted, (complete_all_ok_cons ..).mpr ⟨_, _, _, ended, found, rfl⟩⟩

theorem report_every_completed (tally : Tally) :
    ∃ counted, reportEvery call candidates ⟨beliefs, tally⟩ =
      some (.ofAll completions ⟨beliefs, counted⟩) := by
  obtain ⟨counted, found⟩ := complete_all_completed complete call tally
  exact ⟨counted, by rw [reportEvery, found]⟩

end Loops

namespace Agent

section Policies

variable (one every : Agent) (sameRules : one.set = every.set)
  (takesOne : one.policy = .firstMatch) (takesAll : every.policy = .aggregateAll)

include sameRules takesOne takesAll

end Policies

def bid (term : Term) : Literal :=
  .ofArguments ⟨"bid"⟩ [term]

/-- Asks for a stock of 4. -/
def lacking : Rule :=
  .write (bid (.variable "X")) [.test (stock (.value (.int 4))) none]

/-- Asks for the stock `X`, with a check, and puts it out. -/
def checked : Rule :=
  .write (bid (.variable "X"))
    [.test (stock (.variable "X")) (some (.rule (.atom ⟨"check"⟩) [.raw (.value (.bool true))])),
      .raw (.literal (stock (.variable "X")))]

/-- Answers 5, whatever is in stock, and puts it out. -/
def supplied : Rule :=
  .write (bid (.value (.int 5)))
    [.rule (.atom ⟨"order"⟩) [.raw (.literal (stock (.value (.int 5))))]]

def bidder (policy : Policy) : Agent where
  set := ⟨[lacking, checked, supplied], ⟨[(⟨"bid"⟩, [0, 1, 2])]⟩⟩
  aggregation := .sum
  policy := policy
  beliefs := (BeliefBase.empty.add (stock (.value (.int 3)))).2

def bidCall : Proxy :=
  ⟨bid (.variable "R"), [0, 1, 2]⟩

def bids : List Candidate :=
  [⟨0, lacking, ⟨[], [("R", .variable "X")]⟩⟩, ⟨1, checked, ⟨[], [("R", .variable "X")]⟩⟩,
    ⟨2, supplied, ⟨[], [("R", .value (.int 5))]⟩⟩]

def bidsMet : List Candidate :=
  (bidder .firstMatch).candidates ((Frame.withVariables ["R"]).instantiate bidCall.literal)
    bidCall.candidates

end Agent

end Deliberation
