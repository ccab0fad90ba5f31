import Deliberation.Proofs.Call.Answers
import Deliberation.Proofs.Call.Response

/-!
# What a call sees of its caller

A call sees the mind of its caller and the literal that the frame of the caller makes of
it. Two callers that agree on these get one report from every schedule, whatever else their
frames and outputs hold, and differ afterwards only in what it is taken over into.
-/

namespace Deliberation

set_option autoImplicit false

namespace Agent

variable (agent : Agent)

/-- Two callers whose frames make one literal of a call take over one and the same report:
whatever the schedule, its outcome, terms, answers and mind do not depend on anything else
in them. -/
theorem one_report_for_both (target : Proxy) (first second : State)
    (sameMind : first.mind = second.mind)
    (sameCall : first.frame.instantiate target.literal = second.frame.instantiate target.literal)
    (depth : Nat) (parallel : Bool) (schedule : Schedule) :
    let report := agent.reportUnder schedule depth parallel target.literal.ordered
      (first.frame.instantiate target.literal) target.candidates first.mind
    (agent.performing depth parallel target).under schedule first =
        report.map (·.deliver first) ∧
      (agent.performing depth parallel target).under schedule second =
        report.map (·.deliver second) := by
  intro report
  have secondReport : agent.reportUnder schedule depth parallel target.literal.ordered
      (second.frame.instantiate target.literal) target.candidates second.mind = report := by
    rw [← sameMind, ← sameCall]
  refine ⟨agent.performing_under schedule depth parallel target first, ?_⟩
  rw [performing_under, secondReport]

/-- The body asks for the stock `Y`. -/
def stocked : Rule :=
  .write (pair (.variable "X") (.variable "Y")) [.test (stock (.variable "Y")) none]

/-- The body takes three into stock. -/
def restock : Rule :=
  .write (pair (.variable "X") (.variable "Y")) [.belief .add (stock (.value (.int 3)))]

/-- Nothing is in stock. -/
def market : Agent where
  set := ⟨[stocked, restock], ⟨[(⟨"pair"⟩, [0, 1])]⟩⟩
  aggregation := .sum
  policy := .aggregateAll
  beliefs := .empty

/-- The call `pair(A, R)`. -/
def pricing : Proxy :=
  ⟨pair (.variable "A") (.variable "R"), [0, 1]⟩

def direct : State :=
  ⟨⟨[("A", some (.value (.int 5))), ("R", none), ("Z", some (.value (.int 1)))]⟩,
    [.value (.int 0)], market.start⟩

/-- `A` is bound through `C`, and `R` is not declared. -/
def roundabout : State :=
  ⟨⟨[("A", some (.variable "C")), ("C", some (.value (.int 5)))]⟩, [], market.start⟩

/-- Both frames make `pair(5, R)` of the call. The second rule has the first turn, so that
the first finds what is in stock then, and `R` is answered 3 in both. -/
theorem pricing_reported_to_both :
    direct.mind = roundabout.mind ∧
      direct.frame.instantiate pricing.literal = roundabout.frame.instantiate pricing.literal ∧
      ∃ report : Report, report.answers = [("R", .value (.int 3))] ∧
        (market.performing 1 false pricing).under [[1]] direct =
          some (report.deliver direct) ∧
        (market.performing 1 false pricing).under [[1]] roundabout =
          some (report.deliver roundabout) := by
  have sameCall : direct.frame.instantiate pricing.literal =
      roundabout.frame.instantiate pricing.literal := by
    cbv
  have reported : market.reportUnder [[1]] 1 false pricing.literal.ordered
      (direct.frame.instantiate pricing.literal) pricing.candidates direct.mind =
        some ⟨.ok Truth.one, [], [("R", .value (.int 3))],
          ⟨(BeliefBase.empty.add (stock (.value (.int 3)))).2, ⟨1, 1, 2⟩⟩⟩ := by
    cbv
  have both := market.one_report_for_both pricing direct roundabout rfl sameCall 1 false [[1]]
  rw [reported] at both
  exact ⟨rfl, sameCall, _, rfl, both⟩

/-- In list order the first rule comes too early, and `R` is not answered. -/
example : ((market.performing 1 false pricing).under [] direct).map
    (fun ended => ended.2.frame.value? "R") = some none := by
  cbv

end Agent

end Deliberation
