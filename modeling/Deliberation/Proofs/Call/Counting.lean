import Deliberation.Proofs.Belief.Places
import Deliberation.Proofs.Call.Faults
import Deliberation.Proofs.Call.Parameters
import Deliberation.Proofs.Expression.Exact
import Deliberation.Proofs.Match.History

/-!
# A rule that counts

A rule reads the one count that is believed, takes it away and puts the next one back. One
call of it moves the count by one and nothing else among the beliefs, whatever they are and
whatever the policy; so any number of calls moves it by that number.
-/

namespace Deliberation

set_option autoImplicit false

def counting (count : Path) (term : Term) : Literal :=
  .ofArguments count [term]

/-- Reads the count into a variable, takes it away, and puts the next one back. -/
def ticking (tick count : Path) (name : String) : Rule :=
  .write (.atom tick)
    [.test (counting count (.variable name)) none,
      .belief .remove (counting count (.variable name)),
      .increment .up name,
      .belief .add (counting count (.variable name))]

/-- The count is the only positive fact of its path; its ordering marker says nothing. -/
def BeliefBase.CountsAt (base : BeliefBase) (count : Path) (number : Int64) : Prop :=
  ∃ ordered, base.query false count =
    [(counting count (.value (.int number))).withOrdered ordered]

/-- The goal offers its variable to the one leaf of the fact. -/
theorem count_matched (count : Path) (name : String) (raw : Value) (ordered : Bool) :
    Tier.exact.match? (counting count (.variable name))
      ((counting count (.value raw)).withOrdered ordered) = some [(name, .value raw)] := by
  have kept : Tier.exact.bindings (counting count (.variable name))
      ((counting count (.value raw)).withOrdered ordered) = [(name, .value raw)] := by
    rw [Tier.bindings_eq]
    rfl
  have admitted : Tier.exact.admits (counting count (.variable name))
      ((counting count (.value raw)).withOrdered ordered) = true := by
    exact Literal.matches_exact_of_shapes .rotating rfl rfl
  rw [Tier.match?, if_pos admitted, kept]
  rfl

theorem BeliefBase.CountsAt.read {base : BeliefBase} {count : Path} {number : Int64}
    (counts : base.CountsAt count number) (name : String) :
    base.bindingSets (counting count (.variable name)) = [[(name, .value (.int number))]] := by
  obtain ⟨ordered, only⟩ := counts
  have found : base.matches .exact (counting count (.variable name)) =
      [[(name, .value (.int number))]] := by
    rw [BeliefBase.matches]
    change (base.query false count).filterMap _ = _
    rw [only, List.filterMap_cons_some (count_matched ..)]
    rfl
  rw [bindingSets, candidates_eq, found]
  rfl

theorem instantiate_counting (frame : Frame) (count : Path) (name : String) :
    frame.instantiate (counting count (.variable name)) =
      counting count (frame.resolve (.variable name)) := by
  have plain : ∀ term ∈ [Term.variable name], term.isPlain = true := by
    intro term member
    rw [List.mem_singleton.mp member]
    rfl
  rw [counting, frame.instantiate_arguments count plain, List.map_singleton, counting]

section Found

variable {frame : Frame} {name : String} {number : Int64}
  (found : frame.value? name = some (.value (.int number)))

include found

theorem instantiate_found (count : Path) :
    frame.instantiate (counting count (.variable name)) =
      counting count (.value (.int number)) := by
  rw [instantiate_counting, Frame.resolve_raw found]

theorem remove_found (call : Proxy → Action) (count : Path) (output : List Term) (mind : Mind) :
    (Step.belief .remove (counting count (.variable name))).run call ⟨frame, output, mind⟩ =
      some (.ok Truth.one, ⟨frame, output, { mind with
        beliefs := (mind.beliefs.remove (counting count (.value (.int number)))).2 }⟩) := by
  rw [← instantiate_found found count]
  rfl

theorem add_found (call : Proxy → Action) (count : Path) (output : List Term) (mind : Mind) :
    (Step.belief .add (counting count (.variable name))).run call ⟨frame, output, mind⟩ =
      some (.ok Truth.one, ⟨frame, output, { mind with
        beliefs := (mind.beliefs.add (counting count (.value (.int number)))).2 }⟩) := by
  rw [← instantiate_found found count]
  rfl

theorem increment_found {next : Int64} (isNext : next.toInt = number.toInt + 1) :
    Increment.up.run name frame = .ok (frame.bind name (.value (.int next))) := by
  have evaluated : frame.evaluate name = .ok (.int number) := by
    rw [Frame.evaluate, found]
    dsimp only
    rw [Frame.resolve, Frame.resolveFrom]
  have applied : Increment.up.apply (.int number) = .ok (.int next) := by
    rw [Increment.apply, ← isNext, int_value_eq, if_pos (in_range_word next), Int64.ofInt_toInt]
  rw [Increment.run, evaluated]
  dsimp only
  rw [applied]

end Found

theorem Frame.bind_value (frame : Frame) (name : String) (term : Term) :
    (frame.bind name term).value? name = some term := by
  rw [value_eq, bind_content_same]
  rfl

/-- The step is true and the rest of the body follows. -/
theorem run_all_passing {call : Proxy → Action} {step : Step} {state between : State}
    (ended : step.run call state = some (.ok Truth.one, between)) (rest : List Step) :
    Step.runAll call (step :: rest) Truth.one state =
      Step.runAll call rest Truth.one between := by
  rw [Step.runAll, ended]
  rfl

/-- The mind after one count: the next number is believed, and one query has been met. -/
def Mind.counted (mind : Mind) (count : Path) (number next : Int64) : Mind :=
  { mind.recordUnify true with
    beliefs := mind.beliefs.exchange (counting count (.value (.int number)))
      (counting count (.value (.int next))) }

theorem Mind.counted_beliefs (mind : Mind) (count : Path) (number next : Int64) :
    (mind.counted count number next).beliefs =
      mind.beliefs.exchange (counting count (.value (.int number)))
        (counting count (.value (.int next))) := rfl

theorem ticking_body (call : Proxy → Action) (tick : Path) {count : Path} (name : String)
    {mind : Mind} {number next : Int64} (counts : mind.beliefs.CountsAt count number)
    (isNext : next.toInt = number.toInt + 1) :
    ∃ frame, Step.runAll call (ticking tick count name).steps Truth.one ⟨.empty, [], mind⟩ =
      some (.ok Truth.one, ⟨frame, [], mind.counted count number next⟩) := by
  let before := Frame.empty.bind name (.value (.int number))
  let behind := before.bind name (.value (.int next))
  have foundBefore : before.value? name = some (.value (.int number)) := Frame.bind_value ..
  have foundBehind : behind.value? name = some (.value (.int next)) := Frame.bind_value ..
  have tested : (Step.test (counting count (.variable name)) none).run call ⟨.empty, [], mind⟩ =
      some (.ok Truth.one, ⟨before, [], mind.recordUnify true⟩) := by
    have asked : Frame.empty.instantiate (counting count (.variable name)) =
        counting count (.variable name) := by
      rw [instantiate_counting, Frame.resolve_absent rfl]
    rw [Step.run, unify, asked, counts.read name]
    rfl
  have incremented (mind : Mind) : (Step.increment .up name).run call ⟨before, [], mind⟩ =
      some (.ok Truth.one, ⟨behind, [], mind⟩) := by
    rw [Step.run, runIncrement, increment_found foundBefore isNext]
  refine ⟨behind, ?_⟩
  rw [ticking, Rule.write, run_all_passing tested, run_all_passing (remove_found foundBefore ..),
    run_all_passing (incremented _), run_all_passing (add_found foundBehind ..), Step.runAll]
  rfl

section Sole

variable {rules : List Rule} {beliefs : List Literal} {aggregation : Aggregation}
  {policy : Policy} {agent : Agent}
  (built : Agent.build (Registry.empty.registerAll rules) beliefs aggregation policy = .ok agent)
  {functor : Path} {steps : List Step}
  (only : rules.filter (fun rule => rule.path = functor) = [.write (.atom functor) steps])

include built only

/-- Under any policy the one rule of a path answers a call of the path with its own truth. -/
theorem call_sole_rule {depth : Nat} {state after : State} {truth : Truth}
    (holds : truth.value = true)
    (ended : Step.runAll (agent.perform depth) (steps.map (Step.linked (numbersOf rules)))
      Truth.one ⟨.empty, [], state.mind⟩ = some (.ok truth, after)) :
    agent.call (depth + 1) (.atom functor) state =
      some (.ok truth, ⟨state.frame, state.output ++ after.output, after.mind.recordRule⟩) := by
  have leads := rules_of_numbers rules functor
  rw [only] at leads
  obtain ⟨number, isNumber, isRule⟩ := List.map_eq_singleton_iff.mp leads
  have known : ¬∀ rule ∈ rules, rule.path ≠ (Literal.atom functor).functor := by
    rw [← numbers_of_eq_nil_iff]
    change numbersOf rules functor ≠ []
    rw [isNumber]
    exact List.cons_ne_nil _ _
  have kept : state.frame.instantiate (.atom functor) = .atom functor :=
    state.frame.instantiate_ground [] (.atom functor) rfl
  have found : Candidate.of? agent.set (.atom functor) number =
      some ⟨number, (Rule.write (.atom functor) steps).linked (numbersOf rules), .empty⟩ := by
    rw [Candidate.of_eq_some_iff]
    refine ⟨rfl, ?_, @Links.parameters_met [] List.nodup_nil
      (fun _ member => absurd member List.not_mem_nil) functor⟩
    rw [Agent.built_set built, RuleSet.rule?, List.getElem?_map, isRule]
    rfl
  have inLine : agent.lineup (.atom functor) [number] =
      [⟨number, (Rule.write (.atom functor) steps).linked (numbersOf rules), .empty⟩] := by
    have single : agent.candidates (.atom functor) [number] = _ := List.filterMap_cons_some found
    unfold Agent.lineup
    rw [single]
    split <;> rfl
  rw [Agent.call_known built known, Agent.perform_eq, kept]
  change (agent.report (depth + 1) (.atom functor) (numbersOf rules functor) state.mind).map _ = _
  rw [isNumber, agent.report_single inLine]
  have ran : Candidate.run (agent.perform depth)
      ⟨number, (Rule.write (.atom functor) steps).linked (numbersOf rules), .empty⟩ state.mind =
        some (.ok ⟨truth, after.output, []⟩, after.mind.recordRule) := by
    rw [Candidate.run_ok_iff]
    exact ⟨truth, after, ended, rfl, rfl⟩
  rw [ran, Option.map_some, Option.map_some, Report.ofRun]
  dsimp only
  rw [if_pos holds]
  rfl

end Sole

/-- The count and the next one are of one place, so nothing beside it changes. -/
theorem Mind.counted_counts {mind : Mind} {ledger : Ledger}
    (represents : mind.beliefs.Represents ledger) {count : Path} {number : Int64}
    (counts : mind.beliefs.CountsAt count number) (next : Int64) :
    (∃ later, (mind.counted count number next).beliefs.Represents later) ∧
      (mind.counted count number next).beliefs.CountsAt count next ∧
      BeliefBase.SameBeside (false, count) mind.beliefs
        (mind.counted count number next).beliefs := by
  obtain ⟨ordered, only⟩ := counts
  have samePlace : (counting count (.value (.int number))).place =
      (counting count (.value (.int next))).place := rfl
  have parts := (Literal.same_iff ..).mp
    (Literal.same_equivalence.refl (counting count (.value (.int number))))
  have same : (counting count (.value (.int number))).same
      ((counting count (.value (.int number))).withOrdered ordered) = true :=
    (Literal.same_iff ..).mpr parts
  rw [mind.counted_beliefs]
  exact ⟨represents.exchange, ⟨false, represents.exchange_only samePlace same only⟩,
    represents.exchange_same_beside samePlace⟩

namespace Agent

/-- So many calls of one literal, each from a frame of its own; `none` if one of them has
no end. -/
def callTimes (agent : Agent) (depth : Nat) (literal : Literal) :
    Nat → State → Option (List Outcome × State)
  | 0, state => some ([], state)
  | times + 1, state =>
      match agent.call depth literal { state with frame := .empty } with
      | none => none
      | some (outcome, after) =>
          (agent.callTimes depth literal times after).map fun ended =>
            (outcome :: ended.1, ended.2)

section Ticking

variable {rules : List Rule} {beliefs : List Literal} {aggregation : Aggregation}
  {policy : Policy} {agent : Agent}
  (built : build (Registry.empty.registerAll rules) beliefs aggregation policy = .ok agent)
  {tick count : Path} {name : String}
  (only : rules.filter (fun rule => rule.path = tick) = [ticking tick count name])

include built only

/-- One call, whatever the depth. -/
theorem call_ticking {mind : Mind} {number next : Int64}
    (counts : mind.beliefs.CountsAt count number) (isNext : next.toInt = number.toInt + 1)
    (depth : Nat) (frame : Frame) (output : List Term) :
    agent.call (depth + 1) (.atom tick) ⟨frame, output, mind⟩ =
      some (.ok Truth.one, ⟨frame, output, (mind.counted count number next).recordRule⟩) := by
  obtain ⟨last, ended⟩ := ticking_body (agent.perform depth) tick name counts isNext
  have called : agent.call (depth + 1) (.atom tick) ⟨frame, output, mind⟩ = _ :=
    call_sole_rule built only rfl ended
  rw [called, List.append_nil]

theorem calls_ticking (depth : Nat) (output : List Term) (times : Nat) (mind : Mind)
    {ledger : Ledger} (represents : mind.beliefs.Represents ledger) {number : Int64}
    (counts : mind.beliefs.CountsAt count number)
    (fits : number.toInt + times ≤ Int64.maxValue.toInt) :
    ∃ last total, total.toInt = number.toInt + times ∧
      agent.callTimes (depth + 1) (.atom tick) times ⟨.empty, output, mind⟩ =
        some (List.replicate times (.ok Truth.one), ⟨.empty, output, last⟩) ∧
      last.beliefs.CountsAt count total ∧
      BeliefBase.SameBeside (false, count) mind.beliefs last.beliefs := by
  induction times generalizing mind ledger number with
  | zero => exact ⟨mind, number, (Int.add_zero _).symm, rfl, counts, .refl _ _⟩
  | succ times ih =>
      have step : ((times + 1 : Nat) : Int) = 1 + times := by
        omega
      rw [step, ← Int.add_assoc] at fits ⊢
      have inRange : InRange (number.toInt + 1) := by
        have within := in_range_word number
        rw [Int64.toInt_maxValue] at fits
        unfold InRange at within ⊢
        omega
      have isNext := inRange.to_int_of_int
      obtain ⟨⟨later, stillRepresents⟩, stillCounts, beside⟩ :=
        Mind.counted_counts represents counts (.ofInt (number.toInt + 1))
      rw [← isNext] at fits ⊢
      obtain ⟨last, total, isTotal, called, countsLast, besideLast⟩ :=
        ih (mind.counted count number _).recordRule stillRepresents stillCounts fits
      refine ⟨last, total, isTotal, ?_, countsLast, beside.trans besideLast⟩
      rw [callTimes, call_ticking built only counts isNext]
      dsimp only
      rw [called]
      rfl

end Ticking

/-- Let an agent have the one rule that ticks under its path, and let its beliefs have the
one positive fact `count(number)` under theirs. Any number of calls that the count has
room for are all true, put out nothing, bind nothing and leave the count moved by that
number; nothing else among the beliefs changes. -/
theorem ticks_count (rules : List Rule) (beliefs : List Literal) (aggregation : Aggregation)
    (policy : Policy) (agent : Agent)
    (built : build (Registry.empty.registerAll rules) beliefs aggregation policy = .ok agent)
    (tick count : Path) (name : String)
    (only : rules.filter (fun rule => rule.path = tick) = [ticking tick count name])
    (history : List Request) (number : Int64)
    (counts : (BeliefBase.after history).CountsAt count number) (times : Nat)
    (fits : number.toInt + times ≤ Int64.maxValue.toInt) (depth : Nat) (output : List Term)
    (tally : Tally) :
    ∃ last total, total.toInt = number.toInt + times ∧
      agent.callTimes (depth + 1) (.atom tick) times
          ⟨.empty, output, ⟨BeliefBase.after history, tally⟩⟩ =
        some (List.replicate times (.ok Truth.one), ⟨.empty, output, last⟩) ∧
      last.beliefs.CountsAt count total ∧
      BeliefBase.SameBeside (false, count) (BeliefBase.after history) last.beliefs := by
  have represents := ((BeliefBase.Represents.cleared .empty).serve_all history).2
  exact calls_ticking built only depth output times ⟨BeliefBase.after history, tally⟩ represents
    counts fits

def clockwork : List Rule :=
  [.write (.atom ⟨"rest"⟩) [], ticking ⟨"tick"⟩ ⟨"count"⟩ "N"]

def clock : Agent where
  set := ⟨clockwork.map (Rule.linked (numbersOf clockwork)),
    ⟨[(⟨"rest"⟩, [0]), (⟨"tick"⟩, [1])]⟩⟩
  aggregation := .sum
  policy := .bestScore
  beliefs := .empty

/-- The count stands between other facts, one of them its own negation, and a single
element is kept under its path. -/
def wound : List Request :=
  [.add (.ofArguments ⟨"owner"⟩ [.value (.string "Ada")]),
    .add (counting ⟨"count"⟩ (.value (.int 41))),
    .add ((counting ⟨"count"⟩ (.value (.int 41))).withNegated true),
    .putSingle ⟨"count"⟩ (.value (.int 7))]

theorem clock_ticks_twice :
    build (Registry.empty.registerAll clockwork) [] .sum .bestScore = .ok clock ∧
      clockwork.filter (fun rule => rule.path = ⟨"tick"⟩) =
        [ticking ⟨"tick"⟩ ⟨"count"⟩ "N"] ∧
      (BeliefBase.after wound).CountsAt ⟨"count"⟩ 41 ∧
      (41 : Int64).toInt + (2 : Nat) ≤ Int64.maxValue.toInt ∧
      ∃ last total, total.toInt = 43 ∧
        clock.callTimes 1 (.atom ⟨"tick"⟩) 2 ⟨.empty, [], ⟨BeliefBase.after wound, .zero⟩⟩ =
          some ([.ok Truth.one, .ok Truth.one], ⟨.empty, [], last⟩) ∧
        last.beliefs.CountsAt ⟨"count"⟩ total ∧
        BeliefBase.SameBeside (false, ⟨"count"⟩) (BeliefBase.after wound) last.beliefs := by
  have built : build (Registry.empty.registerAll clockwork) [] .sum .bestScore = .ok clock := by
    cbv
  have only : clockwork.filter (fun rule => rule.path = ⟨"tick"⟩) =
      [ticking ⟨"tick"⟩ ⟨"count"⟩ "N"] := by
    cbv
  have counts : (BeliefBase.after wound).CountsAt ⟨"count"⟩ 41 := ⟨false, by cbv⟩
  have fits : (41 : Int64).toInt + (2 : Nat) ≤ Int64.maxValue.toInt := by
    decide
  exact ⟨built, only, counts, fits, ticks_count clockwork [] .sum .bestScore clock built ⟨"tick"⟩
    ⟨"count"⟩ "N" only wound 41 counts 2 fits 0 [] .zero⟩

end Agent

end Deliberation
