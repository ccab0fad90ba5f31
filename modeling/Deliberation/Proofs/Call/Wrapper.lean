import Deliberation.Proofs.Call.Assignment
import Deliberation.Proofs.Call.Faults
import Deliberation.Proofs.Call.Isolation
import Deliberation.Proofs.Call.Parameters
import Deliberation.Proofs.Truth

/-!
# Calls through a wrapper

A wrapper is a rule that passes its parameters on to another path and does nothing else.
A call of it is matched, run and answered through one more frame, and all that shows of
this is one more execution in the tally. It has the mind to itself in between, so every
schedule does with the inner call within it what it does with the inner call alone.
-/

namespace Deliberation

set_option autoImplicit false

theorem Candidate.export_names_sublist (frame : Frame) (exports : Bindings) :
    ((exports.filterMap (Candidate.export? frame)).map Prod.fst).Sublist
      (exports.map Prod.fst) := by
  induction exports with
  | nil => exact List.Sublist.refl _
  | cons wanted rest ih =>
      cases found : Candidate.export? frame wanted with
      | none =>
          rw [List.filterMap_cons_none found]
          exact ih.cons _
      | some answer =>
          rw [List.filterMap_cons_some found, List.map_cons, List.map_cons,
            ((Candidate.export_eq_some_iff ..).mp found).1]
          exact ih.cons_cons _

/-- Answers to a call: raw values for its unbound leaves, in their order. -/
structure Fitting (call : Literal) (answers : Bindings) : Prop where
  names : (answers.map Prod.fst).Sublist (call.leaves.filterMap Term.unbound?)
  values : ∀ answer ∈ answers, ∃ raw, answer.2 = .value raw

theorem Fitting.none (call : Literal) : Fitting call [] :=
  ⟨List.nil_sublist _, fun _ member => absurd member List.not_mem_nil⟩

theorem Candidate.Ready.exports_fit {frame : Frame} {candidate : Candidate}
    (ready : candidate.Ready frame) {literal : Literal}
    (met : candidate.rule.identifier.matchHead? literal = some candidate.head) (last : Frame)
    (raw : last.Raw) :
    Fitting literal (candidate.head.exports.filterMap (Candidate.export? last)) := by
  refine ⟨?_, fun answer isAnswer => (ready.exports_fill raw answer isAnswer).2⟩
  refine (Candidate.export_names_sublist last candidate.head.exports).trans ?_
  rw [Literal.match_head_exports_eq met]
  exact HeadMatch.wanted_names_sublist _ _

theorem Links.entry_raw {links : Bindings} (simple : Links.Simple links) (names : List String) :
    (Links.entryFrame links names).Raw := by
  refine (with_variables_raw names).commit fun binding member => ?_
  obtain ⟨isLink, isBound⟩ := List.mem_filter.mp member
  rcases simple binding isLink with isValue | ⟨name, isFree⟩
  · exact isValue
  · simp [isFree, Term.unbound?] at isBound

theorem Frame.instantiate_with_ordered (frame : Frame) (literal : Literal) (marked : Bool) :
    frame.instantiate (literal.withOrdered marked) =
      (frame.instantiate literal).withOrdered marked := by
  rcases literal with ⟨functor, negated, ordered, arguments, annotations⟩
  rw [instantiate, instantiate, Literal.withOrdered, instantiateFrom, instantiateFrom]
  split_ifs <;> rfl

/-- A rule that passes its parameters on to another path. -/
def wrapper (marked ordered : Bool) (outer inner : Path) (names : List String) : Rule :=
  .write ((Literal.ofArguments outer (names.map .variable)).withOrdered marked)
    [.call ((Literal.ofArguments inner (names.map .variable)).withOrdered ordered)]

/-- What becomes of the mind when a wrapper ends this way. -/
def Mind.wrapped (mind : Mind) : Outcome → Mind
  | .ok _ => mind.recordRule
  | .error _ => mind

theorem Mind.wrapped_beliefs (mind : Mind) (outcome : Outcome) :
    (mind.wrapped outcome).beliefs = mind.beliefs := by
  cases outcome <;> rfl

namespace Agent

variable {agent : Agent}

/-- A plain call from a raw frame gets answers that fit it. -/
theorem responding_fits (plainSet : agent.set.Plain) (literal : Literal) (numbers : List Nat)
    (plain : literal.isPlain = true) {frame : Frame} (raw : frame.Raw) (depth : Nat)
    (parallel ordered : Bool) :
    (agent.responding depth parallel ordered (frame.instantiate literal) numbers).Keeps Mind.Plain
      fun response => Fitting (frame.instantiate literal) response.answers ∧
        agent.SilentUnlessTrue response := by
  cases depth with
  | zero => trivial
  | succ depth =>
      refine responding_keeps (.none _) (fun candidate member => ?_) ordered
      have ready : candidate.Ready frame :=
        @lineup_ready agent plainSet ⟨literal, numbers⟩ plain frame raw candidate member
      have met := ((agent.mem_candidates_iff ..).mp ((agent.mem_lineup_iff ..).mp member)).2.2
      exact ready.course_keeps (performing_assigns_once plainSet depth) (ready.exports_fit met)
        parallel

section Wrapped

open Links

/-- The rule with this number is a linked wrapper with these parameters. -/
structure Wraps (agent : Agent) (number : Nat) (outer inner : Path) (ordered : Bool)
    (numbers : List Nat) (links : Bindings) (rule : Rule) : Prop where
  known : agent.set.rule? number = some rule
  identifier : ∃ marked,
    rule.identifier = (Literal.ofArguments outer (parameters links)).withOrdered marked
  steps : rule.steps =
    [.proxy ⟨(Literal.ofArguments inner (parameters links)).withOrdered ordered, numbers⟩]

variable {number : Nat} {outer inner : Path} {ordered : Bool} {numbers : List Nat}
  {links : Bindings} {rule : Rule}
  (wraps : agent.Wraps number outer inner ordered numbers links rule)
  (distinct : (links.map Prod.fst).Nodup)
  (simple : Simple links)

include wraps distinct simple

theorem Wraps.lineup :
    agent.lineup (.ofArguments outer (arguments links)) [number] =
      [⟨number, rule, ⟨given links, asked links⟩⟩] := by
  have found : Candidate.of? agent.set (.ofArguments outer (arguments links)) number =
      some ⟨number, rule, ⟨given links, asked links⟩⟩ := by
    obtain ⟨marked, identifier⟩ := wraps.identifier
    rw [Candidate.of_eq_some_iff, identifier]
    exact ⟨rfl, wraps.known, parameters_met distinct simple.flat outer⟩
  have single : agent.candidates (.ofArguments outer (arguments links)) [number] =
      [⟨number, rule, ⟨given links, asked links⟩⟩] :=
    List.filterMap_cons_some found
  unfold Agent.lineup
  rw [single]
  split <;> rfl

/-- The accesses of a wrapper are those of the inner call, and one that counts it. -/
theorem Wraps.course (depth : Nat) (parallel : Bool) :
    (Candidate.mk number rule ⟨given links, asked links⟩).course (agent.performing depth)
        parallel =
      (agent.responding depth parallel ordered (.ofArguments inner (links.map received))
        numbers).bind fun response =>
          match response.outcome with
          | .error fault => .done (.error fault)
          | .ok truth => .access Mind.recordRule fun _ =>
              .done (.ok ⟨truth, response.output, (asked links).filterMap (Candidate.export?
                ((entryFrame links rule.variableNames).commit response.answers))⟩) := by
  have passed : (entryFrame links rule.variableNames).instantiate
      ((Literal.ofArguments inner (parameters links)).withOrdered ordered) =
        (Literal.ofArguments inner (links.map received)).withOrdered ordered := by
    rw [Frame.instantiate_with_ordered,
      parameters_received distinct rule.variableNames simple inner]
  have performed := agent.performing_eq depth parallel
    ⟨(Literal.ofArguments inner (parameters links)).withOrdered ordered, numbers⟩
    ⟨entryFrame links rule.variableNames, []⟩
  rw [passed, responding_with_ordered] at performed
  have entry : (Candidate.mk number rule ⟨given links, asked links⟩).frame =
      entryFrame links rule.variableNames :=
    rfl
  rw [Candidate.course, wraps.steps, Step.allCourse, Step.course, entry]
  dsimp only
  rw [performed, Process.map_bind, Process.bind_assoc]
  refine congrArg (Process.bind · _) (funext fun response => ?_)
  rcases response with ⟨fault | truth, output, answers⟩
  · rfl
  · dsimp only [Response.deliver]
    rw [Truth.one_mul]
    cases truth.value <;> rfl

/-- Under a schedule a wrapper responds what the inner call does, and is counted once more. -/
theorem Wraps.responding_run (plainSet : agent.set.Plain) (depth : Nat) (parallel marked : Bool)
    {mind : Mind} (plain : mind.Plain) (schedule : Schedule) :
    (agent.responding (depth + 1) parallel marked (.ofArguments outer (arguments links))
        [number]).run schedule mind =
      ((agent.responding depth parallel ordered (.ofArguments inner (arguments links))
        numbers).run schedule mind).map fun ended =>
          (ended.1, ended.2.1.wrapped ended.1.outcome, ended.2.2) := by
  have relabeled := agent.responding_relabel (backTo links) simple.received_flat inner numbers depth
    parallel ordered
  rw [relabel_received distinct] at relabeled
  have passed := parameters_received distinct rule.variableNames simple inner
  have fits := responding_fits plainSet (.ofArguments inner (parameters links)) numbers
    (parameters_plain inner) (entry_raw simple rule.variableNames) depth parallel ordered
  rw [passed] at fits
  rw [agent.responding_single (wraps.lineup distinct simple), wraps.course distinct simple,
    Process.run_map, Process.run_bind, relabeled, Process.run_map]
  cases found : (agent.responding depth parallel ordered (.ofArguments inner (links.map received))
    numbers).run schedule mind with
  | none => rfl
  | some ended =>
      rcases ended with ⟨⟨fault | truth, output, answers⟩, last, rest⟩
      · obtain ⟨⟨_, silent⟩, _⟩ := fits.run plain found
        have isSilent := (silent fun truth isTruth => by cases isTruth).1
        obtain rfl : output = [] := congrArg Response.output isSilent
        obtain rfl : answers = [] := congrArg Response.answers isSilent
        rfl
      · obtain ⟨⟨fitting, silent⟩, _⟩ := fits.run plain found
        have toOpen := fitting.names
        rw [simple.received_flat.leaves, open_names_of_received] at toOpen
        have relayed := relayed_answers distinct rule.variableNames toOpen fitting.values
        dsimp only at relayed
        cases value : truth.value with
        | true =>
            simp only [Option.bind_some, Option.map_some, Process.run, relayed, Response.ofRun,
              value, if_true]
            rfl
        | false =>
            have isSilent := silent fun other isOther => by
              rw [← Except.ok.inj isOther]
              exact value
            obtain rfl : output = [] := congrArg Response.output isSilent.1
            obtain rfl : answers = [] := congrArg Response.answers isSilent.1
            simp only [Option.bind_some, Option.map_some, Process.run, Response.ofRun, value,
              Bool.false_eq_true, if_false, isSilent.2 truth rfl]
            rfl

end Wrapped

/-- A caller whose frame leaves the arguments as they are cannot tell the calls apart but
by the tally. -/
theorem Wraps.performing_under {number : Nat} {outer inner : Path} {ordered : Bool}
    {numbers : List Nat} {links : Bindings} {rule : Rule}
    (wraps : agent.Wraps number outer inner ordered numbers links rule)
    (distinct : (links.map Prod.fst).Nodup) (simple : Links.Simple links)
    (plainSet : agent.set.Plain) {state : State} (sound : state.Sound)
    (kept : ∀ functor, state.frame.instantiate (.ofArguments functor (Links.arguments links)) =
      .ofArguments functor (Links.arguments links)) (depth : Nat) (parallel marked : Bool)
    (schedule : Schedule) :
    (agent.performing (depth + 1) parallel
        ⟨(Literal.ofArguments outer (Links.arguments links)).withOrdered marked,
          [number]⟩).under schedule state =
      ((agent.performing depth parallel
        ⟨(Literal.ofArguments inner (Links.arguments links)).withOrdered ordered,
          numbers⟩).under schedule state).map fun ended =>
            (ended.1, { ended.2 with mind := ended.2.mind.wrapped ended.1 }) := by
  rw [Agent.performing_under, Agent.performing_under, reportUnder, reportUnder,
    Frame.instantiate_with_ordered, Frame.instantiate_with_ordered, kept, kept,
    responding_with_ordered, responding_with_ordered,
    wraps.responding_run distinct simple plainSet depth parallel _ sound.plain, Option.map_map,
    Option.map_map, Option.map_map, Option.map_map]
  rfl

section Built

variable {rules : List Rule} {beliefs : List Literal} {aggregation : Aggregation}
  {policy : Policy}
  (built : build (Registry.empty.registerAll rules) beliefs aggregation policy = .ok agent)

include built

/-- Some rule of a built agent has the path of each call in its rules. -/
theorem built_calls_known {rule : Rule} (member : rule ∈ rules) {literal : Literal}
    (calls : literal ∈ rule.placeholders) : ¬∀ other ∈ rules, other.path ≠ literal.functor := by
  have linked := built_link built
  have indexed := Registry.registered_indexed rules
  rw [indexed.link_eq, Registry.registered_rules] at linked
  split at linked
  next => cases linked
  next allKnown =>
    have known := List.find?_eq_none.mp allKnown literal
      (List.mem_flatMap.mpr ⟨rule, member, calls⟩)
    simpa using known

theorem built_wraps {marked ordered : Bool} {outer inner : Path} {links : Bindings}
    (only : rules.filter (fun rule => rule.path = outer) =
      [wrapper marked ordered outer inner (links.map Prod.fst)]) :
    ∃ number, numbersOf rules outer = [number] ∧
      agent.Wraps number outer inner ordered (numbersOf rules inner) links
        ((wrapper marked ordered outer inner (links.map Prod.fst)).linked (numbersOf rules)) := by
  have leads := rules_of_numbers rules outer
  rw [only] at leads
  obtain ⟨number, isNumber, isRule⟩ := List.map_eq_singleton_iff.mp leads
  have sameParameters : (links.map Prod.fst).map Term.variable = Links.parameters links :=
    List.map_map
  refine ⟨number, isNumber, ?_, ⟨marked, ?_⟩, ?_⟩
  · rw [built_set built, RuleSet.rule?, List.getElem?_map, isRule]
    rfl
  · rw [wrapper, sameParameters]
    rfl
  · rw [wrapper, sameParameters]
    rfl

theorem call_course_known {functor : Path} (known : ¬∀ rule ∈ rules, rule.path ≠ functor)
    (ordered : Bool) (terms : List Term) (depth : Nat) (parallel : Bool) :
    agent.callCourse depth parallel ((Literal.ofArguments functor terms).withOrdered ordered) =
      agent.performing depth parallel
        ⟨(Literal.ofArguments functor terms).withOrdered ordered, numbersOf rules functor⟩ := by
  have numbers : numbersOf rules ((Literal.ofArguments functor terms).withOrdered ordered).functor ≠
      [] := by
    rw [Ne, numbers_of_eq_nil_iff]
    exact known
  rw [callCourse, built_proxy built, if_neg numbers]
  rfl

/-- Arguments that a call can hand on: raw values and variables without a value. -/
def Passable (frame : Frame) (terms : List Term) : Prop :=
  ∀ term ∈ terms, (∃ raw, term = .value raw) ∨
    ∃ name, term = .variable name ∧ frame.value? name = none

omit built in
theorem Passable.kept {frame : Frame} {terms : List Term} (passable : Passable frame terms)
    (functor : Path) :
    frame.instantiate (.ofArguments functor terms) = .ofArguments functor terms := by
  have plain : ∀ term ∈ terms, term.isPlain = true := by
    intro term member
    rcases passable term member with ⟨raw, rfl⟩ | ⟨name, rfl, _⟩
    · rfl
    · rfl
  have resolved : terms.map frame.resolve = terms.map id := by
    refine List.map_congr_left fun term member => ?_
    rcases passable term member with ⟨raw, rfl⟩ | ⟨name, rfl, unallocated⟩
    · rw [Frame.resolve, Frame.resolveFrom]
      rfl
    · exact Frame.resolve_absent unallocated
  rw [frame.instantiate_arguments functor plain, resolved, List.map_id]

theorem call_through_wrapper {marked ordered : Bool} {outer inner : Path} {names : List String}
    (distinct : names.Nodup)
    (only : rules.filter (fun rule => rule.path = outer) =
      [wrapper marked ordered outer inner names])
    (plainSet : agent.set.Plain) {state : State} (sound : state.Sound) {terms : List Term}
    (sameLength : names.length = terms.length) (passable : Passable state.frame terms)
    (called parallel : Bool) (schedule : Schedule) :
    (agent.callCourse 0 parallel
        ((Literal.ofArguments outer terms).withOrdered called)).under schedule state = none ∧
      ∀ depth, (agent.callCourse (depth + 1) parallel
          ((Literal.ofArguments outer terms).withOrdered called)).under schedule state =
        ((agent.callCourse depth parallel
          ((Literal.ofArguments inner terms).withOrdered ordered)).under schedule state).map
            fun ended => (ended.1, { ended.2 with mind := ended.2.mind.wrapped ended.1 }) := by
  obtain ⟨links, rfl, rfl⟩ : ∃ links : Bindings, links.map Prod.fst = names ∧
      Links.arguments links = terms :=
    ⟨names.zip terms, List.map_fst_zip (Nat.le_of_eq sameLength),
      List.map_snd_zip (Nat.le_of_eq sameLength.symm)⟩
  have simple : Links.Simple links := by
    intro link member
    exact (passable link.2 (List.mem_map_of_mem member)).imp id
      fun ⟨name, isFree, _⟩ => ⟨name, isFree⟩
  obtain ⟨number, isNumber, wraps⟩ := built_wraps built only
  have member : wrapper marked ordered outer inner (links.map Prod.fst) ∈
      rules.filter fun rule => rule.path = outer := by
    rw [only]
    exact List.mem_singleton_self _
  have isRule := (List.mem_filter.mp member).1
  have outerKnown : ¬∀ rule ∈ rules, rule.path ≠ outer := by
    rw [← numbers_of_eq_nil_iff, isNumber]
    exact List.cons_ne_nil _ _
  have innerKnown : ¬∀ rule ∈ rules, rule.path ≠ inner :=
    built_calls_known built isRule List.mem_cons_self
  constructor
  · rw [call_course_known built outerKnown]
    rfl
  · intro depth
    rw [call_course_known built outerKnown, call_course_known built innerKnown, isNumber]
    exact wraps.performing_under distinct simple plainSet sound passable.kept depth parallel called
      schedule

/-- With one rule for its path, which passes distinct parameters on to an inner path, a
call from a sound state cannot be told from the call of the inner path with the same
arguments, raw values or variables without a value. If either ends under a schedule, so does
the other, with the same outcome, frame, output and beliefs. -/
theorem wrapper_transparent {marked ordered : Bool} {outer inner : Path} {names : List String}
    (distinct : names.Nodup)
    (only : rules.filter (fun rule => rule.path = outer) =
      [wrapper marked ordered outer inner names])
    (plainSet : agent.set.Plain) (state : State) (sound : state.Sound) (terms : List Term)
    (sameLength : names.length = terms.length) (passable : Passable state.frame terms)
    (called parallel : Bool) (schedule : Schedule)
    (outcome : Outcome) (frame : Frame) (output : List Term) (left : BeliefBase) :
    (∃ depth tally, (agent.callCourse depth parallel
        ((Literal.ofArguments outer terms).withOrdered called)).under schedule state =
          some (outcome, ⟨frame, output, ⟨left, tally⟩⟩)) ↔
      ∃ depth tally, (agent.callCourse depth parallel
        ((Literal.ofArguments inner terms).withOrdered ordered)).under schedule state =
          some (outcome, ⟨frame, output, ⟨left, tally⟩⟩) := by
  obtain ⟨short, through⟩ := call_through_wrapper built distinct only plainSet sound sameLength
    passable called parallel schedule
  constructor
  · rintro ⟨_ | depth, tally, ended⟩
    · rw [short] at ended
      cases ended
    · rw [through, Option.map_eq_some_iff] at ended
      obtain ⟨⟨innerOutcome, ⟨innerFrame, innerOutput, mind⟩⟩, innerEnded, same⟩ := ended
      obtain ⟨rfl, sameState⟩ := Prod.mk.inj same
      obtain ⟨rfl, rfl, sameMind⟩ := State.mk.inj sameState
      have sameBeliefs : mind.beliefs = left := by
        rw [← mind.wrapped_beliefs innerOutcome, sameMind]
      exact ⟨depth, mind.tally, by rw [innerEnded, ← sameBeliefs]⟩
  · rintro ⟨depth, tally, ended⟩
    refine ⟨depth + 1, (Mind.wrapped ⟨left, tally⟩ outcome).tally, ?_⟩
    rw [through, ended]
    cases outcome <;> rfl

end Built

/-- A wrapper of the pairs that are answered from the stock. -/
def dealings : List Rule :=
  [wrapper false false ⟨"deal"⟩ ⟨"pair"⟩ ["First", "Second"], stocked, restock]

def dealer : Agent where
  set := ⟨dealings.map (Rule.linked (numbersOf dealings)),
    ⟨[(⟨"deal"⟩, [0]), (⟨"pair"⟩, [1, 2])]⟩⟩
  aggregation := .sum
  policy := .aggregateAll
  beliefs := .empty

/-- `R` stands at both places. Within the wrapper the rule that takes into stock has the
first turn, and `R` is answered 3 by the other. -/
theorem deal_transparent :
    build (Registry.empty.registerAll dealings) [] .sum .aggregateAll = .ok dealer ∧
      ["First", "Second"].Nodup ∧
      dealings.filter (fun rule => rule.path = ⟨"deal"⟩) =
        [wrapper false false ⟨"deal"⟩ ⟨"pair"⟩ ["First", "Second"]] ∧
      dealer.set.Plain ∧ State.Sound ⟨.withVariables ["R"], [], dealer.start⟩ ∧
      Passable (.withVariables ["R"]) [.variable "R", .variable "R"] ∧
      ∃ depth tally, (dealer.callCourse depth false
        ((Literal.ofArguments ⟨"deal"⟩ [.variable "R", .variable "R"]).withOrdered
          true)).under [[1]] ⟨.withVariables ["R"], [], dealer.start⟩ =
          some (.ok Truth.one, ⟨⟨[("R", some (.value (.int 3)))]⟩, [],
            ⟨(BeliefBase.empty.add (stock (.value (.int 3)))).2, tally⟩⟩) := by
  have built : build (Registry.empty.registerAll dealings) [] .sum .aggregateAll =
      .ok dealer := by
    cbv
  have distinct : ["First", "Second"].Nodup := by
    decide
  have only : dealings.filter (fun rule => rule.path = ⟨"deal"⟩) =
      [wrapper false false ⟨"deal"⟩ ⟨"pair"⟩ ["First", "Second"]] := by
    cbv
  have plainSet : dealer.set.Plain := by
    intro rule member
    rcases List.mem_cons.mp member with rfl | later
    · exact ⟨by decide, by decide⟩
    · rcases List.mem_cons.mp later with rfl | last
      · exact ⟨by decide, by decide⟩
      · obtain rfl := List.mem_singleton.mp last
        exact ⟨by decide, by decide⟩
  have sound : State.Sound ⟨.withVariables ["R"], [], dealer.start⟩ := by
    refine ⟨with_variables_raw ["R"], ?_⟩
    constructor
    · decide
    · decide
  have passable : Passable (.withVariables ["R"]) [.variable "R", .variable "R"] := by
    intro term member
    have isR : term = .variable "R" := by simpa using member
    exact .inr ⟨"R", isR, Frame.with_variables_value ["R"] "R"⟩
  refine ⟨built, distinct, only, plainSet, sound, passable, ?_⟩
  refine (wrapper_transparent built distinct only plainSet _ sound _ rfl passable true false [[1]]
    _ _ _ _).mpr ⟨1, ⟨1, 1, 2⟩, ?_⟩
  cbv

end Agent

end Deliberation
