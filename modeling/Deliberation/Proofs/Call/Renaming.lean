import Deliberation.Proofs.Call.Response
import Deliberation.Proofs.Match.Head
import Deliberation.Proofs.Term.Shape

/-!
# The names in a call are labels

Calling with other names for the unbound variables, even with one name for several of
them, finds the same candidates, which run alike. Only the answers are given to the new
names, in the same order. The literals here have leaves for arguments.
-/

namespace Deliberation

set_option autoImplicit false

variable (rename : String → String)

def Term.relabel : Term → Term
  | .variable name => .variable (rename name)
  | term => term

def relabelNames (bindings : Bindings) : Bindings :=
  bindings.map fun binding => (rename binding.1, binding.2)

def HeadMatch.relabel (head : HeadMatch) : HeadMatch :=
  { head with exports := relabelNames rename head.exports }

def Candidate.relabel (candidate : Candidate) : Candidate :=
  { candidate with head := candidate.head.relabel rename }

def Completion.relabel (completed : Completion) : Completion :=
  { completed with exports := relabelNames rename completed.exports }

def Response.relabel (response : Response) : Response :=
  { response with answers := relabelNames rename response.answers }

/-- None of these arguments has leaves of its own. -/
def Flat (terms : List Term) : Prop :=
  ∀ term ∈ terms, ∀ inner, term ≠ .literal inner

theorem Flat.relabel {terms : List Term} (flat : Flat terms) :
    Flat (terms.map (Term.relabel rename)) := by
  intro term member inner
  obtain ⟨old, isOld, rfl⟩ := List.mem_map.mp member
  cases old with
  | literal other => exact absurd rfl (flat _ isOld other)
  | value | «variable» | bound => simp [Term.relabel]

theorem Flat.leaves {terms : List Term} (flat : Flat terms) (functor : Path) :
    (Literal.ofArguments functor terms).leaves = terms := by
  have single : terms.flatMap Term.leaves = terms.flatMap fun term => [term] := by
    refine List.flatMap_congr fun term member => ?_
    cases term with
    | literal inner => exact absurd rfl (flat _ member inner)
    | value | «variable» | bound => rfl
  rw [Literal.leaves_eq]
  exact single.trans (List.flatMap_singleton' terms)

/-- The value shape shows no more of leaves than their number. -/
theorem Flat.value_shape_eq {left right : List Term} (flatLeft : Flat left)
    (flatRight : Flat right) (sameLength : left.length = right.length) (functor : Path) :
    (Literal.ofArguments functor left).valueShape =
      (Literal.ofArguments functor right).valueShape := by
  have marks : ∀ terms, Flat terms → Term.allMarks terms = List.replicate terms.length .leaf := by
    intro terms flat
    rw [Term.all_marks_eq, ← List.map_const', List.map_eq_flatMap]
    refine List.flatMap_congr fun term member => ?_
    cases term with
    | literal inner => exact absurd rfl (flat _ member inner)
    | value | «variable» | bound => rfl
  rw [Literal.valueShape, Literal.valueShape]
  simp only [Literal.ofArguments, Literal.arity, Literal.arguments, marks left flatLeft,
    marks right flatRight, sameLength]
  cases left with
  | nil => rw [List.eq_nil_of_length_eq_zero sameLength.symm]
  | cons => cases right with
    | nil => simp at sameLength
    | cons => rfl

namespace HeadMatch

theorem meet_relabel (found : HeadMatch) (pattern call : Term) :
    (found.relabel rename).meet? pattern (call.relabel rename) =
      (found.meet? pattern call).map (HeadMatch.relabel rename) := by
  unfold meet?
  cases free : call.unbound? with
  | some name =>
      obtain rfl := (unbound_eq_some_iff ..).mp free
      simp [Term.unbound?, Term.relabel, relabel, relabelNames]
  | none =>
      have kept : call.relabel rename = call := by
        cases call with
        | «variable» name => simp [Term.unbound?] at free
        | value | bound | literal => rfl
      rw [kept, free]
      dsimp only
      cases pattern.unbound? with
      | none =>
          dsimp only
          split_ifs <;> rfl
      | some name =>
          dsimp only [relabel]
          cases findBinding name found.bindings with
          | none => rfl
          | some earlier =>
              dsimp only
              split_ifs <;> rfl

theorem meet_all_relabel (leaves terms : List Term) (found : HeadMatch) :
    meetAll? (leaves.zip (terms.map (Term.relabel rename))) (found.relabel rename) =
      (meetAll? (leaves.zip terms) found).map (HeadMatch.relabel rename) := by
  induction leaves generalizing terms found with
  | nil => rfl
  | cons leaf rest ih =>
      cases terms with
      | nil => rfl
      | cons term others =>
          rw [List.map_cons, List.zip_cons_cons, List.zip_cons_cons, meetAll?, meetAll?,
            meet_relabel]
          cases found.meet? leaf term with
          | none => rfl
          | some next => exact ih others next

end HeadMatch

theorem Literal.match_head_flat {terms : List Term} (flat : Flat terms) (pattern : Literal)
    (functor : Path) :
    pattern.matchHead? (.ofArguments functor terms) =
      if pattern.functor = functor ∧ pattern.negated = false ∧
          pattern.matchesValue .rotating (.ofArguments functor terms) = true then
        HeadMatch.meetAll? (pattern.leaves.zip terms) .empty
      else none := by
  rw [matchHead?, argument_leaves_eq, argument_leaves_eq, flat.leaves]
  rfl

theorem Literal.match_head_relabel {terms : List Term} (flat : Flat terms) (pattern : Literal)
    (functor : Path) :
    pattern.matchHead? (.ofArguments functor (terms.map (Term.relabel rename))) =
      (pattern.matchHead? (.ofArguments functor terms)).map (HeadMatch.relabel rename) := by
  have shapes := (flat.relabel rename).value_shape_eq flat (List.length_map _) functor
  have admits :
      pattern.matchesValue .rotating (.ofArguments functor (terms.map (Term.relabel rename))) =
        pattern.matchesValue .rotating (.ofArguments functor terms) := by
    rw [matchesValue, matchesValue, value_digest_of_shape .rotating shapes]
  rw [match_head_flat (flat.relabel rename), match_head_flat flat, admits]
  split_ifs
  · exact HeadMatch.meet_all_relabel rename _ _ .empty
  · rfl

namespace Candidate

theorem export_relabel (frame : Frame) (wanted : String × Term) :
    export? frame (rename wanted.1, wanted.2) =
      (export? frame wanted).map fun answer => (rename answer.1, answer.2) := by
  simp only [export?]
  cases frame.resolve wanted.2 <;> rfl

theorem exports_relabel (frame : Frame) (exports : Bindings) :
    (relabelNames rename exports).filterMap (export? frame) =
      relabelNames rename (exports.filterMap (export? frame)) := by
  rw [relabelNames, relabelNames, List.filterMap_map, List.map_filterMap]
  exact List.filterMap_congr fun wanted _ => export_relabel rename frame wanted

theorem of_relabel {terms : List Term} (flat : Flat terms) (set : RuleSet) (functor : Path)
    (number : Nat) :
    of? set (.ofArguments functor (terms.map (Term.relabel rename))) number =
      (of? set (.ofArguments functor terms) number).map (Candidate.relabel rename) := by
  rw [of?, of?]
  cases set.rule? number with
  | none => rfl
  | some rule =>
      dsimp only
      rw [Literal.match_head_relabel rename flat]
      cases rule.identifier.matchHead? (.ofArguments functor terms) <;> rfl

theorem course_relabel (call : Bool → Proxy → Course) (parallel : Bool) (candidate : Candidate) :
    (candidate.relabel rename).course call parallel =
      (candidate.course call parallel).map (Except.map (Completion.relabel rename)) := by
  have sameFrame : (candidate.relabel rename).frame = candidate.frame := rfl
  have sameRule : (candidate.relabel rename).rule = candidate.rule := rfl
  rw [course, course, sameFrame, sameRule, Process.bind_map]
  refine congrArg (Process.bind · _) (funext fun ended => ?_)
  rcases ended with ⟨fault | truth, after⟩
  · rfl
  · have answers := exports_relabel rename after.frame candidate.head.exports
    exact congrArg (fun answers => Process.access Mind.recordRule fun _ =>
      Process.done (Except.ok (Completion.mk truth after.output answers))) answers

end Candidate

theorem rank_candidates_map (change : Candidate → Candidate)
    (sameNumber : ∀ candidate, (change candidate).number = candidate.number)
    (score : Nat → Float) (candidates : List Candidate) :
    rankCandidates score (candidates.map change) =
      (rankCandidates score candidates).map change := by
  rw [rank_candidates_eq, rank_candidates_eq]
  apply stable_sort_map
  intro left right
  rw [scoresAsHigh, scoresAsHigh, sameNumber, sameNumber]

section Responses

theorem first_relabel (results : List (Except Fault Completion)) :
    Response.first (results.map (Except.map (Completion.relabel rename))) =
      (Response.first results).relabel rename := by
  have same : (decides ∘ Except.map (Completion.relabel rename)) = decides :=
    funext fun ended => by cases ended <;> rfl
  rw [Response.first, Response.first, List.find?_map, same]
  rcases results.find? decides with _ | ⟨fault | completion⟩ <;> rfl

theorem of_all_relabel (completions : List Completion) :
    Response.ofAll (completions.map (Completion.relabel rename)) =
      (Response.ofAll completions).relabel rename := by
  have successes : (completions.map (Completion.relabel rename)).filter
      (fun completed => completed.truth.value) =
        (completions.filter fun completed => completed.truth.value).map
          (Completion.relabel rename) := by
    rw [List.filter_map]
    rfl
  have truths : disjoin (completions.map (Completion.relabel rename)) = disjoin completions := by
    rw [disjoin, List.foldl_map]
    rfl
  unfold Response.ofAll
  rw [successes, truths]
  cases completions.filter fun completed => completed.truth.value with
  | nil => rfl
  | cons first others =>
      have outputs : (others.map (Completion.relabel rename)).flatMap Completion.output =
          others.flatMap Completion.output := by
        rw [List.flatMap_map]
        rfl
      exact congrArg (fun output => Response.mk (.ok (disjoin completions)) (first.output ++ output)
        (relabelNames rename first.exports)) outputs

theorem collect_relabel (results : List (Except Fault Completion)) :
    collect (results.map (Except.map (Completion.relabel rename))) =
      (collect results).map (Except.map (List.map (Completion.relabel rename))) := by
  have faults : (results.map (Except.map (Completion.relabel rename))).filterMap fault? =
      results.filterMap fault? := by
    rw [List.filterMap_map]
    exact List.filterMap_congr fun ended _ => by cases ended <;> rfl
  have completions : (results.map (Except.map (Completion.relabel rename))).filterMap completion? =
      (results.filterMap completion?).map (Completion.relabel rename) := by
    rw [List.filterMap_map, List.map_filterMap]
    exact List.filterMap_congr fun ended _ => by cases ended <;> rfl
  rw [collect, collect, faults]
  cases results.filterMap fault? with
  | nil => exact congrArg (fun found => Process.done (Except.ok found)) completions
  | cons first others =>
      dsimp only
      rw [Process.map_map]
      rfl

variable (call : Bool → Proxy → Course) (parallel : Bool) (candidates : List Candidate)

theorem courses_relabel :
    (candidates.map (Candidate.relabel rename)).map (Candidate.course call parallel) =
      (candidates.map (Candidate.course call parallel)).map
        (Process.map (Except.map (Completion.relabel rename))) := by
  rw [List.map_map, List.map_map]
  exact List.map_congr_left fun candidate _ =>
    Candidate.course_relabel rename call parallel candidate

theorem respond_first_relabel :
    respondFirst call parallel (candidates.map (Candidate.relabel rename)) =
      (respondFirst call parallel candidates).map (Response.relabel rename) := by
  have same : (fun ended => decides (Except.map (Completion.relabel rename) ended)) = decides :=
    funext fun ended => by cases ended <;> rfl
  rw [respondFirst, respondFirst, courses_relabel, Process.in_turn_map, same, Process.map_map,
    Process.map_map]
  exact congrArg (Process.map · _) (funext (first_relabel rename))

theorem respond_every_relabel (ordered : Bool) :
    respondEvery call parallel ordered (candidates.map (Candidate.relabel rename)) =
      (respondEvery call parallel ordered candidates).map (Response.relabel rename) := by
  have same : (fun ended => isFault (Except.map (Completion.relabel rename) ended)) = isFault :=
    funext fun ended => by cases ended <;> rfl
  rw [respondEvery, respondEvery, completeCourse, completeCourse, courses_relabel, Process.each_map,
    same, Process.map_bind, Process.bind_map, Process.bind_map, Process.bind_map]
  refine congrArg (Process.bind · _) (funext fun results => ?_)
  rw [collect_relabel, Process.map_map, Process.map_map]
  refine congrArg (Process.map · _) (funext fun collected => ?_)
  cases collected with
  | error fault => rfl
  | ok completions => exact of_all_relabel rename completions

end Responses

namespace Agent

variable (agent : Agent) {terms : List Term} (flat : Flat terms) (functor : Path)
  (numbers : List Nat)

include flat

theorem candidates_relabel :
    agent.candidates (.ofArguments functor (terms.map (Term.relabel rename))) numbers =
      (agent.candidates (.ofArguments functor terms) numbers).map (Candidate.relabel rename) := by
  rw [candidates, candidates, List.map_filterMap]
  exact List.filterMap_congr fun number _ =>
    Candidate.of_relabel rename flat agent.set functor number

theorem lineup_relabel :
    agent.lineup (.ofArguments functor (terms.map (Term.relabel rename))) numbers =
      (agent.lineup (.ofArguments functor terms) numbers).map (Candidate.relabel rename) := by
  unfold lineup
  rw [agent.candidates_relabel rename flat]
  split
  next => exact rank_candidates_map (Candidate.relabel rename) (fun _ => rfl) agent.score _
  next => rfl

/-- Renaming the variables of a call renames those of its answers. -/
theorem responding_relabel (depth : Nat) (parallel ordered : Bool) :
    agent.responding depth parallel ordered
        (.ofArguments functor (terms.map (Term.relabel rename))) numbers =
      (agent.responding depth parallel ordered (.ofArguments functor terms) numbers).map
        (Response.relabel rename) := by
  cases depth with
  | zero => rfl
  | succ depth =>
      rw [responding, responding, agent.lineup_relabel rename flat]
      split_ifs
      · exact respond_every_relabel rename _ _ _ ordered
      · exact respond_first_relabel rename _ _ _

end Agent

end Deliberation
