import Deliberation.Proofs.Call.Composition
import Mathlib.Data.List.Sort

/-!
# The best score goes first

Candidates that are ranked stand by falling score, and those of one score as they were
listed. Both together leave one order, so a list of numbers matters to a call only
through the order of the numbers of each score. A call tries the ranked candidates one
after another, each from the mind that the one before it left, until one is true or
faults; whatever scored higher than the one that decides has been false by then.
-/

namespace Deliberation

set_option autoImplicit false

namespace Double

/-- A NaN stands above every number. -/
theorem rank_lt_of_nan {top other : Float} (isTop : isNaN top = true)
    (isNumber : isNaN other = false) : rank other < rank top := by
  have bounded : magnitude other ≤ infinityMagnitude := by
    simpa [isNaN] using isNumber
  rw [rank, rank, if_pos isTop, if_neg (by simp [isNumber])]
  split <;> simp only [Int.ofNat_eq_natCast] <;> omega

end Double

/-- The items whose score has this place. -/
def atPlace {α : Type} (score : α → Float) (place : Int) (items : List α) : List α :=
  items.filter fun item => decide (Double.rank (score item) = place)

def Candidate.atPlace (score : Nat → Float) : Int → List Candidate → List Candidate :=
  Deliberation.atPlace fun candidate => score candidate.number

/-- The candidates by falling score, those of each score as they stand. -/
structure Ranked (score : Nat → Float) (candidates tried : List Candidate) : Prop where
  falling : tried.Pairwise fun earlier later =>
    Double.rank (score later.number) ≤ Double.rank (score earlier.number)
  ties : ∀ place, Candidate.atPlace score place tried = Candidate.atPlace score place candidates

theorem rank_candidates_ranked (score : Nat → Float) (candidates : List Candidate) :
    Ranked score candidates (rankCandidates score candidates) := by
  rw [rank_candidates_eq]
  constructor
  · have inOrder : (stableSort (scoresAsHigh score) candidates).Pairwise
        fun earlier later => scoresAsHigh score earlier later = true := by
      apply stable_sort_in_order
      · intro left right
        simpa [scoresAsHigh] using Int.le_total _ _
      · intro first second third above below
        simp only [scoresAsHigh, decide_eq_true_eq] at above below ⊢
        exact below.trans above
    exact inOrder.imp fun high => of_decide_eq_true high
  · intro place
    refine stable_sort_filter (fun left right atLeft atRight => ?_) candidates
    simp only [scoresAsHigh, decide_eq_true_eq] at atLeft atRight ⊢
    omega

namespace Ranked

variable {score : Nat → Float} {candidates tried : List Candidate}

theorem mem_iff (ranked : Ranked score candidates tried) (candidate : Candidate) :
    candidate ∈ tried ↔ candidate ∈ candidates := by
  have same := ranked.ties (Double.rank (score candidate.number))
  have kept := congrArg (candidate ∈ ·) same
  simpa [Candidate.atPlace, atPlace] using kept

theorem higher_before {before behind : List Candidate} {decider candidate : Candidate}
    (ranked : Ranked score candidates (before ++ decider :: behind))
    (compatible : candidate ∈ candidates)
    (higher : Double.rank (score decider.number) < Double.rank (score candidate.number)) :
    candidate ∈ before := by
  have fromDecider := (List.pairwise_append.mp ranked.falling).2.1
  rcases List.mem_append.mp ((ranked.mem_iff candidate).mpr compatible) with first | onward
  · exact first
  · rcases List.mem_cons.mp onward with rfl | later
    · exact absurd higher (lt_irrefl _)
    · exact absurd higher (not_lt.mpr (List.rel_of_pairwise_cons fromDecider later))

theorem in_order (ranked : Ranked score candidates tried) :
    tried.Pairwise fun earlier later => scoresAsHigh score earlier later = true :=
  ranked.falling.imp fun high => decide_eq_true high

/-- Candidates that agree place by place are ranked alike. -/
theorem unique {others triedOthers : List Candidate} (ranked : Ranked score candidates tried)
    (rankedOthers : Ranked score others triedOthers)
    (same : ∀ place, Candidate.atPlace score place others =
      Candidate.atPlace score place candidates) :
    triedOthers = tried := by
  -- Either of two candidates may go first exactly when their scores have one place.
  have tiedPlace : ∀ candidate, tied (scoresAsHigh score) candidate = fun other =>
      decide (Double.rank (score other.number) = Double.rank (score candidate.number)) := by
    intro candidate
    funext other
    rw [tied, scoresAsHigh, scoresAsHigh, ← Bool.decide_and]
    apply decide_eq_decide.mpr
    omega
  have reflexive : ∀ candidate, scoresAsHigh score candidate candidate = true := by
    intro candidate
    exact decide_eq_true (Int.le_refl _)
  apply eq_of_in_order reflexive rankedOthers.in_order ranked.in_order
  intro candidate
  rw [tiedPlace]
  exact ((rankedOthers.ties _).trans (same _)).trans (ranked.ties _).symm

end Ranked

namespace Agent

variable (agent : Agent)

theorem candidates_at_place (place : Int) (call : Literal) (numbers : List Nat) :
    Candidate.atPlace agent.score place (agent.candidates call numbers) =
      agent.candidates call (atPlace agent.score place numbers) := by
  rw [Candidate.atPlace, atPlace, atPlace, candidates, candidates, List.filter_filterMap,
    List.filterMap_filter]
  refine List.filterMap_congr fun number _ => ?_
  cases found : Candidate.of? agent.set call number with
  | none => simp
  | some candidate =>
      obtain ⟨rfl, -, -⟩ := (Candidate.of_eq_some_iff ..).mp found
      simp [Option.filter]

/-- Candidates that end false one after another, from one mind to another. -/
inductive AllFalse : List Candidate → Mind → Mind → Prop where
  | nothing (mind : Mind) : AllFalse [] mind mind
  | next {candidate : Candidate} {rest : List Candidate} {mind last : Mind} {truth : Truth}
      {after : State} (ended : agent.Ends candidate.body (candidate.entry mind) (.ok truth) after)
      (fails : truth.value = false) (others : AllFalse rest after.mind.recordRule last) :
      AllFalse (candidate :: rest) mind last

/-- The report on candidates of which the first true or faulty one decides. -/
inductive Decides : List Candidate → Mind → Report → Prop where
  | won {before behind : List Candidate} {winner : Candidate} {mind between : Mind}
      {truth : Truth} {after : State} (failed : agent.AllFalse before mind between)
      (ended : agent.Ends winner.body (winner.entry between) (.ok truth) after)
      (holds : truth.value = true) :
      Decides (before ++ winner :: behind) mind
        (.of (winner.completion truth after) after.mind.recordRule)
  | faulted {before behind : List Candidate} {faulty : Candidate} {mind between : Mind}
      {fault : Fault} {after : State} (failed : agent.AllFalse before mind between)
      (ended : agent.Ends faulty.body (faulty.entry between) (.error fault) after) :
      Decides (before ++ faulty :: behind) mind (.silent (.error fault) after.mind)
  | lost {candidates : List Candidate} {mind last : Mind}
      (failed : agent.AllFalse candidates mind last) :
      Decides candidates mind (.silent (.ok Truth.zero) last)

variable {agent}

theorem Decides.behind_false {candidate : Candidate} {rest : List Candidate} {mind : Mind}
    {truth : Truth} {after : State} {report : Report}
    (ended : agent.Ends candidate.body (candidate.entry mind) (.ok truth) after)
    (fails : truth.value = false) (later : agent.Decides rest after.mind.recordRule report) :
    agent.Decides (candidate :: rest) mind report := by
  cases later with
  | won failed wins holds => exact .won (.next ended fails failed) wins holds
  | faulted failed faults => exact .faulted (.next ended fails failed) faults
  | lost failed => exact .lost (.next ended fails failed)

theorem decides_of_report_first {depth : Nat} {tried : List Candidate} {mind : Mind}
    {report : Report} (reported : reportFirst (agent.perform depth) tried mind = some report) :
    agent.Decides tried mind report := by
  induction tried generalizing mind with
  | nil =>
      obtain rfl := Option.some.inj reported
      exact .lost (.nothing mind)
  | cons candidate rest ih =>
      rw [reportFirst] at reported
      split at reported
      next => cases reported
      next fault last found =>
        obtain rfl := Option.some.inj reported
        obtain ⟨after, ended, rfl⟩ := (Candidate.run_error_iff ..).mp found
        exact .faulted (.nothing mind) ⟨depth, ended⟩
      next completed last found =>
        obtain ⟨truth, after, ended, rfl, rfl⟩ := (Candidate.run_ok_iff ..).mp found
        split_ifs at reported with holds
        · obtain rfl := Option.some.inj reported
          exact .won (.nothing mind) ⟨depth, ended⟩ holds
        · exact (ih reported).behind_false ⟨depth, ended⟩ ((Bool.not_eq_true _).mp holds)

theorem AllFalse.passed {before : List Candidate} {mind between : Mind}
    (failed : agent.AllFalse before mind between) :
    ∃ depth, ∀ deeper, depth ≤ deeper → ∀ rest,
      reportFirst (agent.perform deeper) (before ++ rest) mind =
        reportFirst (agent.perform deeper) rest between := by
  induction failed with
  | nothing mind => exact ⟨0, fun _ _ _ => rfl⟩
  | @next candidate others mind last truth after ended fails _ ih =>
      obtain ⟨headDepth, head⟩ := ended.from_depth
      obtain ⟨restDepth, passed⟩ := ih
      -- One depth serves all runs, the greatest of theirs.
      refine ⟨max headDepth restDepth, fun deeper deep rest => ?_⟩
      have first := head deeper ((Nat.le_max_left ..).trans deep)
      have found := (Candidate.run_ok_iff ..).mpr ⟨truth, after, first, rfl, rfl⟩
      rw [List.cons_append, reportFirst, found]
      simp only [Candidate.completion, fails, Bool.false_eq_true, if_false]
      exact passed deeper ((Nat.le_max_right ..).trans deep) rest

theorem Decides.reported {tried : List Candidate} {mind : Mind} {report : Report}
    (decided : agent.Decides tried mind report) :
    ∃ depth, reportFirst (agent.perform depth) tried mind = some report := by
  cases decided with
  | @won before behind winner _ between truth after failed ended holds =>
      obtain ⟨passedDepth, passed⟩ := failed.passed
      obtain ⟨lastDepth, last⟩ := ended.from_depth
      refine ⟨max passedDepth lastDepth, ?_⟩
      have wins := last _ (Nat.le_max_right passedDepth lastDepth)
      have found := (Candidate.run_ok_iff ..).mpr ⟨truth, after, wins, rfl, rfl⟩
      rw [passed _ (Nat.le_max_left ..), reportFirst, found]
      exact if_pos holds
  | @faulted before behind faulty _ between fault after failed ended =>
      obtain ⟨passedDepth, passed⟩ := failed.passed
      obtain ⟨lastDepth, last⟩ := ended.from_depth
      refine ⟨max passedDepth lastDepth, ?_⟩
      have faults := last _ (Nat.le_max_right passedDepth lastDepth)
      have found := (Candidate.run_error_iff ..).mpr ⟨after, faults, rfl⟩
      rw [passed _ (Nat.le_max_left ..), reportFirst, found]
  | lost failed =>
      obtain ⟨depth, passed⟩ := failed.passed
      refine ⟨depth, ?_⟩
      rw [← List.append_nil tried, passed depth (Nat.le_refl depth), reportFirst]

variable (agent)

theorem ends_iff_decides (byScore : agent.policy = .bestScore) (target : Proxy)
    (state after : State) (outcome : Outcome) :
    agent.Ends (.proxy target) state outcome after ↔
      ∃ report, agent.Decides
        (rankCandidates agent.score
          (agent.candidates (state.frame.instantiate target.literal) target.candidates))
        state.mind report ∧ report.deliver state = (outcome, after) := by
  have reported : ∀ depth call numbers mind, agent.report (depth + 1) call numbers mind =
      reportFirst (agent.perform depth)
        (rankCandidates agent.score (agent.candidates call numbers)) mind := by
    intro depth call numbers mind
    simp only [report, lineup, byScore, reduceCtorEq, if_false]
  simp only [ends_proxy_iff, perform_some_iff]
  constructor
  · rintro ⟨depth, report, found, delivered⟩
    cases depth with
    | zero => cases found
    | succ depth =>
        rw [reported] at found
        exact ⟨report, decides_of_report_first found, delivered⟩
  · rintro ⟨report, decided, delivered⟩
    obtain ⟨depth, found⟩ := decided.reported
    exact ⟨depth + 1, report, (reported ..).trans found, delivered⟩

/-- A rule of score 2 that fails once it has put a term out. -/
def choosy : Rule :=
  .write (pair (.variable "X") (.variable "Y"))
    [.raw (.variable "X"), .test (stock (.value (.int 9))) none]

/-- A rule of score 1, as is `half`. -/
def quick : Rule :=
  .write (pair (.variable "X") (.variable "Y")) [.raw (.variable "X")]

def trader : Agent :=
  { broker half with set := ⟨[choosy, half, quick], ⟨[(⟨"pair"⟩, [0, 1, 2])]⟩⟩
                     policy := .bestScore }

/-- One of the three, met by the call `pair(R, R)`. -/
def met (number : Nat) (rule : Rule) : Candidate :=
  ⟨number, rule, ⟨[], [("R", .variable "X"), ("R", .variable "Y")]⟩⟩

end Agent

end Deliberation
