import Deliberation.Process.Basic
import Deliberation.Step.Run

/-!
# Steps as processes

A step has its frame and its output to itself, which make up an attempt, and meets other
runs in the mind alone. A query asks the beliefs anew in each tier. With the parallel hint
its guard is tried on all binding sets at the same time, and any set accepted or fault met
may be taken; the trials themselves go without the hint. Every other step that is no rule
and no call uses the mind in one access.
-/

namespace Deliberation

set_option autoImplicit false

structure Attempt where
  frame : Frame
  output : List Term

def Attempt.beside (attempt : Attempt) (mind : Mind) : State :=
  ⟨attempt.frame, attempt.output, mind⟩

def State.attempt (state : State) : Attempt :=
  ⟨state.frame, state.output⟩

abbrev Course := Attempt → Process (Outcome × Attempt)

namespace Course

def oneAccess (action : Action) : Course := fun attempt =>
  .access
    (fun mind =>
      match action (attempt.beside mind) with
      | none => mind
      | some (_, after) => after.mind)
    fun mind =>
      match action (attempt.beside mind) with
      | none => .short
      | some (outcome, after) => .done (outcome, after.attempt)

/-- The course under a schedule, with the mind to itself. -/
def under (schedule : Schedule) (course : Course) : Action := fun state =>
  ((course state.attempt).run schedule state.mind).map fun ended =>
    (ended.1.1, ended.1.2.beside ended.2.1)

end Course

/-- The binding sets of the first of some tiers that finds any, each tier with the facts of
its time. -/
def findSets (goal : Literal) : List Tier → Process (List Bindings)
  | [] => .done []
  | tier :: rest =>
      .access id fun mind =>
        match mind.beliefs.matches tier goal with
        | [] => findSets goal rest
        | set :: sets => .done (set :: sets)

/-- What comes of a guard in a copy of the frame; a set that it rejects comes to nothing. -/
def trySet (guard : Course) (frame : Frame) (set : Bindings) :
    Process (Option (Except Fault Bindings)) :=
  (guard ⟨frame.commit set, []⟩).map fun ended =>
    match ended with
    | (.error fault, _) => some (.error fault)
    | (.ok _, after) => if accepting after.output then some (.ok set) else none

def chooseSet (guard : Option Course) (parallel : Bool) (frame : Frame) (sets : List Bindings) :
    Process (Except Fault (Option Bindings)) :=
  match guard with
  | none => .done (.ok sets.head?)
  | some guard =>
      (Process.each Option.isSome parallel (sets.map (trySet guard frame))).bind fun trials =>
        match trials.filterMap id with
        | [] => .done (.ok none)
        | first :: others => (Process.anyOf first others).map (Except.map some)

def unifyCourse (goal : Literal) (guard : Option Course) (parallel : Bool) : Course :=
  fun attempt =>
    (findSets (attempt.frame.instantiate goal) Tier.all).bind fun sets =>
      (chooseSet guard parallel attempt.frame sets).bind fun choice =>
        match choice with
        | .error fault => .done (.error fault, attempt)
        | .ok none => .access (·.recordUnify false) fun _ => .done (.ok Truth.zero, attempt)
        | .ok (some set) =>
            .access (·.recordUnify true) fun _ =>
              .done (.ok Truth.one, { attempt with frame := attempt.frame.commit set })

mutual

def Step.course (call : Bool → Proxy → Course) (parallel : Bool) : Step → Course
  | .raw term => Course.oneAccess (runRaw term)
  | .belief change literal => Course.oneAccess (runBelief change literal)
  | .test goal none => unifyCourse goal none parallel
  | .test goal (some guard) => unifyCourse goal (some (guard.course call false)) parallel
  | .call literal => fun attempt => .done (.error (.unlinked literal), attempt)
  | .expression body => Course.oneAccess (runExpression body)
  | .increment direction name => Course.oneAccess (runIncrement direction name)
  | .rule _ steps => Step.allCourse call parallel steps Truth.one
  | .proxy target => call parallel target
  | .scripted script => Course.oneAccess (runScript script)

def Step.allCourse (call : Bool → Proxy → Course) (parallel : Bool) : List Step → Truth → Course
  | [], truth => fun attempt => .done (.ok truth, attempt)
  | step :: rest, truth => fun attempt =>
      (step.course call parallel attempt).bind fun ended =>
        match ended with
        | (.error fault, after) => .done (.error fault, after)
        | (.ok next, after) =>
            if (truth * next).value then Step.allCourse call parallel rest (truth * next) after
            else .done (.ok (truth * next), after)

end

end Deliberation
