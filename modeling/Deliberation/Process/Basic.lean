import Deliberation.Step.State

/-!
# Processes

Some candidates of a call run at the same time and share the mind of their agent. So a run
is told here as a process: a tree of single accesses to the mind, between which others may
have theirs. An access changes the mind at once and goes on with the mind that it found.
Where several processes run at the same time, the process asks a schedule for their turns;
a turn is one access of one of them. With the last turn told, what is left runs in the order
of the list. As soon as a result stops the others, those not started yet may be dropped, and
the schedule may still start some of them. Results are kept in the order of the list.
-/

namespace Deliberation

set_option autoImplicit false

inductive Process (α : Type) where
  | done (result : α)
  /-- The nesting of calls granted does not suffice. -/
  | short
  | access (change : Mind → Mind) (next : Mind → Process α)
  | ask (next : List Nat → Process α)

/-- Answers to what a run asks; when they run out, an answer is empty. -/
abbrev Schedule := List (List Nat)

namespace Process

variable {α β : Type}

def bind (next : α → Process β) : Process α → Process β
  | .done result => next result
  | .short => .short
  | .access change rest => .access change fun mind => (rest mind).bind next
  | .ask rest => .ask fun answer => (rest answer).bind next

def map (change : α → β) (process : Process α) : Process β :=
  process.bind fun result => .done (change result)

/-- The run of a process alone with a mind, and what is left of the schedule. -/
def run : Process α → Schedule → Mind → Option (α × Mind × Schedule)
  | .done result, schedule, mind => some (result, mind, schedule)
  | .short, _, _ => none
  | .access change next, schedule, mind => (next mind).run schedule (change mind)
  | .ask next, [], mind => (next []).run [] mind
  | .ask next, answer :: later, mind => (next answer).run later mind

/-- One of several results, whichever the schedule takes. -/
def anyOf (first : α) (others : List α) : Process α :=
  if others.isEmpty then .done first
  else .ask fun answer => .done ((first :: others).getD (answer.headD 0) first)

end Process

/-- One of several processes at the same time. -/
structure Slot (α : Type) where
  started : Bool
  left : Process α

namespace Slot

variable {α β : Type}

def fresh (process : Process α) : Slot α :=
  ⟨false, process⟩

/-- One access of the process in the slot, which counts as started from then on. -/
def advance (next : Slot α → Process β) (slot : Slot α) : Process β :=
  match slot.left with
  | .done result => next ⟨true, .done result⟩
  | .short => .short
  | .access change rest => .access change fun mind => next ⟨true, rest mind⟩
  | .ask rest => .ask fun answer => next ⟨true, rest answer⟩

/-- It has come to its end, with a result that stops the others. -/
def hasStopped (stops : α → Bool) (slot : Slot α) : Bool :=
  match slot.left with
  | .done result => slot.started && stops result
  | _ => false

end Slot

namespace Process

variable {α : Type} (stops : α → Bool)

/-- What is left in the slots, in their order; once the others are stopped, a slot that has
not been started is dropped. -/
def finish : Bool → List (Slot α) → Process (List α)
  | _, [] => .done []
  | stopped, slot :: rest =>
      if stopped && !slot.started then finish stopped rest
      else slot.left.bind fun result =>
        (finish (stopped || stops result) rest).map (result :: ·)

def interleave : List Nat → List (Slot α) → Process (List α)
  | [], slots => finish stops (slots.any (Slot.hasStopped stops)) slots
  | turn :: turns, slots =>
      match slots[turn]? with
      | some slot => slot.advance fun next => interleave turns (slots.set turn next)
      | none => interleave turns slots

/-- One after the other, up to the first result that stops the others. -/
def inTurn (processes : List (Process α)) : Process (List α) :=
  finish stops false (processes.map Slot.fresh)

/-- At the same time, with turns from the schedule where there are two or more. -/
def together (processes : List (Process α)) : Process (List α) :=
  match processes with
  | [] | [_] => inTurn stops processes
  | _ => .ask fun turns => interleave stops turns (processes.map Slot.fresh)

def each (concurrent : Bool) (processes : List (Process α)) : Process (List α) :=
  if concurrent then together stops processes else inTurn stops processes

end Process

end Deliberation
