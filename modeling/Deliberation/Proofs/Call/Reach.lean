import Deliberation.Proofs.Call.Assignment
import Deliberation.Proofs.Call.Started

/-!
# Single assignment over whole runs

Soundness is handed down from a run to every run that it starts, whether or not they
end. So the frame of each run that is reached, down to the candidates of nested
calls, has its slots assigned once.
-/

namespace Deliberation

set_option autoImplicit false

namespace Agent

section Plain

variable {agent : Agent} (plainSet : agent.set.Plain)

include plainSet

/-- What a plain run in a sound state starts is plain, and starts in a sound state. -/
theorem starts_sound {outer inner : Step × State} (starts : agent.Starts outer inner)
    (plain : outer.1.isPlain = true) (sound : outer.2.Sound) :
    inner.1.isPlain = true ∧ inner.2.Sound := by
  cases starts with
  | @trial goal guard state _ inTurn =>
      dsimp only at plain sound
      rw [Step.isPlain, Bool.and_eq_true] at plain
      have ready : ∀ set ∈ state.mind.beliefs.bindingSets (state.frame.instantiate goal),
          (state.frame.commit set).Raw :=
        fun set found => ((sound.fills plain.1 found).commit sound.raw).2
      have reached := agent.starts_in_invariant (fun mind => mind.beliefs.Plain) ?_ inTurn
        sound.plain
      · rcases reached with ⟨set, found, mind, plainMind, rfl⟩
        exact ⟨plain.2, ready set found, plainMind⟩
      · intro set found mind plainMind outcome after next ended hands
        have kept := ends_keeps plainSet plain.2 ⟨ready set found, plainMind⟩ ended
        rw [trials_hand_on hands]
        exact kept.sound.plain
  | @member identifier steps state _ inTurn =>
      dsimp only at plain sound
      rw [Step.isPlain, Step.all_plain_iff] at plain
      have reached := agent.starts_in_invariant (fun carried => carried.2.Sound) ?_ inTurn sound
      · rcases reached with ⟨step, isMember, carried, entry, rfl⟩
        exact ⟨plain step isMember, entry⟩
      · intro step isMember carried entry outcome after next ended hands
        have kept := ends_keeps plainSet (plain step isMember) entry ended
        rw [members_hand_on hands]
        exact kept.sound
  | @candidate target state _ inTurn =>
      dsimp only at plain sound
      have ready := lineup_ready plainSet plain sound.raw
      have reached := agent.starts_in_invariant (fun mind => mind.beliefs.Plain) ?_ inTurn
        sound.plain
      · rcases reached with ⟨candidate, inLine, mind, plainMind, rfl⟩
        have first := ready candidate inLine
        exact ⟨first.plain, first.raw, plainMind⟩
      · intro candidate inLine mind plainMind outcome after next ended hands
        have first := ready candidate inLine
        have entry : (candidate.entry mind).Sound := ⟨first.raw, plainMind⟩
        have kept := ends_keeps plainSet first.plain entry ended
        rw [contenders_hand_on hands]
        exact kept.sound.plain

theorem reaches_sound {outer inner : Step × State} (reaches : agent.Reaches outer inner)
    (plain : outer.1.isPlain = true) (sound : outer.2.Sound) :
    inner.1.isPlain = true ∧ inner.2.Sound := by
  induction reaches with
  | refl => exact ⟨plain, sound⟩
  | tail _ starts ih => exact starts_sound plainSet starts ih.1 ih.2

end Plain

/-- Slots are assigned once. A plain step that moves no counter of its own leaves every
slot that was allocated as it was, whichever way it ends; and every run that it
reaches starts sound and does the same for its own frame, its counters aside. -/
theorem single_assignment (agent : Agent) (plainSet : agent.set.Plain) (step : Step)
    (plain : step.isPlain = true) (uncounted : step.counters = []) (state : State)
    (sound : state.Sound) :
    (∀ outcome after, agent.Ends step state outcome after → state.Keeps [] after) ∧
    ∀ inner entry, agent.Reaches (step, state) (inner, entry) →
      entry.Sound ∧ ∀ outcome after, agent.Ends inner entry outcome after →
        entry.Keeps inner.counters after := by
  constructor
  · intro outcome after ended
    have kept := ends_keeps plainSet plain sound ended
    rw [uncounted] at kept
    exact kept
  · intro inner entry reaches
    have reached := reaches_sound plainSet reaches plain sound
    refine ⟨reached.2, ?_⟩
    intro outcome after ended
    exact ends_keeps plainSet reached.1 reached.2 ended

/-- An agent that believes in a stock of 3 and has one rule, which counts up. -/
def shop : Agent where
  set := ⟨[.write (.ofArguments ⟨"tick"⟩ [.variable "X"]) [.increment .up "X"]],
    PathIndex.empty.push ⟨"tick"⟩ 0⟩
  aggregation := .sum
  policy := .firstMatch
  beliefs := (BeliefBase.empty.add (.ofArguments ⟨"stock"⟩ [.value (.int 3)])).2

def askStock : Step :=
  .test (.ofArguments ⟨"stock"⟩ [.variable "A"]) (some (.raw (.value (.bool true))))

def tickStock : Proxy :=
  ⟨.ofArguments ⟨"tick"⟩ [.variable "A"], [0]⟩

def visit : Step :=
  .rule (.atom ⟨"visit"⟩) [askStock, .proxy tickStock]

def opening : State :=
  ⟨⟨[("A", none), ("B", some (.value (.int 5)))]⟩, [], shop.start⟩

def closing : State :=
  ⟨⟨[("A", some (.value (.int 3))), ("B", some (.value (.int 5)))]⟩, [],
    ⟨shop.beliefs, ⟨1, 1, 1⟩⟩⟩

def stockTicker : Candidate :=
  ⟨0, .write (.ofArguments ⟨"tick"⟩ [.variable "X"]) [.increment .up "X"],
    ⟨[("X", .value (.int 3))], []⟩⟩

/-- The called rule counts its own `X` up, while `A`, bound before, stays as it was. -/
theorem visit_assigns_once :
    shop.set.Plain ∧ opening.Sound ∧
      (shop.Ends visit opening (.ok Truth.one) closing ∧ opening.Keeps [] closing) ∧
      shop.Reaches (visit, opening)
        (stockTicker.body, stockTicker.entry ⟨shop.beliefs, ⟨1, 1, 0⟩⟩) ∧
      ∀ outcome after,
        shop.Ends stockTicker.body (stockTicker.entry ⟨shop.beliefs, ⟨1, 1, 0⟩⟩) outcome after →
          (stockTicker.entry ⟨shop.beliefs, ⟨1, 1, 0⟩⟩).Keeps ["X"] after := by
  have plainSet : shop.set.Plain := by
    intro rule member
    rw [List.mem_singleton.mp member]
    constructor
    · decide
    · decide
  have sound : opening.Sound := by
    constructor
    · apply Frame.Raw.of_slots
      simp [opening]
    · constructor
      · decide
      · decide
  have ended : shop.Ends visit opening (.ok Truth.one) closing := by
    refine ⟨1, ?_⟩
    with_unfolding_all rfl
  have asked : shop.Ends askStock opening (.ok Truth.one)
      ⟨closing.frame, [], ⟨shop.beliefs, ⟨1, 1, 0⟩⟩⟩ := by
    refine ⟨0, ?_⟩
    with_unfolding_all rfl
  have called : shop.Starts (visit, opening)
      (.proxy tickStock, ⟨closing.frame, [], ⟨shop.beliefs, ⟨1, 1, 0⟩⟩⟩) :=
    .member (.later asked rfl (.here ..))
  have inOrder : shop.lineup (closing.frame.instantiate tickStock.literal) tickStock.candidates =
      [stockTicker] := by
    with_unfolding_all rfl
  have reached : shop.Reaches (visit, opening)
      (stockTicker.body, stockTicker.entry ⟨shop.beliefs, ⟨1, 1, 0⟩⟩) := by
    apply Relation.ReflTransGen.tail (.single called)
    apply Starts.candidate
    dsimp only
    rw [inOrder]
    exact .here stockTicker [] _
  have once := single_assignment shop plainSet visit (by decide) rfl opening sound
  exact ⟨plainSet, sound, ⟨ended, once.1 _ _ ended⟩, reached, (once.2 _ _ reached).2⟩

end Agent

end Deliberation
