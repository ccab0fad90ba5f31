import Deliberation.Step.Run

/-!
# Steps that stay in their frame

Four kinds of steps read the frame and nothing else. It settles how they end, what becomes
of it and what they put out; output that is there already stays in front, and the mind is
not touched. What follows from this is shown once for the four of them.
-/

namespace Deliberation

set_option autoImplicit false

/-- One end from each frame, whatever the output and the mind. -/
def Local (action : Action) : Prop :=
  ∀ frame, ∃ outcome last added, ∀ output mind,
    action ⟨frame, output, mind⟩ = some (outcome, ⟨last, output ++ added, mind⟩)

theorem Local.ends {action : Action} (isLocal : Local action) (state : State) :
    (action state).isSome = true := by
  obtain ⟨outcome, last, added, ended⟩ := isLocal state.frame
  rw [ended state.output state.mind]
  rfl

namespace Step

variable (call : Proxy → Action)

theorem raw_local (term : Term) : Local ((Step.raw term).run call) := by
  intro frame
  simp only [Step.run, runRaw]
  split
  next flag =>
    exact ⟨.ok (Truth.ofBool flag), frame, [.value (.bool flag)], fun _ _ => rfl⟩
  next => exact ⟨.ok Truth.one, frame, [frame.resolve _], fun _ _ => rfl⟩
  next => exact ⟨.ok Truth.one, frame, [frame.resolve _], fun _ _ => rfl⟩
  all_goals
    -- A variable puts out nothing, whatever it is resolved to.
    split
    next => exact ⟨.ok Truth.zero, frame, [], by simp⟩
    next => exact ⟨.ok Truth.zero, frame, [], by simp⟩
    next flag _ => exact ⟨.ok (Truth.ofBool flag), frame, [], by simp⟩
    next => exact ⟨.ok Truth.one, frame, [], by simp⟩
    next => exact ⟨.ok Truth.one, frame, [], by simp⟩

theorem expression_local (body : Expression) : Local ((Step.expression body).run call) := by
  intro frame
  simp only [Step.run, runExpression]
  cases body.evaluate frame with
  | ok content => exact ⟨.ok Truth.one, frame, [.value content], fun _ _ => rfl⟩
  | error problem => exact ⟨.error (.evaluation problem frame), frame, [], by simp⟩

theorem increment_local (direction : Increment) (name : String) :
    Local ((Step.increment direction name).run call) := by
  intro frame
  simp only [Step.run, runIncrement]
  cases direction.run name frame with
  | ok last => exact ⟨.ok Truth.one, last, [], by simp⟩
  | error problem => exact ⟨.error (.evaluation problem frame), frame, [], by simp⟩

theorem scripted_local (script : Script) : Local ((Step.scripted script).run call) := by
  intro frame
  simp only [Step.run, runScript]
  exact ⟨.ok script.verdict, frame, script.emitted, fun _ _ => rfl⟩

end Step

end Deliberation
