import HomeAssistant.Foundations.Machine
import HomeAssistant.Mqtt.Handler

/-!
# The MQTT handler as a task

The client library calls `mqtt_event_handler` from a task of its own. Each level that `turn_led`
sets is a step of that task; over one data event the steps are the handler (`run_dataEvent`).
-/

namespace HomeAssistant.Mqtt

open Machine

/-- What a step of the task learns: nothing, or an event, together with the allocator its handler
meets. -/
inductive TaskEvent
  | tick
  | event (malloc : (n : ℕ) → Option (Buffer n)) (e : Event)

/-- Where the task is: between two events, or with levels still to be set. -/
inductive Task
  | idle
  | writing (ws : List (Pin × Bool))
  | faulted (f : Fault)

/-- The task after the data of an event has been copied to a message. -/
def Task.copied {n : ℕ} : Except Fault (Buffer n) → Task
  | .ok message => .writing (turnLed message.str)
  | .error f => .faulted f

/-- One step of the task. -/
def Task.step (b : Board) : Task → TaskEvent → Option (Board × Task)
  | .idle, .event malloc (.data data) => some (b, .copied (copyMessage malloc data))
  | .idle, .event malloc e => some (((mqttEventHandler malloc e).exec b).2, .idle)
  | .writing ((p, v) :: ws), .tick => some (b.setLevel p v, .writing ws)
  | .writing [], .tick => some (b, .idle)
  | _, _ => none

/-- The steps of the task when no other runs. -/
def Task.alone (s : Board × Task) (e : TaskEvent) : Option (Board × Task) := s.2.step s.1 e

variable {b b' : Board}

/-- **What a step of the task can do**: set the next level, be done with setting levels, or take an
event, of which one subscribes and one leads to levels to be set. -/
theorem Task.step_cases {t t' : Task} {e : TaskEvent} (h : t.step b e = some (b', t')) :
    (∃ p v ws, t = .writing ((p, v) :: ws) ∧ e = .tick ∧ b' = b.setLevel p v ∧ t' = .writing ws) ∨
      (t = .writing [] ∧ b' = b ∧ t' = .idle) ∨
      t = .idle ∧ (b' = b ∨ ∃ topic, b' = b.subscribe topic) ∧
        (t' = .idle ∨ (∃ m, t' = .writing (turnLed m)) ∨ ∃ f, t' = .faulted f) := by
  revert h
  fun_cases Task.step b t e <;> intro h <;> cases h
  case case1 malloc data =>
    refine Or.inr (Or.inr ⟨rfl, Or.inl rfl, Or.inr ?_⟩)
    cases copyMessage malloc data with
    | ok message => exact Or.inl ⟨message.str, rfl⟩
    | error f => exact Or.inr ⟨f, rfl⟩
  case case2 malloc e hdata =>
    refine Or.inr (Or.inr ⟨rfl, ?_, Or.inl rfl⟩)
    cases e with
    | data data => exact absurd rfl (hdata data)
    | connected => exact Or.inr ⟨_, rfl⟩
    | _ => exact Or.inl rfl
  case case3 p v ws => exact Or.inl ⟨p, v, ws, rfl, rfl, rfl, rfl⟩
  case case4 => exact Or.inr (Or.inl ⟨rfl, rfl, rfl⟩)

theorem run_writing (ws : List (Pin × Bool)) (b : Board) :
    run Task.alone (b, .writing ws) (List.replicate (ws.length + 1) .tick) =
      some (b.setLevels ws, .idle) := by
  induction ws generalizing b with
  | nil => rfl
  | cons w ws ih =>
    obtain ⟨p, v⟩ := w
    rw [List.length_cons, List.replicate_succ, run_cons Task.alone rfl, Board.setLevels_cons]
    exact ih (b.setLevel p v)

/-- **Over one data event the task is the handler.** -/
theorem run_dataEvent {malloc : (n : ℕ) → Option (Buffer n)} {data : Bytes}
    (h : (mqttEventHandler malloc (.data data)).exec b = (.ok (), b')) :
    ∃ n, run Task.alone (b, .idle) (.event malloc (.data data) :: List.replicate n .tick) =
      some (b', .idle) := by
  cases hcopy : copyMessage malloc data with
  | error f =>
    simp only [mqttEventHandler, Eff.exec_bind, Eff.exec_lift, hcopy] at h
    cases h
  | ok message =>
    simp only [mqttEventHandler, Eff.exec_bind, Eff.exec_lift, hcopy, Eff.exec_update] at h
    cases h
    have hstep : Task.alone (b, .idle) (.event malloc (.data data)) =
        some (b, .writing (turnLed message.str)) := by
      show some (b, Task.copied (copyMessage malloc data)) = _
      rw [hcopy]
      rfl
    exact ⟨_, (run_cons _ hstep _).trans (run_writing _ b)⟩

end HomeAssistant.Mqtt
