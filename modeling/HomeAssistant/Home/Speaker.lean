import HomeAssistant.Home.System

/-!
# What is played

The command server shares the board with three other tasks, serves one client after another, and
hands to the speaker every message that does not read as a command. Whatever the order of the steps,
what has come to the speaker is these messages, whole and in their order, but for the last one while
it waits to be handled (`speaker_eq`).
-/

namespace HomeAssistant

open Audio Machine

namespace Audio

instance (m : Bytes) : Decidable (m ∈ commandTexts) :=
  decidable_of_iff (∃ c ∈ [Command.eden, .ll1, .dl1, .ll2, .dl2], c.text = m) <| by
    refine ⟨fun ⟨c, _, hc⟩ => ⟨c, hc⟩, fun ⟨c, hc⟩ => ⟨c, ?_, hc⟩⟩
    cases c <;> decide

/-- What a message gives to the speaker: nothing if it reads as a command, and all of it if not. -/
def played (m : Bytes) : Bytes := if cstr m ∈ commandTexts then [] else m

/-- The task has received a message and has not handled it. -/
def ServerTask.owes : ServerTask → Bool
  | .handle _ _ _ _ | .faulted _ => true
  | _ => false

/-- Of the messages that the task has received, those that it has handled. -/
def ServerTask.handled (t : ServerTask) (ms : List Bytes) : List Bytes :=
  if t.owes then ms.dropLast else ms

theorem speaker_act (m : Bytes) (b : Board) :
    (act (cstr m) m b).speaker = b.speaker ++ played m := by
  by_cases h : cstr m ∈ commandTexts
  · rw [speaker_act_of_mem h, played, if_pos h, List.append_nil]
  · rw [act_of_notMem h, played, if_neg h]
    rfl

/-- A message that has been received reads as its C string, and its bytes are the ones handed on. -/
theorem of_receive_eq_ok {buffer buffer' : Buffer bufferSize} {m : Bytes}
    (h : receive buffer m = .ok buffer') :
    buffer'.str = cstr m ∧ buffer'.bytes.take m.length = m := by
  have hlen : m.length < bufferSize := by
    refine (buffer.terminate_ne_outOfBounds_iff m).1 ?_
    rw [show buffer.terminate m = .ok buffer' from h]
    nofun
  obtain ⟨_, hreceive, hstr, htake⟩ := receive_eq buffer hlen
  cases h.symm.trans hreceive
  exact ⟨hstr, htake⟩

/-- The task has handled `done` of the messages `ms` that it has received: all of them, or all but
the last, which is in its buffer. -/
def ServerTask.HasHandled (done ms : List Bytes) : ServerTask → Prop
  | .handle _ _ buffer n => ∃ m, ms = done ++ [m] ∧ buffer.str = cstr m ∧ buffer.bytes.take n = m
  | .faulted _ => ∃ m, ms = done ++ [m]
  | _ => ms = done

theorem ServerTask.HasHandled.eq {done ms : List Bytes} {t : ServerTask}
    (h : t.HasHandled done ms) : t.handled ms = done := by
  cases t with
  | handle | faulted =>
    obtain ⟨m, rfl, -⟩ := h
    exact List.dropLast_concat
  | openSocket | bind | listen | accept | recv | deleted => exact h

/-- The message that a step of the server receives. -/
def ServerEvent.message : ServerEvent → List Bytes
  | .recv (some m) => [m]
  | _ => []

/-- **A step of the server** receives a message, or handles the one it has received, or leaves the
speaker alone. -/
theorem hasHandled_of_serverStep {b b' : Board} {t t' : ServerTask} {e : ServerEvent}
    {start : Bytes} {done ms : List Bytes} (h : t.HasHandled done ms)
    (hspeaker : b.speaker = start ++ done.flatMap played) (hs : ServerStep b t e b' t') :
    ∃ done', t'.HasHandled done' (ms ++ e.message) ∧
      b'.speaker = start ++ done'.flatMap played := by
  cases hs with
  | socketFails | socket | bindFails | bind | listenFails | listen | acceptFails | accept
    | disconnect => exact ⟨done, (List.append_nil ms).trans h, hspeaker⟩
  | @recv sock client buffer m hm =>
    refine ⟨done, ?_, hspeaker⟩
    have hms : ms = done := h
    cases hreceive : receive buffer m with
    | ok buffer' => exact ⟨m, by rw [hms]; rfl, of_receive_eq_ok hreceive⟩
    | error f => exact ⟨m, by rw [hms]; rfl⟩
  | handle sock client buffer n =>
    obtain ⟨m, rfl, hstr, htake⟩ := h
    refine ⟨done ++ [m], List.append_nil _, ?_⟩
    rw [dispatch, hstr, htake, speaker_act, hspeaker, List.flatMap_append, List.flatMap_singleton,
      List.append_assoc]

end Audio

namespace Home

theorem speaker_of_udpStep {b b' : Board} {t t' : UdpTask} {e : TaskEvent}
    (hs : UdpStep b t e b' t') : b'.speaker = b.speaker := by
  cases hs <;> rfl

theorem speaker_of_tcpStep {b b' : Board} {t t' : TcpTask} {e : TaskEvent}
    (hs : TcpStep b t e b' t') : b'.speaker = b.speaker := by
  cases hs <;> rfl

theorem speaker_of_mqttStep {b b' : Board} {t t' : Mqtt.Task} {e : Mqtt.TaskEvent}
    (hs : t.step b e = some (b', t')) : b'.speaker = b.speaker := by
  obtain ⟨p, v, ws, -, -, rfl, -⟩ | ⟨-, rfl, -⟩ | ⟨-, rfl | ⟨topic, rfl⟩, -⟩ :=
    Mqtt.Task.step_cases hs <;> rfl

/-- The message that a step receives. -/
def message : HomeEvent → List Bytes
  | .server e => e.message
  | _ => []

/-- What has come to the speaker is what the server has handled of the messages `ms`. -/
def Plays (b : Board) (ms : List Bytes) (h : Home) : Prop :=
  ∃ done, h.server.HasHandled done ms ∧ h.board.speaker = b.speaker ++ done.flatMap played

variable {b : Board} {ms : List Bytes} {h h' : Home} {e : HomeEvent} {es : List HomeEvent}

/-- **Every step plays** what it handles. -/
theorem Plays.step (hplays : h.Plays b ms) (hstep : h.step e = some h') :
    h'.Plays b (ms ++ message e) := by
  obtain ⟨done, hdone, hspeaker⟩ := hplays
  cases step_iff.1 hstep with
  | udp hs =>
    refine ⟨done, ?_, (speaker_of_udpStep hs).trans hspeaker⟩
    exact (List.append_nil ms).symm ▸ hdone
  | tcp hs =>
    refine ⟨done, ?_, (speaker_of_tcpStep hs).trans hspeaker⟩
    exact (List.append_nil ms).symm ▸ hdone
  | server hs => exact hasHandled_of_serverStep hdone hspeaker hs
  | mqtt hs =>
    refine ⟨done, ?_, (speaker_of_mqttStep hs).trans hspeaker⟩
    exact (List.append_nil ms).symm ▸ hdone

theorem Plays.run (hrun : run Home.step (start b) es = some h) :
    h.Plays b (es.flatMap message) := by
  refine run_induction (H := fun es h => h.Plays b (es.flatMap message)) ?_ ?_ hrun
  · exact ⟨[], rfl, (List.append_nil _).symm⟩
  · intro pre e t t' _ hplays hstep
    rw [List.flatMap_append, List.flatMap_singleton]
    exact hplays.step hstep

/-- **What has come to the speaker**: in every run the messages that are no commands, whole and in
the order in which they were received, up to the last message that has been handled. -/
theorem speaker_eq (hrun : run step (start b) es = some h) :
    h.board.speaker = b.speaker ++ (h.server.handled (es.flatMap message)).flatMap played := by
  obtain ⟨done, hdone, hspeaker⟩ := Plays.run hrun
  rw [hdone.eq, hspeaker]

/-- Audio, a command and audio, over two connections. -/
theorem speaker_two_connections :
    ∃ h, run step (start .initial)
      [.server (.socket (some 3)), .server (.bind true), .server (.listen true),
        .server (.accept (some (4, .zeros bufferSize))), .server (.recv (some [1, 0, 2])),
        .server .tick, .server (.recv (some (ascii "ll1"))), .server .tick,
        .server (.recv none), .server (.accept (some (4, .zeros bufferSize))),
        .server (.recv (some [3])), .server .tick, .server (.recv (some [4]))] = some h ∧
      h.board.speaker = [1, 0, 2, 3] := by
  obtain ⟨h, hrun, hserver⟩ : ∃ h, run step (start .initial)
      [.server (.socket (some 3)), .server (.bind true), .server (.listen true),
        .server (.accept (some (4, .zeros bufferSize))), .server (.recv (some [1, 0, 2])),
        .server .tick, .server (.recv (some (ascii "ll1"))), .server .tick,
        .server (.recv none), .server (.accept (some (4, .zeros bufferSize))),
        .server (.recv (some [3])), .server .tick, .server (.recv (some [4]))] = some h ∧
      h.server.owes = true := ⟨_, rfl, rfl⟩
  refine ⟨h, hrun, (speaker_eq hrun).trans ?_⟩
  rw [ServerTask.handled, if_pos hserver]
  decide

end Home

end HomeAssistant
