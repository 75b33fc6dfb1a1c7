import HomeAssistant.Audio.ServerTask
import HomeAssistant.Audio.StreamTasks
import HomeAssistant.Mqtt.Task

/-!
# The tasks together

The two streaming tasks, the command server and the MQTT handler run side by side on one board. A
run of the assistant is any interleaving of their steps. `Home.Steps` lists what a step can do;
whatever the order of the steps, the flag is 2 while the TCP task is in an attempt to record
(`Home.FlagHeld.step`).
-/

namespace HomeAssistant

open Audio

/-- The board and its tasks. -/
structure Home where
  board : Board
  udp : UdpTask
  tcp : TcpTask
  server : ServerTask
  mqtt : Mqtt.Task

/-- A step of one of the tasks. -/
inductive HomeEvent
  | udp (e : TaskEvent)
  | tcp (e : TaskEvent)
  | server (e : ServerEvent)
  | mqtt (e : Mqtt.TaskEvent)

namespace Home

/-- All tasks at their start. -/
def start (b : Board) : Home := ⟨b, .openFirst, .check, .openSocket, .idle⟩

/-- One step of the assistant. -/
def step (h : Home) : HomeEvent → Option Home
  | .udp e => (h.udp.step h.board e).map fun s => { h with board := s.1, udp := s.2 }
  | .tcp e => (h.tcp.step h.board e).map fun s => { h with board := s.1, tcp := s.2 }
  | .server e => (h.server.step h.board e).map fun s => { h with board := s.1, server := s.2 }
  | .mqtt e => (h.mqtt.step h.board e).map fun s => { h with board := s.1, mqtt := s.2 }

/-- The steps of the assistant. -/
inductive Steps : Home → HomeEvent → Home → Prop
  | udp {h : Home} {e b t} (hs : UdpStep h.board h.udp e b t) :
    Steps h (.udp e) { h with board := b, udp := t }
  | tcp {h : Home} {e b t} (hs : TcpStep h.board h.tcp e b t) :
    Steps h (.tcp e) { h with board := b, tcp := t }
  | server {h : Home} {e b t} (hs : ServerStep h.board h.server e b t) :
    Steps h (.server e) { h with board := b, server := t }
  | mqtt {h : Home} {e b t} (hs : h.mqtt.step h.board e = some (b, t)) :
    Steps h (.mqtt e) { h with board := b, mqtt := t }

variable {h h' : Home} {e : HomeEvent}

/-- **What a step of the assistant can do.** -/
theorem step_iff : h.step e = some h' ↔ Steps h e h' := by
  constructor
  · intro h
    cases e with
    | udp e =>
      obtain ⟨⟨b, t⟩, hs, rfl⟩ := Option.map_eq_some_iff.1 h
      exact .udp (UdpTask.step_iff.1 hs)
    | tcp e =>
      obtain ⟨⟨b, t⟩, hs, rfl⟩ := Option.map_eq_some_iff.1 h
      exact .tcp (TcpTask.step_iff.1 hs)
    | server e =>
      obtain ⟨⟨b, t⟩, hs, rfl⟩ := Option.map_eq_some_iff.1 h
      exact .server (ServerTask.step_iff.1 hs)
    | mqtt e =>
      obtain ⟨⟨b, t⟩, hs, rfl⟩ := Option.map_eq_some_iff.1 h
      exact .mqtt hs
  · intro hs
    cases hs with
    | udp hs => exact Option.map_eq_some_iff.2 ⟨_, UdpTask.step_iff.2 hs, rfl⟩
    | tcp hs => exact Option.map_eq_some_iff.2 ⟨_, TcpTask.step_iff.2 hs, rfl⟩
    | server hs => exact Option.map_eq_some_iff.2 ⟨_, ServerTask.step_iff.2 hs, rfl⟩
    | mqtt hs => exact Option.map_eq_some_iff.2 ⟨_, hs, rfl⟩

/-! ## The flag -/

theorem semaforo_of_udpStep {b b' : Board} {t t' : UdpTask} {e : TaskEvent}
    (hs : UdpStep b t e b' t') : b'.semaforo = b.semaforo := by
  cases hs <;> rfl

theorem semaforo_act (message chunk : Bytes) (b : Board) :
    (act message chunk b).semaforo = if message = ascii "eden" then 2 else b.semaforo := by
  unfold act
  split_ifs <;> rfl

/-- The server is about to carry out an `eden`. -/
def handlesEden (t : ServerTask) (e : ServerEvent) : Bool :=
  match t, e with
  | .handle _ _ buffer _, .tick => buffer.str = ascii "eden"
  | _, _ => false

/-- The server changes the flag by an `eden` only. -/
theorem semaforo_of_serverStep {b b' : Board} {t t' : ServerTask} {e : ServerEvent}
    (hs : ServerStep b t e b' t') :
    b'.semaforo = if handlesEden t e then 2 else b.semaforo := by
  cases hs
  case handle sock client buffer n =>
    rw [dispatch, semaforo_act]
    simp only [handlesEden, decide_eq_true_eq]
  all_goals rfl

theorem semaforo_of_mqttStep {b b' : Board} {t t' : Mqtt.Task} {e : Mqtt.TaskEvent}
    (hs : t.step b e = some (b', t')) : b'.semaforo = b.semaforo := by
  obtain ⟨p, v, ws, -, -, rfl, -⟩ | ⟨-, rfl, -⟩ | ⟨-, rfl | ⟨topic, rfl⟩, -⟩ :=
    Mqtt.Task.step_cases hs <;> rfl

/-- A step of the TCP task into an attempt, or within it, finds the flag at 2. -/
theorem semaforo_of_tcpStep {b b' : Board} {t t' : TcpTask} {e : TaskEvent}
    (h : ¬ t.Ended → b.semaforo = 2) (hs : TcpStep b t e b' t') :
    ¬ t'.Ended → b'.semaforo = 2 := by
  cases hs with
  | begins h2 => exact fun _ => h2
  | waits | reset => exact fun hend => absurd (Or.inl rfl) hend
  | socketFails | connectFails => exact fun hend => absurd (Or.inr rfl) hend
  | socket | connect | switchOn | starts | chunk | close | switchOff =>
    exact fun _ => h (by rintro (ht | ht) <;> cases ht)

/-- While the TCP task is in an attempt to record, the flag is 2. -/
def FlagHeld (h : Home) : Prop := ¬ h.tcp.Ended → h.board.semaforo = 2

/-- **Every step keeps the flag at 2 while the TCP task is in an attempt.** -/
theorem FlagHeld.step (hflag : h.FlagHeld) (hstep : h.step e = some h') : h'.FlagHeld := by
  cases step_iff.1 hstep with
  | udp hs => exact fun hend => (semaforo_of_udpStep hs).trans (hflag hend)
  | tcp hs => exact semaforo_of_tcpStep hflag hs
  | server hs =>
    intro hend
    have heq := semaforo_of_serverStep hs
    rw [hflag hend, ite_self] at heq
    exact heq
  | mqtt hs => exact fun hend => (semaforo_of_mqttStep hs).trans (hflag hend)

theorem flagHeld_start (b : Board) : (start b).FlagHeld := fun hend => absurd (Or.inl rfl) hend

end Home

end HomeAssistant
