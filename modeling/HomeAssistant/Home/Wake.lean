import HomeAssistant.Foundations.History
import HomeAssistant.Foundations.Observation
import HomeAssistant.Home.System
import Mathlib.Data.Fintype.EquivFin

/-!
# The wake protocol

What the flag is for: a client asks for a recording, the TCP task records when it has been asked,
and the UDP task sends its bursts only while nobody has asked. `Wake` says this without tasks. The
four tasks and their flag refine it whatever the order of their steps, and everything it allows can
happen (`shows_wake_iff`). So the order in which requests, sessions and bursts can come is known
(`shows_iff_inOrder`).
-/

namespace HomeAssistant

open Audio Machine History

/-- What the assistant does: it waits for a request, has been asked for a recording, records, or has
failed to connect for a recording. -/
inductive Wake
  | idle
  | asked
  | recording
  | broken
  deriving DecidableEq

/-- What is seen of the assistant: an `eden` is carried out, a session begins, ends or fails to
connect, or a burst begins. -/
inductive WakeEvent
  | request
  | begins
  | ends
  | fails
  | burst
  deriving DecidableEq

/-- One step of the protocol. -/
def Wake.step : Wake → WakeEvent → Option Wake
  | .idle, .request => some .asked
  | .idle, .burst => some .idle
  | .asked, .begins => some .recording
  | .recording, .ends => some .idle
  | .recording, .fails => some .broken
  | w, .request => some w
  | _, _ => none

/-- Where the TCP task is when it is about to take the next step of the protocol. -/
def Wake.tcp : Wake → TcpTask
  | .idle | .asked => .check
  | .recording => .openSocket
  | .broken => .deleted

/-- What the assistant does, by the flag and by where the TCP task is. -/
def Audio.TcpTask.wake (semaforo : ℤ) : TcpTask → Wake
  | .check => if semaforo = 2 then .asked else .idle
  | .deleted => .broken
  | _ => .recording

namespace Home

/-- What the assistant does. -/
def wake (h : Home) : Wake := h.tcp.wake h.board.semaforo

/-- What a step shows. -/
def wakeEvent (h : Home) : HomeEvent → Option WakeEvent
  | .server e => if handlesEden h.server e then some .request else none
  | .udp .tick => if h.board.semaforo = 1 then some .burst else none
  | .tcp .tick =>
    match h.tcp with
    | .check => if h.board.semaforo = 2 then some .begins else none
    | .switchOff [] => some .ends
    | _ => none
  | .tcp (.socket none) | .tcp (.connect false) => some .fails
  | _ => none

/-- Unless the TCP task is at its check, the flag is 2. -/
def FlagKept (h : Home) : Prop := h.tcp ≠ .check → h.board.semaforo = 2

variable {h h' : Home} {e : HomeEvent} {b b' : Board}

/-! ## The assistant refines the protocol -/

theorem flagKept_start (b : Board) : (start b).FlagKept := fun hcheck => absurd rfl hcheck

/-- **Every step keeps the flag at 2 until a session is over.** -/
theorem FlagKept.step (hflag : h.FlagKept) (hstep : h.step e = some h') : h'.FlagKept := by
  cases step_iff.1 hstep with
  | udp hs => exact fun hcheck => (semaforo_of_udpStep hs).trans (hflag hcheck)
  | tcp hs =>
    obtain ⟨board, udp, tcp, server, mqtt⟩ := h
    cases hs with
    | begins h2 => exact fun _ => h2
    | waits | reset => exact fun hcheck => absurd rfl hcheck
    | socketFails | socket | connectFails | connect | switchOn | starts | chunk | close
      | switchOff => exact fun _ => hflag nofun
  | server hs =>
    intro hcheck
    have heq := semaforo_of_serverStep hs
    rw [hflag hcheck, ite_self] at heq
    exact heq
  | mqtt hs => exact fun hcheck => (semaforo_of_mqttStep hs).trans (hflag hcheck)

theorem wake_inLoop (semaforo : ℤ) (sock : ℕ) (l : ChunkLoop) :
    (TcpTask.inLoop sock l).wake semaforo = .recording := by
  rcases TcpTask.inLoop_cases sock l with hl | hl <;> rw [hl] <;> rfl

/-- A request is noted by a task that waits for one, and makes no difference to any other. -/
theorem step_wake_request {t : TcpTask} {semaforo : ℤ} (hflag : t ≠ .check → semaforo = 2) :
    (t.wake semaforo).step .request = some (t.wake 2) := by
  cases t with
  | check =>
    rw [TcpTask.wake]
    split <;> rfl
  | deleted | openSocket | connect | switchOn | session | close | switchOff => rfl

/-- A burst begins only while nobody has asked. -/
theorem wake_eq_idle {t : TcpTask} (hflag : t ≠ .check → (1 : ℤ) = 2) : t.wake 1 = .idle := by
  have hcheck : t = .check := by
    by_contra hne
    exact absurd (hflag hne) (by decide)
  rw [hcheck]
  rfl

/-- **A step of the TCP task** is one of the protocol, or is not seen. -/
theorem wake_of_tcpStep {udp : UdpTask} {server : ServerTask} {mqtt : Mqtt.Task} {t t' : TcpTask}
    {e : TaskEvent} (hs : TcpStep b t e b' t') :
    match wakeEvent ⟨b, udp, t, server, mqtt⟩ (.tcp e) with
    | none => t'.wake b'.semaforo = t.wake b.semaforo
    | some d => (t.wake b.semaforo).step d = some (t'.wake b'.semaforo) := by
  cases hs with
  | begins h2 => simp only [wakeEvent, TcpTask.wake, h2, if_true]; rfl
  | waits hne => simp only [wakeEvent, TcpTask.wake, hne, if_false]
  | socketFails | connectFails | socket | connect | switchOn | close | switchOff | reset => rfl
  | starts | chunk => exact wake_inLoop _ _ _

/-- A step of the UDP task is a burst, which leaves the protocol where it is, or is not seen. -/
theorem wake_of_udpStep {t t' : UdpTask} {tcp : TcpTask} {server : ServerTask} {mqtt : Mqtt.Task}
    {e : TaskEvent} (hflag : tcp ≠ .check → b.semaforo = 2) (hs : UdpStep b t e b' t') :
    match wakeEvent ⟨b, t, tcp, server, mqtt⟩ (.udp e) with
    | none => tcp.wake b'.semaforo = tcp.wake b.semaforo
    | some d => (tcp.wake b.semaforo).step d = some (tcp.wake b'.semaforo) := by
  cases hs with
  | begins sock h1 =>
    have hidle : tcp.wake b.semaforo = .idle := by
      rw [h1] at hflag ⊢
      exact wake_eq_idle hflag
    simp only [wakeEvent, h1, if_true]
    rw [← h1, hidle]
    rfl
  | waits sock hne => simp only [wakeEvent, hne, if_false]
  | firstFails | first | secondFails | second | chunk => rfl

theorem wake_of_serverStep {udp : UdpTask} {tcp : TcpTask} {t t' : ServerTask} {mqtt : Mqtt.Task}
    {e : ServerEvent} (hflag : tcp ≠ .check → b.semaforo = 2) (hs : ServerStep b t e b' t') :
    match wakeEvent ⟨b, udp, tcp, t, mqtt⟩ (.server e) with
    | none => tcp.wake b'.semaforo = tcp.wake b.semaforo
    | some d => (tcp.wake b.semaforo).step d = some (tcp.wake b'.semaforo) := by
  rw [semaforo_of_serverStep hs]
  by_cases heden : handlesEden t e
  · simp only [wakeEvent, heden, if_true]
    exact step_wake_request hflag
  · simp only [wakeEvent, heden]
    rfl

/-- **The assistant refines the protocol.** -/
theorem refines_wake : Refines step Wake.step FlagKept wake wakeEvent := by
  have hstep : ∀ {h e h'}, FlagKept h → h.step e = some h' →
      match h.wakeEvent e with
      | none => h'.wake = h.wake
      | some d => h.wake.step d = some h'.wake := by
    intro h e h' hflag hstep
    cases step_iff.1 hstep with
    | udp hs => exact wake_of_udpStep hflag hs
    | tcp hs => exact wake_of_tcpStep hs
    | server hs => exact wake_of_serverStep hflag hs
    | mqtt hs => exact congrArg (TcpTask.wake · h.tcp) (semaforo_of_mqttStep hs)
  refine ⟨fun hflag hs => hflag.step hs, fun hflag hs hobs => ?_, fun hflag hs hobs => ?_⟩
  · have h := hstep hflag hs
    rwa [hobs] at h
  · have h := hstep hflag hs
    rwa [hobs] at h

/-! ## Everything the protocol allows can happen -/

/-- The assistant is set up, with a client connected, and is where the protocol is. -/
structure Ready (w : Wake) (h : Home) : Prop where
  flag : h.board.semaforo = if w = .idle then 1 else 2
  udp : ∃ sock, h.udp = .check sock
  tcp : h.tcp = w.tcp
  server : ∃ sock client buffer, h.server = .recv sock client buffer

theorem exists_fresh (sockets : List ℕ) : ∃ fd, fd ∉ sockets := by
  obtain ⟨fd, hfd⟩ := Infinite.exists_notMem_finset sockets.toFinset
  exact ⟨fd, fun hmem => hfd (List.mem_toFinset.2 hmem)⟩

theorem exists_ready (hb : b.semaforo = 1) :
    ∃ h, Shows step wakeEvent (start b) [] h ∧ Ready .idle h := by
  obtain ⟨first, hfirst⟩ := exists_fresh b.sockets
  obtain ⟨second, hsecond⟩ := exists_fresh (first :: b.sockets)
  obtain ⟨sock, hsock⟩ := exists_fresh (second :: first :: b.sockets)
  obtain ⟨client, hclient⟩ := exists_fresh (sock :: second :: first :: b.sockets)
  refine ⟨⟨(((b.openSocket first).openSocket second).openSocket sock).openSocket client,
    .check second, .check, .recv sock client (.zeros bufferSize), .idle⟩, ?_,
    hb, ⟨second, rfl⟩, rfl, sock, client, .zeros bufferSize, rfl⟩
  refine Shows.silent (step_iff.2 (.udp (.first b hfirst))) rfl ?_
  refine Shows.silent (step_iff.2 (.udp (.second _ hsecond))) rfl ?_
  refine Shows.silent (step_iff.2 (.server (.socket _ hsock))) rfl ?_
  refine Shows.silent (step_iff.2 (.server (.bind _ sock))) rfl ?_
  refine Shows.silent (step_iff.2 (.server (.listen _ sock))) rfl ?_
  exact Shows.silent (step_iff.2 (.server (.accept _ sock _ hclient))) rfl (Shows.refl _)

theorem shows_request {w : Wake} (hready : Ready w h) :
    ∃ h', Shows step wakeEvent h [.request] h' ∧ Ready (if w = .idle then .asked else w) h' := by
  obtain ⟨board, udp, tcp, server, mqtt⟩ := h
  obtain ⟨hflag, hudp, htcp, sock, client, buffer, hserver⟩ := hready
  cases hserver
  obtain ⟨buffer', hreceive, hstr, -⟩ := receive_eq buffer
    (show (ascii "eden").length < bufferSize by decide)
  have hrecv := ServerStep.recv board sock client buffer (show Receivable (ascii "eden") by decide)
  rw [hreceive] at hrecv
  have hhandle := ServerStep.handle board sock client buffer' (ascii "eden").length
  rw [dispatch, hstr] at hhandle
  refine ⟨_, Shows.silent (step_iff.2 (.server hrecv)) rfl
    (Shows.shown (step_iff.2 (.server hhandle)) ?_ (Shows.refl _)), ?_⟩
  · show (if decide (buffer'.str = ascii "eden") = true then some WakeEvent.request else none) = _
    rw [hstr]
    rfl
  · refine ⟨?_, hudp, ?_, sock, client, buffer', rfl⟩
    · cases w <;> rfl
    · cases w <;> exact htcp

theorem shows_burst (hready : Ready .idle h) :
    ∃ h', Shows step wakeEvent h [.burst] h' ∧ Ready .idle h' := by
  obtain ⟨⟨semaforo, level, speaker, sockets, topics⟩, udp, tcp, server, mqtt⟩ := h
  obtain ⟨hflag, ⟨sock, hudp⟩, htcp, hserver⟩ := hready
  cases hflag
  cases hudp
  exact ⟨_, ⟨[.udp .tick, .udp (.chunk (.read none))], rfl, rfl⟩, rfl, ⟨sock, rfl⟩, htcp, hserver⟩

theorem shows_begins (hready : Ready .asked h) :
    ∃ h', Shows step wakeEvent h [.begins] h' ∧ Ready .recording h' := by
  obtain ⟨⟨semaforo, level, speaker, sockets, topics⟩, udp, tcp, server, mqtt⟩ := h
  obtain ⟨hflag, hudp, htcp, hserver⟩ := hready
  cases hflag
  cases htcp
  exact ⟨_, ⟨[.tcp .tick], rfl, rfl⟩, rfl, hudp, rfl, hserver⟩

theorem shows_fails (hready : Ready .recording h) :
    ∃ h', Shows step wakeEvent h [.fails] h' ∧ Ready .broken h' := by
  obtain ⟨board, udp, tcp, server, mqtt⟩ := h
  obtain ⟨hflag, hudp, htcp, hserver⟩ := hready
  cases htcp
  exact ⟨_, ⟨[.tcp (.socket none)], rfl, rfl⟩, hflag, hudp, rfl, hserver⟩

theorem shows_ends (hready : Ready .recording h) :
    ∃ h', Shows step wakeEvent h [.ends] h' ∧ Ready .idle h' := by
  obtain ⟨board, udp, tcp, server, mqtt⟩ := h
  obtain ⟨hflag, hudp, htcp, hserver⟩ := hready
  cases htcp
  obtain ⟨fd, hfd⟩ := exists_fresh board.sockets
  have hrest : ∃ h', Shows step wakeEvent ⟨board.openSocket fd, udp, .connect fd, server, mqtt⟩
      [.ends] h' ∧ Ready .idle h' :=
    ⟨_, ⟨[.tcp (.connect true), .tcp .tick, .tcp .tick, .tcp .tick, .tcp .tick,
      .tcp (.chunk (.read none)), .tcp .tick, .tcp .tick, .tcp .tick, .tcp .tick, .tcp .tick],
      rfl, rfl⟩, rfl, hudp, rfl, hserver⟩
  obtain ⟨h', hshows, hready⟩ := hrest
  exact ⟨h', Shows.silent (step_iff.2 (.tcp (.socket board hfd))) rfl hshows, hready⟩

theorem exists_shows_of_step {w w' : Wake} {d : WakeEvent} (hready : Ready w h)
    (hstep : w.step d = some w') : ∃ h', Shows step wakeEvent h [d] h' ∧ Ready w' h' := by
  cases d with
  | request =>
    have hw : w' = if w = .idle then .asked else w := by
      cases w <;> cases hstep <;> rfl
    rw [hw]
    exact shows_request hready
  | begins =>
    cases w <;> cases hstep
    exact shows_begins hready
  | ends =>
    cases w <;> cases hstep
    exact shows_ends hready
  | fails =>
    cases w <;> cases hstep
    exact shows_fails hready
  | burst =>
    cases w <;> cases hstep
    exact shows_burst hready

theorem Ready.wake {w : Wake} (hready : Ready w h) : h.wake = w := by
  rw [Home.wake, hready.flag, hready.tcp]
  cases w <;> rfl

variable {w : Wake} {ds : List WakeEvent}

theorem run_wake_of_shows (hb : b.semaforo = 1) (hshows : Shows step wakeEvent (start b) ds h) :
    run Wake.step .idle ds = some h.wake := by
  obtain ⟨es, hrun, rfl⟩ := hshows
  have hwake : (start b).wake = .idle := by
    rw [wake, start, hb]
    rfl
  rw [← hwake]
  exact refines_wake.run (flagKept_start b) hrun

theorem exists_shows_wake (hb : b.semaforo = 1) (hrun : run Wake.step .idle ds = some w) :
    ∃ h, Shows step wakeEvent (start b) ds h ∧ h.wake = w := by
  obtain ⟨h, hshows, hready⟩ := exists_ready hb
  obtain ⟨h', hshows', hready'⟩ := exists_shows_of_run
    (fun _ _ _ _ hready hstep => exists_shows_of_step hready hstep) hready hrun
  exact ⟨h', hshows.trans hshows', hready'.wake⟩

/-- **The assistant is the protocol**: what it shows in its runs, and where it is behind them, are
the runs of the protocol. -/
theorem shows_wake_iff (hb : b.semaforo = 1) (ds : List WakeEvent) (w : Wake) :
    (∃ h, Shows step wakeEvent (start b) ds h ∧ h.wake = w) ↔
      run Wake.step .idle ds = some w := by
  constructor
  · rintro ⟨h, hshows, rfl⟩
    exact run_wake_of_shows hb hshows
  · exact exists_shows_wake hb

/-- A request, its session, a request during the session and a burst behind it. -/
theorem shows_wake_burst :
    ∃ h, Shows step wakeEvent (start .initial)
      [.burst, .request, .request, .begins, .request, .ends, .burst] h ∧ h.wake = .idle :=
  (shows_wake_iff rfl _ .idle).2 rfl

end Home

/-! ## The order of events -/

/-- What may come next, after a row of events since the last session has ended: a session only if it
has been asked for and none has begun, its end only if it has begun and has not failed, and a burst
only if nobody has asked. -/
def WakeEvent.MayFollow (row : List WakeEvent) : WakeEvent → Prop
  | .request => True
  | .begins => .request ∈ row ∧ .begins ∉ row
  | .ends | .fails => .begins ∈ row ∧ .fails ∉ row
  | .burst => .request ∉ row

/-- Every event may follow those since the last session has ended. -/
def InOrder (ds : List WakeEvent) : Prop :=
  ∀ pre d, pre ++ [d] <+: ds → d.MayFollow (since .ends pre)

/-- Where the protocol is, after a row of events since the last session has ended. -/
def Wake.after (row : List WakeEvent) : Wake :=
  if .fails ∈ row then .broken
  else if .begins ∈ row then .recording
  else if .request ∈ row then .asked
  else .idle

/-- What fails has begun, and what has begun has been asked for. -/
structure Grounded (row : List WakeEvent) : Prop where
  asked : .begins ∈ row → .request ∈ row
  begun : .fails ∈ row → .begins ∈ row

variable {row ds : List WakeEvent} {d : WakeEvent} {w : Wake}

theorem since_ends_concat (ds : List WakeEvent) (d : WakeEvent) :
    since .ends (ds ++ [d]) = if d = .ends then [] else since .ends ds ++ [d] := by
  split
  next h => rw [h, since_concat_self]
  next h => exact since_concat_of_ne h

theorem Grounded.concat (h : Grounded row) (hd : d.MayFollow row) : Grounded (row ++ [d]) := by
  constructor
  · simp only [List.mem_append, List.mem_singleton]
    rintro (hmem | rfl)
    · exact Or.inl (h.asked hmem)
    · exact Or.inl hd.1
  · simp only [List.mem_append, List.mem_singleton]
    rintro (hmem | rfl)
    · exact Or.inl (h.begun hmem)
    · exact Or.inl hd.1

/-- One more event: the protocol takes it exactly if it may follow. -/
theorem step_after_iff (h : Grounded row) :
    (Wake.after row).step d = some w ↔
      d.MayFollow row ∧ w = Wake.after (if d = .ends then [] else row ++ [d]) := by
  have hasked := h.asked
  have hbegun := h.begun
  by_cases hf : WakeEvent.fails ∈ row <;> by_cases hb : WakeEvent.begins ∈ row <;>
    by_cases hr : WakeEvent.request ∈ row <;> cases d <;>
    simp_all [Wake.after, Wake.step, WakeEvent.MayFollow, eq_comm]

theorem inOrder_concat : InOrder (ds ++ [d]) ↔ InOrder ds ∧ d.MayFollow (since .ends ds) := by
  constructor
  · intro h
    exact ⟨fun pre d' hpre => h pre d' (hpre.trans (List.prefix_append ds [d])),
      h ds d List.prefix_rfl⟩
  · rintro ⟨h, hd⟩ pre d' hpre
    rcases List.prefix_concat_iff.1 hpre with heq | hpre
    · obtain ⟨rfl, rfl⟩ := List.append_singleton_inj.1 heq
      exact hd
    · exact h pre d' hpre

theorem grounded_since (h : InOrder ds) : Grounded (since .ends ds) := by
  induction ds using List.reverseRecOn with
  | nil => exact ⟨nofun, nofun⟩
  | append_singleton ds d ih =>
    obtain ⟨h, hd⟩ := inOrder_concat.1 h
    rw [since_ends_concat]
    split
    · exact ⟨nofun, nofun⟩
    · exact (ih h).concat hd

/-- **The runs of the protocol** are the sequences in which every event may follow. -/
theorem run_wake_iff :
    run Wake.step .idle ds = some w ↔ InOrder ds ∧ w = Wake.after (since .ends ds) := by
  induction ds using List.reverseRecOn generalizing w with
  | nil =>
    have hnil : InOrder [] := fun pre d hpre => by simp at hpre
    constructor
    · intro hrun
      cases hrun
      exact ⟨hnil, rfl⟩
    · rintro ⟨-, rfl⟩
      rfl
  | append_singleton ds d ih =>
    rw [run_append, inOrder_concat, since_ends_concat, Option.bind_eq_some_iff]
    constructor
    · rintro ⟨w', hw', hlast⟩
      obtain ⟨horder, rfl⟩ := ih.1 hw'
      obtain ⟨w'', hstep, hnil⟩ := (run_cons_eq_some _).1 hlast
      cases hnil
      obtain ⟨hd, hw⟩ := (step_after_iff (grounded_since horder)).1 hstep
      exact ⟨⟨horder, hd⟩, hw⟩
    · rintro ⟨⟨horder, hd⟩, hw⟩
      refine ⟨_, ih.2 ⟨horder, rfl⟩, (run_cons_eq_some _).2 ⟨w, ?_, rfl⟩⟩
      exact (step_after_iff (grounded_since horder)).2 ⟨hd, hw⟩

namespace Home

/-- **The order of requests, sessions and bursts**: what the assistant can show are the sequences in
which every event may follow those since the last session has ended. -/
theorem shows_iff_inOrder {b : Board} (hb : b.semaforo = 1) (ds : List WakeEvent) :
    (∃ h, Shows step wakeEvent (start b) ds h) ↔ InOrder ds := by
  constructor
  · rintro ⟨h, hshows⟩
    exact (run_wake_iff.1 (run_wake_of_shows hb hshows)).1
  · intro horder
    obtain ⟨h, hshows, -⟩ := exists_shows_wake hb (run_wake_iff.2 ⟨horder, rfl⟩)
    exact ⟨h, hshows⟩

/-- A burst does not begin behind a request whose session has not ended. -/
theorem not_shows_burst_behind_request :
    ¬ ∃ h, Shows step wakeEvent (start .initial) [.request, .begins, .burst] h := by
  refine mt (shows_iff_inOrder rfl _).1 fun horder => ?_
  have hburst := horder [.request, .begins] .burst List.prefix_rfl
  exact absurd hburst (not_not_intro (by decide))

end Home

end HomeAssistant
