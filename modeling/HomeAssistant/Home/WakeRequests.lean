import HomeAssistant.Home.System

/-!
# Wake requests

A client asks for a recording by `eden`, which sets the flag to 2. A request that comes while a
session is in progress finds the flag at 2 already, and at its end the session sets it to 1. `watch`
follows the assistant and keeps a note of such a request until the next session begins; the request
stays pending exactly in the runs in which no session that was asked for another reaches its end
(`request_pending_iff`).
-/

namespace HomeAssistant.Home

open Audio Machine

/-- The step carries out an `eden`. -/
def carriesOutEden (h : Home) : HomeEvent → Bool
  | .server e => handlesEden h.server e
  | _ => false

/-- The step begins a session: the TCP task finds the flag at 2. -/
def beginsSession (h : Home) : HomeEvent → Bool
  | .tcp .tick => h.tcp = .check ∧ h.board.semaforo = 2
  | _ => false

/-- The assistant, and whether an `eden` has been carried out during a session and no session has
begun since. -/
structure Watched where
  home : Home
  requested : Bool

/-- The note after a step. -/
def Watched.note (w : Watched) (e : HomeEvent) : Bool :=
  if w.home.carriesOutEden e ∧ ¬ w.home.tcp.Ended then true
  else if w.home.beginsSession e then false
  else w.requested

/-- One step of the assistant, and of the note. -/
def watch (w : Watched) (e : HomeEvent) : Option Watched :=
  (w.home.step e).map fun h => ⟨h, w.note e⟩

/-- A request that was noted is pending: the flag is 2, or the session it came in goes on. -/
def Pending (w : Watched) : Prop :=
  w.requested → w.home.board.semaforo = 2 ∨ ¬ w.home.tcp.Ended

/-- The step does not reset the flag while a request is noted. -/
def ResetsUnasked (w : Watched) (e : HomeEvent) : Prop :=
  w.home.tcp = .switchOff [] → e = .tcp .tick → w.requested = false

/-- **The note does not change the assistant.** -/
theorem map_run_watch (w : Watched) (es : List HomeEvent) :
    (run watch w es).map Watched.home = run step w.home es := by
  refine (run_proj watch step (f := Watched.home) (fun w e => ?_) w es).symm
  rw [watch]
  cases w.home.step e <;> rfl

variable {w w' : Watched} {e : HomeEvent}

theorem pending_of_pending (h : Pending w) (hnote : w'.requested → w.requested)
    (hflag : w'.home.board.semaforo = w.home.board.semaforo) (htcp : w'.home.tcp = w.home.tcp) :
    Pending w' := by
  intro hreq
  rw [hflag, htcp]
  exact h (hnote hreq)

theorem note_udp (w : Watched) (e : TaskEvent) : w.note (.udp e) = w.requested := by
  simp [Watched.note, carriesOutEden, beginsSession]

theorem note_mqtt (w : Watched) (e : Mqtt.TaskEvent) : w.note (.mqtt e) = w.requested := by
  simp [Watched.note, carriesOutEden, beginsSession]

theorem note_server_of_not_eden (w : Watched) {e : ServerEvent}
    (he : ¬ handlesEden w.home.server e) : w.note (.server e) = w.requested := by
  simp [Watched.note, carriesOutEden, beginsSession, he]

theorem note_tcp (w : Watched) (e : TaskEvent) :
    w.note (.tcp e) = if w.home.beginsSession (.tcp e) then false else w.requested := by
  simp [Watched.note, carriesOutEden]

theorem pending_of_tcpStep {e : TaskEvent} {b : Board} {t : TcpTask} (hflag : w.home.FlagHeld)
    (h : Pending w) (hs : TcpStep w.home.board w.home.tcp e b t) :
    (w.note (.tcp e) → b.semaforo = 2 ∨ ¬ t.Ended) ↔ ResetsUnasked w (.tcp e) := by
  rw [note_tcp]
  obtain ⟨⟨board, udp, tcp, server, mqtt⟩, requested⟩ := w
  cases hs with
  | begins h2 => exact iff_of_true (fun _ => Or.inl h2) (fun ht => by cases ht)
  | waits hne =>
    refine iff_of_true (fun hreq => ?_) (fun ht => by cases ht)
    rw [if_neg (by simp [beginsSession, hne])] at hreq
    exact h hreq
  | socketFails | socket | connectFails | connect | switchOn | starts | chunk | close | switchOff =>
    -- the flag is still the 2 that began the attempt
    refine iff_of_true (fun _ => Or.inl (hflag ?_)) (fun ht => by cases ht)
    rintro (ht | ht) <;> cases ht
  | reset =>
    rw [if_neg (by simp [beginsSession])]
    constructor
    · intro hpending _ _
      by_contra hreq
      rcases hpending (by simpa using hreq) with h2 | hend
      · have h12 : (1 : ℤ) = 2 := h2
        exact absurd h12 (by decide)
      · exact hend (Or.inl rfl)
    · intro hunasked hreq
      rw [show requested = false from hunasked rfl rfl] at hreq
      cases hreq

/-- A step from a state in which requests are pending leads to one exactly if it does not reset the
flag over a request. -/
theorem pending_step_iff (hflag : w.home.FlagHeld) (h : Pending w) (hstep : watch w e = some w') :
    Pending w' ↔ ResetsUnasked w e := by
  obtain ⟨home, hs, rfl⟩ := Option.map_eq_some_iff.1 hstep
  cases step_iff.1 hs with
  | @udp e b t hudp =>
    refine iff_of_true ?_ (fun _ he => by cases he)
    refine pending_of_pending h (fun hreq => ?_) (semaforo_of_udpStep hudp) rfl
    rwa [note_udp] at hreq
  | @tcp e b t htcp => exact pending_of_tcpStep hflag h htcp
  | @server e b t hserver =>
    refine iff_of_true ?_ (fun _ he => by cases he)
    have hsem := semaforo_of_serverStep hserver
    by_cases heden : handlesEden w.home.server e
    · rw [if_pos heden] at hsem
      exact fun _ => Or.inl hsem
    · rw [if_neg heden] at hsem
      refine pending_of_pending h (fun hreq => ?_) hsem rfl
      rwa [note_server_of_not_eden w heden] at hreq
  | @mqtt e b t hmqtt =>
    refine iff_of_true ?_ (fun _ he => by cases he)
    refine pending_of_pending h (fun hreq => ?_) (semaforo_of_mqttStep hmqtt) rfl
    rwa [note_mqtt] at hreq

/-- The assistant at its start, with no request noted. -/
def Watched.start (b : Board) : Watched := ⟨.start b, false⟩

/-- **When no wake request is lost**: in exactly the runs in which no session resets the flag after
an `eden` was carried out during it. -/
theorem request_pending_iff (b : Board) (es : List HomeEvent) :
    Throughout watch Pending (.start b) es ↔ Meets watch ResetsUnasked (.start b) es := by
  refine throughout_iff_meets (I := fun w => w.home.FlagHeld) (fun w e w' hflag hs => ?_)
    (fun _ _ _ hflag h hs => pending_step_iff hflag h hs) (flagHeld_start b) ?_ es
  · obtain ⟨h, hstep, rfl⟩ := Option.map_eq_some_iff.1 hs
    exact hflag.step hstep
  · intro hreq
    cases hreq

/-- A run in which a client asks for a second recording during the first. -/
def secondRequestRun : List HomeEvent :=
  [.server (.socket (some 3)), .server (.bind true), .server (.listen true),
    .server (.accept (some (4, .zeros bufferSize))), .server (.recv (some (ascii "eden"))),
    .server .tick, .tcp .tick, .tcp (.socket (some 5)), .tcp (.connect true), .tcp .tick,
    .tcp .tick, .tcp .tick, .tcp .tick, .server (.recv (some (ascii "eden"))), .server .tick,
    .tcp (.chunk (.read none)), .tcp .tick, .tcp .tick, .tcp .tick, .tcp .tick, .tcp .tick]

/-- The end of the first recording discards the request for the second. -/
theorem second_request_lost :
    (∃ w, run watch (.start .initial) secondRequestRun = some w ∧ w.requested = true ∧
      w.home.board.semaforo = 1 ∧ w.home.tcp = .check) ∧
      ¬ Throughout watch Pending (.start .initial) secondRequestRun := by
  obtain ⟨w, hrun, hreq, hflag, htcp⟩ :
      ∃ w, run watch (.start .initial) secondRequestRun = some w ∧ w.requested = true ∧
        w.home.board.semaforo = 1 ∧ w.home.tcp = .check := ⟨_, rfl, rfl, rfl, rfl⟩
  refine ⟨⟨w, hrun, hreq, hflag, htcp⟩, fun hall => ?_⟩
  rcases hall.last hrun hreq with h2 | hend
  · rw [hflag] at h2
    exact absurd h2 (by decide)
  · exact hend (Or.inl htcp)

end HomeAssistant.Home
