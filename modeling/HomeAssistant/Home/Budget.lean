import HomeAssistant.Audio.Counting
import HomeAssistant.Home.Indicator
import HomeAssistant.Home.Wake

/-!
# How much is sent

What the assistant sends is recorded by its microphone. Over TCP it sends no more than the bytes of
a session for each request (`tcp_bytes_le`). Over UDP it sends no more than the rest of a burst
between a request and the end of its session (`udp_bytes_le`). Once a session has failed to connect
this is all it ever sends again (`quiet_of_deleted`).
-/

namespace HomeAssistant

open Audio Machine

/-! ## What is left to send -/

/-- The bytes that the loop has left to send. -/
def Audio.ChunkLoop.rest (total : UInt32) (l : ChunkLoop) : ℕ := total.toNat - l.bytesSent.toNat

/-- The bytes that the task sends at most before it needs another request. -/
def Audio.TcpTask.rest (semaforo : ℤ) : TcpTask → ℕ
  | .check => if semaforo = 2 then sessionBytes.toNat else 0
  | .openSocket | .connect _ | .switchOn _ _ => sessionBytes.toNat
  | .session _ l => l.rest sessionBytes
  | .close _ | .switchOff _ | .deleted => 0

/-- The bytes that are left of the burst of the task. -/
def Audio.UdpTask.rest : UdpTask → ℕ
  | .burst _ l => l.rest burstBytes
  | _ => 0

/-- The loop that the task is in keeps count. -/
def Audio.TcpTask.Counts : TcpTask → Prop
  | .session _ l => l.Counts sessionBytes
  | _ => True

/-- The loop that the task is in keeps count. -/
def Audio.UdpTask.Counts : UdpTask → Prop
  | .burst _ l => l.Counts burstBytes
  | _ => True

/-- The bytes that the step of a task sends. -/
def Audio.TaskEvent.sent : TaskEvent → ℕ
  | .chunk e => e.sent
  | _ => 0

/-- **A step of the loop** takes what it sends from what is left. -/
theorem Audio.ChunkLoop.sent_add_rest_le {total : UInt32} {l l' : ChunkLoop} {e : ChunkEvent}
    (h : l.Counts total) (hs : l.step total e = some l') :
    e.sent + l'.rest total ≤ l.rest total := by
  obtain ⟨data, rfl, -, -, rfl⟩ | ⟨rBuf, n, rfl, hpc, hle, rfl⟩ | ⟨he, rfl⟩ :=
    ChunkLoop.step_cases hs
  · exact Nat.le_of_eq (Nat.zero_add _)
  · have hsend := h.send
    rw [ChunkLoop.pending_of_send hpc] at hsend
    have hsum : (l.afterSend total rBuf n).bytesSent.toNat = l.bytesSent.toNat + n :=
      ChunkLoop.toNat_bytesSent_add (show l.bytesSent.toNat + n ≤ total.toNat by omega)
    rw [ChunkLoop.rest, ChunkLoop.rest, hsum, ChunkEvent.sent]
    omega
  · rcases he with ⟨rfl, -⟩ | ⟨rfl, -⟩ <;> exact Nat.le_of_eq (Nat.zero_add _)

namespace Home

variable {b b' : Board} {e : TaskEvent}

theorem rest_tcp_inLoop (semaforo : ℤ) (sock : ℕ) (l : ChunkLoop) :
    (TcpTask.inLoop sock l).rest semaforo ≤ l.rest sessionBytes := by
  rcases TcpTask.inLoop_cases sock l with hl | hl <;> rw [hl]
  · exact Nat.zero_le _
  · exact Nat.le_refl _

theorem counts_tcp_inLoop (sock : ℕ) {l : ChunkLoop} (h : l.Counts sessionBytes) :
    (TcpTask.inLoop sock l).Counts := by
  rcases TcpTask.inLoop_cases sock l with hl | hl <;> rw [hl]
  · trivial
  · exact h

theorem counts_tcp_step {t t' : TcpTask} (h : t.Counts) (hs : TcpStep b t e b' t') : t'.Counts := by
  cases hs with
  | begins | waits | socketFails | socket | connectFails | connect | switchOn | close | switchOff
    | reset => trivial
  | starts sock => exact counts_tcp_inLoop sock (ChunkLoop.counts_start sessionBytes)
  | chunk sock hl => exact counts_tcp_inLoop sock (ChunkLoop.Counts.step h hl)

/-- A step of the TCP task takes what it sends from what is left. -/
theorem sent_add_rest_le_of_tcpStep {t t' : TcpTask} (h : t.Counts) (hs : TcpStep b t e b' t') :
    e.sent + t'.rest b'.semaforo ≤ t.rest b.semaforo := by
  cases hs with
  | begins h2 =>
    rw [TcpTask.rest, TcpTask.rest, if_pos h2]
    exact Nat.le_of_eq (Nat.zero_add _)
  | waits | socketFails | socket | connectFails | connect | switchOn | close | switchOff | reset =>
    simp [TaskEvent.sent, TcpTask.rest]
  | starts sock =>
    exact (Nat.le_of_eq (Nat.zero_add _)).trans (rest_tcp_inLoop b.semaforo sock _)
  | chunk sock hl =>
    exact (Nat.add_le_add_left (rest_tcp_inLoop _ sock _) _).trans (ChunkLoop.sent_add_rest_le h hl)

theorem rest_udp_inLoop (sock : ℕ) (l : ChunkLoop) :
    (UdpTask.inLoop sock l).rest ≤ l.rest burstBytes := by
  rw [UdpTask.inLoop]
  split
  · exact Nat.zero_le _
  · exact Nat.le_refl _

theorem counts_udp_inLoop (sock : ℕ) {l : ChunkLoop} (h : l.Counts burstBytes) :
    (UdpTask.inLoop sock l).Counts := by
  rw [UdpTask.inLoop]
  split
  · trivial
  · exact h

theorem counts_udp_step {t t' : UdpTask} (h : t.Counts) (hs : UdpStep b t e b' t') : t'.Counts := by
  cases hs with
  | firstFails | first | secondFails | second | waits => trivial
  | begins sock => exact counts_udp_inLoop sock (ChunkLoop.counts_start burstBytes)
  | chunk sock hl => exact counts_udp_inLoop sock (ChunkLoop.Counts.step h hl)

/-- While no burst may begin, a step of the UDP task takes what it sends from the rest of its
burst. -/
theorem sent_add_rest_le_of_udpStep {t t' : UdpTask} (h : t.Counts) (hne : b.semaforo ≠ 1)
    (hs : UdpStep b t e b' t') : e.sent + t'.rest ≤ t.rest := by
  cases hs with
  | firstFails | first | secondFails | second | waits => exact Nat.le_of_eq (Nat.zero_add _)
  | begins sock h1 => exact absurd h1 hne
  | chunk sock hl =>
    exact (Nat.add_le_add_left (rest_udp_inLoop sock _) _).trans (ChunkLoop.sent_add_rest_le h hl)

/-! ## Over a run -/

/-- The bytes that a step sends over TCP. -/
def tcpBytes : HomeEvent → ℕ
  | .tcp e => e.sent
  | _ => 0

/-- The bytes that a step sends over UDP. -/
def udpBytes : HomeEvent → ℕ
  | .udp e => e.sent
  | _ => 0

/-- The loops that the tasks are in keep count, and the flag is kept. -/
structure Metered (h : Home) : Prop where
  flag : h.FlagKept
  udp : h.udp.Counts
  tcp : h.tcp.Counts

variable {h h' : Home} {es : List HomeEvent}

theorem metered_start (b : Board) : (start b).Metered := ⟨flagKept_start b, trivial, trivial⟩

theorem Metered.step {e : HomeEvent} (h₀ : h.Metered) (hstep : h.step e = some h') :
    h'.Metered := by
  have hflag := h₀.flag.step hstep
  cases step_iff.1 hstep with
  | udp hs => exact ⟨hflag, counts_udp_step h₀.udp hs, h₀.tcp⟩
  | tcp hs => exact ⟨hflag, h₀.udp, counts_tcp_step h₀.tcp hs⟩
  | server | mqtt => exact ⟨hflag, h₀.udp, h₀.tcp⟩

theorem Metered.run (h₀ : h.Metered) (hrun : run Home.step h es = some h') : h'.Metered :=
  (throughout_of_invariant (fun _ _ _ h₀ hs => Metered.step h₀ hs) h₀ es).last hrun

theorem rest_request_le (t : TcpTask) (semaforo : ℤ) :
    t.rest 2 ≤ sessionBytes.toNat + t.rest semaforo := by
  cases t with
  | check => exact Nat.le_add_right sessionBytes.toNat _
  | openSocket | connect | switchOn | session | close | switchOff | deleted =>
    exact Nat.le_add_left _ _

/-- **A step sends over TCP** what it takes from the rest of a session, and a request adds one
session to that. -/
theorem tcpBytes_add_rest_le {e : HomeEvent} (h₀ : h.Metered) (hstep : h.step e = some h') :
    tcpBytes e + h'.tcp.rest h'.board.semaforo ≤
      sessionBytes.toNat * (h.wakeEvent e).toList.count .request + h.tcp.rest h.board.semaforo := by
  cases step_iff.1 hstep with
  | udp hs =>
    rw [show tcpBytes (.udp _) = 0 from rfl, Nat.zero_add, semaforo_of_udpStep hs]
    exact Nat.le_add_left _ _
  | tcp hs => exact (sent_add_rest_le_of_tcpStep h₀.tcp hs).trans (Nat.le_add_left _ _)
  | @server e b t hs =>
    rw [show tcpBytes (.server e) = 0 from rfl, Nat.zero_add, semaforo_of_serverStep hs]
    by_cases heden : handlesEden h.server e
    · simp only [wakeEvent, heden, if_true]
      exact rest_request_le h.tcp h.board.semaforo
    · simp only [wakeEvent, heden]
      exact Nat.le_add_left _ _
  | mqtt hs =>
    rw [show tcpBytes (.mqtt _) = 0 from rfl, Nat.zero_add, semaforo_of_mqttStep hs]
    exact Nat.le_add_left _ _

/-- **What is sent over TCP**: in every run no more than the bytes of a session for each request. -/
theorem tcp_bytes_le (hb : b.semaforo = 1) (hrun : run step (start b) es = some h) :
    (es.map tcpBytes).sum ≤
      sessionBytes.toNat * (trace step wakeEvent (start b) es).count .request := by
  have hrest : (start b).tcp.rest (start b).board.semaforo = 0 := by
    rw [start, hb]
    rfl
  have hle : total step (fun _ e => tcpBytes e) (start b) es + h.tcp.rest h.board.semaforo ≤
      sessionBytes.toNat *
          total step (fun h e => (wakeEvent h e).toList.count .request) (start b) es +
        (start b).tcp.rest (start b).board.semaforo :=
    total_add_le _ _ (fun h => h.tcp.rest h.board.semaforo) _
      (fun _ _ _ h₀ _ hs => Metered.step h₀ hs)
      (fun _ _ _ h₀ _ hs => tcpBytes_add_rest_le h₀ hs) (metered_start b) meets_true hrun
  rw [total_of_event hrun, total_count hrun, hrest] at hle
  omega

/-- A run with one request, in which three bytes are sent. -/
def sendingRun : List HomeEvent :=
  recordingRun ++
    [.tcp (.chunk (.read (some [1, 2, 3, 4]))), .tcp (.chunk (.send (some 3)))]

theorem tcp_bytes_sendingRun : (sendingRun.map tcpBytes).sum = 3 ∧
    (sendingRun.map tcpBytes).sum ≤ 96000 := by
  obtain ⟨h, hrun⟩ : ∃ h, run step (start .initial) sendingRun = some h := ⟨_, rfl⟩
  exact ⟨rfl, tcp_bytes_le rfl hrun⟩

/-! ## Between a request and the end of its session -/

/-- The step does not end a session. -/
def EndsNone (h : Home) (e : HomeEvent) : Prop := h.wakeEvent e ≠ some .ends

theorem endsNone_udp (h : Home) (e : TaskEvent) : h.EndsNone (.udp e) := by
  cases e with
  | tick =>
    rw [EndsNone, wakeEvent]
    split <;> simp
  | socket | connect | chunk => simp [EndsNone, wakeEvent]

theorem endsNone_server (h : Home) (e : ServerEvent) : h.EndsNone (.server e) := by
  rw [EndsNone, wakeEvent]
  split <;> simp

theorem endsNone_mqtt (h : Home) (e : Mqtt.TaskEvent) : h.EndsNone (.mqtt e) := by
  simp [EndsNone, wakeEvent]

theorem semaforo_of_endsNone {e : HomeEvent} (h2 : h.board.semaforo = 2) (hends : h.EndsNone e)
    (hstep : h.step e = some h') : h'.board.semaforo = 2 := by
  cases step_iff.1 hstep with
  | udp hs => exact (semaforo_of_udpStep hs).trans h2
  | tcp hs =>
    obtain ⟨board, udp, tcp, server, mqtt⟩ := h
    cases hs with
    | reset => exact absurd rfl hends
    | begins | waits | socketFails | socket | connectFails | connect | switchOn | starts | chunk
      | close | switchOff => exact h2
  | server hs =>
    have heq := semaforo_of_serverStep hs
    rwa [h2, ite_self] at heq
  | mqtt hs => exact (semaforo_of_mqttStep hs).trans h2

/-- While no session ends, a step sends over UDP what it takes from the rest of a burst. -/
theorem udpBytes_add_rest_le {e : HomeEvent} (h₀ : h.Metered) (h2 : h.board.semaforo = 2)
    (hstep : h.step e = some h') : udpBytes e + h'.udp.rest ≤ h.udp.rest := by
  cases step_iff.1 hstep with
  | udp hs => exact sent_add_rest_le_of_udpStep h₀.udp (by rw [h2]; decide) hs
  | tcp | server | mqtt => exact Nat.le_of_eq (Nat.zero_add _)

theorem sum_udpBytes_le (h₀ : h.Metered) (h2 : h.board.semaforo = 2)
    (hrun : run step h es = some h') (hends : Meets step EndsNone h es) :
    (es.map udpBytes).sum ≤ h.udp.rest := by
  have hle : total step (fun _ e => udpBytes e) h es + h'.udp.rest ≤
      0 * total step (fun _ _ => 0) h es + h.udp.rest := by
    refine total_add_le _ _ (fun h => h.udp.rest) 0
      (I := fun h => h.Metered ∧ h.board.semaforo = 2)
      (fun h e h' hI hok hs => ⟨hI.1.step hs, semaforo_of_endsNone hI.2 hok hs⟩)
      (fun h e h' hI hok hs => ?_) ⟨h₀, h2⟩ hends hrun
    rw [Nat.zero_mul, Nat.zero_add]
    exact udpBytes_add_rest_le hI.1 hI.2 hs
  rw [total_of_event hrun, Nat.zero_mul, Nat.zero_add] at hle
  omega

/-- **What is sent over UDP while a recording is asked for or in progress**: no more than the rest
of the burst in which it has been asked for. -/
theorem udp_bytes_le {pre : List HomeEvent} (hpre : run step (start b) pre = some h)
    (h2 : h.board.semaforo = 2) (hrun : run step h es = some h')
    (hends : Meets step EndsNone h es) : (es.map udpBytes).sum ≤ h.udp.rest :=
  sum_udpBytes_le ((metered_start b).run hpre) h2 hrun hends

/-- A run in which a client asks for a recording during a burst. -/
def askedRun : List HomeEvent :=
  [.udp (.socket (some 3)), .udp (.socket (some 4)), .server (.socket (some 5)),
    .server (.bind true), .server (.listen true), .server (.accept (some (6, .zeros bufferSize))),
    .udp .tick, .server (.recv (some (ascii "eden"))), .server .tick]

/-- The burst goes on. -/
def chunkSent : List HomeEvent :=
  [.udp (.chunk (.read (some [1, 2]))), .udp (.chunk (.send (some 2)))]

theorem udp_bytes_askedRun : ∃ h, run step (start .initial) askedRun = some h ∧
    h.udp.rest = 32000 ∧ (chunkSent.map udpBytes).sum ≤ h.udp.rest := by
  obtain ⟨h, h', hpre, hrun, h2, hrest⟩ : ∃ h h', run step (start .initial) askedRun = some h ∧
      run step h chunkSent = some h' ∧ h.board.semaforo = 2 ∧ h.udp.rest = 32000 :=
    ⟨_, _, rfl, rfl, rfl, rfl⟩
  refine ⟨h, hpre, hrest, udp_bytes_le hpre h2 hrun ?_⟩
  exact meets_cons.2 fun _ _ => ⟨endsNone_udp _ _, meets_cons.2 fun _ _ =>
    ⟨endsNone_udp _ _, meets_nil⟩⟩

/-! ## Behind a session that has failed to connect -/

theorem wake_eq_broken (htcp : h.tcp = .deleted) : h.wake = .broken := by
  rw [wake, htcp]
  rfl

/-- In the protocol nothing but requests comes behind a failure. -/
theorem run_wake_broken {ds : List WakeEvent} {w : Wake}
    (hrun : run Wake.step .broken ds = some w) :
    w = .broken ∧ ∀ d ∈ ds, d = .request := by
  induction ds with
  | nil =>
    cases hrun
    exact ⟨rfl, nofun⟩
  | cons d ds ih =>
    obtain ⟨w', hs, hrun⟩ := (run_cons_eq_some _).1 hrun
    cases d <;> cases hs
    obtain ⟨hw, hds⟩ := ih hrun
    exact ⟨hw, List.forall_mem_cons.2 ⟨rfl, hds⟩⟩

theorem tcp_of_deleted {e : HomeEvent} (htcp : h.tcp = .deleted) (hstep : h.step e = some h') :
    h'.tcp = .deleted ∧ tcpBytes e = 0 ∧ h.EndsNone e := by
  cases step_iff.1 hstep with
  | udp => exact ⟨htcp, rfl, endsNone_udp h _⟩
  | tcp hs =>
    rw [htcp] at hs
    cases hs
  | server => exact ⟨htcp, rfl, endsNone_server h _⟩
  | mqtt => exact ⟨htcp, rfl, endsNone_mqtt h _⟩

/-- **Once a session has failed to connect**, whatever comes: only requests are seen, nothing is
sent over TCP, and over UDP no more than the rest of a burst. -/
theorem quiet_of_deleted {pre : List HomeEvent} (hpre : run step (start b) pre = some h)
    (htcp : h.tcp = .deleted) (hrun : run step h es = some h') :
    h'.tcp = .deleted ∧ (∀ d ∈ trace step wakeEvent h es, d = .request) ∧
      (es.map tcpBytes).sum = 0 ∧ (es.map udpBytes).sum ≤ h.udp.rest := by
  have hmetered := (metered_start b).run hpre
  have h2 : h.board.semaforo = 2 := hmetered.flag (by rw [htcp]; nofun)
  have hkept : ∀ s e s', Home.tcp s = .deleted → s.step e = some s' → Home.tcp s' = .deleted :=
    fun _ _ _ h hs => (tcp_of_deleted h hs).1
  have hends := meets_of_invariant hkept (fun _ _ _ h hs => (tcp_of_deleted h hs).2.2) htcp es
  have hproto := refines_wake.run hmetered.flag hrun
  rw [wake_eq_broken htcp] at hproto
  refine ⟨(throughout_of_invariant hkept htcp es).last hrun, (run_wake_broken hproto).2, ?_,
    sum_udpBytes_le hmetered h2 hrun hends⟩
  have hle : total step (fun _ e => tcpBytes e) h es + 0 ≤ 0 * total step (fun _ _ => 0) h es + 0 :=
    total_add_le _ _ (fun _ => 0) 0 (fun _ _ _ h _ hs => hkept _ _ _ h hs)
      (fun _ _ _ h _ hs => by rw [(tcp_of_deleted h hs).2.1]) htcp meets_true hrun
  rw [total_of_event hrun] at hle
  omega

theorem quiet_askedRun :
    ∃ h h', run step (start .initial) (askedRun ++ [.tcp .tick, .tcp (.socket none)]) = some h ∧
      run step h chunkSent = some h' ∧ h'.tcp = .deleted ∧
        (∀ d ∈ trace step wakeEvent h chunkSent, d = .request) ∧
          (chunkSent.map tcpBytes).sum = 0 ∧ (chunkSent.map udpBytes).sum ≤ h.udp.rest := by
  obtain ⟨h, h', hpre, htcp, hrun⟩ :
      ∃ h h', run step (start .initial) (askedRun ++ [.tcp .tick, .tcp (.socket none)]) = some h ∧
        h.tcp = .deleted ∧ run step h chunkSent = some h' := ⟨_, _, rfl, rfl, rfl⟩
  exact ⟨h, h', hpre, hrun, quiet_of_deleted hpre htcp hrun⟩

end Home

end HomeAssistant
