import HomeAssistant.Home.Clients
import HomeAssistant.Home.System
import Mathlib.Data.List.Perm.Subperm

/-!
# The descriptors of the sockets

A socket that is opened has to be closed again by the one who opened it. The tasks close what they
have opened and nothing else, so that each open descriptor belongs to one task
(`Ledger.Owned.step`). But `i2s_example_udp_stream_task` opens two sockets and forgets the first.

No socket is leaked exactly if the two clients get no socket that they cannot connect, and the task
does not get its second (`no_socket_leaked_iff`).
-/

namespace HomeAssistant

open Audio Machine

/-! ## The tasks -/

/-- The descriptor that the task sends on, once it has been set up. -/
def Audio.UdpTask.sendsOn : UdpTask → Option ℕ
  | .check sock | .burst sock _ => some sock
  | _ => none

/-- The descriptors that the task has opened and not closed. -/
def Audio.TcpTask.sockets : TcpTask → List ℕ
  | .connect sock | .switchOn sock _ | .session sock _ | .close sock => [sock]
  | _ => []

/-- The descriptors that the task has opened and not closed, unless it has faulted. -/
def Audio.ServerTask.sockets : ServerTask → List ℕ
  | .bind sock | .listen sock | .accept sock => [sock]
  | .recv sock client _ | .handle sock client _ _ => [client, sock]
  | _ => []

theorem Audio.TcpTask.sockets_inLoop (sock : ℕ) (l : ChunkLoop) :
    (TcpTask.inLoop sock l).sockets = [sock] := by
  rcases TcpTask.inLoop_cases sock l with hl | hl <;> rw [hl] <;> rfl

theorem sockets_act (message chunk : Bytes) (b : Board) :
    (act message chunk b).sockets = b.sockets := by
  unfold act
  split_ifs <;> rfl

/-- The TCP task opens what is not in use and closes what it has opened. -/
theorem subperm_of_tcpStep {b b' : Board} {t t' : TcpTask} {e : TaskEvent} {others : List ℕ}
    (h : (t.sockets ++ others).Subperm b.sockets) (hs : TcpStep b t e b' t') :
    (t'.sockets ++ others).Subperm b'.sockets := by
  cases hs with
  | begins | waits | socketFails | connect | switchOn | switchOff | reset => exact h
  | socket hfd => exact (List.subperm_cons _).2 h
  | connectFails sock | close sock =>
    have herase := h.erase sock
    rwa [TcpTask.sockets, List.singleton_append, List.erase_cons_head] at herase
  | starts sock =>
    rw [TcpTask.sockets_inLoop]
    exact h
  | chunk sock hl =>
    rw [TcpTask.sockets_inLoop]
    exact h

/-- The server opens what is not in use and closes what it has opened. -/
theorem subperm_of_serverStep {b b' : Board} {t t' : ServerTask} {e : ServerEvent}
    {others : List ℕ} (h : (t.sockets ++ others).Subperm b.sockets)
    (hs : ServerStep b t e b' t') : (t'.sockets ++ others).Subperm b'.sockets := by
  cases hs with
  | socketFails | bind | listen | acceptFails => exact h
  | socket hfd | accept sock buffer hfd => exact (List.subperm_cons _).2 h
  | bindFails sock | listenFails sock =>
    have herase := h.erase sock
    rwa [ServerTask.sockets, List.singleton_append, List.erase_cons_head] at herase
  | disconnect sock client =>
    have herase := h.erase client
    rwa [ServerTask.sockets, List.cons_append, List.erase_cons_head] at herase
  | recv sock client buffer hdata =>
    cases receive buffer _ with
    | ok => exact h
    | error => exact (List.sublist_append_right _ _).subperm.trans h
  | handle sock client buffer n =>
    rw [dispatch, sockets_act]
    exact h

theorem sockets_of_mqttStep {b b' : Board} {t t' : Mqtt.Task} {e : Mqtt.TaskEvent}
    (hs : t.step b e = some (b', t')) : b'.sockets = b.sockets := by
  obtain ⟨p, v, ws, -, -, rfl, -⟩ | ⟨-, rfl, -⟩ | ⟨-, rfl | ⟨topic, rfl⟩, -⟩ :=
    Mqtt.Task.step_cases hs <;> rfl

namespace Home

/-! ## The ledger -/

/-- The assistant, and the descriptors that the UDP task has been given. -/
structure Ledger where
  home : Home
  opened : List ℕ

/-- The descriptor that a step gives to the UDP task. -/
def openedBy : HomeEvent → List ℕ
  | .udp (.socket (some fd)) => [fd]
  | _ => []

/-- One step of the assistant, and its entry in the ledger. -/
def enter (w : Ledger) (e : HomeEvent) : Option Ledger :=
  (w.home.step e).map fun h => ⟨h, openedBy e ++ w.opened⟩

/-- The assistant at its start, with an empty ledger. -/
def Ledger.start (b : Board) : Ledger := ⟨.start b, []⟩

/-- **The ledger does not change the assistant.** -/
theorem map_run_enter (w : Ledger) (es : List HomeEvent) :
    (run enter w es).map Ledger.home = run step w.home es := by
  refine (run_proj enter step (f := Ledger.home) (fun w e => ?_) w es).symm
  rw [enter]
  cases w.home.step e <;> rfl

/-- Once it has been set up, the UDP task holds exactly one open descriptor, the one it sends on. -/
def HoldsOne (w : Ledger) : Prop :=
  ∀ sock, w.home.udp.sendsOn = some sock →
    ∀ fd, fd ∈ w.opened ∧ fd ∈ w.home.board.sockets ↔ fd = sock

/-- The step does not give the UDP task its second socket. -/
def OpensOnce (w : Ledger) (e : HomeEvent) : Prop :=
  w.home.udp = .openSecond → ∀ fd, e ≠ .udp (.socket (some fd))

/-- What the UDP task has opened on the way to where it is. -/
def OpenedUpTo (opened : List ℕ) : UdpTask → Prop
  | .openFirst => opened = []
  | .openSecond => ∃ first, opened = [first]
  | .check sock | .burst sock _ => ∃ first, first ≠ sock ∧ opened = [sock, first]
  | .deleted => True

/-- Each task's descriptors are open and belong to it alone, those of the UDP task being what it has
been given. -/
structure Ledger.Owned (w : Ledger) : Prop where
  tasks : (w.opened ++ (w.home.tcp.sockets ++ w.home.server.sockets)).Subperm w.home.board.sockets
  udp : OpenedUpTo w.opened w.home.udp

variable {w w' : Ledger} {e : HomeEvent}

theorem openedUpTo_inLoop {opened : List ℕ} {sock : ℕ} {l : ChunkLoop}
    (h : OpenedUpTo opened (.check sock)) : OpenedUpTo opened (.inLoop sock l) := by
  rw [UdpTask.inLoop]
  split <;> exact h

theorem owned_start (b : Board) : (Ledger.start b).Owned where
  tasks := List.nil_subperm
  udp := rfl

theorem owned_of_udpStep {opened others : List ℕ} {b b' : Board} {t t' : UdpTask} {e : TaskEvent}
    (htasks : (opened ++ others).Subperm b.sockets) (hudp : OpenedUpTo opened t)
    (hs : UdpStep b t e b' t') :
    (openedBy (.udp e) ++ opened ++ others).Subperm b'.sockets ∧
      OpenedUpTo (openedBy (.udp e) ++ opened) t' := by
  cases hs with
  | firstFails | secondFails => exact ⟨htasks, trivial⟩
  | @first fd hfd =>
    have hnil : opened = [] := hudp
    exact ⟨(List.subperm_cons fd).2 htasks, fd, by rw [hnil]; rfl⟩
  | @second fd hfd =>
    obtain ⟨first, rfl⟩ := hudp
    refine ⟨(List.subperm_cons fd).2 htasks, first, ?_, rfl⟩
    rintro rfl
    exact hfd (htasks.subset List.mem_cons_self)
  | begins sock | chunk sock => exact ⟨htasks, openedUpTo_inLoop hudp⟩
  | waits => exact ⟨htasks, hudp⟩

/-- **Every step keeps the descriptors with their owners.** -/
theorem Ledger.Owned.step (h : w.Owned) (hs : enter w e = some w') : w'.Owned := by
  obtain ⟨home, hstep, rfl⟩ := Option.map_eq_some_iff.1 hs
  obtain ⟨⟨board, udp, tcp, server, mqtt⟩, opened⟩ := w
  obtain ⟨htasks, hudp⟩ := h
  cases step_iff.1 hstep with
  | udp htask =>
    obtain ⟨htasks, hudp⟩ := owned_of_udpStep htasks hudp htask
    exact ⟨htasks, hudp⟩
  | tcp htask =>
    have hrotate := (List.perm_append_comm_assoc tcp.sockets opened server.sockets).subperm
    have hkept := subperm_of_tcpStep (hrotate.trans htasks) htask
    exact ⟨(List.perm_append_comm_assoc _ _ _).subperm.trans hkept, hudp⟩
  | server htask =>
    rw [← List.append_assoc] at htasks
    have hkept := subperm_of_serverStep (List.perm_append_comm.subperm.trans htasks) htask
    refine ⟨?_, hudp⟩
    show (opened ++ (tcp.sockets ++ _)).Subperm _
    rw [← List.append_assoc]
    exact List.perm_append_comm.subperm.trans hkept
  | mqtt htask =>
    have htasks : (opened ++ (tcp.sockets ++ server.sockets)).Subperm board.sockets := htasks
    rw [← sockets_of_mqttStep htask] at htasks
    exact ⟨htasks, hudp⟩

/-- Once it has been set up, the UDP task still holds the socket that it has opened first. -/
theorem exists_first_of_sendsOn {sock : ℕ} (h : w.Owned) (hsends : w.home.udp.sendsOn = some sock) :
    ∃ first, first ≠ sock ∧ w.opened = [sock, first] := by
  have hudp := h.udp
  unfold UdpTask.sendsOn at hsends
  split at hsends
  next hpc =>
    cases hsends
    rwa [hpc] at hudp
  next hpc =>
    cases hsends
    rwa [hpc] at hudp
  next => cases hsends

theorem holdsOne_iff (h : w.Owned) : HoldsOne w ↔ w.home.udp.sendsOn = none := by
  constructor
  · intro hone
    by_contra hsends
    obtain ⟨sock, hsock⟩ := Option.ne_none_iff_exists'.1 hsends
    obtain ⟨first, hne, hopened⟩ := exists_first_of_sendsOn h hsock
    have hmem : first ∈ w.opened := by rw [hopened]; simp
    have hopen := h.tasks.subset (List.mem_append_left _ hmem)
    exact hne ((hone sock hsock first).1 ⟨hmem, hopen⟩)
  · intro hnone sock hsome
    rw [hnone] at hsome
    cases hsome

/-- The UDP task comes to send on a socket by opening its second. -/
theorem sendsOn_of_udpStep {b b' : Board} {t t' : UdpTask} {e : TaskEvent}
    (hnone : t.sendsOn = none) (hs : UdpStep b t e b' t') :
    t'.sendsOn = none ↔ (t = .openSecond → ∀ fd, e ≠ .socket (some fd)) := by
  cases hs with
  | firstFails | first => exact iff_of_true rfl (fun h => by cases h)
  | secondFails => exact iff_of_true rfl (fun _ _ => nofun)
  | @second fd hfd => exact iff_of_false nofun (fun h => h rfl fd rfl)
  | begins | chunk | waits => cases hnone

/-- A step from a state in which the UDP task holds no socket too many leads to one exactly if it
does not open its second. -/
theorem holdsOne_step_iff (h : w.Owned) (hone : HoldsOne w) (hs : enter w e = some w') :
    HoldsOne w' ↔ OpensOnce w e := by
  rw [holdsOne_iff (h.step hs)]
  have hnone := (holdsOne_iff h).1 hone
  obtain ⟨home, hstep, rfl⟩ := Option.map_eq_some_iff.1 hs
  cases step_iff.1 hstep with
  | udp htask =>
    refine (sendsOn_of_udpStep hnone htask).trans ?_
    simp only [OpensOnce, HomeEvent.udp.injEq, ne_eq]
  | tcp htask | server htask | mqtt htask => exact iff_of_true hnone (fun _ _ => nofun)

/-- **When the UDP task holds one socket**: in exactly the runs in which it does not get its
second. -/
theorem holdsOne_throughout_iff (b : Board) (es : List HomeEvent) :
    Throughout enter HoldsOne (.start b) es ↔ Meets enter OpensOnce (.start b) es := by
  refine throughout_iff_meets (fun _ _ _ h hs => Ledger.Owned.step h hs)
    (fun _ _ _ h hone hs => holdsOne_step_iff h hone hs) (owned_start b) ?_ es
  exact (holdsOne_iff (owned_start b)).2 rfl

/-! ## The three together -/

/-- No socket is leaked: by a call of `tcp_client`, by one of `initial_tcp_client_task`, or by the
UDP task in a run of the assistant. -/
structure NoSocketLeaked (calls calls' : Sockets.ClientCalls) (b : Board) (es : List HomeEvent) :
    Prop where
  client : Sockets.ClientCloses calls b
  initial : Sockets.InitialCloses calls' b
  streaming : Throughout enter HoldsOne (.start b) es

/-- **When no socket is leaked**: exactly if neither client gets a socket that it cannot connect,
and the UDP task does not get its second socket. -/
theorem no_socket_leaked_iff (calls calls' : Sockets.ClientCalls) (b : Board)
    (es : List HomeEvent) :
    NoSocketLeaked calls calls' b es ↔
      Sockets.Connects calls b ∧ Sockets.Connects calls' b ∧
        Meets enter OpensOnce (.start b) es := by
  rw [← Sockets.clientCloses_iff, ← Sockets.initialCloses_iff, ← holdsOne_throughout_iff]
  exact ⟨fun h => ⟨h.client, h.initial, h.streaming⟩, fun ⟨h, h', h''⟩ => ⟨h, h', h''⟩⟩

/-- A client that gets the socket `54` and cannot connect it. -/
def refusedCalls : Sockets.ClientCalls where
  socket inUse := if h : 54 ∈ inUse then none else some ⟨54, h⟩
  connect := false
  recv _ := none

/-- A connection that is refused leaves the socket of each client open, and after its set-up the UDP
task holds two. -/
theorem sockets_left_open :
    (∃ b, (Sockets.tcpClient refusedCalls).exec .initial = (.ok (-1), b) ∧ b.sockets = [54]) ∧
      (∃ r b, (Sockets.initialTcpClientTask refusedCalls Buffer.zeros).exec
        (Sockets.provisioned, .initial) = (.ok r, Sockets.provisioned, b) ∧ r.ret = .fail ∧
          b.sockets = [54]) ∧
      (∃ w, run enter (.start .initial) [.udp (.socket (some 54)), .udp (.socket (some 55))] =
        some w ∧ w.home.udp = .check 55 ∧ w.home.board.sockets = [55, 54] ∧
          w.opened = [55, 54]) ∧
      ¬ NoSocketLeaked refusedCalls refusedCalls .initial
        [.udp (.socket (some 54)), .udp (.socket (some 55))] := by
  refine ⟨⟨_, rfl, rfl⟩, ⟨_, _, rfl, rfl, rfl⟩, ⟨_, rfl, rfl, rfl, rfl⟩, fun h => ?_⟩
  have hclosed : [54] = [] := (h.client (-1) _ rfl).1 rfl
  cases hclosed

end Home

end HomeAssistant
