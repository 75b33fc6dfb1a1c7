import HomeAssistant.Home.Descriptors

/-!
# The account of the sockets

Of the sockets that the tasks open, the UDP task forgets one and a server that has faulted leaves
two behind. The account of all open sockets is exact: beside those that were open at the start there
are those that the tasks have in use and these, each once (`Custody.step`). So however many sessions
and connections there are, no more than five sockets are open at a time that were not open at the
start (`sockets_accounted`).
-/

namespace HomeAssistant

open Audio Machine

/-! ## The tasks -/

/-- The sockets that the task has opened are those in `fds`: it closes none. -/
def Audio.UdpTask.Holds (fds : List ℕ) : UdpTask → Prop
  | .openFirst => fds = []
  | .openSecond => ∃ first, fds = [first]
  | .check sock | .burst sock _ => ∃ first, fds = [sock, first]
  | .deleted => fds.length ≤ 1

/-- The sockets that the task has opened and not closed are those in `fds`. -/
def Audio.ServerTask.Holds (fds : List ℕ) : ServerTask → Prop
  | .faulted _ => ∃ client sock, fds = [client, sock]
  | t => fds = t.sockets

variable {b b' : Board} {fds others : List ℕ}

theorem holds_udp_inLoop {sock : ℕ} {l : ChunkLoop} (h : (UdpTask.check sock).Holds fds) :
    (UdpTask.inLoop sock l).Holds fds := by
  rw [UdpTask.inLoop]
  split <;> exact h

theorem length_le_of_udp_holds {t : UdpTask} (h : t.Holds fds) : fds.length ≤ 2 := by
  cases t with
  | openFirst =>
    rw [show fds = [] from h]
    exact Nat.zero_le 2
  | openSecond =>
    obtain ⟨first, rfl⟩ := h
    exact Nat.le_succ 1
  | check | burst =>
    obtain ⟨first, rfl⟩ := h
    exact Nat.le_refl 2
  | deleted => exact Nat.le_succ_of_le h

theorem length_le_of_server_holds {t : ServerTask} (h : t.Holds fds) : fds.length ≤ 2 := by
  cases t with
  | faulted =>
    obtain ⟨client, sock, rfl⟩ := h
    exact Nat.le_refl 2
  | openSocket | bind | listen | accept | recv | handle | deleted =>
    rw [show fds = _ from h]
    simp [ServerTask.sockets]

theorem length_sockets_tcp_le (t : TcpTask) : t.sockets.length ≤ 1 := by
  cases t <;> simp [TcpTask.sockets]

theorem perm_of_udpStep {t t' : UdpTask} {e : TaskEvent} (hfds : t.Holds fds)
    (h : (fds ++ others).Perm b.sockets) (hs : UdpStep b t e b' t') :
    ∃ fds', t'.Holds fds' ∧ (fds' ++ others).Perm b'.sockets := by
  cases hs with
  | firstFails =>
    rw [show fds = [] from hfds] at h
    exact ⟨[], Nat.zero_le 1, h⟩
  | @first fd _ =>
    rw [show fds = [] from hfds] at h
    exact ⟨[fd], ⟨fd, rfl⟩, h.cons fd⟩
  | secondFails =>
    obtain ⟨first, rfl⟩ := hfds
    exact ⟨[first], Nat.le_refl 1, h⟩
  | @second fd _ =>
    obtain ⟨first, rfl⟩ := hfds
    exact ⟨[fd, first], ⟨first, rfl⟩, h.cons fd⟩
  | begins | chunk => exact ⟨fds, holds_udp_inLoop hfds, h⟩
  | waits => exact ⟨fds, hfds, h⟩

/-- A step of the TCP task opens a socket, or closes the one it has opened, or none. -/
theorem perm_of_tcpStep {t t' : TcpTask} {e : TaskEvent}
    (h : (t.sockets ++ others).Perm b.sockets) (hs : TcpStep b t e b' t') :
    (t'.sockets ++ others).Perm b'.sockets := by
  cases hs with
  | begins | waits | socketFails | connect | switchOn | switchOff | reset => exact h
  | socket hfd => exact h.cons _
  | connectFails sock | close sock =>
    have herase := h.erase sock
    rwa [TcpTask.sockets, List.singleton_append, List.erase_cons_head] at herase
  | starts sock | chunk sock hl =>
    rw [TcpTask.sockets_inLoop]
    exact h

/-- A step of the server opens a socket, or closes one that it has opened, or none. -/
theorem perm_of_serverStep {t t' : ServerTask} {e : ServerEvent} (hfds : t.Holds fds)
    (h : (fds ++ others).Perm b.sockets) (hs : ServerStep b t e b' t') :
    ∃ fds', t'.Holds fds' ∧ (fds' ++ others).Perm b'.sockets := by
  cases hs with
  | socketFails | bind | listen | acceptFails =>
    rw [show fds = _ from hfds] at h
    exact ⟨_, rfl, h⟩
  | socket hfd | accept sock buffer hfd =>
    rw [show fds = _ from hfds] at h
    exact ⟨_, rfl, h.cons _⟩
  | bindFails sock | listenFails sock =>
    rw [show fds = [sock] from hfds] at h
    have herase := h.erase sock
    rw [List.singleton_append, List.erase_cons_head] at herase
    exact ⟨[], rfl, herase⟩
  | disconnect sock client =>
    rw [show fds = [client, sock] from hfds] at h
    have herase := h.erase client
    rw [List.cons_append, List.erase_cons_head] at herase
    exact ⟨[sock], rfl, herase⟩
  | recv sock client buffer hdata =>
    rw [show fds = [client, sock] from hfds] at h
    refine ⟨[client, sock], ?_, h⟩
    cases receive buffer _ with
    | ok => rfl
    | error => exact ⟨client, sock, rfl⟩
  | handle sock client buffer n =>
    rw [show fds = [client, sock] from hfds] at h
    refine ⟨[client, sock], rfl, ?_⟩
    rwa [dispatch, sockets_act]

namespace Home

/-! ## The account -/

/-- The open sockets of the assistant are, each once, those that are open on the board `b` and those
that the tasks have opened and not closed. -/
structure Custody (b : Board) (h : Home) : Prop where
  nodup : h.board.sockets.Nodup
  account : ∃ udp server, h.udp.Holds udp ∧ h.server.Holds server ∧
    (udp ++ (h.tcp.sockets ++ (server ++ b.sockets))).Perm h.board.sockets

variable {h h' : Home} {e : HomeEvent} {es : List HomeEvent}

theorem nodup_of_step (hnodup : h.board.sockets.Nodup) (hstep : h.step e = some h') :
    h'.board.sockets.Nodup := by
  have hopen {fd : ℕ} (hfd : fd ∉ h.board.sockets) : (fd :: h.board.sockets).Nodup :=
    List.nodup_cons.2 ⟨hfd, hnodup⟩
  obtain ⟨board, udp, tcp, server, mqtt⟩ := h
  cases step_iff.1 hstep with
  | udp hs =>
    cases hs with
    | first hfd | second hfd => exact hopen hfd
    | firstFails | secondFails | begins | waits | chunk => exact hnodup
  | tcp hs =>
    cases hs with
    | socket hfd => exact hopen hfd
    | connectFails sock | close sock => exact hnodup.erase sock
    | begins | waits | socketFails | connect | switchOn | starts | chunk | switchOff | reset =>
      exact hnodup
  | server hs =>
    cases hs with
    | socket hfd | accept sock buffer hfd => exact hopen hfd
    | bindFails sock | listenFails sock => exact hnodup.erase sock
    | disconnect sock client => exact hnodup.erase client
    | socketFails | bind | listen | acceptFails | recv => exact hnodup
    | handle =>
      rw [dispatch, sockets_act]
      exact hnodup
  | mqtt hs =>
    rw [sockets_of_mqttStep hs]
    exact hnodup

theorem perm_front (server udp tcp rest : List ℕ) :
    (server ++ (udp ++ (tcp ++ rest))).Perm (udp ++ (tcp ++ (server ++ rest))) :=
  (List.perm_append_comm_assoc server udp _).trans
    ((List.perm_append_comm_assoc server tcp rest).append_left udp)

/-- **Every step keeps the account.** -/
theorem Custody.step (hcustody : h.Custody b) (hstep : h.step e = some h') : h'.Custody b := by
  refine ⟨nodup_of_step hcustody.nodup hstep, ?_⟩
  obtain ⟨udp, server, hudp, hserver, hperm⟩ := hcustody.account
  cases step_iff.1 hstep with
  | udp hs =>
    obtain ⟨udp', hudp', hperm'⟩ := perm_of_udpStep hudp hperm hs
    exact ⟨udp', server, hudp', hserver, hperm'⟩
  | tcp hs =>
    have hkept := perm_of_tcpStep ((List.perm_append_comm_assoc _ _ _).trans hperm) hs
    exact ⟨udp, server, hudp, hserver, (List.perm_append_comm_assoc _ _ _).trans hkept⟩
  | server hs =>
    obtain ⟨server', hserver', hperm'⟩ :=
      perm_of_serverStep hserver ((perm_front server udp h.tcp.sockets _).trans hperm) hs
    exact ⟨udp, server', hudp, hserver', (perm_front _ _ _ _).symm.trans hperm'⟩
  | mqtt hs =>
    rw [← sockets_of_mqttStep hs] at hperm
    exact ⟨udp, server, hudp, hserver, hperm⟩

theorem custody_start (hb : b.sockets.Nodup) : (start b).Custody b :=
  ⟨hb, [], [], rfl, rfl, List.Perm.refl _⟩

theorem Custody.length_le (hcustody : h.Custody b) :
    h.board.sockets.length ≤ b.sockets.length + 5 := by
  obtain ⟨udp, server, hudp, hserver, hperm⟩ := hcustody.account
  have htcp := length_sockets_tcp_le h.tcp
  have hudp' := length_le_of_udp_holds hudp
  have hserver' := length_le_of_server_holds hserver
  have hlen := hperm.length_eq
  simp only [List.length_append] at hlen
  omega

/-- **The sockets are accounted for**: in every run the open sockets are those of the start and
those that the tasks have opened and not closed, each once, and no more than five beside those of
the start. -/
theorem sockets_accounted (hb : b.sockets.Nodup) (hrun : run step (start b) es = some h) :
    h.Custody b ∧ h.board.sockets.length ≤ b.sockets.length + 5 := by
  have hcustody := (throughout_of_invariant (fun _ _ _ hcustody hs => Custody.step hcustody hs)
    (custody_start hb) es).last hrun
  exact ⟨hcustody, hcustody.length_le⟩

/-- The sockets behind a session that was refused and a client that has disconnected. -/
theorem sockets_accounted_refused :
    ∃ h, run step (start .initial)
      [.udp (.socket (some 1)), .udp (.socket (some 2)), .server (.socket (some 3)),
        .server (.bind true), .server (.listen true),
        .server (.accept (some (4, .zeros bufferSize))), .server (.recv (some (ascii "eden"))),
        .server .tick, .tcp .tick, .tcp (.socket (some 5)), .tcp (.connect false),
        .server (.recv none)] = some h ∧
      h.board.sockets = [3, 2, 1] ∧ h.Custody .initial ∧ h.board.sockets.length ≤ 0 + 5 := by
  obtain ⟨h, hrun, hsockets⟩ : ∃ h, run step (start .initial)
      [.udp (.socket (some 1)), .udp (.socket (some 2)), .server (.socket (some 3)),
        .server (.bind true), .server (.listen true),
        .server (.accept (some (4, .zeros bufferSize))), .server (.recv (some (ascii "eden"))),
        .server .tick, .tcp .tick, .tcp (.socket (some 5)), .tcp (.connect false),
        .server (.recv none)] = some h ∧ h.board.sockets = [3, 2, 1] := ⟨_, rfl, rfl⟩
  exact ⟨h, hrun, hsockets, sockets_accounted List.nodup_nil hrun⟩

end Home

end HomeAssistant
