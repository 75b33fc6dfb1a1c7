import HomeAssistant.Home.Reception

/-!
# The clients and their sockets

`tcp_client` opens a socket, connects it and returns it; `initial_tcp_client_task` uses one for a
greeting and closes it. `exec_tcpClient` and `exec_initialTcpClientTask_of_ok` say what the two
leave open: a socket that cannot be connected is not closed by either.
-/

namespace HomeAssistant.Sockets

open Audio

/-! ## The clients -/

/-- What the calls of a client return. `socket` returns no descriptor that is in use. -/
structure ClientCalls where
  socket : (inUse : List ℕ) → Option { fd : ℕ // fd ∉ inUse }
  connect : Bool
  /-- What a call of `recv` that asks for `n` bytes returns, if it returns no error. -/
  recv : (n : ℕ) → Option { data : Bytes // data.length ≤ n }

/-- The network of such a client. -/
def ClientCalls.net (calls : ClientCalls) (inUse : List ℕ) : ClientNet where
  socket := (calls.socket inUse).isSome
  connect _ _ := calls.connect
  recv := calls.recv

variable (calls : ClientCalls)

/-- The call of `socket`. -/
def callSocket : Eff Board (Option ℕ) := do
  let b ← get
  match calls.socket b.sockets with
  | none => return none
  | some fd =>
    Eff.update fun b => b.openSocket fd
    return some fd.1

/-- `tcp_client`. -/
def tcpClient : Eff Board ℤ := do
  match ← callSocket calls with
  | none => return -1
  | some soc =>
    if ¬ calls.connect then return -1
    return soc

/-- The credentials as `initial_tcp_client_task` asks for them. -/
abbrev retrieveHost (stack : (n : ℕ) → Buffer n) : Eff Device
    (EspErr × Option (Buffer ssidLength) × Option (Buffer passwordLength) ×
      Option (Buffer hostIpLength)) :=
  retrieveCredentials none none (some (stack hostIpLength))

/-- `initial_tcp_client_task`, on the flash and the board. Neither the result of `send` nor that of
`shutdown` is looked at. -/
def initialTcpClientTask (stack : (n : ℕ) → Buffer n) : Eff (Device × Board) ClientRun := do
  let _ ← Eff.onFst (retrieveHost stack)
  match ← Eff.onSnd (callSocket calls) with
  | none => return ⟨.fail, none, none⟩
  | some sock =>
    if ¬ calls.connect then return ⟨.fail, none, none⟩
    let helloMsg := ascii "Hello from ESP32!"
    let reply ← Eff.lift (receiveReply (calls.net []) (stack rxBufferSize))
    Eff.onSnd (Eff.update fun b => b.closeSocket sock)
    return ⟨.ok, some helloMsg, reply⟩

variable {calls}

theorem exec_callSocket_of_none {b : Board} (h : calls.socket b.sockets = none) :
    (callSocket calls).exec b = (.ok none, b) := by
  simp only [callSocket, Eff.exec_bind, Eff.exec_get, h, Eff.exec_pure]

theorem exec_callSocket_of_some {b : Board} {fd : { fd : ℕ // fd ∉ b.sockets }}
    (h : calls.socket b.sockets = some fd) :
    (callSocket calls).exec b = (.ok (some fd.1), b.openSocket fd) := by
  simp only [callSocket, Eff.exec_bind, Eff.exec_get, h, Eff.exec_update, Eff.exec_pure]

/-- **What `tcp_client` does.** -/
theorem exec_tcpClient (b : Board) :
    (tcpClient calls).exec b = match calls.socket b.sockets with
      | none => (.ok (-1), b)
      | some fd => (.ok (if calls.connect then (fd.1 : ℤ) else -1), b.openSocket fd) := by
  cases h : calls.socket b.sockets with
  | none =>
    rw [tcpClient, Eff.exec_bind_of_ok (exec_callSocket_of_none h)]
    rfl
  | some fd =>
    rw [tcpClient, Eff.exec_bind_of_ok (exec_callSocket_of_some h)]
    cases hc : calls.connect <;> rfl

theorem sockets_closeSocket_openSocket (b : Board) (fd : ℕ) :
    ((b.openSocket fd).closeSocket fd).sockets = b.sockets :=
  List.erase_cons_head fd b.sockets

variable {stack : (n : ℕ) → Buffer n} {d d' : Device} {b : Board}

theorem exec_initialTcpClientTask_of_error {e : Fault}
    (h : (retrieveHost stack).exec d = (.error e, d')) (b : Board) :
    (initialTcpClientTask calls stack).exec (d, b) = (.error e, d', b) := by
  refine Eff.exec_bind_of_error ?_ _
  rw [Eff.exec_onFst, h]

/-- **What `initial_tcp_client_task` does**, if it gets the credentials. -/
theorem exec_initialTcpClientTask_of_ok (calls : ClientCalls)
    {r : EspErr × Option (Buffer ssidLength) × Option (Buffer passwordLength) ×
      Option (Buffer hostIpLength)}
    (h : (retrieveHost stack).exec d = (.ok r, d')) (b : Board) :
    ∃ reply, receiveReply (calls.net b.sockets) (stack rxBufferSize) = .ok reply ∧
      (initialTcpClientTask calls stack).exec (d, b) = match calls.socket b.sockets with
        | none => (.ok ⟨.fail, none, none⟩, d', b)
        | some fd =>
          if calls.connect then
            (.ok ⟨.ok, some (ascii "Hello from ESP32!"), reply⟩, d',
              (b.openSocket fd).closeSocket fd)
          else (.ok ⟨.fail, none, none⟩, d', b.openSocket fd) := by
  obtain ⟨reply, hreply⟩ := exists_receiveReply (calls.net b.sockets) (stack rxBufferSize)
  refine ⟨reply, hreply, ?_⟩
  have hret : (Eff.onFst (retrieveHost stack) : Eff (Device × Board) _).exec (d, b) =
      (.ok r, d', b) := by
    rw [Eff.exec_onFst, h]
  refine (Eff.exec_bind_of_ok hret _).trans ?_
  cases hs : calls.socket b.sockets with
  | none =>
    have hcall : (Eff.onSnd (callSocket calls) : Eff (Device × Board) _).exec (d', b) =
        (.ok none, d', b) := by
      rw [Eff.exec_onSnd, exec_callSocket_of_none hs]
    rw [Eff.exec_bind_of_ok hcall]
    rfl
  | some fd =>
    have hcall : (Eff.onSnd (callSocket calls) : Eff (Device × Board) _).exec (d', b) =
        (.ok (some fd.1), d', b.openSocket fd) := by
      rw [Eff.exec_onSnd, exec_callSocket_of_some hs]
    rw [Eff.exec_bind_of_ok hcall]
    have hlift : receiveReply (calls.net []) (stack rxBufferSize) = .ok reply := hreply
    cases hc : calls.connect with
    | false => rfl
    | true =>
      simp only [hlift]
      rfl

/-- **With its descriptors left out** `initial_tcp_client_task` is the function that the reception
of messages is about. -/
theorem exec_initialTcpClientTask_fst (stack : (n : ℕ) → Buffer n) (d : Device) (b : Board) :
    ((initialTcpClientTask calls stack).exec (d, b)).1 =
        ((HomeAssistant.initialTcpClientTask (calls.net b.sockets) stack).exec d).1 ∧
      ((initialTcpClientTask calls stack).exec (d, b)).2.1 =
        ((HomeAssistant.initialTcpClientTask (calls.net b.sockets) stack).exec d).2 := by
  rcases h : (retrieveHost stack).exec d with ⟨_ | ⟨err, ssid, password, hostIp⟩, d'⟩
  · unfold HomeAssistant.initialTcpClientTask
    rw [exec_initialTcpClientTask_of_error h, Eff.exec_bind_of_error h]
    exact ⟨rfl, rfl⟩
  · obtain ⟨reply, hreply, hexec⟩ := exec_initialTcpClientTask_of_ok calls h b
    obtain ⟨reply', hreply', hexec'⟩ :=
      HomeAssistant.exec_initialTcpClientTask_of_ok (calls.net b.sockets) stack h
    obtain rfl : reply = reply' := Except.ok.inj (hreply.symm.trans hreply')
    rw [hexec, hexec']
    cases hs : calls.socket b.sockets with
    | none => simp [ClientCalls.net, hs]
    | some fd => cases hc : calls.connect <;> simp [ClientCalls.net, hs, hc]

/-! ## What the clients leave open -/

/-- The client gets no socket, or one that it can connect. -/
def Connects (calls : ClientCalls) (b : Board) : Prop :=
  calls.socket b.sockets = none ∨ calls.connect = true

/-- `tcp_client` leaves open the socket that it returns, and none if it returns none. -/
def ClientCloses (calls : ClientCalls) (b : Board) : Prop :=
  ∀ ret b', (tcpClient calls).exec b = (.ok ret, b') →
    (ret = -1 → b'.sockets = b.sockets) ∧ ∀ fd : ℕ, ret = fd → b'.sockets = fd :: b.sockets

/-- `initial_tcp_client_task` leaves no socket open, whatever it returns. -/
def InitialCloses (calls : ClientCalls) (b : Board) : Prop :=
  ∀ stack d r d' b', (initialTcpClientTask calls stack).exec (d, b) = (.ok r, d', b') →
    b'.sockets = b.sockets

/-- **When `tcp_client` leaks no socket.** -/
theorem clientCloses_iff : ClientCloses calls b ↔ Connects calls b := by
  rw [ClientCloses, Connects, exec_tcpClient]
  cases hs : calls.socket b.sockets with
  | none =>
    refine iff_of_true (fun ret b' hexec => ?_) (Or.inl rfl)
    cases hexec
    exact ⟨fun _ => rfl, fun fd hfd => absurd hfd (by omega)⟩
  | some fd =>
    cases hc : calls.connect with
    | true =>
      refine iff_of_true (fun ret b' hexec => ?_) (Or.inr rfl)
      cases hexec
      refine ⟨fun hret => ?_, fun fd' hfd => ?_⟩
      · rw [if_pos rfl] at hret
        omega
      · rw [if_pos rfl, Int.natCast_inj] at hfd
        rw [← hfd]
        rfl
    | false =>
      refine iff_of_false (fun h => ?_) (by rintro (h | h) <;> cases h)
      exact List.cons_ne_self fd.1 b.sockets ((h _ _ rfl).1 rfl)

/-- A device on which credentials are stored. -/
def provisioned : Device := ⟨Nvs.putCredentials ⟨true, fun _ => none⟩ ⟨[], [], []⟩, 1, []⟩

theorem exists_exec_retrieveHost (stack : (n : ℕ) → Buffer n) :
    ∃ r, (retrieveHost stack).exec provisioned = (.ok r, provisioned) := by
  have hholds : provisioned.nvs.Holds ⟨[], [], []⟩ := Nvs.holds_putCredentials _ _
  obtain ⟨_, _, hostIp, hrun, -⟩ := exec_retrieveCredentials_filled hholds
    (none : Option (Buffer ssidLength)) (none : Option (Buffer passwordLength))
    (some (stack hostIpLength)) (by decide) (by decide) (by decide)
  exact ⟨_, hrun⟩

/-- What `initial_tcp_client_task` leaves open, if it gets the credentials. -/
theorem exists_exec_initialTcpClientTask
    {r : EspErr × Option (Buffer ssidLength) × Option (Buffer passwordLength) ×
      Option (Buffer hostIpLength)}
    (h : (retrieveHost stack).exec d = (.ok r, d')) (b : Board) :
    ∃ ret b', (initialTcpClientTask calls stack).exec (d, b) = (.ok ret, d', b') ∧
      (b'.sockets = b.sockets ↔ Connects calls b) := by
  obtain ⟨reply, -, hexec⟩ := exec_initialTcpClientTask_of_ok calls h b
  rw [hexec, Connects]
  cases hs : calls.socket b.sockets with
  | none => exact ⟨_, _, rfl, iff_of_true rfl (Or.inl rfl)⟩
  | some fd =>
    cases hc : calls.connect with
    | true => exact ⟨_, _, rfl, iff_of_true (sockets_closeSocket_openSocket b fd) (Or.inr rfl)⟩
    | false =>
      refine ⟨_, _, rfl, iff_of_false (List.cons_ne_self fd.1 b.sockets) ?_⟩
      rintro (h | h) <;> cases h

/-- **When `initial_tcp_client_task` leaks no socket.** -/
theorem initialCloses_iff : InitialCloses calls b ↔ Connects calls b := by
  constructor
  · intro h
    obtain ⟨r, hret⟩ := exists_exec_retrieveHost fun n => Buffer.zeros n
    obtain ⟨ret, b', hexec, hiff⟩ := exists_exec_initialTcpClientTask hret b
    exact hiff.1 (h _ _ _ _ _ hexec)
  · intro h stack d ret d' b' hrun
    rcases hret : (retrieveHost stack).exec d with ⟨_ | r, d''⟩
    · rw [exec_initialTcpClientTask_of_error hret] at hrun
      cases hrun
    · obtain ⟨ret', b'', hexec, hiff⟩ := exists_exec_initialTcpClientTask hret b
      rw [hexec] at hrun
      cases hrun
      exact hiff.2 h

end HomeAssistant.Sockets
