import HomeAssistant.Audio.Server
import HomeAssistant.Mqtt.Handler
import HomeAssistant.Provisioning.HandlerSteps
import HomeAssistant.Provisioning.Retrieval

/-!
# Terminating what is received

In four places the program receives bytes into a buffer and puts a NUL behind them. Three of them
reserve the byte for it: `initial_tcp_client_task` asks for one byte less than its buffer has,
`post_handler` and `mqtt_event_handler` allocate one more than they ask for. `tcp_server_task` asks
for the whole buffer, so a call of `recv` that fills it makes the server write behind it
(`terminators_inside_iff`).
-/

namespace HomeAssistant

open Audio

/-! ## The first connection -/

/-- The size of the buffer of the client. -/
abbrev rxBufferSize : ℕ := 128

/-- The network as `initial_tcp_client_task` meets it. -/
structure ClientNet where
  /-- A socket can be created. -/
  socket : Bool
  /-- The host with this address, as a text, can be connected to at a port. -/
  connect : Bytes → ℕ → Bool
  /-- What a call of `recv` that asks for `n` bytes returns, if it returns no error. -/
  recv : (n : ℕ) → Option { data : Bytes // data.length ≤ n }

/-- What a run of `initial_tcp_client_task` that returns has done. -/
structure ClientRun where
  ret : EspErr
  sent : Option Bytes
  printed : Option Bytes

/-- The reply of the host, as a C string, if there is one. -/
def receiveReply (net : ClientNet) (rxBuffer : Buffer rxBufferSize) :
    Except Fault (Option Bytes) := do
  match net.recv (rxBufferSize - 1) with
  | none => return none
  | some data =>
    if data.1.length > 0 then
      let rxBuffer ← rxBuffer.terminate data
      return some rxBuffer.str
    return none

/-- `initial_tcp_client_task`. The arrays are not initialised: `stack` is what they contain. -/
def initialTcpClientTask (net : ClientNet) (stack : (n : ℕ) → Buffer n) : Eff Device ClientRun := do
  let (_, _, _, hostIp) ← retrieveCredentials (none : Option (Buffer ssidLength))
    (none : Option (Buffer passwordLength)) (some (stack hostIpLength))
  let hostIp := hostIp.getD (stack hostIpLength)
  if ¬ net.socket then return ⟨.fail, none, none⟩
  if ¬ net.connect hostIp.str 12340 then return ⟨.fail, none, none⟩
  let helloMsg := ascii "Hello from ESP32!"
  let reply ← Eff.lift (receiveReply net (stack rxBufferSize))
  return ⟨.ok, some helloMsg, reply⟩

/-- The reply leaves room for its terminator. -/
theorem exists_receiveReply (net : ClientNet) (rxBuffer : Buffer rxBufferSize) :
    ∃ reply, receiveReply net rxBuffer = .ok reply := by
  unfold receiveReply
  cases net.recv (rxBufferSize - 1) with
  | none => exact ⟨none, rfl⟩
  | some data =>
    obtain ⟨b, hb, -⟩ := rxBuffer.exists_terminate (Nat.lt_succ_of_le data.2)
    by_cases hpos : data.1.length > 0
    · exact ⟨some b.str, by simp only [hpos, if_true, hb]; rfl⟩
    · exact ⟨none, if_neg hpos⟩

/-- **What `initial_tcp_client_task` does**, if it gets the credentials. -/
theorem exec_initialTcpClientTask_of_ok {d d' : Device} (net : ClientNet)
    (stack : (n : ℕ) → Buffer n) {ssid : Option (Buffer ssidLength)}
    {password : Option (Buffer passwordLength)} {hostIp : Option (Buffer hostIpLength)}
    {err : EspErr}
    (h : (retrieveCredentials none none (some (stack hostIpLength))).exec d =
      (.ok (err, ssid, password, hostIp), d')) :
    ∃ reply, receiveReply net (stack rxBufferSize) = .ok reply ∧
      (initialTcpClientTask net stack).exec d = (.ok
        (if net.socket ∧ net.connect (hostIp.getD (stack hostIpLength)).str 12340 then
          ⟨.ok, some (ascii "Hello from ESP32!"), reply⟩ else ⟨.fail, none, none⟩), d') := by
  obtain ⟨reply, hreply⟩ := exists_receiveReply net (stack rxBufferSize)
  refine ⟨reply, hreply, ?_⟩
  unfold initialTcpClientTask
  rw [Eff.exec_bind_of_ok h]
  by_cases hs : net.socket
  · by_cases hcon : net.connect (hostIp.getD (stack hostIpLength)).str 12340
    · simp only [hs, hcon, not_true, if_false, hreply, and_self, if_true]
      rfl
    · simp only [hs, hcon, not_true, not_false_eq_true, if_false, if_true, Bool.false_eq_true,
        and_false]
      rfl
  · simp only [hs, not_false_eq_true, if_true, if_false, Bool.false_eq_true, false_and]
    rfl

/-- **The first connection** ends well, on a device with credentials that fit. -/
theorem exec_initialTcpClientTask {d : Device} {c : Credentials} (h : d.nvs.Holds c) (hc : c.Fits)
    (net : ClientNet) (stack : (n : ℕ) → Buffer n) :
    ∃ r, (initialTcpClientTask net stack).exec d = (.ok r, d) := by
  obtain ⟨_, _, hostIp, hrun, -⟩ := exec_retrieveCredentials_filled h (none : Option (Buffer _))
    none (some (stack hostIpLength)) hc.ssid hc.password hc.hostIp
  obtain ⟨reply, -, hexec⟩ := exec_initialTcpClientTask_of_ok net stack hrun
  exact ⟨_, hexec⟩

/-! ## The four places -/

/-- A message that fills the buffer of the server is terminated behind it. -/
theorem exec_handleMessage_of_full (buffer : Buffer bufferSize) {data : Bytes}
    (h : ¬ data.length < bufferSize) (b : Board) :
    (handleMessage buffer data).exec b = (.error .outOfBounds, b) := by
  have hfault : receive buffer data = .error .outOfBounds :=
    not_not.1 (mt (buffer.terminate_ne_outOfBounds_iff data).1 h)
  simp only [handleMessage, Eff.exec_bind, Eff.exec_lift, hfault]

/-- **When the server stays inside its buffer**: exactly if no call of `recv` fills it. -/
theorem receiveLoop_ne_outOfBounds_iff (buffer : Buffer bufferSize) (segs : List Bytes)
    (b : Board) : ((receiveLoop buffer segs).exec b).1 ≠ .error .outOfBounds ↔
      ∀ s ∈ segs, s.length < bufferSize := by
  induction segs generalizing buffer b with
  | nil => exact iff_of_true nofun (by simp)
  | cons s segs ih =>
    rw [List.forall_mem_cons, receiveLoop]
    by_cases hs : s.length < bufferSize
    · obtain ⟨buffer', hrun⟩ := exec_handleMessage buffer hs b
      rw [Eff.exec_bind_of_ok hrun, and_iff_right hs]
      exact ih buffer' _
    · rw [Eff.exec_bind_of_error (exec_handleMessage_of_full buffer hs b)]
      exact iff_of_false (not_not_intro rfl) fun h => hs h.1

/-- No terminator is written behind its buffer: in the server, on what its calls of `recv` return,
and in the client, the handler of the setup form and the MQTT handler, on all they may receive. -/
structure TerminatorsInside (segs : List Bytes) : Prop where
  server (buffer : Buffer bufferSize) (b : Board) :
    ((receiveLoop buffer segs).exec b).1 ≠ .error .outOfBounds
  client (net : ClientNet) (rxBuffer : Buffer rxBufferSize) :
    receiveReply net rxBuffer ≠ .error .outOfBounds
  handler (env : PostEnv) (contentLen : UInt32) : contentLen.toNat < 2 ^ 32 - 1 →
    receiveBody env contentLen ≠ .error .outOfBounds
  mqtt (malloc : (n : ℕ) → Option (Buffer n)) (data : Bytes) :
    Mqtt.copyMessage malloc data ≠ .error .outOfBounds

/-- **When all terminators are written inside their buffers**: exactly if no call of `recv` in
`tcp_server_task` fills the buffer. -/
theorem terminators_inside_iff (segs : List Bytes) :
    TerminatorsInside segs ↔ ∀ s ∈ segs, s.length < bufferSize := by
  constructor
  · intro h
    exact (receiveLoop_ne_outOfBounds_iff (Buffer.zeros bufferSize) segs Board.initial).1
      (h.server _ _)
  · intro h
    refine ⟨fun buffer b => (receiveLoop_ne_outOfBounds_iff buffer segs b).2 h,
      fun net rxBuffer => ?_, fun env contentLen => receiveBody_ne_outOfBounds,
      Mqtt.copyMessage_ne_outOfBounds⟩
    obtain ⟨reply, hreply⟩ := exists_receiveReply net rxBuffer
    rw [hreply]
    exact nofun

/-- A call of `recv` that fills the buffer of the server with audio. -/
theorem full_receive_overflows :
    (List.replicate 1024 (0x55 : UInt8)).length ≤ bufferSize ∧
      ((receiveLoop (Buffer.zeros bufferSize) [List.replicate 1024 0x55]).exec Board.initial).1 =
        .error .outOfBounds ∧
      ¬ TerminatorsInside [List.replicate 1024 0x55] := by
  have hfault : ((receiveLoop (Buffer.zeros bufferSize) [List.replicate 1024 0x55]).exec
      Board.initial).1 = .error .outOfBounds := by
    have hfull : ¬ (List.replicate 1024 (0x55 : UInt8)).length < bufferSize := by
      rw [List.length_replicate]
      exact Nat.lt_irrefl bufferSize
    rw [receiveLoop, Eff.exec_bind_of_error (exec_handleMessage_of_full _ hfull _)]
  exact ⟨Nat.le_of_eq List.length_replicate, hfault, fun h => h.server _ _ hfault⟩

end HomeAssistant
