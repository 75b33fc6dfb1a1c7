import HomeAssistant.Audio.ChunkLoop
import HomeAssistant.Board

/-!
# The streaming tasks

`i2s_example_udp_stream_task` records in bursts while `semaforo` is 1, and
`i2s_example_tcp_stream_task` records one session when it finds `semaforo` at 2: it opens a
connection, turns on the green LEDs, records, closes the connection, turns off the LEDs and sets
`semaforo` back to 1. Each access to the flag, each call on a socket or the microphone and each
setting of a pin is a step of its own.

`UdpStep` and `TcpStep` list what a step of the tasks can do.
-/

namespace HomeAssistant.Audio

/-- What a step of a streaming task learns: nothing, or the result of a call. -/
inductive TaskEvent
  | tick
  | socket (fd : Option ℕ)
  | connect (ok : Bool)
  | chunk (e : ChunkEvent)
  deriving DecidableEq

/-- The three green LEDs, in the order in which a session sets them. -/
def greenLeds : List Pin := [.userGreenLedPin, .userGreenLedPin2, .userGreenLedPin3]

/-! ## The task that sends over UDP -/

/-- Where `i2s_example_udp_stream_task` is. It opens two sockets and keeps the second. -/
inductive UdpTask
  | openFirst
  | openSecond
  | check (sock : ℕ)
  | burst (sock : ℕ) (l : ChunkLoop)
  | deleted
  deriving DecidableEq

/-- The bytes of a burst. -/
def burstBytes : UInt32 := totalBytes recordTime

/-- The task in its chunk loop, or behind it. -/
def UdpTask.inLoop (sock : ℕ) (l : ChunkLoop) : UdpTask :=
  match l.pc with
  | .left _ => .check sock
  | _ => .burst sock l

/-- One step of `i2s_example_udp_stream_task`. -/
def UdpTask.step (b : Board) : UdpTask → TaskEvent → Option (Board × UdpTask)
  | .openFirst, .socket none => some (b, .deleted)
  | .openFirst, .socket (some fd) =>
    if fd ∈ b.sockets then none else some (b.openSocket fd, .openSecond)
  | .openSecond, .socket none => some (b, .deleted)
  | .openSecond, .socket (some fd) =>
    if fd ∈ b.sockets then none else some (b.openSocket fd, .check fd)
  | .check sock, .tick =>
    if b.semaforo = 1 then some (b, .inLoop sock (.start burstBytes)) else some (b, .check sock)
  | .burst sock l, .chunk e => (l.step burstBytes e).map fun l' => (b, .inLoop sock l')
  | _, _ => none

/-! ## The task that sends over TCP -/

/-- Where `i2s_example_tcp_stream_task` is. The levels still to be set are kept where it sets the
LEDs; when they are all set it allocates its buffer, or resets the flag. -/
inductive TcpTask
  | check
  | openSocket
  | connect (sock : ℕ)
  | switchOn (sock : ℕ) (ws : List (Pin × Bool))
  | session (sock : ℕ) (l : ChunkLoop)
  | close (sock : ℕ)
  | switchOff (ws : List (Pin × Bool))
  | deleted
  deriving DecidableEq

/-- The task is not in an attempt to record. -/
def TcpTask.Ended (t : TcpTask) : Prop := t = .check ∨ t = .deleted

instance (t : TcpTask) : Decidable t.Ended := inferInstanceAs (Decidable (_ ∨ _))

/-- The bytes of a session. -/
def sessionBytes : UInt32 := totalBytes recordTimeResponse

/-- The task in its chunk loop, or behind it. -/
def TcpTask.inLoop (sock : ℕ) (l : ChunkLoop) : TcpTask :=
  match l.pc with
  | .left _ => .close sock
  | _ => .session sock l

/-- One step of `i2s_example_tcp_stream_task`. -/
def TcpTask.step (b : Board) : TcpTask → TaskEvent → Option (Board × TcpTask)
  | .check, .tick => if b.semaforo = 2 then some (b, .openSocket) else some (b, .check)
  | .openSocket, .socket none => some (b, .deleted)
  | .openSocket, .socket (some fd) =>
    if fd ∈ b.sockets then none else some (b.openSocket fd, .connect fd)
  | .connect sock, .connect false => some (b.closeSocket sock, .deleted)
  | .connect sock, .connect true => some (b, .switchOn sock (greenLeds.map (·, high)))
  | .switchOn sock ((p, v) :: ws), .tick => some (b.setLevel p v, .switchOn sock ws)
  | .switchOn sock [], .tick => some (b, .inLoop sock (.start sessionBytes))
  | .session sock l, .chunk e => (l.step sessionBytes e).map fun l' => (b, .inLoop sock l')
  | .close sock, .tick => some (b.closeSocket sock, .switchOff (greenLeds.map (·, low)))
  | .switchOff ((p, v) :: ws), .tick => some (b.setLevel p v, .switchOff ws)
  | .switchOff [], .tick => some ({ b with semaforo := 1 }, .check)
  | _, _ => none

/-! ## What a step can do -/

/-- The steps of `i2s_example_udp_stream_task`. -/
inductive UdpStep : Board → UdpTask → TaskEvent → Board → UdpTask → Prop
  | firstFails (b) : UdpStep b .openFirst (.socket none) b .deleted
  | first (b) {fd} (h : fd ∉ b.sockets) :
    UdpStep b .openFirst (.socket (some fd)) (b.openSocket fd) .openSecond
  | secondFails (b) : UdpStep b .openSecond (.socket none) b .deleted
  | second (b) {fd} (h : fd ∉ b.sockets) :
    UdpStep b .openSecond (.socket (some fd)) (b.openSocket fd) (.check fd)
  | begins (b sock) (h : b.semaforo = 1) :
    UdpStep b (.check sock) .tick b (.inLoop sock (.start burstBytes))
  | waits (b sock) (h : b.semaforo ≠ 1) : UdpStep b (.check sock) .tick b (.check sock)
  | chunk (b sock) {l e l'} (h : l.step burstBytes e = some l') :
    UdpStep b (.burst sock l) (.chunk e) b (.inLoop sock l')

/-- The steps of `i2s_example_tcp_stream_task`. -/
inductive TcpStep : Board → TcpTask → TaskEvent → Board → TcpTask → Prop
  | begins (b) (h : b.semaforo = 2) : TcpStep b .check .tick b .openSocket
  | waits (b) (h : b.semaforo ≠ 2) : TcpStep b .check .tick b .check
  | socketFails (b) : TcpStep b .openSocket (.socket none) b .deleted
  | socket (b) {fd} (h : fd ∉ b.sockets) :
    TcpStep b .openSocket (.socket (some fd)) (b.openSocket fd) (.connect fd)
  | connectFails (b sock) :
    TcpStep b (.connect sock) (.connect false) (b.closeSocket sock) .deleted
  | connect (b sock) :
    TcpStep b (.connect sock) (.connect true) b (.switchOn sock (greenLeds.map (·, high)))
  | switchOn (b sock p v ws) :
    TcpStep b (.switchOn sock ((p, v) :: ws)) .tick (b.setLevel p v) (.switchOn sock ws)
  | starts (b sock) :
    TcpStep b (.switchOn sock []) .tick b (.inLoop sock (.start sessionBytes))
  | chunk (b sock) {l e l'} (h : l.step sessionBytes e = some l') :
    TcpStep b (.session sock l) (.chunk e) b (.inLoop sock l')
  | close (b sock) :
    TcpStep b (.close sock) .tick (b.closeSocket sock) (.switchOff (greenLeds.map (·, low)))
  | switchOff (b p v ws) :
    TcpStep b (.switchOff ((p, v) :: ws)) .tick (b.setLevel p v) (.switchOff ws)
  | reset (b) : TcpStep b (.switchOff []) .tick { b with semaforo := 1 } .check

variable {b b' : Board} {e : TaskEvent}

/-- **What a step of the UDP task can do.** -/
theorem UdpTask.step_iff {t t' : UdpTask} :
    t.step b e = some (b', t') ↔ UdpStep b t e b' t' := by
  constructor
  · fun_cases UdpTask.step b t e <;> intro h
    case case1 =>
      cases h
      exact .firstFails b
    case case2 => cases h
    case case3 fd hfd =>
      cases h
      exact .first b hfd
    case case4 =>
      cases h
      exact .secondFails b
    case case5 => cases h
    case case6 fd hfd =>
      cases h
      exact .second b hfd
    case case7 sock h1 =>
      cases h
      exact .begins b sock h1
    case case8 sock h1 =>
      cases h
      exact .waits b sock h1
    case case9 sock l e =>
      obtain ⟨l', hl, heq⟩ := Option.map_eq_some_iff.1 h
      cases heq
      exact .chunk b sock hl
    case case10 => cases h
  · intro h
    cases h <;> simp_all [UdpTask.step]

/-- **What a step of the TCP task can do.** -/
theorem TcpTask.step_iff {t t' : TcpTask} :
    t.step b e = some (b', t') ↔ TcpStep b t e b' t' := by
  constructor
  · fun_cases TcpTask.step b t e <;> intro h
    case case1 h2 =>
      cases h
      exact .begins b h2
    case case2 h2 =>
      cases h
      exact .waits b h2
    case case3 =>
      cases h
      exact .socketFails b
    case case4 => cases h
    case case5 fd hfd =>
      cases h
      exact .socket b hfd
    case case6 sock =>
      cases h
      exact .connectFails b sock
    case case7 sock =>
      cases h
      exact .connect b sock
    case case8 sock p v ws =>
      cases h
      exact .switchOn b sock p v ws
    case case9 sock =>
      cases h
      exact .starts b sock
    case case10 sock l e =>
      obtain ⟨l', hl, heq⟩ := Option.map_eq_some_iff.1 h
      cases heq
      exact .chunk b sock hl
    case case11 sock =>
      cases h
      exact .close b sock
    case case12 p v ws =>
      cases h
      exact .switchOff b p v ws
    case case13 =>
      cases h
      exact .reset b
    case case14 => cases h
  · intro h
    cases h <;> simp_all [TcpTask.step]

theorem TcpTask.inLoop_cases (sock : ℕ) (l : ChunkLoop) :
    TcpTask.inLoop sock l = .close sock ∨ TcpTask.inLoop sock l = .session sock l := by
  rw [TcpTask.inLoop]
  split
  · exact Or.inl rfl
  · exact Or.inr rfl

end HomeAssistant.Audio
