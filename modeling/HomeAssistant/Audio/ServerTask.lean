import HomeAssistant.Audio.Server
import HomeAssistant.Foundations.Machine

/-!
# The command server as a task

`tcp_server_task` step by step: it sets up its socket, accepts one client after another, and serves
each by the receive loop, in which a call of `recv` and what the server does with the message are
two steps. Over one connection the steps are the receive loop (`run_messages`).
-/

namespace HomeAssistant.Audio

open Machine

/-- What a step of the server task learns: nothing, or the result of a call. A connection that is
accepted comes with what the receive buffer on the stack holds. -/
inductive ServerEvent
  | tick
  | socket (fd : Option ℕ)
  | bind (ok : Bool)
  | listen (ok : Bool)
  | accept (client : Option (ℕ × Buffer bufferSize))
  | recv (data : Option Bytes)

/-- Where `tcp_server_task` is. -/
inductive ServerTask
  | openSocket
  | bind (sock : ℕ)
  | listen (sock : ℕ)
  | accept (sock : ℕ)
  | recv (sock client : ℕ) (buffer : Buffer bufferSize)
  | handle (sock client : ℕ) (buffer : Buffer bufferSize) (bytesReceived : ℕ)
  | faulted (f : Fault)
  | deleted

/-- What `recv` can return of a message: at least one byte, and no more than the buffer takes. -/
def Receivable (data : Bytes) : Prop := data ≠ [] ∧ data.length ≤ bufferSize

instance (data : Bytes) : Decidable (Receivable data) := inferInstanceAs (Decidable (_ ∧ _))

/-- The task after a message has been terminated. -/
def ServerTask.received (sock client bytesReceived : ℕ) :
    Except Fault (Buffer bufferSize) → ServerTask
  | .ok buffer => .handle sock client buffer bytesReceived
  | .error f => .faulted f

/-- One step of `tcp_server_task`. -/
def ServerTask.step (b : Board) : ServerTask → ServerEvent → Option (Board × ServerTask)
  | .openSocket, .socket none => some (b, .deleted)
  | .openSocket, .socket (some fd) =>
    if fd ∈ b.sockets then none else some (b.openSocket fd, .bind fd)
  | .bind sock, .bind ok => some (if ok then (b, .listen sock) else (b.closeSocket sock, .deleted))
  | .listen sock, .listen ok =>
    some (if ok then (b, .accept sock) else (b.closeSocket sock, .deleted))
  | .accept sock, .accept none => some (b, .accept sock)
  | .accept sock, .accept (some (fd, buffer)) =>
    if fd ∈ b.sockets then none else some (b.openSocket fd, .recv sock fd buffer)
  | .recv sock client _, .recv none => some (b.closeSocket client, .accept sock)
  | .recv sock client buffer, .recv (some data) =>
    if Receivable data then some (b, .received sock client data.length (receive buffer data))
    else none
  | .handle sock client buffer bytesReceived, .tick =>
    some (dispatch buffer bytesReceived b, .recv sock client buffer)
  | _, _ => none

/-- The steps of `tcp_server_task`. -/
inductive ServerStep : Board → ServerTask → ServerEvent → Board → ServerTask → Prop
  | socketFails (b) : ServerStep b .openSocket (.socket none) b .deleted
  | socket (b) {fd} (h : fd ∉ b.sockets) :
    ServerStep b .openSocket (.socket (some fd)) (b.openSocket fd) (.bind fd)
  | bindFails (b sock) : ServerStep b (.bind sock) (.bind false) (b.closeSocket sock) .deleted
  | bind (b sock) : ServerStep b (.bind sock) (.bind true) b (.listen sock)
  | listenFails (b sock) :
    ServerStep b (.listen sock) (.listen false) (b.closeSocket sock) .deleted
  | listen (b sock) : ServerStep b (.listen sock) (.listen true) b (.accept sock)
  | acceptFails (b sock) : ServerStep b (.accept sock) (.accept none) b (.accept sock)
  | accept (b sock) {fd} (buffer) (h : fd ∉ b.sockets) :
    ServerStep b (.accept sock) (.accept (some (fd, buffer))) (b.openSocket fd)
      (.recv sock fd buffer)
  | disconnect (b sock client buffer) :
    ServerStep b (.recv sock client buffer) (.recv none) (b.closeSocket client) (.accept sock)
  | recv (b sock client buffer) {data} (h : Receivable data) :
    ServerStep b (.recv sock client buffer) (.recv (some data)) b
      (.received sock client data.length (receive buffer data))
  | handle (b sock client buffer bytesReceived) :
    ServerStep b (.handle sock client buffer bytesReceived) .tick
      (dispatch buffer bytesReceived b) (.recv sock client buffer)

variable {b b' : Board} {e : ServerEvent}

/-- **What a step of the server task can do.** -/
theorem ServerTask.step_iff {t t' : ServerTask} :
    t.step b e = some (b', t') ↔ ServerStep b t e b' t' := by
  constructor
  · fun_cases ServerTask.step b t e <;> intro h
    case case1 =>
      cases h
      exact .socketFails b
    case case2 => cases h
    case case3 fd hfd =>
      cases h
      exact .socket b hfd
    case case4 sock ok =>
      cases ok with
      | false =>
        cases h
        exact .bindFails b sock
      | true =>
        cases h
        exact .bind b sock
    case case5 sock ok =>
      cases ok with
      | false =>
        cases h
        exact .listenFails b sock
      | true =>
        cases h
        exact .listen b sock
    case case6 sock =>
      cases h
      exact .acceptFails b sock
    case case7 => cases h
    case case8 sock fd buffer hfd =>
      cases h
      exact .accept b sock buffer hfd
    case case9 sock client buffer =>
      cases h
      exact .disconnect b sock client buffer
    case case10 sock client buffer data hdata =>
      cases h
      exact .recv b sock client buffer hdata
    case case11 => cases h
    case case12 sock client buffer n =>
      cases h
      exact .handle b sock client buffer n
    case case13 => cases h
  · intro h
    cases h <;> simp_all [ServerTask.step]

/-! ## One connection -/

/-- The steps of the task when no other runs. -/
def ServerTask.alone (s : Board × ServerTask) (e : ServerEvent) : Option (Board × ServerTask) :=
  s.2.step s.1 e

theorem run_message {buffer buffer' : Buffer bufferSize} {data : Bytes} (hdata : Receivable data)
    (h : (handleMessage buffer data).exec b = (.ok buffer', b')) (sock client : ℕ) :
    run ServerTask.alone (b, .recv sock client buffer) [.recv (some data), .tick] =
      some (b', .recv sock client buffer') := by
  cases hr : receive buffer data with
  | error f =>
    simp only [handleMessage, Eff.exec_bind, Eff.exec_lift, hr] at h
    cases h
  | ok terminated =>
    simp only [handleMessage, Eff.exec_bind, Eff.exec_lift, hr, Eff.exec_update,
      Eff.exec_pure] at h
    cases h
    have hrecv : ServerTask.alone (b, .recv sock client buffer) (.recv (some data)) =
        some (b, .handle sock client buffer' data.length) := by
      refine ServerTask.step_iff.2 ?_
      have hstep := ServerStep.recv b sock client buffer hdata
      rwa [hr] at hstep
    rw [run_cons _ hrecv]
    rfl

/-- **Over one connection the task is the receive loop.** -/
theorem run_messages {buffer buffer' : Buffer bufferSize} {segs : List Bytes}
    (hsegs : ∀ s ∈ segs, Receivable s)
    (h : (receiveLoop buffer segs).exec b = (.ok buffer', b')) (sock client : ℕ) :
    run ServerTask.alone (b, .recv sock client buffer)
        (segs.flatMap fun s => [.recv (some s), .tick]) =
      some (b', .recv sock client buffer') := by
  induction segs generalizing buffer b with
  | nil =>
    cases h
    rfl
  | cons s segs ih =>
    rw [receiveLoop, Eff.exec_bind] at h
    rcases hs : (handleMessage buffer s).exec b with ⟨_ | buffer₁, b₁⟩
    · rw [hs] at h
      cases h
    · rw [hs] at h
      rw [List.flatMap_cons, run_append, run_message (hsegs s List.mem_cons_self) hs,
        Option.bind_some]
      exact ih (fun t ht => hsegs t (List.mem_cons_of_mem _ ht)) h

end HomeAssistant.Audio
