import HomeAssistant.Foundations.Machine
import HomeAssistant.Home.Reception

/-!
# The UDP client

`udp_client_task` sends a text to the host and waits for an answer, again and again on one socket.
It ends this session when a call fails or the answer begins with `OK: `, closes the socket and
starts over with a new one. Its receive buffer is filled again by each answer and never cleared.

Whatever the answers are, the task stays inside the buffer and holds one socket at most, and each
session ends with what should end it: an answer is judged by its own bytes, not by those that an
earlier one has left behind it (`accounted_of_run`).
-/

namespace HomeAssistant.Sockets

open Machine

/-- `payload`. -/
def payload : Bytes := ascii "Message from ESP32 "

/-- `strncmp` finds no difference between the first `n` bytes of two strings. -/
def StrncmpEq (s t : Bytes) (n : ℕ) : Prop := (cstr s).take n = (cstr t).take n

instance (s t : Bytes) (n : ℕ) : Decidable (StrncmpEq s t n) := inferInstanceAs (Decidable (_ = _))

/-- What a step of the task learns: nothing, or the result of a call. -/
inductive UdpClientEvent
  | tick
  | socket (fd : Option ℕ)
  | sendto (ok : Bool)
  | recvfrom (data : Option Bytes)
  deriving DecidableEq

/-- Where the task is. -/
inductive UdpClientPc
  | openSocket
  | send (sock : ℕ)
  | receive (sock : ℕ)
  | restart (sock : ℕ)
  | deleted
  | faulted (f : Fault)
  deriving DecidableEq

/-- The task, with its receive buffer and what it has sent. -/
structure UdpClient where
  pc : UdpClientPc
  rxBuffer : Buffer rxBufferSize
  sent : List Bytes

namespace UdpClient

/-- The task at its start. Its buffer is not initialised. -/
def start (rxBuffer : Buffer rxBufferSize) : UdpClient := ⟨.openSocket, rxBuffer, []⟩

/-- The task after `recvfrom` has returned `data`. -/
def received (c : UdpClient) (sock : ℕ) (data : Bytes) : UdpClient :=
  match c.rxBuffer.terminate data with
  | .error f => { c with pc := .faulted f }
  | .ok rxBuffer =>
    { c with
      pc := if StrncmpEq rxBuffer.bytes (ascii "OK: ") 4 then .restart sock else .send sock
      rxBuffer := rxBuffer }

/-- One step of `udp_client_task`. -/
def step (b : Board) (c : UdpClient) (e : UdpClientEvent) : Option (Board × UdpClient) :=
  match c.pc, e with
  | .openSocket, .socket none => some (b, { c with pc := .deleted })
  | .openSocket, .socket (some fd) =>
    if fd ∈ b.sockets then none else some (b.openSocket fd, { c with pc := .send fd })
  | .send sock, .sendto false => some (b, { c with pc := .restart sock })
  | .send sock, .sendto true =>
    some (b, { c with pc := .receive sock, sent := c.sent ++ [payload] })
  | .receive sock, .recvfrom none => some (b, { c with pc := .restart sock })
  | .receive sock, .recvfrom (some data) =>
    if data.length ≤ rxBufferSize - 1 then some (b, c.received sock data) else none
  | .restart sock, .tick => some (b.closeSocket sock, { c with pc := .openSocket })
  | _, _ => none

/-- The steps of the task when no other runs. -/
def alone (s : Board × UdpClient) (e : UdpClientEvent) : Option (Board × UdpClient) :=
  s.2.step s.1 e

end UdpClient

/-- The socket that the task holds. -/
def UdpClientPc.held : UdpClientPc → Option ℕ
  | send sock | receive sock | restart sock => some sock
  | _ => none

/-- The task is in a session. -/
def UdpClientPc.inSession : UdpClientPc → Bool
  | send _ | receive _ => true
  | _ => false

namespace UdpClientEvent

/-- The event begins a session. -/
def opens : UdpClientEvent → Bool
  | socket fd => fd.isSome
  | _ => false

/-- The text is sent. -/
def sends : UdpClientEvent → Bool
  | sendto ok => ok
  | _ => false

/-- What should end a session: a call that fails, or an answer that begins with `OK: `. -/
def ends : UdpClientEvent → Bool
  | sendto ok => !ok
  | recvfrom none => true
  | recvfrom (some data) => ascii "OK: " <+: data
  | _ => false

end UdpClientEvent

/-- What is left of a run of the task: it has stayed inside its buffer, holds its socket next to
those in use before, has sent its text each time, and is in a session if one more has begun than
ended. -/
structure Accounted (inUse : List ℕ) (es : List UdpClientEvent) (s : Board × UdpClient) :
    Prop where
  inside : ∀ f, s.2.pc ≠ .faulted f
  sockets : s.1.sockets = s.2.pc.held.toList ++ inUse
  sent : s.2.sent = List.replicate (es.countP UdpClientEvent.sends) payload
  sessions : es.countP UdpClientEvent.opens =
    es.countP UdpClientEvent.ends + s.2.pc.inSession.toNat

variable {inUse : List ℕ} {es : List UdpClientEvent} {e : UdpClientEvent} {b b' : Board}
  {c c' : UdpClient}

/-- A string that begins with a text has it in its first bytes. -/
theorem strncmpEq_iff {s t : Bytes} (ht : 0 ∉ t) : StrncmpEq s t t.length ↔ t <+: s := by
  rw [StrncmpEq, cstr_of_zero_notMem ht, List.take_length, eq_comm, ← List.prefix_iff_eq_take]
  refine ⟨fun h => h.trans (List.takeWhile_prefix _), ?_⟩
  rintro ⟨r, rfl⟩
  rw [cstr_append ht]
  exact List.prefix_append t (cstr r)

/-- **An answer is judged by its own bytes**, whatever the buffer held. -/
theorem received_eq (c : UdpClient) (sock : ℕ) {data : Bytes}
    (h : data.length ≤ rxBufferSize - 1) :
    ∃ rxBuffer, c.received sock data =
      ⟨if ascii "OK: " <+: data then .restart sock else .send sock, rxBuffer, c.sent⟩ := by
  obtain ⟨rxBuffer, hterm, hstr⟩ := c.rxBuffer.exists_terminate (Nat.lt_succ_of_le h)
  have hiff : StrncmpEq rxBuffer.bytes (ascii "OK: ") 4 ↔ ascii "OK: " <+: data := by
    rw [← strncmpEq_iff (by decide)]
    show (rxBuffer.str).take 4 = _ ↔ (cstr data).take _ = _
    rw [hstr]
    rfl
  refine ⟨rxBuffer, ?_⟩
  rw [UdpClient.received, hterm]
  simp only [hiff]

/-- What a step has to do to keep the account. -/
theorem Accounted.next {s s' : Board × UdpClient} (h : Accounted inUse es s)
    (hinside : ∀ f, s'.2.pc ≠ .faulted f) (hsockets : s'.1.sockets = s'.2.pc.held.toList ++ inUse)
    (hsent : s'.2.sent = s.2.sent ++ List.replicate e.sends.toNat payload)
    (hsession : e.opens.toNat + s.2.pc.inSession.toNat = e.ends.toNat + s'.2.pc.inSession.toNat) :
    Accounted inUse (es ++ [e]) s' := by
  have hcount (p : UdpClientEvent → Bool) : (es ++ [e]).countP p = es.countP p + (p e).toNat := by
    rw [List.countP_append, List.countP_singleton]
    cases p e <;> rfl
  have hsessions := h.sessions
  refine ⟨hinside, hsockets, ?_, ?_⟩
  · rw [hsent, h.sent, hcount, List.replicate_add]
  · rw [hcount, hcount]
    omega

/-- **Every step keeps the account.** -/
theorem Accounted.step (h : Accounted inUse es (b, c)) (hs : c.step b e = some (b', c')) :
    Accounted inUse (es ++ [e]) (b', c') := by
  obtain ⟨pc, rxBuffer, sent⟩ := c
  have hsockets := h.sockets
  unfold UdpClient.step at hs
  split at hs
  next hpc =>
    cases hs
    obtain rfl : pc = .openSocket := hpc
    exact h.next nofun hsockets (List.append_nil _).symm rfl
  next fd hpc =>
    split_ifs at hs
    cases hs
    obtain rfl : pc = .openSocket := hpc
    exact h.next nofun (congrArg (fd :: ·) hsockets) (List.append_nil _).symm rfl
  next sock hpc =>
    cases hs
    obtain rfl : pc = .send sock := hpc
    exact h.next nofun hsockets (List.append_nil _).symm rfl
  next sock hpc =>
    cases hs
    obtain rfl : pc = .send sock := hpc
    exact h.next nofun hsockets rfl rfl
  next sock hpc =>
    cases hs
    obtain rfl : pc = .receive sock := hpc
    exact h.next nofun hsockets (List.append_nil _).symm rfl
  next sock data hpc =>
    split_ifs at hs with hlen
    obtain rfl : pc = .receive sock := hpc
    obtain ⟨rxBuffer', heq⟩ := received_eq ⟨.receive sock, rxBuffer, sent⟩ sock hlen
    rw [heq] at hs
    cases hs
    by_cases hok : ascii "OK: " <+: data
    · have hends : (UdpClientEvent.recvfrom (some data)).ends = true := decide_eq_true hok
      rw [if_pos hok]
      exact h.next nofun hsockets (List.append_nil _).symm (by rw [hends]; rfl)
    · have hends : (UdpClientEvent.recvfrom (some data)).ends = false := decide_eq_false hok
      rw [if_neg hok]
      exact h.next nofun hsockets (List.append_nil _).symm (by rw [hends]; rfl)
  next sock hpc =>
    cases hs
    obtain rfl : pc = .restart sock := hpc
    refine h.next nofun ?_ (List.append_nil _).symm rfl
    show b.sockets.erase sock = inUse
    rw [hsockets]
    exact List.erase_cons_head sock inUse
  next => cases hs

/-- **The account of a run**: the task stays inside its buffer, closes every socket but the one it
holds, and ends a session exactly when a call fails or an answer begins with `OK: `. -/
theorem accounted_of_run {rxBuffer : Buffer rxBufferSize} {s : Board × UdpClient}
    (hrun : run UdpClient.alone (b, .start rxBuffer) es = some s) : Accounted b.sockets es s := by
  refine run_induction (H := Accounted b.sockets) ?_ ?_ hrun
  · exact ⟨nofun, rfl, rfl, rfl⟩
  · rintro pre e ⟨b, c⟩ ⟨b', c'⟩ - h hs
    exact h.step hs

/-- A long answer, and behind it one that is `OK` without the rest. -/
def shortOkRun : List UdpClientEvent :=
  [.socket (some 3), .sendto true, .recvfrom (some (ascii "no: answer")), .sendto true,
    .recvfrom (some (ascii "OK"))]

/-- The rest that the long answer has left in the buffer does not make up for it. -/
theorem accounted_short_ok :
    ∃ s, run UdpClient.alone (Board.initial, .start (.zeros rxBufferSize)) shortOkRun = some s ∧
      s.2.pc = .send 3 ∧ Accounted [] shortOkRun s := by
  obtain ⟨s, hrun, hpc⟩ : ∃ s, run UdpClient.alone
      (Board.initial, .start (.zeros rxBufferSize)) shortOkRun = some s ∧ s.2.pc = .send 3 :=
    ⟨_, rfl, rfl⟩
  exact ⟨s, hrun, hpc, accounted_of_run hrun⟩

end HomeAssistant.Sockets
