import HomeAssistant.Audio.StreamTasks
import Mathlib.Algebra.GroupWithZero.Nat

/-!
# How the streaming loops count

The chunk loop subtracts its counter from a total in unsigned arithmetic and asks for what is left,
or for a buffer full of it. Whatever the microphone and the socket do, the counter stays within the
total and is the sum of what was sent, each request fits the buffer, and the loop ends at the total
unless a call fails (`ChunkLoop.Tally`). If every send that succeeds takes a byte, there are at most
as many iterations as bytes, and the loop comes to its end (`streaming_loop_counts`).

Over its chunk loop each of the two tasks is this loop (`run_burst`, `run_session`).
-/

namespace HomeAssistant.Audio

open Machine

/-! ## What the calls of the loop have done -/

namespace ChunkEvent

/-- The bytes that a call has sent. -/
def sent : ChunkEvent → ℕ
  | .send (some n) => n
  | _ => 0

/-- The call has failed. -/
def Failed (e : ChunkEvent) : Prop := e = .read none ∨ e = .send none

/-- The call is a read, with which an iteration begins. -/
def isRead : ChunkEvent → Bool
  | .read _ => true
  | .send _ => false

end ChunkEvent

/-- The bytes sent by the successful sends among the calls. -/
def sentBytes (es : List ChunkEvent) : ℕ := (es.map ChunkEvent.sent).sum

/-- The iterations that the calls belong to. -/
def iterations (es : List ChunkEvent) : ℕ := es.countP ChunkEvent.isRead

/-- Every send that has succeeded has sent a byte. -/
def SendsBytes (es : List ChunkEvent) : Prop := ChunkEvent.send (some 0) ∉ es

instance (es : List ChunkEvent) : Decidable (SendsBytes es) := inferInstanceAs (Decidable (_ ∉ _))

theorem sentBytes_concat (es : List ChunkEvent) (e : ChunkEvent) :
    sentBytes (es ++ [e]) = sentBytes es + e.sent := by
  simp [sentBytes]

theorem iterations_concat (es : List ChunkEvent) (e : ChunkEvent) :
    iterations (es ++ [e]) = iterations es + if e.isRead then 1 else 0 := by
  simp [iterations, List.countP_append, List.countP_singleton]

theorem sendsBytes_concat {es : List ChunkEvent} {e : ChunkEvent} :
    SendsBytes (es ++ [e]) ↔ SendsBytes es ∧ e ≠ .send (some 0) := by
  simp [SendsBytes, eq_comm]

namespace ChunkLoop

variable {total : UInt32} {l l' : ChunkLoop} {es : List ChunkEvent} {e : ChunkEvent}

/-- The loop goes on. -/
def Running (l : ChunkLoop) : Prop := ∀ failed, l.pc ≠ .left failed

/-! ## The tally of a run -/

/-- The iterations that the loop can have begun, if every send that succeeded has sent a byte. -/
def mostIterations (total : UInt32) (l : ChunkLoop) : ℕ :=
  match l.pc with
  | .read => l.bytesSent.toNat
  | .send _ => l.bytesSent.toNat + 1
  | .left _ => total.toNat

/-- The calls that the current iteration has left. -/
def callsLeft (l : ChunkLoop) : ℕ :=
  match l.pc with
  | .send _ => 1
  | _ => 0

/-- The state of the loop after the calls `es`: the counter is the sum of what they have sent, and
they belong to no more iterations than the counter allows. -/
structure Tally (total : UInt32) (es : List ChunkEvent) (l : ChunkLoop) : Prop where
  counts : Counts total l
  sum : l.bytesSent.toNat = sentBytes es
  running : l.Running → l.bytesSent.toNat < total.toNat
  failed : l.pc = .left true → ∃ e ∈ es, e.Failed
  iterations : SendsBytes es → iterations es ≤ l.mostIterations total
  calls : es.length + l.callsLeft ≤ 2 * Audio.iterations es

theorem running_of_pc {pc : ChunkPc} (h : l.pc = pc) (hpc : ∀ failed, pc ≠ .left failed) :
    l.Running := by
  rw [Running, h]
  exact hpc

/-- What the tally says of the head of the loop, if the counter is right. -/
theorem tally_of_loopHead (hcounts : Counts total l) (hsum : l.bytesSent.toNat = sentBytes es)
    (hpc : l.pc = loopHead total l.bytesSent)
    (hiter : SendsBytes es → iterations es ≤ l.bytesSent.toNat)
    (hcalls : es.length ≤ 2 * iterations es) : Tally total es l := by
  have hle : l.bytesSent.toNat ≤ total.toNat := Nat.le_of_add_right_le hcounts.send
  rcases loopHead_cases hle with ⟨hhead, hlt⟩ | ⟨hhead, -⟩ <;> rw [hhead] at hpc
  · refine ⟨hcounts, hsum, fun _ => hlt, fun hleft => ?_, fun hsends => ?_, ?_⟩
    · rw [hpc] at hleft
      cases hleft
    · rw [mostIterations, hpc]
      exact hiter hsends
    · rw [callsLeft, hpc]
      exact hcalls
  · refine ⟨hcounts, hsum, fun hrun => absurd hpc (hrun false), fun hleft => ?_,
      fun hsends => ?_, ?_⟩
    · rw [hpc] at hleft
      cases hleft
    · rw [mostIterations, hpc]
      exact Nat.le_trans (hiter hsends) hle
    · rw [callsLeft, hpc]
      exact hcalls

theorem tally_start (total : UInt32) : Tally total [] (start total) :=
  tally_of_loopHead (counts_start total) rfl rfl (fun _ => Nat.le_refl 0) (Nat.le_refl 0)

theorem Tally.afterRead {data : Bytes} (h : Tally total es l) (hpc : l.pc = .read)
    (hcounts : Counts total (l.afterRead data)) :
    Tally total (es ++ [.read (some data)]) (l.afterRead data) := by
  refine ⟨hcounts, ?_, fun _ => h.running (running_of_pc hpc nofun), fun hleft => ?_,
    fun hsends => ?_, ?_⟩
  · rw [sentBytes_concat]
    exact h.sum
  · cases hleft
  · have hbound := h.iterations (sendsBytes_concat.1 hsends).1
    rw [mostIterations, hpc] at hbound
    rw [iterations_concat]
    exact Nat.succ_le_succ hbound
  · have hcalls := h.calls
    rw [callsLeft, hpc] at hcalls
    rw [List.length_append, iterations_concat]
    show es.length + 1 + 1 ≤ 2 * (Audio.iterations es + 1)
    omega

theorem Tally.afterSend {rBuf : Bytes} {n : ℕ} (h : Tally total es l) (hpc : l.pc = .send rBuf)
    (hn : n ≤ rBuf.length) (hcounts : Counts total (l.afterSend total rBuf n)) :
    Tally total (es ++ [.send (some n)]) (l.afterSend total rBuf n) := by
  have hsend := h.counts.send
  rw [pending_of_send hpc] at hsend
  have hbytes : (l.afterSend total rBuf n).bytesSent.toNat = l.bytesSent.toNat + n :=
    toNat_bytesSent_add (show l.bytesSent.toNat + n ≤ total.toNat by omega)
  have hiter : Audio.iterations (es ++ [.send (some n)]) = Audio.iterations es := by
    rw [iterations_concat]
    rfl
  refine tally_of_loopHead hcounts ?_ rfl (fun hsends => ?_) ?_
  · rw [sentBytes_concat, hbytes, h.sum]
    rfl
  · obtain ⟨hsends, hne⟩ := sendsBytes_concat.1 hsends
    have hpos : n ≠ 0 := by
      rintro rfl
      exact hne rfl
    have hbound := h.iterations hsends
    rw [mostIterations, hpc] at hbound
    rw [hiter, hbytes]
    exact Nat.le_trans hbound (Nat.add_le_add_left (Nat.one_le_iff_ne_zero.2 hpos) _)
  · have hcalls := h.calls
    rw [callsLeft, hpc] at hcalls
    rw [hiter, List.length_append]
    exact hcalls

theorem Tally.fail (h : Tally total es l) (hcounts : Counts total l.fail)
    (he : e = .read none ∧ l.pc = .read ∨ e = .send none ∧ ∃ rBuf, l.pc = .send rBuf) :
    Tally total (es ++ [e]) l.fail := by
  have hfailed : e.Failed := he.imp And.left And.left
  have hsent : e.sent = 0 := by rcases hfailed with rfl | rfl <;> rfl
  have hrun : l.Running := by
    rcases he with ⟨-, hpc⟩ | ⟨-, rBuf, hpc⟩
    · exact running_of_pc hpc nofun
    · exact running_of_pc hpc nofun
  have hlt := h.running hrun
  have hcalls := h.calls
  refine ⟨hcounts, ?_, fun hrun => absurd rfl (hrun true), fun _ => ⟨e, by simp, hfailed⟩,
    fun hsends => ?_, ?_⟩
  · rw [sentBytes_concat, hsent]
    exact h.sum
  · have hbound := h.iterations (sendsBytes_concat.1 hsends).1
    rw [iterations_concat]
    rcases he with ⟨rfl, hpc⟩ | ⟨rfl, rBuf, hpc⟩
    · rw [mostIterations, hpc] at hbound
      exact Nat.le_trans (Nat.succ_le_succ hbound) hlt
    · rw [mostIterations, hpc] at hbound
      exact Nat.le_trans hbound hlt
  · rw [List.length_append, iterations_concat]
    rcases he with ⟨rfl, hpc⟩ | ⟨rfl, rBuf, hpc⟩
    · rw [callsLeft, hpc] at hcalls
      show es.length + 1 ≤ 2 * (Audio.iterations es + 1)
      omega
    · rw [callsLeft, hpc] at hcalls
      exact hcalls

theorem Tally.step (h : Tally total es l) (hs : l.step total e = some l') :
    Tally total (es ++ [e]) l' := by
  have hcounts := h.counts.step hs
  obtain ⟨data, rfl, hpc, -, rfl⟩ | ⟨rBuf, n, rfl, hpc, hn, rfl⟩ | ⟨he, rfl⟩ := step_cases hs
  · exact h.afterRead hpc hcounts
  · exact h.afterSend hpc hn hcounts
  · exact h.fail hcounts he

theorem tally_of_run (hrun : run (ChunkLoop.step total) (start total) es = some l) :
    Tally total es l :=
  run_induction (tally_start total) (fun _ _ _ _ _ h hs => h.step hs) hrun

/-! ## What holds of every run -/

/-- The loop has counted exactly in the calls `es`: the counter is within the total, so that nothing
wraps around where it is subtracted; the next request is for at least one byte and fits the buffer;
the counter is the sum of what was sent; it is the total where the loop is left, unless a call has
failed; and if every send that has succeeded has sent a byte, there are at most as many iterations
as bytes. -/
structure CountsExactly (total : UInt32) (es : List ChunkEvent) (l : ChunkLoop) : Prop where
  within : l.bytesSent ≤ total
  noWrap : (total - l.bytesSent).toNat = total.toNat - l.bytesSent.toNat
  request : l.pc = .read →
    1 ≤ bytesToRead total l.bytesSent ∧ bytesToRead total l.bytesSent ≤ bufferLen
  sum : l.bytesSent.toNat = sentBytes es
  left : ∀ failed, l.pc = .left failed → l.bytesSent = total ∨ ∃ e ∈ es, e.Failed
  iterations : SendsBytes es → iterations es ≤ total.toNat

/-- A call can return this where the loop is: a read returns no more than was asked for, and a send
takes no more than it was handed. -/
def CanReturn (total : UInt32) (l : ChunkLoop) : ChunkEvent → Prop
  | .read result =>
    l.pc = .read ∧ ∀ data ∈ result, data.length ≤ (bytesToRead total l.bytesSent).toNat
  | .send result => ∃ rBuf, l.pc = .send rBuf ∧ ∀ n ∈ result, n ≤ rBuf.length

theorem exists_step_of_canReturn (h : CanReturn total l e) : ∃ l', l.step total e = some l' := by
  cases e with
  | read result =>
    obtain ⟨hpc, hle⟩ := h
    cases result with
    | none => exact ⟨l.fail, by simp only [step, hpc]⟩
    | some data => exact ⟨l.afterRead data, by simp only [step, hpc, hle data rfl, if_true]⟩
  | send result =>
    obtain ⟨rBuf, hpc, hle⟩ := h
    cases result with
    | none => exact ⟨l.fail, by simp only [step, hpc]⟩
    | some n => exact ⟨l.afterSend total rBuf n, by simp only [step, hpc, hle n rfl, if_true]⟩

theorem Tally.mostIterations_le (h : Tally total es l) : l.mostIterations total ≤ total.toNat := by
  rw [mostIterations]
  split
  next hpc => exact Nat.le_of_lt (h.running (running_of_pc hpc nofun))
  next rBuf hpc => exact h.running (running_of_pc hpc nofun)
  next => exact Nat.le_refl _

theorem Tally.countsExactly (h : Tally total es l) : CountsExactly total es l := by
  have hle : l.bytesSent.toNat ≤ total.toNat := Nat.le_of_add_right_le h.counts.send
  refine ⟨hle, UInt32.toNat_sub_of_le _ _ hle, fun hpc => ?_, h.sum, fun failed hpc => ?_,
    fun hsends => Nat.le_trans (h.iterations hsends) h.mostIterations_le⟩
  · have hlt := h.counts.read hpc
    have hreq := toNat_bytesToRead hle
    rw [UInt32.le_iff_toNat_le, UInt32.le_iff_toNat_le, hreq]
    show 1 ≤ min 64 _ ∧ min 64 _ ≤ 64
    omega
  · cases failed with
    | false => exact Or.inl (UInt32.toNat_inj.1 (h.counts.finished hpc))
    | true => exact Or.inr (h.failed hpc)

/-- **The streaming loops count exactly**, for every sequence of results of their calls; and if
every send that succeeds sends a byte, they come to an end within as many iterations as there are
bytes to send. -/
theorem streaming_loop_counts (total : UInt32) :
    (∀ es l, run (ChunkLoop.step total) (start total) es = some l → CountsExactly total es l) ∧
      ∀ results : Stream' ChunkEvent,
        (∀ k l, run (ChunkLoop.step total) (start total) (results.take k) = some l → l.Running →
          CanReturn total l (results.get k)) →
        (∀ k l, run (ChunkLoop.step total) (start total) (results.take k) = some l →
          SendsBytes (results.take k)) →
        ∃ k l, run (ChunkLoop.step total) (start total) (results.take k) = some l ∧ ¬ l.Running ∧
          iterations (results.take k) ≤ total.toNat := by
  refine ⟨fun es l hrun => (tally_of_run hrun).countsExactly, fun results hcan hsends => ?_⟩
  have hlen : ∀ k l, run (ChunkLoop.step total) (start total) (results.take k) = some l →
      k ≤ 2 * total.toNat := by
    intro k l hrun
    have htally := tally_of_run hrun
    have hiter := htally.countsExactly.iterations (hsends k l hrun)
    have hcalls := htally.calls
    rw [Stream'.length_take] at hcalls
    omega
  obtain ⟨k, l, hrun, hleft⟩ := exists_final hlen fun k l hrun hgoes =>
    exists_step_of_canReturn (hcan k l hrun (not_not.1 hgoes))
  exact ⟨k, l, hrun, hleft, (tally_of_run hrun).countsExactly.iterations (hsends k l hrun)⟩

/-- A microphone that delivers one byte at a time, to a socket that takes it. -/
def byteByByte : Stream' ChunkEvent := fun k =>
  if k % 2 = 0 then .read (some [7]) else .send (some 1)

theorem sendsBytes_byteByByte (k : ℕ) : SendsBytes (byteByByte.take k) := by
  induction k with
  | zero => exact List.not_mem_nil
  | succ k ih =>
    rw [Stream'.take_succ', sendsBytes_concat]
    refine ⟨ih, ?_⟩
    rw [Stream'.get, byteByByte]
    split_ifs <;> simp

theorem pc_byteByByte {k : ℕ}
    (hrun : run (ChunkLoop.step total) (start total) (byteByByte.take k) = some l)
    (hgoes : l.Running) : l.pc = if k % 2 = 0 then .read else .send [7] := by
  have hhead : ∀ {bytesSent}, l.pc = loopHead total bytesSent → l.pc = .read := by
    intro bytesSent hpc
    rw [loopHead] at hpc
    split_ifs at hpc
    · exact hpc
    · exact absurd hpc (hgoes false)
  cases k with
  | zero =>
    cases hrun
    exact hhead rfl
  | succ k =>
    -- where the loop is follows from the last call alone
    rw [Stream'.take_succ', run_append, Option.bind_eq_some_iff] at hrun
    obtain ⟨t, -, hlast⟩ := hrun
    obtain ⟨_, hs, hnil⟩ := (run_cons_eq_some _).1 hlast
    cases hnil
    by_cases hk : k % 2 = 0
    · rw [Stream'.get, byteByByte, if_pos hk] at hs
      rw [if_neg (by omega)]
      obtain ⟨_, heq, -, -, rfl⟩ | ⟨_, _, heq, -⟩ | ⟨⟨heq, -⟩ | ⟨heq, -⟩, -⟩ := step_cases hs <;>
        cases heq
      rfl
    · rw [Stream'.get, byteByByte, if_neg hk] at hs
      rw [if_pos (by omega)]
      obtain ⟨_, heq, -⟩ | ⟨_, _, heq, -, -, rfl⟩ | ⟨⟨heq, -⟩ | ⟨heq, -⟩, -⟩ := step_cases hs <;>
        cases heq
      exact hhead rfl

/-- A session of which the first chunk is sent in part, and one in which every call succeeds. -/
theorem streaming_loop_counts_session :
    CountsExactly sessionBytes [.read (some [1, 2]), .send (some 1)]
        ⟨.read, 1, [1, 2], [(1, 0)]⟩ ∧
      ∃ k l, run (ChunkLoop.step sessionBytes) (start sessionBytes) (byteByByte.take k) = some l ∧
        ¬ l.Running ∧ iterations (byteByByte.take k) ≤ sessionBytes.toNat := by
  obtain ⟨hcounts, hends⟩ := streaming_loop_counts sessionBytes
  refine ⟨hcounts _ _ rfl, hends _ (fun k l hrun hgoes => ?_) fun k _ _ => sendsBytes_byteByByte k⟩
  have hpc := pc_byteByByte hrun hgoes
  rw [Stream'.get, byteByByte]
  split_ifs at hpc ⊢ with hk
  · refine ⟨hpc, fun data hdata => ?_⟩
    cases hdata
    exact ((hcounts _ l hrun).request hpc).1
  · refine ⟨_, hpc, fun n hn => ?_⟩
    cases hn
    exact Nat.le_refl 1

end ChunkLoop

/-! ## The loops of the two tasks -/

/-- The steps of `i2s_example_udp_stream_task` when no other task runs. -/
def UdpTask.alone (s : Board × UdpTask) (e : TaskEvent) : Option (Board × UdpTask) := s.2.step s.1 e

/-- The steps of `i2s_example_tcp_stream_task` when no other task runs. -/
def TcpTask.alone (s : Board × TcpTask) (e : TaskEvent) : Option (Board × TcpTask) := s.2.step s.1 e

theorem step_of_left {total : UInt32} {l : ChunkLoop} {failed : Bool} (h : l.pc = .left failed)
    (e : ChunkEvent) : l.step total e = none :=
  Option.eq_none_iff_forall_ne_some.2 fun _ hs => absurd h (ChunkLoop.pc_ne_left hs failed)

/-- **Over its chunk loop the UDP task is the loop** with the bytes of a burst. -/
theorem run_burst (b : Board) (sock : ℕ) (l : ChunkLoop) (cs : List ChunkEvent) :
    run UdpTask.alone (b, .inLoop sock l) (cs.map .chunk) =
      (run (ChunkLoop.step burstBytes) l cs).map fun l' => (b, .inLoop sock l') := by
  refine run_map (ChunkLoop.step burstBytes) UdpTask.alone
    (f := fun l => (b, UdpTask.inLoop sock l)) (fun l e => ?_) l cs
  show (UdpTask.inLoop sock l).step b (.chunk e) = _
  rw [UdpTask.inLoop]
  split
  next failed hpc =>
    rw [step_of_left hpc]
    rfl
  next => rfl

/-- **Over its chunk loop the TCP task is the loop** with the bytes of a session. -/
theorem run_session (b : Board) (sock : ℕ) (l : ChunkLoop) (cs : List ChunkEvent) :
    run TcpTask.alone (b, .inLoop sock l) (cs.map .chunk) =
      (run (ChunkLoop.step sessionBytes) l cs).map fun l' => (b, .inLoop sock l') := by
  refine run_map (ChunkLoop.step sessionBytes) TcpTask.alone
    (f := fun l => (b, TcpTask.inLoop sock l)) (fun l e => ?_) l cs
  show (TcpTask.inLoop sock l).step b (.chunk e) = _
  rw [TcpTask.inLoop]
  split
  next failed hpc =>
    rw [step_of_left hpc]
    rfl
  next => rfl

end HomeAssistant.Audio
