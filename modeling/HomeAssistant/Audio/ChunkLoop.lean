import HomeAssistant.Foundations.CString
import HomeAssistant.Foundations.Machine

/-!
# The chunk loop

Both streaming tasks record by the same loop: read a chunk from the microphone, hand it to a socket,
and go on until a number of bytes has been sent. The counter advances by what the socket took, not
by what was read. `ChunkLoop` carries next to the loop's own variables what the microphone has
returned and what the socket has accepted, each accepted byte with the place it was captured at.

`Counts` is the loop's invariant. What the socket has accepted is at every point a prefix of what
was captured exactly if no send takes a byte after one that fell short
(`delivered_without_gaps_iff`).
-/

namespace HomeAssistant.Audio

open Machine

/-- `bufferLen`, the size of the buffer for a chunk. -/
def bufferLen : UInt32 := 64

/-- `SAMPLE_RATE`. -/
def sampleRate : UInt32 := 16000

/-- `RECORD_TIME`. -/
def recordTime : UInt32 := 1

/-- `RECORD_TIME_RESPONSE`. -/
def recordTimeResponse : UInt32 := 3

/-- The number of bytes of a recording of so many seconds, in samples of two bytes. -/
def totalBytes (seconds : UInt32) : UInt32 :=
  let totalSamples := sampleRate * seconds
  totalSamples * 2

/-- Where the loop is: about to read, about to send the chunk it has read, or behind its end, which
it reaches with an error or without. -/
inductive ChunkPc
  | read
  | send (rBuf : Bytes)
  | left (failed : Bool)
  deriving DecidableEq

/-- The state of the loop. -/
structure ChunkLoop where
  pc : ChunkPc
  bytesSent : UInt32
  /-- What the reads have returned. -/
  captured : Bytes
  /-- What the sends have taken, each byte with its place in `captured`. -/
  accepted : List (UInt8 × ℕ)
  deriving DecidableEq

/-- The results of the calls in the loop: a read returns some bytes or fails, a send takes a number
of bytes or fails. -/
inductive ChunkEvent
  | read (result : Option Bytes)
  | send (result : Option ℕ)
  deriving DecidableEq

/-- The number of bytes that the loop asks for. -/
def bytesToRead (total bytesSent : UInt32) : UInt32 :=
  if bufferLen < total - bytesSent then bufferLen else total - bytesSent

/-- The test at the head of the loop. -/
def loopHead (total bytesSent : UInt32) : ChunkPc :=
  if bytesSent < total then .read else .left false

namespace ChunkLoop

/-- The loop at its start. -/
def start (total : UInt32) : ChunkLoop := ⟨loopHead total 0, 0, [], []⟩

/-- The loop after a read. -/
def afterRead (l : ChunkLoop) (data : Bytes) : ChunkLoop :=
  { l with pc := .send data, captured := l.captured ++ data }

/-- The loop after a send of the chunk `rBuf` that took `n` bytes. -/
def afterSend (total : UInt32) (l : ChunkLoop) (rBuf : Bytes) (n : ℕ) : ChunkLoop where
  pc := loopHead total (l.bytesSent + UInt32.ofNat n)
  bytesSent := l.bytesSent + UInt32.ofNat n
  captured := l.captured
  accepted := l.accepted ++ (rBuf.zipIdx (l.captured.length - rBuf.length)).take n

/-- The loop after a call that failed. -/
def fail (l : ChunkLoop) : ChunkLoop := { l with pc := .left true }

/-- One call of the loop. -/
def step (total : UInt32) (l : ChunkLoop) : ChunkEvent → Option ChunkLoop
  | .read result =>
    match l.pc, result with
    | .read, none => some l.fail
    | .read, some data =>
      if data.length ≤ (bytesToRead total l.bytesSent).toNat then some (l.afterRead data) else none
    | _, _ => none
  | .send result =>
    match l.pc, result with
    | .send _, none => some l.fail
    | .send rBuf, some n => if n ≤ rBuf.length then some (l.afterSend total rBuf n) else none
    | _, _ => none

variable {total : UInt32} {l l' : ChunkLoop}

/-- **What a step of the loop can do.** -/
theorem step_cases {e : ChunkEvent} (h : l.step total e = some l') :
    (∃ data, e = .read (some data) ∧ l.pc = .read ∧
      data.length ≤ (bytesToRead total l.bytesSent).toNat ∧ l' = l.afterRead data) ∨
    (∃ rBuf n, e = .send (some n) ∧ l.pc = .send rBuf ∧ n ≤ rBuf.length ∧
      l' = l.afterSend total rBuf n) ∨
    ((e = .read none ∧ l.pc = .read ∨ e = .send none ∧ ∃ rBuf, l.pc = .send rBuf) ∧
      l' = l.fail) := by
  cases e with
  | read result =>
    simp only [step] at h
    split at h
    next hpc => exact Or.inr (Or.inr ⟨Or.inl ⟨rfl, hpc⟩, (Option.some.inj h).symm⟩)
    next data hpc =>
      split at h
      next hle => exact Or.inl ⟨data, rfl, hpc, hle, (Option.some.inj h).symm⟩
      next => cases h
    next => cases h
  | send result =>
    simp only [step] at h
    split at h
    next rBuf hpc => exact Or.inr (Or.inr ⟨Or.inr ⟨rfl, rBuf, hpc⟩, (Option.some.inj h).symm⟩)
    next rBuf n hpc =>
      split at h
      next hle => exact Or.inr (Or.inl ⟨rBuf, n, rfl, hpc, hle, (Option.some.inj h).symm⟩)
      next => cases h
    next => cases h

/-! ## Counting -/

/-- The bytes that have been read and wait to be sent. -/
def pending (l : ChunkLoop) : Bytes :=
  match l.pc with
  | .send rBuf => rBuf
  | _ => []

/-- The invariant of the loop: its counter counts the accepted bytes, stays within the total and
reaches it exactly at the end; the chunk to be sent is the last one captured and fits. -/
structure Counts (total : UInt32) (l : ChunkLoop) : Prop where
  accepted : l.accepted.length = l.bytesSent.toNat
  captured : l.accepted.length + l.pending.length ≤ l.captured.length
  chunk : ∃ c, l.captured = c ++ l.pending
  read : l.pc = .read → l.bytesSent.toNat < total.toNat
  send : l.bytesSent.toNat + l.pending.length ≤ total.toNat
  finished : l.pc = .left false → l.bytesSent.toNat = total.toNat

theorem toNat_bytesToRead {bytesSent : UInt32} (h : bytesSent.toNat ≤ total.toNat) :
    (bytesToRead total bytesSent).toNat = min 64 (total.toNat - bytesSent.toNat) := by
  have hsub : (total - bytesSent).toNat = total.toNat - bytesSent.toNat :=
    UInt32.toNat_sub_of_le _ _ h
  rw [bytesToRead]
  split
  next hlt =>
    rw [bufferLen, UInt32.lt_iff_toNat_lt, hsub] at hlt
    rw [bufferLen]
    exact (Nat.min_eq_left (Nat.le_of_lt hlt)).symm
  next hlt =>
    rw [bufferLen, UInt32.lt_iff_toNat_lt, hsub, Nat.not_lt] at hlt
    rw [hsub]
    exact (Nat.min_eq_right hlt).symm

theorem toNat_bytesSent_add {bytesSent : UInt32} {n : ℕ}
    (h : bytesSent.toNat + n ≤ total.toNat) :
    (bytesSent + UInt32.ofNat n).toNat = bytesSent.toNat + n := by
  have hlt := total.toNat_lt
  have hn : (UInt32.ofNat n).toNat = n := UInt32.toNat_ofNat_of_lt' (by
    rw [UInt32.size]
    omega)
  rw [UInt32.toNat_add, hn, Nat.mod_eq_of_lt (by omega)]

theorem pending_of_send {rBuf : Bytes} (h : l.pc = .send rBuf) : l.pending = rBuf := by
  rw [pending, h]

theorem loopHead_cases {bytesSent : UInt32} (h : bytesSent.toNat ≤ total.toNat) :
    loopHead total bytesSent = .read ∧ bytesSent.toNat < total.toNat ∨
      loopHead total bytesSent = .left false ∧ bytesSent.toNat = total.toNat := by
  by_cases hlt : bytesSent < total
  · exact Or.inl ⟨if_pos hlt, UInt32.lt_iff_toNat_lt.1 hlt⟩
  · rw [UInt32.lt_iff_toNat_lt] at hlt
    exact Or.inr ⟨if_neg (by rwa [UInt32.lt_iff_toNat_lt]), by omega⟩

theorem pending_of_loopHead (hle : l.bytesSent.toNat ≤ total.toNat)
    (h : l.pc = loopHead total l.bytesSent) : l.pending = [] := by
  rcases loopHead_cases hle with ⟨hpc, -⟩ | ⟨hpc, -⟩ <;> rw [pending, h, hpc]

theorem counts_of_loopHead (hacc : l.accepted.length = l.bytesSent.toNat)
    (hcap : l.accepted.length ≤ l.captured.length) (hle : l.bytesSent.toNat ≤ total.toNat)
    (h : l.pc = loopHead total l.bytesSent) : Counts total l := by
  have hpending := pending_of_loopHead hle h
  refine ⟨hacc, by rwa [hpending], ⟨l.captured, by rw [hpending, List.append_nil]⟩, fun hpc => ?_,
    by rwa [hpending], fun hpc => ?_⟩
  · rcases loopHead_cases hle with ⟨-, hlt⟩ | ⟨hleft, -⟩
    · exact hlt
    · rw [← h, hpc] at hleft
      cases hleft
  · rcases loopHead_cases hle with ⟨hread, -⟩ | ⟨-, heq⟩
    · rw [← h, hpc] at hread
      cases hread
    · exact heq

theorem counts_start (total : UInt32) : Counts total (start total) :=
  counts_of_loopHead rfl (Nat.le_refl 0) (Nat.zero_le _) rfl

theorem Counts.step {e : ChunkEvent} (h : Counts total l) (hs : l.step total e = some l') :
    Counts total l' := by
  have hcap := h.captured
  have hsend := h.send
  obtain ⟨data, rfl, hpc, hle, rfl⟩ | ⟨rBuf, n, rfl, hpc, hle, rfl⟩ | ⟨-, rfl⟩ := step_cases hs
  · have hlt := h.read hpc
    rw [toNat_bytesToRead (Nat.le_of_lt hlt)] at hle
    refine ⟨h.accepted, ?_, ⟨l.captured, rfl⟩, fun h => ?_, ?_, fun h => ?_⟩
    · show l.accepted.length + data.length ≤ (l.captured ++ data).length
      rw [List.length_append]
      omega
    · cases h
    · show l.bytesSent.toNat + data.length ≤ total.toNat
      omega
    · cases h
  · rw [pending_of_send hpc] at hcap hsend
    have hsum := toNat_bytesSent_add (show l.bytesSent.toNat + n ≤ total.toNat by omega)
    have hlen : (l.afterSend total rBuf n).accepted.length = l.accepted.length + n := by
      simp only [afterSend, List.length_append, List.length_take, List.length_zipIdx]
      omega
    refine counts_of_loopHead ?_ ?_ ?_ rfl
    · rw [hlen, h.accepted]
      exact hsum.symm
    · rw [hlen]
      show _ ≤ l.captured.length
      omega
    · show (l.bytesSent + UInt32.ofNat n).toNat ≤ total.toNat
      omega
  · refine ⟨h.accepted, ?_, ⟨l.captured, (List.append_nil _).symm⟩, fun h => ?_, ?_, fun h => ?_⟩
    · show l.accepted.length ≤ l.captured.length
      omega
    · cases h
    · show l.bytesSent.toNat ≤ total.toNat
      omega
    · cases h

/-! ## Gaps -/

/-- What was accepted is a prefix of what was captured. -/
def Gapless (l : ChunkLoop) : Prop := l.accepted <+: l.captured.zipIdx

/-- A byte in front of the chunk to be sent has not been accepted. -/
def Behind (l : ChunkLoop) : Prop := l.accepted.length + l.pending.length < l.captured.length

/-- A send takes no byte if the loop is behind. -/
def SendsInTurn (l : ChunkLoop) (e : ChunkEvent) : Prop :=
  ∀ n, e = .send (some n) → l.Behind → n = 0

/-- A chunk that is sent from a gapless loop leaves it gapless exactly if the loop was not behind or
nothing was taken. -/
theorem gapless_afterSend_iff {rBuf : Bytes} {n : ℕ} (h : Counts total l) (hg : l.Gapless)
    (hpc : l.pc = .send rBuf) (hn : n ≤ rBuf.length) :
    (l.afterSend total rBuf n).Gapless ↔ (l.Behind → n = 0) := by
  obtain ⟨c, hc⟩ := h.chunk
  have hcap := h.captured
  rw [pending_of_send hpc] at hc hcap
  have hlen : l.captured.length = c.length + rBuf.length := by rw [hc, List.length_append]
  have hplace : l.captured.length - rBuf.length = c.length := by omega
  have hzip : l.captured.zipIdx = c.zipIdx ++ rBuf.zipIdx c.length := by
    rw [hc, List.zipIdx_append, Nat.zero_add]
  have haccepted : l.accepted = (c.zipIdx).take l.accepted.length := by
    have := List.prefix_iff_eq_take.1 hg
    rwa [hzip, List.take_append_of_le_length (by rw [List.length_zipIdx]; omega)] at this
  rw [Gapless, Behind, pending_of_send hpc, afterSend, hplace]
  show l.accepted ++ _ <+: l.captured.zipIdx ↔ _
  constructor
  · intro hpre hbehind
    by_contra hne
    -- the first byte taken stands where the first byte left out belongs
    have hi : l.accepted.length < (l.accepted ++ (rBuf.zipIdx c.length).take n).length := by
      rw [List.length_append, List.length_take, List.length_zipIdx]
      omega
    have hget := congrArg Prod.snd (hpre.getElem hi)
    rw [List.getElem_append_right (Nat.le_refl _), List.getElem_take, List.getElem_zipIdx,
      List.getElem_zipIdx] at hget
    simp only at hget
    omega
  · intro hturn
    by_cases hn0 : n = 0
    · rw [hn0, List.take_zero, List.append_nil]
      exact hg
    · have hall : l.accepted.length = c.length := by
        have := mt hturn hn0
        omega
      rw [haccepted, hall, List.take_of_length_le (Nat.le_of_eq List.length_zipIdx), hzip,
        List.prefix_append_right_inj]
      exact List.take_prefix n _

theorem gapless_start (total : UInt32) : (start total).Gapless := List.prefix_rfl

/-- Of all steps only a send can leave a gap. -/
theorem gapless_step_iff {e : ChunkEvent} (h : Counts total l) (hg : l.Gapless)
    (hs : l.step total e = some l') : l'.Gapless ↔ l.SendsInTurn e := by
  obtain ⟨data, rfl, hpc, -, rfl⟩ | ⟨rBuf, n, rfl, hpc, hle, rfl⟩ | ⟨he, rfl⟩ := step_cases hs
  · refine iff_of_true ?_ (fun n he => by cases he)
    show l.accepted <+: (l.captured ++ data).zipIdx
    rw [List.zipIdx_append]
    exact hg.trans (List.prefix_append _ _)
  · rw [gapless_afterSend_iff h hg hpc hle]
    refine ⟨fun hturn m he => ?_, fun hturn => hturn n rfl⟩
    cases he
    exact hturn
  · refine iff_of_true hg (fun n hn => ?_)
    rcases he with ⟨rfl, -⟩ | ⟨rfl, -⟩ <;> cases hn

/-- **Gapless runs** are the runs in which every send that takes bytes takes its turn. -/
theorem throughout_gapless_iff (es : List ChunkEvent) :
    Throughout (step total) Gapless (start total) es ↔
      Meets (step total) SendsInTurn (start total) es :=
  throughout_iff_meets (I := Counts total) (fun _ _ _ h hs => h.step hs)
    (fun _ _ _ h hg hs => gapless_step_iff h hg hs) (counts_start total) (gapless_start total) es

/-! ## Short sends -/

/-- Some send took less than the chunk that was read in front of it. -/
def FallsShort : List ChunkEvent → Prop
  | .read (some data) :: .send (some n) :: es => n < data.length ∨ FallsShort es
  | _ :: es => FallsShort es
  | [] => False

/-- No send takes a byte after one that fell short. -/
def NothingAfterShort (es : List ChunkEvent) : Prop :=
  ∀ (pre : List ChunkEvent) (n : ℕ), pre ++ [.send (some n)] <+: es → FallsShort pre → n = 0

/-- The read of the chunk that waits to be sent. -/
def lastRead (l : ChunkLoop) : List ChunkEvent :=
  match l.pc with
  | .send rBuf => [.read (some rBuf)]
  | _ => []

theorem pc_ne_left {e : ChunkEvent} (hs : l.step total e = some l') (failed : Bool) :
    l.pc ≠ .left failed := by
  intro hpc
  obtain ⟨_, -, h, -⟩ | ⟨_, _, -, h, -⟩ | ⟨⟨-, h⟩ | ⟨-, _, h⟩, -⟩ := step_cases hs <;>
    rw [hpc] at h <;> cases h

theorem eq_nil_of_left {es : List ChunkEvent} {failed : Bool} (hpc : l.pc = .left failed)
    (hrun : run (step total) l es = some l') : es = [] := by
  cases es with
  | nil => rfl
  | cons e es =>
    obtain ⟨l₁, hs, -⟩ := (run_cons_eq_some _).1 hrun
    exact absurd hpc (pc_ne_left hs failed)

/-- **When a run gets behind**: exactly if it began behind or one of its sends fell short. -/
theorem behind_iff {es : List ChunkEvent} (h : Counts total l)
    (hrun : run (step total) l es = some l') (hpc' : l'.pc ≠ .left true) :
    l'.Behind ↔ l.Behind ∨ FallsShort (l.lastRead ++ es) := by
  induction es generalizing l with
  | nil =>
    cases hrun
    rw [List.append_nil, lastRead]
    split <;> simp [FallsShort]
  | cons e es ih =>
    obtain ⟨l₁, hs, hrun⟩ := (run_cons_eq_some _).1 hrun
    rw [ih (h.step hs) hrun]
    have hcap := h.captured
    obtain ⟨data, rfl, hpc, -, rfl⟩ | ⟨rBuf, n, rfl, hpc, hle, rfl⟩ | ⟨-, rfl⟩ := step_cases hs
    · have hlast : l.lastRead = [] := by rw [lastRead, hpc]
      have hbehind : (l.afterRead data).Behind ↔ l.Behind := by
        have hpending : l.pending = [] := by rw [pending, hpc]
        rw [Behind, Behind, hpending]
        show l.accepted.length + data.length < (l.captured ++ data).length ↔ _
        rw [List.length_append, List.length_nil]
        omega
      rw [hbehind, hlast]
      rfl
    · have hlast : l.lastRead = [.read (some rBuf)] := by rw [lastRead, hpc]
      have hcounts := h.step hs
      have hlast' : (l.afterSend total rBuf n).lastRead = [] := by
        have hle' := hcounts.send
        rcases loopHead_cases (Nat.le_of_add_right_le hle') with ⟨hhead, -⟩ | ⟨hhead, -⟩ <;>
          rw [lastRead, show (l.afterSend total rBuf n).pc = _ from hhead]
      have hbehind : (l.afterSend total rBuf n).Behind ↔ l.Behind ∨ n < rBuf.length := by
        have hnone : (l.afterSend total rBuf n).pending = [] :=
          pending_of_loopHead (Nat.le_of_add_right_le hcounts.send) rfl
        rw [Behind, Behind, hnone, pending_of_send hpc]
        rw [pending_of_send hpc] at hcap
        simp only [afterSend, List.length_append, List.length_take, List.length_zipIdx,
          List.length_nil]
        omega
      rw [hbehind, hlast, hlast', or_assoc]
      rfl
    · rw [eq_nil_of_left rfl hrun] at hrun
      cases hrun
      exact absurd rfl hpc'

/-- A loop that is about to take a step is behind if a send of its run fell short. -/
theorem behind_iff_fallsShort {pre : List ChunkEvent} {e : ChunkEvent}
    (hrun : run (step total) (start total) pre = some l) (hs : l.step total e = some l') :
    l.Behind ↔ FallsShort pre := by
  have hstart : ¬ (start total).Behind := fun h => absurd h (Nat.not_lt_zero _)
  have hlast : (start total).lastRead = [] := by
    have hle : (0 : UInt32).toNat ≤ total.toNat := Nat.zero_le _
    rcases loopHead_cases hle with ⟨hhead, -⟩ | ⟨hhead, -⟩ <;>
      rw [lastRead, show (start total).pc = _ from hhead]
  rw [behind_iff (counts_start total) hrun (pc_ne_left hs true), hlast, or_iff_right hstart]
  rfl

/-- The condition on the steps of a run is one on the results of its calls. -/
theorem meets_sendsInTurn_iff {es : List ChunkEvent}
    (hrun : run (step total) (start total) es = some l) :
    Meets (step total) SendsInTurn (start total) es ↔ NothingAfterShort es := by
  constructor
  · intro h pre n hpre hshort
    obtain ⟨t, t', ht, hs⟩ := exists_step_of_prefix (step total) hrun hpre
    exact h pre _ t t' hpre ht hs n rfl ((behind_iff_fallsShort ht hs).2 hshort)
  · intro h pre e t t' hpre ht hs n he hbehind
    subst he
    exact h pre n hpre ((behind_iff_fallsShort ht hs).1 hbehind)

/-- **When the recording is delivered without gaps**: what the socket has accepted is throughout a
prefix of what was captured, and all of it up to the total at an end without an error, exactly if
no send takes a byte after one that fell short. -/
theorem delivered_without_gaps_iff {es : List ChunkEvent}
    (hrun : run (step total) (start total) es = some l) :
    (Throughout (step total) Gapless (start total) es ∧
        (l.pc = .left false → l.accepted = l.captured.zipIdx.take total.toNat)) ↔
      NothingAfterShort es := by
  have hcounts : Counts total l := by
    refine (throughout_of_invariant (fun _ _ _ h hs => ?_) (counts_start total) es).last hrun
    exact h.step hs
  rw [← meets_sendsInTurn_iff hrun, ← throughout_gapless_iff]
  refine and_iff_left_of_imp fun h hpc => ?_
  rw [List.prefix_iff_eq_take.1 (h.last hrun), hcounts.accepted, hcounts.finished hpc]

/-- Two chunks that the socket takes whole. -/
def wholeChunks : List ChunkEvent :=
  [.read (some [1, 2]), .send (some 2), .read (some [3, 4]), .send (some 2)]

theorem delivered_without_gaps_whole :
    Throughout (step (totalBytes recordTimeResponse)) Gapless
        (start (totalBytes recordTimeResponse)) wholeChunks ∧
      (ChunkPc.read = .left false → [(1, 0), (2, 1), (3, 2), (4, 3)] =
        ([1, 2, 3, 4] : Bytes).zipIdx.take (totalBytes recordTimeResponse).toNat) := by
  have hrun : run (step (totalBytes recordTimeResponse)) (start (totalBytes recordTimeResponse))
      wholeChunks = some ⟨.read, 4, [1, 2, 3, 4], [(1, 0), (2, 1), (3, 2), (4, 3)]⟩ := by rfl
  have hwhole : ∀ k, ¬ FallsShort (wholeChunks.take k) := by
    intro k
    match k with
    | 0 | 1 | 2 | 3 | _ + 4 => simp [wholeChunks, FallsShort]
  refine (delivered_without_gaps_iff hrun).2 fun pre n hpre hshort => ?_
  rw [List.prefix_iff_eq_take.1 ((List.prefix_append pre _).trans hpre)] at hshort
  exact absurd hshort (hwhole pre.length)

/-- A socket that takes one byte of the first chunk and all of the second has skipped a byte. -/
theorem short_send_skips :
    ∃ l, run (step (totalBytes recordTimeResponse)) (start (totalBytes recordTimeResponse))
        [.read (some [1, 2]), .send (some 1), .read (some [3, 4]), .send (some 2)] = some l ∧
      l.captured = [1, 2, 3, 4] ∧ l.accepted.map Prod.fst = [1, 3, 4] ∧
      ¬ l.accepted.map Prod.fst <+: l.captured ∧
      ¬ Throughout (step (totalBytes recordTimeResponse)) Gapless
        (start (totalBytes recordTimeResponse))
        [.read (some [1, 2]), .send (some 1), .read (some [3, 4]), .send (some 2)] := by
  have hrun : run (step (totalBytes recordTimeResponse)) (start (totalBytes recordTimeResponse))
      [.read (some [1, 2]), .send (some 1), .read (some [3, 4]), .send (some 2)] =
        some ⟨.read, 3, [1, 2, 3, 4], [(1, 0), (3, 2), (4, 3)]⟩ := by rfl
  refine ⟨_, hrun, rfl, rfl, by decide, fun h => ?_⟩
  have hgapless : [((1 : UInt8), 0), (3, 2), (4, 3)] <+: ([1, 2, 3, 4] : Bytes).zipIdx :=
    h.last hrun
  exact absurd hgapless (by decide)

end ChunkLoop

end HomeAssistant.Audio
