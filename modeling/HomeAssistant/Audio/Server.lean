import HomeAssistant.Board
import HomeAssistant.Foundations.PrefixCode

/-!
# The command server

`tcp_server_task` reads from a connection in a loop. It ends what a call of `recv` returns with a
NUL, compares it with five commands as a C string, and hands it to the speaker if it is none of
them. A C string ends at the first NUL, so audio is taken for a command if it begins with one and a
NUL (`taken_as_sent_iff`). Nothing marks where a command ends, so a sequence of commands is carried
out exactly if every call returns one of them (`carries_out_iff`).
-/

namespace HomeAssistant.Audio

open InformationTheory PrefixCode

/-- The size of the receive buffer. -/
abbrev bufferSize : ℕ := 1024

/-- What the server does with the bytes `chunk` that read as the C string `message`. -/
def act (message chunk : Bytes) (b : Board) : Board :=
  if message = ascii "eden" then { b with semaforo := 2 }
  else if message = ascii "ll1" then b.setLevel .userRedLedPin high
  else if message = ascii "dl1" then b.setLevel .userRedLedPin low
  else if message = ascii "ll2" then b.setLevel .luminaria high
  else if message = ascii "dl2" then b.setLevel .luminaria low
  else b.handToSpeaker chunk

/-- The buffer after `recv` has returned `data`, which is then terminated. -/
def receive (buffer : Buffer bufferSize) (data : Bytes) : Except Fault (Buffer bufferSize) := do
  let buffer ← buffer.write data
  buffer.set data.length 0

/-- What the server does with the buffer after a call of `recv` has returned `bytesReceived` bytes
into it. -/
def dispatch (buffer : Buffer bufferSize) (bytesReceived : ℕ) (b : Board) : Board :=
  act buffer.str (buffer.bytes.take bytesReceived) b

/-- One round of the receive loop. -/
def handleMessage (buffer : Buffer bufferSize) (data : Bytes) : Eff Board (Buffer bufferSize) := do
  let buffer ← Eff.lift (receive buffer data)
  Eff.update (dispatch buffer data.length)
  return buffer

/-- The receive loop, on what the calls of `recv` return before the client disconnects. -/
def receiveLoop (buffer : Buffer bufferSize) : List Bytes → Eff Board (Buffer bufferSize)
  | [] => pure buffer
  | data :: rest => do
    let buffer ← handleMessage buffer data
    receiveLoop buffer rest

/-! ## Messages -/

/-- **A message that leaves room for its terminator** is received: it reads as its C string, and its
bytes are the ones handed on. -/
theorem receive_eq (buffer : Buffer bufferSize) {data : Bytes} (h : data.length < bufferSize) :
    ∃ buffer', receive buffer data = .ok buffer' ∧ buffer'.str = cstr data ∧
      buffer'.bytes.take data.length = data := by
  obtain ⟨filled, buffer', hfilled, hset, hstr, htake⟩ := buffer.exists_terminated h
  refine ⟨buffer', ?_, hstr, htake⟩
  rw [receive, hfilled]
  exact hset

theorem exec_handleMessage (buffer : Buffer bufferSize) {data : Bytes}
    (h : data.length < bufferSize) (b : Board) :
    ∃ buffer', (handleMessage buffer data).exec b = (.ok buffer', act (cstr data) data b) := by
  obtain ⟨buffer', hreceive, hstr, htake⟩ := receive_eq buffer h
  refine ⟨buffer', ?_⟩
  simp only [handleMessage, Eff.exec_bind, Eff.exec_lift, hreceive, Eff.exec_update, Eff.exec_pure,
    dispatch, hstr, htake]

/-- **What the server does with a stream**: it acts on what each call returns. -/
theorem exec_receiveLoop (buffer : Buffer bufferSize) (segs : List Bytes)
    (h : ∀ s ∈ segs, s.length < bufferSize) (b : Board) :
    ∃ buffer', (receiveLoop buffer segs).exec b =
      (.ok buffer', segs.foldl (fun b s => act (cstr s) s b) b) := by
  induction segs generalizing buffer b with
  | nil => exact ⟨buffer, rfl⟩
  | cons s segs ih =>
    obtain ⟨buffer', hs⟩ := exec_handleMessage buffer (h s List.mem_cons_self) b
    obtain ⟨buffer'', hsegs⟩ := ih buffer' (fun t ht => h t (List.mem_cons_of_mem _ ht))
      (act (cstr s) s b)
    refine ⟨buffer'', ?_⟩
    rw [receiveLoop, Eff.exec_bind, hs]
    exact hsegs

/-! ## Commands -/

/-- The commands of a client. -/
inductive Command
  | eden
  | ll1
  | dl1
  | ll2
  | dl2
  deriving DecidableEq

/-- The text of a command. -/
def Command.text : Command → Bytes
  | .eden => ascii "eden"
  | .ll1 => ascii "ll1"
  | .dl1 => ascii "dl1"
  | .ll2 => ascii "ll2"
  | .dl2 => ascii "dl2"

/-- What a command is for: to ask for a recording, or to switch the red LED or the lamp. -/
def Command.exec (b : Board) : Command → Board
  | .eden => { b with semaforo := 2 }
  | .ll1 => b.setLevel .userRedLedPin high
  | .dl1 => b.setLevel .userRedLedPin low
  | .ll2 => b.setLevel .luminaria high
  | .dl2 => b.setLevel .luminaria low

/-- The texts of the commands. -/
def commandTexts : Set Bytes := Set.range Command.text

theorem act_text (c : Command) (chunk : Bytes) (b : Board) : act c.text chunk b = c.exec b := by
  cases c <;> rfl

theorem act_of_notMem {message : Bytes} (h : message ∉ commandTexts) (chunk : Bytes) (b : Board) :
    act message chunk b = b.handToSpeaker chunk := by
  have hne : ∀ c : Command, message ≠ c.text := fun c hc => h ⟨c, hc.symm⟩
  exact (if_neg (hne .eden)).trans <| (if_neg (hne .ll1)).trans <| (if_neg (hne .dl1)).trans <|
    (if_neg (hne .ll2)).trans (if_neg (hne .dl2))

theorem speaker_exec (c : Command) (b : Board) : (c.exec b).speaker = b.speaker := by
  cases c <;> rfl

theorem zero_notMem_text (c : Command) : 0 ∉ c.text := by
  cases c <;> decide

theorem prefixFree_commandTexts : PrefixFree commandTexts where
  ne_nil := by
    rintro _ ⟨c, rfl⟩
    cases c <;> exact List.cons_ne_nil _ _
  eq_of_prefix := by
    rintro _ ⟨c, rfl⟩ _ ⟨c', rfl⟩
    cases c <;> cases c' <;> decide

theorem speaker_act_of_mem {message : Bytes} (h : message ∈ commandTexts) (chunk : Bytes)
    (b : Board) : (act message chunk b).speaker = b.speaker := by
  obtain ⟨c, rfl⟩ := h
  rw [act_text, speaker_exec]

theorem length_speaker_act (message chunk : Bytes) (b : Board) :
    b.speaker.length ≤ (act message chunk b).speaker.length := by
  by_cases h : message ∈ commandTexts
  · rw [speaker_act_of_mem h]
  · rw [act_of_notMem h, Board.handToSpeaker, List.length_append]
    omega

theorem length_speaker_foldl_act (segs : List Bytes) (b : Board) :
    b.speaker.length ≤ (segs.foldl (fun b s => act (cstr s) s b) b).speaker.length := by
  induction segs generalizing b with
  | nil => exact Nat.le_refl _
  | cons s segs ih => exact Nat.le_trans (length_speaker_act (cstr s) s b) (ih _)

/-- A stream leaves the speaker alone exactly if all its messages read as commands. -/
theorem speaker_foldl_act_eq_iff {segs : List Bytes} (h : ∀ s ∈ segs, s ≠ []) (b : Board) :
    (segs.foldl (fun b s => act (cstr s) s b) b).speaker = b.speaker ↔
      ∀ s ∈ segs, cstr s ∈ commandTexts := by
  induction segs generalizing b with
  | nil => simp
  | cons s segs ih =>
    have ih' := ih (fun t ht => h t (List.mem_cons_of_mem _ ht)) (act (cstr s) s b)
    rw [List.foldl_cons, List.forall_mem_cons]
    by_cases hs : cstr s ∈ commandTexts
    · rw [speaker_act_of_mem hs] at ih'
      rw [ih', and_iff_right hs]
    · refine iff_of_false (fun heq => ?_) (fun hall => hs hall.1)
      have hlen := length_speaker_foldl_act segs (act (cstr s) s b)
      have hpos := List.length_pos_iff.2 (h s List.mem_cons_self)
      rw [heq, act_of_notMem hs, Board.handToSpeaker, List.length_append] at hlen
      omega

/-! ## Commands and audio -/

/-- A message is taken for what it is: a command is carried out, and all bytes of any other message
go to the speaker while everything else stays as it was. -/
structure TakenAsSent (m : Bytes) (b b' : Board) : Prop where
  command : ∀ c : Command, m = c.text → b' = c.exec b
  audio : m ∉ commandTexts → b' = b.handToSpeaker m

/-- **When commands and audio are told apart**: exactly if a message with a NUL does not have a
command in front of it. -/
theorem taken_as_sent_iff (buffer : Buffer bufferSize) {m : Bytes}
    (hm : 1 ≤ m.length ∧ m.length ≤ 1023) (b : Board) :
    (∃ buffer' b', (handleMessage buffer m).exec b = (.ok buffer', b') ∧ TakenAsSent m b b') ↔
      (0 ∈ m → cstr m ∉ commandTexts) := by
  obtain ⟨buffer', hrun⟩ := exec_handleMessage buffer (Nat.lt_succ_of_le hm.2) b
  constructor
  · rintro ⟨_, b', hrun', htaken⟩ h0 hcmd
    cases hrun.symm.trans hrun'
    have haudio : m ∉ commandTexts := by
      rintro ⟨c, rfl⟩
      exact zero_notMem_text c h0
    have hspeaker := congrArg Board.speaker (htaken.audio haudio)
    rw [speaker_act_of_mem hcmd, Board.handToSpeaker, List.self_eq_append_right] at hspeaker
    rw [hspeaker] at h0
    cases h0
  · intro h
    refine ⟨buffer', _, hrun, fun c hc => ?_, fun haudio => ?_⟩
    · rw [hc, cstr_of_zero_notMem (zero_notMem_text c), act_text]
    · by_cases h0 : 0 ∈ m
      · exact act_of_notMem (h h0) m b
      · rw [cstr_of_zero_notMem h0]
        exact act_of_notMem haudio m b

/-- Bytes of audio with a NUL among them. -/
theorem taken_as_sent_audio :
    ∃ buffer' b', (handleMessage (.zeros bufferSize) [0x10, 0, 0x6C, 0x6C, 0x31]).exec .initial =
      (.ok buffer', b') ∧ TakenAsSent [0x10, 0, 0x6C, 0x6C, 0x31] .initial b' := by
  refine (taken_as_sent_iff _ (by decide) _).2 fun _ => ?_
  rintro ⟨c, hc⟩
  cases c <;> exact absurd hc (by decide)

/-- Audio that begins with the bytes of `ll1` and a NUL turns on the red LED and is not played. -/
theorem audio_read_as_command :
    (1 ≤ (ascii "ll1" ++ [0, 0x7F]).length ∧ (ascii "ll1" ++ [0, 0x7F]).length ≤ 1023) ∧
      ¬ ∃ buffer' b', (handleMessage (.zeros bufferSize) (ascii "ll1" ++ [0, 0x7F])).exec .initial =
        (.ok buffer', b') ∧ TakenAsSent (ascii "ll1" ++ [0, 0x7F]) .initial b' := by
  refine ⟨by decide, ?_⟩
  rintro ⟨_, b', hrun, htaken⟩
  obtain ⟨_, hrun'⟩ := exec_handleMessage (.zeros bufferSize)
    (show (ascii "ll1" ++ [0, 0x7F]).length < bufferSize by decide) .initial
  cases hrun'.symm.trans hrun
  have haudio : ascii "ll1" ++ [0, 0x7F] ∉ commandTexts := by
    rintro ⟨c, hc⟩
    cases c <;> exact absurd hc (by decide)
  have hspeaker := congrArg Board.speaker (htaken.audio haudio)
  exact absurd hspeaker (by decide)

/-! ## Streams of commands -/

/-- The board `b'` has carried out the commands one by one, and nothing has gone to the speaker. -/
structure CarriesOut (b : Board) (cs : List Command) (b' : Board) : Prop where
  semaforo : b'.semaforo = (cs.foldl Command.exec b).semaforo
  redLed : b'.level Pin.userRedLedPin.num = (cs.foldl Command.exec b).level Pin.userRedLedPin.num
  luminaria : b'.level Pin.luminaria.num = (cs.foldl Command.exec b).level Pin.luminaria.num
  speaker : b'.speaker = b.speaker

/-- **When a stream of commands is carried out**: exactly if every call of `recv` returns one
command. -/
theorem carries_out_iff (cs : List Command) (segs : List Bytes)
    (hstream : segs.flatten = (cs.map Command.text).flatten)
    (hlen : ∀ s ∈ segs, 1 ≤ s.length ∧ s.length ≤ 1023) (buffer : Buffer bufferSize) (b : Board) :
    (∃ buffer' b', (receiveLoop buffer segs).exec b = (.ok buffer', b') ∧ CarriesOut b cs b') ↔
      segs = cs.map Command.text := by
  obtain ⟨buffer', hrun⟩ := exec_receiveLoop buffer segs
    (fun s hs => Nat.lt_succ_of_le (hlen s hs).2) b
  have hne : ∀ s ∈ segs, s ≠ [] := fun s hs => List.ne_nil_of_length_pos (hlen s hs).1
  have hcmd : ∀ w ∈ cs.map Command.text, w ∈ commandTexts := by
    intro w hw
    obtain ⟨c, -, rfl⟩ := List.mem_map.1 hw
    exact ⟨c, rfl⟩
  constructor
  · rintro ⟨_, b', hrun', hout⟩
    cases hrun.symm.trans hrun'
    have hall := (speaker_foldl_act_eq_iff hne b).1 hout.speaker
    -- no command contains a NUL, so each message is the command it reads as
    refine prefixFree_commandTexts.uniquelyDecodable _ _ (fun s hs => ?_) hcmd hstream
    have h0 : 0 ∉ s := by
      intro h0
      have hmem : 0 ∈ (cs.map Command.text).flatten :=
        hstream ▸ List.mem_flatten.2 ⟨s, hs, h0⟩
      obtain ⟨w, hw, h0w⟩ := List.mem_flatten.1 hmem
      obtain ⟨c, rfl⟩ := hcmd w hw
      exact zero_notMem_text c h0w
    have := hall s hs
    rwa [cstr_of_zero_notMem h0] at this
  · intro hsegs
    refine ⟨buffer', _, hrun, ?_⟩
    have hfold : segs.foldl (fun b s => act (cstr s) s b) b = cs.foldl Command.exec b := by
      rw [hsegs, List.foldl_map]
      congr 1
      funext b c
      rw [cstr_of_zero_notMem (zero_notMem_text c), act_text]
    have hspeaker := (speaker_foldl_act_eq_iff hne b).2 fun s hs => by
      obtain ⟨c, hc⟩ := hcmd s (hsegs ▸ hs)
      rw [← hc, cstr_of_zero_notMem (zero_notMem_text c)]
      exact ⟨c, rfl⟩
    exact ⟨by rw [hfold], by rw [hfold], by rw [hfold], hspeaker⟩

/-- Two commands that arrive in a call each are carried out. -/
theorem carries_out_apart :
    ∃ buffer' b', (receiveLoop (.zeros bufferSize) [ascii "eden", ascii "ll1"]).exec .initial =
      (.ok buffer', b') ∧ CarriesOut .initial [.eden, .ll1] b' :=
  (carries_out_iff [.eden, .ll1] _ rfl (by decide) _ _).2 rfl

/-- Two commands that arrive in one call, and a command that arrives in two, go to the speaker. -/
theorem joined_and_split_commands :
    ([ascii "edenll1"].flatten = ([Command.eden, .ll1].map Command.text).flatten ∧
      ¬ ∃ buffer' b', (receiveLoop (.zeros bufferSize) [ascii "edenll1"]).exec .initial =
        (.ok buffer', b') ∧ CarriesOut .initial [.eden, .ll1] b') ∧
    [ascii "ed", ascii "en"].flatten = ([Command.eden].map Command.text).flatten ∧
      ¬ ∃ buffer' b', (receiveLoop (.zeros bufferSize) [ascii "ed", ascii "en"]).exec .initial =
        (.ok buffer', b') ∧ CarriesOut .initial [.eden] b' := by
  refine ⟨⟨by decide, ?_⟩, by decide, ?_⟩
  · rintro ⟨_, b', hrun, hout⟩
    obtain ⟨_, hrun'⟩ := exec_receiveLoop (.zeros bufferSize) [ascii "edenll1"] (by decide) .initial
    cases hrun'.symm.trans hrun
    exact absurd hout.semaforo (by decide)
  · rintro ⟨_, b', hrun, hout⟩
    obtain ⟨_, hrun'⟩ := exec_receiveLoop (.zeros bufferSize) [ascii "ed", ascii "en"] (by decide)
      .initial
    cases hrun'.symm.trans hrun
    exact absurd hout.semaforo (by decide)

end HomeAssistant.Audio
