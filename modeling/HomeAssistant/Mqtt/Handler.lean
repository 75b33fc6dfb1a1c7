import HomeAssistant.Board

/-!
# The MQTT handler

`mqtt_event_handler` copies the data of each data event to a message and lets `turn_led` act on it.
The client library reports a payload that is longer than its buffer in several events, and the
handler acts on each of them: a payload acts as a whole exactly if a command comes in one event, and
no piece of any other payload reads as a command (`acts_as_whole_iff`).
-/

namespace HomeAssistant.Mqtt

/-- The events that the client library reports. -/
inductive Event
  | connected
  | disconnected
  | subscribed
  | unsubscribed
  | published
  | data (data : Bytes)
  | error
  | other

/-- `turn_led`: the levels it sets for a message, one after another. -/
def turnLed (data : Bytes) : List (Pin × Bool) :=
  if data = ascii "on" then [(.luminaria, high)]
  else if data = ascii "off" then
    [(.luminaria, low), (.userGreenLedPin, low), (.userLedPin, low), (.userRedLedPin, low)]
  else []

variable (malloc : (n : ℕ) → Option (Buffer n))

/-- The message that the data of an event is copied to. -/
def copyMessage (data : Bytes) : Except Fault (Buffer (data.length + 1)) :=
  match malloc (data.length + 1) with
  | none => .error .nullPointer
  | some message => do
    let message ← message.strncpy data data.length
    message.set data.length 0

/-- `mqtt_event_handler`. -/
def mqttEventHandler : Event → Eff Board Unit
  | .connected => Eff.update fun b => b.subscribe (ascii "luminaria/debug")
  | .data data => do
    let message ← Eff.lift (copyMessage malloc data)
    Eff.update fun b => b.setLevels (turnLed message.str)
  | _ => pure ()

/-- The handler on the data events that a payload is reported in. -/
def handleFragments : List Bytes → Eff Board Unit
  | [] => pure ()
  | f :: fs => do
    mqttEventHandler malloc (.data f)
    handleFragments fs

/-- A message that `turn_led` acts on. -/
def IsCommand (m : Bytes) : Prop := m = ascii "on" ∨ m = ascii "off"

instance (m : Bytes) : Decidable (IsCommand m) := inferInstanceAs (Decidable (_ ∨ _))

/-- The levels after a payload that acts as a whole. -/
def afterMessage (payload : Bytes) (level : ℕ → Bool) (n : ℕ) : Bool :=
  if payload = ascii "on" ∧ n = Pin.luminaria.num then high
  else if payload = ascii "off" ∧ (n = Pin.luminaria.num ∨ n = Pin.userGreenLedPin.num ∨
    n = Pin.userLedPin.num ∨ n = Pin.userRedLedPin.num) then low
  else level n

/-! ## What the handler does with an event -/

variable {malloc}

/-- **The copy of an event's data** holds its bytes up to the first NUL. -/
theorem copyMessage_of_malloc {data : Bytes} {block : Buffer (data.length + 1)}
    (hblock : malloc (data.length + 1) = some block) :
    ∃ message, copyMessage malloc data = .ok message ∧ message.str = cstr data := by
  have hle := length_cstr_le data
  have hlen : ((cstr data).take data.length ++
      List.replicate (data.length - (cstr data).length) 0).length = data.length := by
    simp only [List.length_append, List.length_take, List.length_replicate]
    omega
  have hlt : ((cstr data).take data.length ++
      List.replicate (data.length - (cstr data).length) 0).length < data.length + 1 := by omega
  obtain ⟨copied, message, hcopy, hset, hstr, -⟩ := block.exists_terminated hlt
  refine ⟨message, ?_, ?_⟩
  · simp only [copyMessage, hblock, Buffer.strncpy, hcopy]
    rwa [hlen] at hset
  · rw [hstr, cstr_append_replicate, List.take_of_length_le hle,
      cstr_of_zero_notMem (zero_notMem_cstr data)]

/-- The copy ends in a fault only if there is no memory for it. -/
theorem copyMessage_ne_outOfBounds (malloc : (n : ℕ) → Option (Buffer n)) (data : Bytes) :
    copyMessage malloc data ≠ .error .outOfBounds := by
  cases hblock : malloc (data.length + 1) with
  | none =>
    rw [copyMessage, hblock]
    exact nofun
  | some block =>
    obtain ⟨message, hcopy, -⟩ := copyMessage_of_malloc hblock
    rw [hcopy]
    exact nofun

theorem copyMessage_eq (hm : ∀ n, malloc n ≠ none) (data : Bytes) :
    ∃ message, copyMessage malloc data = .ok message ∧ message.str = cstr data := by
  obtain ⟨block, hblock⟩ := Option.ne_none_iff_exists'.1 (hm (data.length + 1))
  exact copyMessage_of_malloc hblock

theorem exec_mqttEventHandler_data (hm : ∀ n, malloc n ≠ none) (data : Bytes) (b : Board) :
    (mqttEventHandler malloc (.data data)).exec b =
      (.ok (), b.setLevels (turnLed (cstr data))) := by
  obtain ⟨message, hcopy, hstr⟩ := copyMessage_eq hm data
  simp only [mqttEventHandler, Eff.exec_bind, Eff.exec_lift, hcopy, Eff.exec_update, hstr]

/-- **What the handler does with a payload**: it sets the levels that the C string of each piece
commands. -/
theorem exec_handleFragments (hm : ∀ n, malloc n ≠ none) (fs : List Bytes) (b : Board) :
    (handleFragments malloc fs).exec b =
      (.ok (), b.setLevels (fs.flatMap fun f => turnLed (cstr f))) := by
  induction fs generalizing b with
  | nil => rfl
  | cons f fs ih =>
    rw [handleFragments, Eff.exec_bind, exec_mqttEventHandler_data hm, List.flatMap_cons,
      Board.setLevels_append]
    exact ih _

/-! ## Commands and their pieces -/

theorem turnLed_of_not_isCommand {m : Bytes} (h : ¬ IsCommand m) : turnLed m = [] := by
  rw [IsCommand, not_or] at h
  rw [turnLed, if_neg h.1, if_neg h.2]

/-- `turn_led` acts on a message as a whole. -/
theorem level_setLevels_turnLed (b : Board) (m : Bytes) :
    (b.setLevels (turnLed m)).level = afterMessage m b.level := by
  funext n
  by_cases hon : m = ascii "on"
  · have hoff : ¬ ascii "on" = ascii "off" := by decide
    subst hon
    simp only [turnLed, afterMessage, Board.setLevels_cons, Board.setLevels_nil, Board.setLevel,
      Function.update_apply, hoff, true_and, false_and, if_true, if_false]
  · by_cases hoff : m = ascii "off"
    · subst hoff
      simp only [turnLed, afterMessage, Board.setLevels_cons, Board.setLevels_nil, Board.setLevel,
        Function.update_apply, hon, false_and, true_and, if_false, if_true]
      split_ifs <;> simp_all
    · simp only [turnLed, afterMessage, hon, hoff, false_and, if_false, Board.setLevels_nil]

theorem level_luminaria_of_isCommand {m : Bytes} (h : IsCommand m) :
    ∃ v, ∀ level, afterMessage m level Pin.luminaria.num = v := by
  rcases h with rfl | rfl
  · exact ⟨high, fun level => rfl⟩
  · exact ⟨low, fun level => rfl⟩

theorem afterMessage_of_not_isCommand {m : Bytes} (h : ¬ IsCommand m) (level : ℕ → Bool) :
    afterMessage m level = level := by
  rw [IsCommand, not_or] at h
  funext n
  simp only [afterMessage, h.1, h.2, false_and, if_false]

variable {fs : List Bytes}

theorem flatMap_turnLed_eq_nil (h : ∀ f ∈ fs, ¬ IsCommand (cstr f)) :
    (fs.flatMap fun f => turnLed (cstr f)) = [] :=
  List.flatMap_eq_nil_iff.2 fun f hf => turnLed_of_not_isCommand (h f hf)

/-- If a piece reads as a command, the pieces set the level of the lamp, whatever it was. -/
theorem level_luminaria_of_fragment (h : ∃ f ∈ fs, IsCommand (cstr f)) :
    ∃ v, ∀ b : Board, (b.setLevels (fs.flatMap fun f => turnLed (cstr f))).level
      Pin.luminaria.num = v := by
  induction fs with
  | nil => simp at h
  | cons f fs ih =>
    simp only [List.flatMap_cons, Board.setLevels_append]
    by_cases hfs : ∃ g ∈ fs, IsCommand (cstr g)
    · obtain ⟨v, hv⟩ := ih hfs
      exact ⟨v, fun b => hv _⟩
    · have hf : IsCommand (cstr f) := by
        obtain ⟨g, hg, hcmd⟩ := h
        rcases List.mem_cons.1 hg with rfl | hg
        · exact hcmd
        · exact absurd ⟨g, hg, hcmd⟩ hfs
      obtain ⟨v, hv⟩ := level_luminaria_of_isCommand hf
      refine ⟨v, fun b => ?_⟩
      rw [flatMap_turnLed_eq_nil fun g hg hcmd => hfs ⟨g, hg, hcmd⟩, Board.setLevels_nil,
        level_setLevels_turnLed]
      exact hv _

/-- A piece of a command that reads as a command is all of it. -/
theorem eq_flatten_of_isCommand {f : Bytes} (hp : IsCommand fs.flatten) (hf : f ∈ fs)
    (hcmd : IsCommand (cstr f)) : f = fs.flatten := by
  have hsub : f.Sublist fs.flatten := List.sublist_flatten_of_mem hf
  have h0 : 0 ∉ fs.flatten := by rcases hp with h | h <;> rw [h] <;> decide
  rw [cstr_of_zero_notMem fun h => h0 (hsub.subset h)] at hcmd
  rcases hp with h | h <;> rcases hcmd with rfl | rfl
  · rw [h]
  · rw [h] at hsub
    exact absurd hsub (by decide)
  · rw [h] at hsub
    exact absurd hsub (by decide)
  · rw [h]

theorem flatMap_turnLed_of_mem (hp : IsCommand fs.flatten) (hmem : fs.flatten ∈ fs) :
    (fs.flatMap fun f => turnLed (cstr f)) = turnLed fs.flatten := by
  have h0 : 0 ∉ fs.flatten := by rcases hp with h | h <;> rw [h] <;> decide
  obtain ⟨l, r, hfs⟩ := List.append_of_mem hmem
  have hlen := congrArg (fun gs => (List.flatten gs).length) hfs
  simp only [List.flatten_append, List.flatten_cons, List.length_append] at hlen
  have hempty : ∀ gs : List Bytes, gs.flatten.length = 0 →
      (gs.flatMap fun f => turnLed (cstr f)) = [] := by
    intro gs h
    refine List.flatMap_eq_nil_iff.2 fun g hg => ?_
    rw [List.flatten_eq_nil_iff.1 (List.length_eq_zero_iff.1 h) g hg]
    rfl
  conv_lhs => rw [hfs]
  rw [List.flatMap_append, List.flatMap_cons, hempty l (by omega), hempty r (by omega),
    cstr_of_zero_notMem h0, List.nil_append, List.append_nil]

/-! ## Payloads -/

/-- The pieces of a payload act as a whole: a command comes in one piece, and no piece of any other
payload reads as a command. -/
structure ActsAsWhole (fs : List Bytes) : Prop where
  whole : IsCommand fs.flatten → fs.flatten ∈ fs
  none : ¬ IsCommand fs.flatten → ∀ f ∈ fs, ¬ IsCommand (cstr f)

/-- **When a payload acts as a whole or not at all.** -/
theorem acts_as_whole_iff (hm : ∀ n, malloc n ≠ none) (fs : List Bytes) :
    (∀ b, ∃ b', (handleFragments malloc fs).exec b = (.ok (), b') ∧
        b'.level = afterMessage fs.flatten b.level) ↔ ActsAsWhole fs := by
  have hrun : (∀ b, ∃ b', (handleFragments malloc fs).exec b = (.ok (), b') ∧
      b'.level = afterMessage fs.flatten b.level) ↔
        ∀ b : Board, (b.setLevels (fs.flatMap fun f => turnLed (cstr f))).level =
          afterMessage fs.flatten b.level := by
    simp only [exec_handleFragments hm, Prod.mk.injEq, true_and, exists_eq_left']
  rw [hrun]
  constructor
  · intro h
    refine ⟨fun hp => ?_, fun hp f hf hcmd => ?_⟩
    · by_contra hmem
      -- then no piece reads as a command, and the lamp is left as it was
      have hnone : ∀ f ∈ fs, ¬ IsCommand (cstr f) := fun f hf hcmd =>
        hmem (eq_flatten_of_isCommand hp hf hcmd ▸ hf)
      obtain ⟨v, hv⟩ := level_luminaria_of_isCommand hp
      have hb := congrFun (h ⟨1, fun _ => !v, [], [], []⟩) Pin.luminaria.num
      rw [flatMap_turnLed_eq_nil hnone, hv] at hb
      exact absurd hb (by simp [Board.setLevels_nil])
    · obtain ⟨v, hv⟩ := level_luminaria_of_fragment ⟨f, hf, hcmd⟩
      have hb := congrFun (h ⟨1, fun _ => !v, [], [], []⟩) Pin.luminaria.num
      rw [hv, afterMessage_of_not_isCommand hp] at hb
      exact absurd hb (by simp)
  · intro h b
    by_cases hp : IsCommand fs.flatten
    · rw [flatMap_turnLed_of_mem hp (h.whole hp), level_setLevels_turnLed]
    · rw [flatMap_turnLed_eq_nil (h.none hp), Board.setLevels_nil,
        afterMessage_of_not_isCommand hp]

theorem acts_as_whole_off :
    ∃ b', (handleFragments (fun n => some (Buffer.zeros n)) [ascii "off"]).exec .initial =
      (.ok (), b') ∧ b'.level = afterMessage (ascii "off") Board.initial.level :=
  (acts_as_whole_iff (fun _ => by simp) [ascii "off"]).2
    ⟨fun _ => by decide, fun h => absurd (by decide) h⟩ .initial

/-- The end of a longer payload, and a text in front of a NUL, turn on the lamp. -/
theorem pieces_read_as_commands :
    ¬ (∀ b, ∃ b', (handleFragments (fun n => some (Buffer.zeros n)) [ascii "lampi", ascii "on"]).exec
        b = (.ok (), b') ∧ b'.level = afterMessage (ascii "lampion") b.level) ∧
      ¬ ∀ b, ∃ b', (handleFragments (fun n => some (Buffer.zeros n)) [ascii "on" ++ [0, 0x21]]).exec
        b = (.ok (), b') ∧ b'.level = afterMessage (ascii "on" ++ [0, 0x21]) b.level := by
  constructor
  · intro h
    obtain ⟨b', hrun, hlevel⟩ := h .initial
    rw [exec_handleFragments (fun _ => by simp)] at hrun
    cases hrun
    exact absurd (congrFun hlevel Pin.luminaria.num) (by decide)
  · intro h
    obtain ⟨b', hrun, hlevel⟩ := h .initial
    rw [exec_handleFragments (fun _ => by simp)] at hrun
    cases hrun
    exact absurd (congrFun hlevel Pin.luminaria.num) (by decide)

end HomeAssistant.Mqtt
