import HomeAssistant.Home.Indicator
import HomeAssistant.Home.Microphone
import HomeAssistant.Home.Wake

/-!
# The outputs

Three of the tasks set pins. They set none that `gpio_configure` has not made an output, and nobody
turns on the user LED, which an `off` turns off (`outputs_of_run`).

An `off` that comes during a session leaves the listening indicator incoherent. It does so on one
side only: no green LED is on unless a session is in progress, and two of them are on whenever the
session records (`indicator_safe`).
-/

namespace HomeAssistant

open Audio Machine

/-- The pins that `gpio_configure` makes outputs. -/
def pinBitMask : ℕ :=
  1 <<< Pin.userLedPin.num ||| 1 <<< Pin.userGreenLedPin.num ||| 1 <<< Pin.userGreenLedPin3.num |||
    1 <<< Pin.userGreenLedPin2.num ||| 1 <<< Pin.userRedLedPin.num |||
    1 <<< Pin.userBlueLedPin.num ||| 1 <<< Pin.luminaria.num

variable {b b' : Board}

/-! ## The pins that a step can set -/

/-- What `turn_led` sets is an output, and it only turns off the user LED. -/
theorem Mqtt.output_of_mem_turnLed {p : Pin} {v : Bool} {m : Bytes} (h : (p, v) ∈ turnLed m) :
    pinBitMask.testBit p.num ∧ (p = .userLedPin → v = low) := by
  unfold turnLed at h
  split_ifs at h <;> simp at h
  · obtain ⟨rfl, rfl⟩ := h
    decide
  · rcases h with ⟨rfl, rfl⟩ | ⟨rfl, rfl⟩ | ⟨rfl, rfl⟩ | ⟨rfl, rfl⟩ <;> decide

theorem level_act (message chunk : Bytes) (b : Board) :
    (act message chunk b).level = b.level ∨ ∃ p v, (p = .userRedLedPin ∨ p = .luminaria) ∧
      (act message chunk b).level = (b.setLevel p v).level := by
  unfold act
  split_ifs
  · exact Or.inl rfl
  · exact Or.inr ⟨_, _, Or.inl rfl, rfl⟩
  · exact Or.inr ⟨_, _, Or.inl rfl, rfl⟩
  · exact Or.inr ⟨_, _, Or.inr rfl, rfl⟩
  · exact Or.inr ⟨_, _, Or.inr rfl, rfl⟩
  · exact Or.inl rfl

/-- The levels `level'` come from `level` by setting no pin, or an output that is not turned on if
it is the user LED. -/
def SetsOutput (level level' : ℕ → Bool) : Prop :=
  level' = level ∨ ∃ p v, level' = Function.update level (Pin.num p) v ∧
    pinBitMask.testBit p.num ∧ (p = .userLedPin → v = low)

theorem setsOutput_of_tcpStep {t t' : TcpTask} {e : TaskEvent} (hgroup : t.InGroup)
    (hs : TcpStep b t e b' t') : SetsOutput b.level b'.level := by
  have hgreen {q : Pin} {u v : Bool} {ws : List (Pin × Bool)}
      (h : (q, v) :: ws <:+ greenLeds.map (·, u)) :
      pinBitMask.testBit q.num ∧ (q = .userLedPin → v = low) := by
    have hq : q ∈ greenLeds := by
      obtain ⟨p, hp, heq⟩ := List.mem_map.1 (h.subset List.mem_cons_self)
      cases heq
      exact hp
    have hall : ∀ p ∈ greenLeds, pinBitMask.testBit p.num ∧ p ≠ .userLedPin := by decide
    exact ⟨(hall q hq).1, fun heq => absurd heq (hall q hq).2⟩
  cases hs with
  | begins | waits | socketFails | socket | connectFails | connect | starts | chunk | close
    | reset => exact Or.inl rfl
  | switchOn sock q v ws => exact Or.inr ⟨q, v, rfl, hgreen hgroup⟩
  | switchOff q v ws => exact Or.inr ⟨q, v, rfl, hgreen hgroup⟩

theorem setsOutput_of_serverStep {t t' : ServerTask} {e : ServerEvent}
    (hs : ServerStep b t e b' t') : SetsOutput b.level b'.level := by
  cases hs with
  | socketFails | socket | bindFails | bind | listenFails | listen | acceptFails | accept
    | disconnect | recv => exact Or.inl rfl
  | handle sock client buffer n =>
    refine (level_act _ _ b).imp_right ?_
    rintro ⟨p, v, rfl | rfl, heq⟩ <;> exact ⟨_, v, heq, by decide, nofun⟩

theorem setsOutput_of_mqttStep {t t' : Mqtt.Task} {e : Mqtt.TaskEvent} (hgroup : t.InGroup)
    (hs : t.step b e = some (b', t')) : SetsOutput b.level b'.level := by
  obtain ⟨p, v, ws, rfl, -, rfl, -⟩ | ⟨-, rfl, -⟩ | ⟨-, rfl | ⟨topic, rfl⟩, -⟩ :=
    Mqtt.Task.step_cases hs
  · obtain ⟨m, hm⟩ := hgroup
    exact Or.inr ⟨p, v, rfl, Mqtt.output_of_mem_turnLed (hm.subset List.mem_cons_self)⟩
  · exact Or.inl rfl
  · exact Or.inl rfl
  · exact Or.inl rfl

namespace Home

variable {h h' : Home} {e : HomeEvent} {es : List HomeEvent}

/-- **What a step sets** is an output, or nothing. -/
theorem setsOutput_of_step (hgroups : h.InGroups) (hstep : h.step e = some h') :
    SetsOutput h.board.level h'.board.level := by
  cases step_iff.1 hstep with
  | udp hs => exact Or.inl (level_of_udpStep hs)
  | tcp hs => exact setsOutput_of_tcpStep hgroups.tcp hs
  | server hs => exact setsOutput_of_serverStep hs
  | mqtt hs => exact setsOutput_of_mqttStep hgroups.mqtt hs

/-- The levels differ from those of the board `b` at outputs only, and the user LED is off unless it
was on. -/
structure SetsOutputs (b : Board) (h : Home) : Prop where
  outputs : ∀ n, h.board.level n ≠ b.level n → pinBitMask.testBit n
  userLed : h.board.level Pin.userLedPin.num = high → b.level Pin.userLedPin.num = high

theorem SetsOutputs.step (hgroups : h.InGroups) (hsets : h.SetsOutputs b)
    (hstep : h.step e = some h') : h'.SetsOutputs b := by
  rcases setsOutput_of_step hgroups hstep with heq | ⟨p, v, heq, hmask, hled⟩
  · exact ⟨by rw [heq]; exact hsets.outputs, by rw [heq]; exact hsets.userLed⟩
  · refine ⟨fun n hne => ?_, fun hhigh => ?_⟩
    · rw [heq, Function.update_apply] at hne
      split at hne
      next hn => rwa [hn]
      next => exact hsets.outputs n hne
    · rw [heq, Function.update_apply] at hhigh
      split at hhigh
      next hn =>
        rw [hled (Pin.num_injective hn.symm)] at hhigh
        cases hhigh
      next => exact hsets.userLed hhigh

/-- **What the tasks set**: in every run the levels that have changed are those of outputs, and the
user LED is not turned on. -/
theorem outputs_of_run (hrun : run step (start b) es = some h) : h.SetsOutputs b := by
  have hinv : h.InGroups ∧ h.SetsOutputs b := by
    refine (throughout_of_invariant (I := fun h => InGroups h ∧ SetsOutputs b h)
      (fun _ _ _ hI hs => ⟨hI.1.step hs, SetsOutputs.step hI.1 hI.2 hs⟩) ?_ es).last hrun
    exact ⟨⟨trivial, trivial⟩, fun n hne => absurd rfl hne, id⟩
  exact hinv.2

/-- A run in which a client turns on the red LED. -/
theorem outputs_red_led :
    ∃ h, run step (start .initial)
      [.server (.socket (some 3)), .server (.bind true), .server (.listen true),
        .server (.accept (some (4, .zeros bufferSize))), .server (.recv (some (ascii "ll1"))),
        .server .tick] = some h ∧
      h.board.level Pin.userRedLedPin.num = high ∧ h.SetsOutputs .initial := by
  obtain ⟨h, hrun, hlevel⟩ : ∃ h, run step (start .initial)
      [.server (.socket (some 3)), .server (.bind true), .server (.listen true),
        .server (.accept (some (4, .zeros bufferSize))), .server (.recv (some (ascii "ll1"))),
        .server .tick] = some h ∧ h.board.level Pin.userRedLedPin.num = high := ⟨_, rfl, rfl⟩
  exact ⟨h, hrun, hlevel, outputs_of_run hrun⟩

/-! ## The listening indicator in any run -/

/-- A step of the TCP task sets a green LED to what it shows on it, or leaves both alone. -/
theorem shown_or_of_tcpStep {t t' : TcpTask} {e : TaskEvent} {p : Pin} (hgroup : t.InGroup)
    (hp : p ∈ greenLeds) (hs : TcpStep b t e b' t') :
    b'.level p.num = t'.shown p ∨ b'.level p.num = b.level p.num ∧ t'.shown p = t.shown p := by
  have hmem (u : Bool) : (p, u) ∈ greenLeds.map (·, u) := List.mem_map.2 ⟨p, hp, rfl⟩
  cases hs with
  | begins | waits | socketFails | socket | connectFails | reset => exact Or.inr ⟨rfl, rfl⟩
  | connect sock => exact Or.inr ⟨rfl, decide_eq_false (not_not_intro (hmem high))⟩
  | close sock => exact Or.inr ⟨rfl, decide_eq_true (hmem low)⟩
  | starts | chunk => exact Or.inr ⟨rfl, shown_inLoop _ _ _⟩
  | switchOn sock q v ws =>
    obtain ⟨rfl, hnew, -⟩ := tail_inGroup hgroup
    rw [Board.level_setLevel]
    by_cases hpq : p = q
    · rw [if_pos hpq]
      exact Or.inl (decide_eq_true (hpq ▸ hnew)).symm
    · rw [if_neg hpq]
      exact Or.inr ⟨rfl, decide_eq_decide.2 (not_congr (mem_cons_iff_of_ne hpq).symm)⟩
  | switchOff q v ws =>
    obtain ⟨rfl, hnew, -⟩ := tail_inGroup hgroup
    rw [Board.level_setLevel]
    by_cases hpq : p = q
    · rw [if_pos hpq]
      exact Or.inl (decide_eq_false (hpq ▸ hnew)).symm
    · rw [if_neg hpq]
      exact Or.inr ⟨rfl, decide_eq_decide.2 (mem_cons_iff_of_ne hpq).symm⟩

/-- A green LED is on only if the session has it turned on, and but for the first exactly then. -/
def FollowsSession (h : Home) : Prop :=
  ∀ p ∈ greenLeds, (h.board.level p.num = high → h.tcp.shown p = high) ∧
    (p ≠ .userGreenLedPin → h.board.level p.num = h.tcp.shown p)

/-- **Every step keeps the green LEDs behind the session**, an `off` among them. -/
theorem FollowsSession.step (hgroups : h.InGroups) (hfollows : h.FollowsSession)
    (hstep : h.step e = some h') : h'.FollowsSession := by
  intro p hp
  have hkept {level level' : ℕ → Bool} (heq : level' p.num = level p.num)
      (h₀ : (level p.num = high → h.tcp.shown p = high) ∧
        (p ≠ .userGreenLedPin → level p.num = h.tcp.shown p)) :
      (level' p.num = high → h.tcp.shown p = high) ∧
        (p ≠ .userGreenLedPin → level' p.num = h.tcp.shown p) := by
    rwa [heq]
  cases step_iff.1 hstep with
  | udp hs => exact hkept (congrFun (level_of_udpStep hs) p.num) (hfollows p hp)
  | tcp hs =>
    rcases shown_or_of_tcpStep hgroups.tcp hp hs with heq | ⟨heq, hshown⟩
    · exact ⟨fun hhigh => heq.symm.trans hhigh, fun _ => heq⟩
    · rw [heq, hshown]
      exact hfollows p hp
  | server hs => exact hkept (level_of_serverStep hs hp) (hfollows p hp)
  | mqtt hs =>
    obtain ⟨ws, -, -, rfl⟩ | ⟨-, hall⟩ := level_of_mqttStep hgroups.mqtt hs
    · rw [Board.level_setLevel]
      split
      next hfirst => exact ⟨nofun, fun hne => absurd hfirst hne⟩
      next => exact hfollows p hp
    · exact hkept (hall p hp) (hfollows p hp)

theorem wake_of_shown {p : Pin} (hshown : h.tcp.shown p = high) : h.wake = .recording := by
  rw [wake]
  cases htcp : h.tcp <;> rw [htcp] at hshown <;> first | rfl | cases hshown

theorem shown_of_reads {p : Pin} (hreads : h.tcp.Reads) : h.tcp.shown p = high := by
  obtain ⟨sock, l, htcp⟩ := hreads
  rw [htcp]
  rfl

/-- **The listening indicator in any run**: a green LED is on only while a session is in progress,
and two are on whenever it reads from the microphone. -/
theorem indicator_safe (hb : ∀ p ∈ greenLeds, b.level p.num = low)
    (hrun : run step (start b) es = some h) :
    (∀ p ∈ greenLeds, h.board.level p.num = high → h.wake = .recording) ∧
      (h.tcp.Reads → h.board.level Pin.userGreenLedPin2.num = high ∧
        h.board.level Pin.userGreenLedPin3.num = high) := by
  have hinv : h.InGroups ∧ h.FollowsSession := by
    refine (throughout_of_invariant (I := fun h => InGroups h ∧ FollowsSession h)
      (fun _ _ _ hI hs => ⟨hI.1.step hs, FollowsSession.step hI.1 hI.2 hs⟩) ?_ es).last hrun
    refine ⟨⟨trivial, trivial⟩, fun p hp => ⟨fun hhigh => ?_, fun _ => hb p hp⟩⟩
    exact absurd ((hb p hp).symm.trans hhigh) (by decide)
  obtain ⟨-, hfollows⟩ := hinv
  refine ⟨fun p hp hhigh => wake_of_shown ((hfollows p hp).1 hhigh), fun hreads => ⟨?_, ?_⟩⟩
  · exact ((hfollows _ (by decide)).2 (by decide)).trans (shown_of_reads hreads)
  · exact ((hfollows _ (by decide)).2 (by decide)).trans (shown_of_reads hreads)

/-- The indicator after an `off` during a recording. -/
theorem indicator_safe_off :
    ∃ h, run step (start .initial) (recordingRun ++ offMessage) = some h ∧ h.tcp.Reads ∧
      h.board.level Pin.userGreenLedPin2.num = high ∧
        h.board.level Pin.userGreenLedPin3.num = high := by
  obtain ⟨h, hrun, hreads⟩ : ∃ h, run step (start .initial) (recordingRun ++ offMessage) = some h ∧
      h.tcp.Reads := ⟨_, rfl, _, _, rfl⟩
  exact ⟨h, hrun, hreads, (indicator_safe (fun _ _ => rfl) hrun).2 hreads⟩

end Home

end HomeAssistant
