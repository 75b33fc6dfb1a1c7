import HomeAssistant.Home.System

/-!
# The listening indicator

A session of the TCP task turns on the three green LEDs before it records and turns them off behind
it. The MQTT command `off` turns off the lamp and three LEDs, one of which is the first of the green
ones. So the three tell together whether a session is in progress as long as no `off` sets the first
one while the session has it turned on (`coherent_of_spared`); an `off` that comes in between leaves
one of the three off (`off_during_session`).
-/

namespace HomeAssistant

open Audio Machine

namespace Audio.TcpTask

/-- The task has set some of the levels of a group, and not all. -/
def PartWay : TcpTask → Prop
  | .switchOn _ ws => ws ≠ greenLeds.map (·, high) ∧ ws ≠ []
  | .switchOff ws => ws ≠ greenLeds.map (·, low) ∧ ws ≠ []
  | _ => False

/-- A session is in progress: it has turned on the LEDs and not begun to turn them off. -/
def lit : TcpTask → Bool
  | .switchOn _ ws => ws = []
  | .session _ _ | .close _ => true
  | .switchOff ws => ws = greenLeds.map (·, low)
  | _ => false

/-- The level that the task has last set a green LED to. -/
def shown (p : Pin) : TcpTask → Bool
  | .switchOn _ ws => (p, high) ∉ ws
  | .session _ _ | .close _ => high
  | .switchOff ws => (p, low) ∈ ws
  | _ => low

/-- The levels that are still to be set are the rest of a group. -/
def InGroup : TcpTask → Prop
  | .switchOn _ ws => ws <:+ greenLeds.map (·, high)
  | .switchOff ws => ws <:+ greenLeds.map (·, low)
  | _ => True

end Audio.TcpTask

namespace Mqtt.Task

/-- The handler has set some of the levels of a group, and not all. -/
def PartWay : Task → Prop
  | .writing ws => (∀ m, ws ≠ turnLed m) ∧ ws ≠ []
  | _ => False

/-- The levels that are still to be set are the rest of what a message asks for. -/
def InGroup : Task → Prop
  | .writing ws => ∃ m, ws <:+ turnLed m
  | _ => True

end Mqtt.Task

/-- Of the green LEDs, messages only turn off the first. -/
theorem Mqtt.eq_of_mem_turnLed {p : Pin} {v : Bool} {m : Bytes} (h : (p, v) ∈ turnLed m)
    (hp : p ∈ greenLeds) : p = .userGreenLedPin ∧ v = low := by
  simp only [greenLeds, List.mem_cons, List.not_mem_nil, or_false] at hp
  unfold turnLed at h
  rcases hp with rfl | rfl | rfl <;> split_ifs at h <;> simp_all

variable {b b' : Board} {p : Pin}

theorem level_of_udpStep {t t' : UdpTask} {e : TaskEvent} (hs : UdpStep b t e b' t') :
    b'.level = b.level := by
  cases hs <;> rfl

theorem level_act_of_green (message chunk : Bytes) (b : Board) (hp : p ∈ greenLeds) :
    (act message chunk b).level p.num = b.level p.num := by
  have hred : p ≠ .userRedLedPin := by rintro rfl; exact absurd hp (by decide)
  have hlamp : p ≠ .luminaria := by rintro rfl; exact absurd hp (by decide)
  unfold act
  split_ifs
  · rfl
  · rw [Board.level_setLevel, if_neg hred]
  · rw [Board.level_setLevel, if_neg hred]
  · rw [Board.level_setLevel, if_neg hlamp]
  · rw [Board.level_setLevel, if_neg hlamp]
  · rfl

theorem level_of_serverStep {t t' : ServerTask} {e : ServerEvent} (hs : ServerStep b t e b' t')
    (hp : p ∈ greenLeds) : b'.level p.num = b.level p.num := by
  cases hs
  case handle sock client buffer n => exact level_act_of_green _ _ b hp
  all_goals rfl

/-! ## The session -/

theorem inGroup_inLoop (sock : ℕ) (l : ChunkLoop) : (TcpTask.inLoop sock l).InGroup := by
  rcases TcpTask.inLoop_cases sock l with hl | hl <;> rw [hl] <;> trivial

theorem shown_inLoop (p : Pin) (sock : ℕ) (l : ChunkLoop) :
    (TcpTask.inLoop sock l).shown p = high := by
  rcases TcpTask.inLoop_cases sock l with hl | hl <;> rw [hl] <;> rfl

theorem tail_inGroup {q : Pin} {u v : Bool} {ws : List (Pin × Bool)}
    (h : (q, v) :: ws <:+ greenLeds.map (·, u)) :
    v = u ∧ (q, v) ∉ ws ∧ ws <:+ greenLeds.map (·, u) := by
  have hmem := h.subset List.mem_cons_self
  obtain ⟨p, -, hp⟩ := List.mem_map.1 hmem
  have hnodup : (greenLeds.map (·, u)).Nodup := by cases u <;> decide
  refine ⟨by cases hp; rfl, ?_, (List.suffix_cons _ ws).trans h⟩
  exact (List.nodup_cons.1 (hnodup.sublist h.sublist)).1

theorem mem_cons_iff_of_ne {q : Pin} (hpq : p ≠ q) {u v : Bool} {ws : List (Pin × Bool)} :
    (p, u) ∈ (q, v) :: ws ↔ (p, u) ∈ ws := by
  rw [List.mem_cons, or_iff_right]
  rintro ⟨⟩
  exact hpq rfl

theorem inGroup_of_tcpStep {t t' : TcpTask} {e : TaskEvent} (h : t.InGroup)
    (hs : TcpStep b t e b' t') : t'.InGroup := by
  cases hs with
  | begins | waits | socketFails | socket | connectFails | reset => trivial
  | connect | close => exact List.suffix_rfl
  | starts | chunk => exact inGroup_inLoop _ _
  | switchOn | switchOff => exact (tail_inGroup h).2.2

/-- Outside its groups the session shows on each green LED whether it is in progress. -/
theorem Audio.TcpTask.shown_of_not_partWay {t : TcpTask} (h : ¬ t.PartWay) (hp : p ∈ greenLeds) :
    t.shown p = t.lit := by
  have hmem (u : Bool) : (p, u) ∈ greenLeds.map (·, u) := List.mem_map.2 ⟨p, hp, rfl⟩
  cases t with
  | switchOn sock ws =>
    by_cases hnil : ws = []
    · rw [hnil]
      rfl
    · have hfull : ws = greenLeds.map (·, high) := not_not.1 fun hne => h ⟨hne, hnil⟩
      rw [hfull]
      exact decide_eq_false (not_not_intro (hmem high))
  | switchOff ws =>
    by_cases hnil : ws = []
    · rw [hnil]
      rfl
    · have hfull : ws = greenLeds.map (·, low) := not_not.1 fun hne => h ⟨hne, hnil⟩
      rw [hfull]
      exact decide_eq_true (hmem low)
  | check | openSocket | connect | session | close | deleted => rfl

theorem shown_of_tcpStep {t t' : TcpTask} {e : TaskEvent} (hgroup : t.InGroup)
    (h : b.level p.num = t.shown p) (hp : p ∈ greenLeds) (hs : TcpStep b t e b' t') :
    b'.level p.num = t'.shown p := by
  cases hs with
  | begins | waits | socketFails | socket | connectFails | reset => exact h
  | connect sock =>
    have hmem : (p, high) ∈ greenLeds.map (·, high) := List.mem_map.2 ⟨p, hp, rfl⟩
    exact h.trans (decide_eq_false (not_not_intro hmem)).symm
  | close sock =>
    have hmem : (p, low) ∈ greenLeds.map (·, low) := List.mem_map.2 ⟨p, hp, rfl⟩
    exact h.trans (decide_eq_true hmem).symm
  | starts | chunk =>
    rw [shown_inLoop]
    exact h
  | switchOn sock q v ws =>
    obtain ⟨rfl, hnew, -⟩ := tail_inGroup hgroup
    rw [Board.level_setLevel]
    by_cases hpq : p = q
    · rw [if_pos hpq]
      exact (decide_eq_true (hpq ▸ hnew)).symm
    · rw [if_neg hpq, h]
      exact decide_eq_decide.2 (not_congr (mem_cons_iff_of_ne hpq))
  | switchOff q v ws =>
    obtain ⟨rfl, hnew, -⟩ := tail_inGroup hgroup
    rw [Board.level_setLevel]
    by_cases hpq : p = q
    · rw [if_pos hpq]
      exact (decide_eq_false (hpq ▸ hnew)).symm
    · rw [if_neg hpq, h]
      exact decide_eq_decide.2 (mem_cons_iff_of_ne hpq)

/-! ## The assistant -/

namespace Home

/-- What the tasks have still to set are the rests of their groups. -/
structure InGroups (h : Home) : Prop where
  tcp : h.tcp.InGroup
  mqtt : h.mqtt.InGroup

/-- The green LEDs have the levels that the session has last set them to. -/
def ShowsSession (h : Home) : Prop := ∀ p ∈ greenLeds, h.board.level p.num = h.tcp.shown p

/-- The listening indicator is coherent: if no task is part-way through a group of levels, the three
green LEDs are on if a session is in progress and off if not. -/
def Coherent (h : Home) : Prop :=
  ¬ h.tcp.PartWay → ¬ h.mqtt.PartWay → ∀ p ∈ greenLeds, h.board.level p.num = h.tcp.lit

/-- The step does not set the first green LED for an `off` while the session has it turned on. -/
def SparesIndicator (h : Home) (e : HomeEvent) : Prop :=
  ∀ ws, h.mqtt = .writing ((.userGreenLedPin, low) :: ws) → e = .mqtt .tick →
    h.tcp.shown .userGreenLedPin = low

variable {h h' : Home} {e : HomeEvent}

theorem inGroup_of_mqttStep {t t' : Mqtt.Task} {e : Mqtt.TaskEvent} (hgroup : t.InGroup)
    (hs : t.step b e = some (b', t')) : t'.InGroup := by
  obtain ⟨p, v, ws, rfl, -, -, rfl⟩ | ⟨-, -, rfl⟩ | ⟨-, -, rfl | ⟨m, rfl⟩ | ⟨f, rfl⟩⟩ :=
    Mqtt.Task.step_cases hs
  · obtain ⟨m, hm⟩ := hgroup
    exact ⟨m, (List.suffix_cons _ ws).trans hm⟩
  · trivial
  · trivial
  · exact ⟨m, List.suffix_rfl⟩
  · trivial

theorem InGroups.step (hgroups : h.InGroups) (hstep : h.step e = some h') : h'.InGroups := by
  cases step_iff.1 hstep with
  | udp | server => exact ⟨hgroups.tcp, hgroups.mqtt⟩
  | tcp hs => exact ⟨inGroup_of_tcpStep hgroups.tcp hs, hgroups.mqtt⟩
  | mqtt hs => exact ⟨hgroups.tcp, inGroup_of_mqttStep hgroups.mqtt hs⟩

/-- A step of the handler leaves the green LEDs alone, or turns off the first. -/
theorem level_of_mqttStep {t t' : Mqtt.Task} {e : Mqtt.TaskEvent} (hgroup : t.InGroup)
    (hs : t.step b e = some (b', t')) :
    (∃ ws, t = .writing ((.userGreenLedPin, low) :: ws) ∧ e = .tick ∧
        b' = b.setLevel .userGreenLedPin low) ∨
      (∀ ws, t ≠ .writing ((.userGreenLedPin, low) :: ws)) ∧
        ∀ p ∈ greenLeds, b'.level p.num = b.level p.num := by
  obtain ⟨q, v, ws, rfl, rfl, rfl, rfl⟩ | ⟨rfl, rfl, -⟩ | ⟨rfl, hb, -⟩ :=
    Mqtt.Task.step_cases hs
  · obtain ⟨m, hm⟩ := hgroup
    have hmem := hm.subset List.mem_cons_self
    by_cases hq : q ∈ greenLeds
    · obtain ⟨rfl, rfl⟩ := Mqtt.eq_of_mem_turnLed hmem hq
      exact Or.inl ⟨ws, rfl, rfl, rfl⟩
    · refine Or.inr ⟨?_, fun p hp => ?_⟩
      · rintro ws' ⟨⟩
        exact hq (by decide)
      · have hne : p ≠ q := by
          rintro rfl
          exact hq hp
        rw [Board.level_setLevel, if_neg hne]
  · exact Or.inr ⟨nofun, fun _ _ => rfl⟩
  · refine Or.inr ⟨nofun, fun _ _ => ?_⟩
    obtain rfl | ⟨topic, rfl⟩ := hb <;> rfl

/-- A step from a state in which the LEDs show the session leads to one exactly if it spares the
first of them. -/
theorem showsSession_step_iff (hgroups : h.InGroups) (hshows : h.ShowsSession)
    (hstep : h.step e = some h') : h'.ShowsSession ↔ h.SparesIndicator e := by
  cases step_iff.1 hstep with
  | udp hs =>
    refine iff_of_true (fun p hp => ?_) (fun _ _ he => by cases he)
    exact (congrFun (level_of_udpStep hs) p.num).trans (hshows p hp)
  | tcp hs =>
    refine iff_of_true (fun p hp => ?_) (fun _ _ he => by cases he)
    exact shown_of_tcpStep hgroups.tcp (hshows p hp) hp hs
  | server hs =>
    refine iff_of_true (fun p hp => ?_) (fun _ _ he => by cases he)
    exact (level_of_serverStep hs hp).trans (hshows p hp)
  | mqtt hs =>
    obtain ⟨ws, hwriting, rfl, rfl⟩ | ⟨hother, hkept⟩ := level_of_mqttStep hgroups.mqtt hs
    · constructor
      · intro hshows' _ _ _
        have hfirst := hshows' .userGreenLedPin (by decide)
        rw [Board.level_setLevel, if_pos rfl] at hfirst
        exact hfirst.symm
      · intro hspares p hp
        rw [Board.level_setLevel]
        split
        next heq =>
          rw [heq]
          exact (hspares ws hwriting rfl).symm
        next => exact hshows p hp
    · refine iff_of_true (fun p hp => (hkept p hp).trans (hshows p hp)) fun ws hwriting => ?_
      exact absurd hwriting (hother ws)

/-- Where no task is part-way through a group, LEDs that show the session are coherent. -/
theorem ShowsSession.coherent (hshows : h.ShowsSession) : h.Coherent := by
  intro htcp _ p hp
  rw [hshows p hp, TcpTask.shown_of_not_partWay htcp hp]

/-- **When the LEDs show the session throughout**: in exactly the runs in which no `off` turns off
the first while the session has it turned on. -/
theorem showsSession_throughout_iff (hb : ∀ p ∈ greenLeds, b.level p.num = low)
    (es : List HomeEvent) :
    Throughout step ShowsSession (start b) es ↔ Meets step SparesIndicator (start b) es := by
  have hgroups : (start b).InGroups := ⟨trivial, trivial⟩
  exact throughout_iff_meets (fun _ _ _ hgroups hs => InGroups.step hgroups hs)
    (fun _ _ _ hgroups hshows hs => showsSession_step_iff hgroups hshows hs) hgroups hb es

/-- **When the listening indicator is coherent**: throughout every run in which no `off` turns off
the first green LED while a session has it turned on. -/
theorem indicator_coherent_of_spared (hb : ∀ p ∈ greenLeds, b.level p.num = low)
    (es : List HomeEvent) (hspares : Meets step SparesIndicator (start b) es) :
    Throughout step Coherent (start b) es := by
  intro pre s hpre hrun
  exact ((showsSession_throughout_iff hb es).2 hspares pre s hpre hrun).coherent

/-- A run in which a client asks for a recording. -/
def recordingRun : List HomeEvent :=
  [.server (.socket (some 5)), .server (.bind true), .server (.listen true),
    .server (.accept (some (6, .zeros bufferSize))), .server (.recv (some (ascii "eden"))),
    .server .tick, .tcp .tick, .tcp (.socket (some 7)), .tcp (.connect true), .tcp .tick,
    .tcp .tick, .tcp .tick, .tcp .tick]

/-- The message `off`, and the levels it sets. -/
def offMessage : List HomeEvent :=
  .mqtt (.event (fun n => some (.zeros n)) (.data (ascii "off"))) :: List.replicate 4 (.mqtt .tick)

/-- An `off` in front of a recording leaves the indicator coherent. -/
theorem indicator_coherent_off_before : Throughout step Coherent (start .initial)
    (offMessage ++ recordingRun) := by
  refine indicator_coherent_of_spared (fun _ _ => rfl) _ ?_
  iterate 18
    refine meets_cons.2 fun s' hs => ⟨fun ws hw he => ?_, ?_⟩
    · first | rfl | cases he
    cases hs
  exact meets_nil

/-- An `off` during a recording turns off one of the three LEDs. -/
theorem off_during_session :
    (∃ h, run step (start .initial) (recordingRun ++ offMessage) = some h ∧ ¬ h.tcp.PartWay ∧
      ¬ h.mqtt.PartWay ∧ h.tcp.lit = true ∧ h.board.level Pin.userGreenLedPin.num = low ∧
        h.board.level Pin.userGreenLedPin2.num = high ∧
          h.board.level Pin.userGreenLedPin3.num = high) ∧
      ¬ Throughout step Coherent (start .initial) (recordingRun ++ offMessage) := by
  obtain ⟨h, hrun, htcp, hmqtt, hlit, hfirst, hsecond, hthird⟩ :
      ∃ h, run step (start .initial) (recordingRun ++ offMessage) = some h ∧
        (∃ sock l, h.tcp = .session sock l) ∧ h.mqtt = .writing [] ∧ h.tcp.lit = true ∧
          h.board.level Pin.userGreenLedPin.num = low ∧
            h.board.level Pin.userGreenLedPin2.num = high ∧
              h.board.level Pin.userGreenLedPin3.num = high :=
    ⟨_, rfl, ⟨_, _, rfl⟩, rfl, rfl, rfl, rfl, rfl⟩
  have htcp' : ¬ h.tcp.PartWay := by
    obtain ⟨sock, l, hpc⟩ := htcp
    rw [hpc]
    exact id
  have hmqtt' : ¬ h.mqtt.PartWay := by
    rw [hmqtt]
    exact fun hpart => hpart.2 rfl
  refine ⟨⟨h, hrun, htcp', hmqtt', hlit, hfirst, hsecond, hthird⟩, fun hall => ?_⟩
  have hlevel := hall.last hrun htcp' hmqtt' .userGreenLedPin (by decide)
  rw [hfirst, hlit] at hlevel
  cases hlevel

end Home

end HomeAssistant
