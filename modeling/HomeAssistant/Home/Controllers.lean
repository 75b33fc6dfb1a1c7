import HomeAssistant.Foundations.Observation
import HomeAssistant.Home.Indicator

/-!
# The two controllers of the outputs

The command server and the MQTT handler both set the lamp and the red LED, each as its messages come
in, and nothing orders the one after the other. Every write of a level is a step of its own, so for
each pin the writes come one after another; `effects` lists them. The level of a pin is what was
written last, and the writes of each controller are those that its messages ask for, in their order,
but for one that is still to be made (`obeys_of_run`). This holds pin by pin: the order of the two
controllers need not be the same for the lamp and the LED (`off_overtaken`).
-/

namespace HomeAssistant

open Audio Machine

/-- The tasks that set outputs other than the green LEDs. -/
inductive Controller
  | server
  | mqtt
  deriving DecidableEq

namespace Audio

/-- The levels that the server sets for a message. -/
def serverWrites (message : Bytes) : List (Pin × Bool) :=
  if message = ascii "ll1" then [(.userRedLedPin, high)]
  else if message = ascii "dl1" then [(.userRedLedPin, low)]
  else if message = ascii "ll2" then [(.luminaria, high)]
  else if message = ascii "dl2" then [(.luminaria, low)]
  else []

/-- The level that a step of the server writes to a pin. -/
def ServerTask.writes (p : Pin) : ServerTask → ServerEvent → Option Bool
  | .handle _ _ buffer _, .tick => (serverWrites buffer.str).lookup p
  | _, _ => none

/-- The level that the server still has to write to a pin for the message it has received. -/
def ServerTask.pending (p : Pin) : ServerTask → Option Bool
  | .handle _ _ buffer _ => (serverWrites buffer.str).lookup p
  | _ => none

/-- The message that a step of the server receives and can terminate. -/
def ServerEvent.command : ServerEvent → List Bytes
  | .recv (some m) => if m.length < bufferSize then [cstr m] else []
  | _ => []

end Audio

namespace Mqtt

/-- The level that a step of the handler writes to a pin. -/
def Task.writes (p : Pin) : Task → TaskEvent → Option Bool
  | .writing ((q, v) :: _), .tick => if p = q then some v else none
  | _, _ => none

/-- The level that the handler still has to write to a pin for the message it has copied. -/
def Task.pending (p : Pin) : Task → Option Bool
  | .writing ws => ws.lookup p
  | _ => none

/-- The message that an event brings, if there is memory for it. -/
def TaskEvent.command : TaskEvent → List Bytes
  | .event malloc (.data data) => if (malloc (data.length + 1)).isSome then [cstr data] else []
  | _ => []

end Mqtt

namespace Controller

/-- The levels that a message asks for. -/
def writesFor : Controller → Bytes → List (Pin × Bool)
  | server => serverWrites
  | mqtt => Mqtt.turnLed

/-- The message that a step brings to a controller. -/
def command : Controller → HomeEvent → List Bytes
  | server, .server e => e.command
  | mqtt, .mqtt e => e.command
  | _, _ => []

/-- The level that a controller still has to write to a pin. -/
def pending (p : Pin) (h : Home) : Controller → Option Bool
  | server => h.server.pending p
  | mqtt => h.mqtt.pending p

end Controller

namespace Home

/-- The level that a step writes to a pin, and who writes it. -/
def writes (p : Pin) (h : Home) : HomeEvent → Option (Controller × Bool)
  | .server e => (h.server.writes p e).map (.server, ·)
  | .mqtt e => (h.mqtt.writes p e).map (.mqtt, ·)
  | _ => none

/-- The levels that a run writes to a pin, one after another. -/
def effects (p : Pin) (h : Home) (es : List HomeEvent) : List (Controller × Bool) :=
  trace step (writes p) h es

end Home

/-- The levels among these that a controller has written. -/
def writtenBy (c : Controller) (ws : List (Controller × Bool)) : List Bool :=
  (ws.filter (·.1 = c)).map Prod.snd

/-! ## One step of a controller -/

variable {p q : Pin} {v : Bool} {ws : List (Pin × Bool)}

theorem lookup_cons_eq : ((q, v) :: ws).lookup p = if p = q then some v else ws.lookup p := by
  rw [List.lookup_cons]
  by_cases h : p = q
  · rw [if_pos h, h, beq_self_eq_true]
  · rw [if_neg h, beq_false_of_ne h]

theorem toList_filterMap {α β : Type} (o : Option α) (f : α → Option β) :
    o.toList.filterMap f = (o.bind f).toList := by
  cases o with
  | none => rfl
  | some a =>
    rw [Option.toList_some, List.filterMap_cons, Option.bind_some]
    cases f a <;> rfl

theorem Board.level_setLevel_getD (b : Board) : (b.setLevel q v).level p.num =
    (if p = q then some v else none).getD (b.level p.num) := by
  rw [Board.level_setLevel]
  split_ifs <;> rfl

namespace Audio

variable {b b' : Board} {t t' : ServerTask} {e : ServerEvent}

theorem level_act_getD (message chunk : Bytes) (b : Board) (p : Pin) :
    (act message chunk b).level p.num =
      ((serverWrites message).lookup p).getD (b.level p.num) := by
  by_cases heden : message = ascii "eden"
  · subst heden
    rfl
  · rw [act, if_neg heden, serverWrites]
    split_ifs
    all_goals first | rw [lookup_cons_eq, Board.level_setLevel_getD]; rfl | rfl

theorem level_getD_of_serverStep (hs : ServerStep b t e b' t') :
    b'.level p.num = (t.writes p e).getD (b.level p.num) := by
  cases hs with
  | handle sock client buffer n => exact level_act_getD _ _ b p
  | _ => rfl

/-- What a message asks the server to write is written or still to be written. -/
theorem account_of_serverStep (hs : ServerStep b t e b' t') :
    (t.writes p e).toList ++ (t'.pending p).toList =
      (t.pending p).toList ++ e.command.filterMap fun m => (serverWrites m).lookup p := by
  cases hs with
  | @recv sock client buffer m hm =>
    by_cases hlen : m.length < bufferSize
    · obtain ⟨buffer', hreceive, hstr, -⟩ := receive_eq buffer hlen
      rw [hreceive, ServerEvent.command, if_pos hlen]
      show ((serverWrites buffer'.str).lookup p).toList = _
      rw [hstr]
      exact (toList_filterMap (some _) _).symm
    · rw [ServerEvent.command, if_neg hlen]
      cases hreceive : receive buffer m with
      | ok buffer' =>
        refine absurd ((buffer.terminate_ne_outOfBounds_iff m).1 ?_) hlen
        rw [show buffer.terminate m = .ok buffer' from hreceive]
        nofun
      | error f => rfl
  | handle sock client buffer n => rfl
  | _ => rfl

end Audio

namespace Mqtt

variable {b b' : Board} {t t' : Task} {e : TaskEvent}

theorem level_getD_of_mqttStep (hs : t.step b e = some (b', t')) :
    b'.level p.num = (t.writes p e).getD (b.level p.num) := by
  obtain ⟨q, v, ws, rfl, rfl, rfl, -⟩ | ⟨rfl, rfl, -⟩ | ⟨rfl, rfl | ⟨topic, rfl⟩, -⟩ :=
    Task.step_cases hs
  · exact b.level_setLevel_getD
  · cases e <;> rfl
  · rfl
  · rfl

theorem nodup_turnLed (m : Bytes) : ((turnLed m).map Prod.fst).Nodup := by
  unfold turnLed
  split_ifs <;> decide

theorem lookup_tail_of_inGroup (hgroup : (Task.writing ((q, v) :: ws)).InGroup) :
    ws.lookup q = none := by
  obtain ⟨m, hm⟩ := hgroup
  have hnodup := (nodup_turnLed m).sublist (hm.sublist.map Prod.fst)
  refine List.lookup_eq_none_iff.2 fun w hw => ?_
  have hne : q ≠ w.1 := by
    intro heq
    have hmem : w.1 ∈ ws.map Prod.fst := List.mem_map_of_mem hw
    exact (List.nodup_cons.1 hnodup).1 (heq ▸ hmem)
  simpa using hne

/-- What a message asks the handler to write is written or still to be written. -/
theorem account_of_mqttStep (hgroup : t.InGroup) (hs : t.step b e = some (b', t')) :
    (t.writes p e).toList ++ (t'.pending p).toList =
      (t.pending p).toList ++ e.command.filterMap fun m => (turnLed m).lookup p := by
  revert hs
  fun_cases Task.step b t e <;> intro hs <;> cases hs
  case case1 malloc data =>
    cases hblock : malloc (data.length + 1) with
    | none =>
      rw [copyMessage, TaskEvent.command]
      simp only [hblock]
      rfl
    | some block =>
      obtain ⟨message, hcopy, hstr⟩ := copyMessage_of_malloc hblock
      rw [hcopy, TaskEvent.command, hblock, Option.isSome_some, if_pos rfl]
      show ((turnLed message.str).lookup p).toList = _
      rw [hstr]
      exact (toList_filterMap (some _) _).symm
  case case2 malloc e hdata =>
    cases e with
    | data data => exact absurd rfl (hdata data)
    | _ => rfl
  case case3 q v ws =>
    show (if p = q then some v else none).toList ++ (ws.lookup p).toList =
      (((q, v) :: ws).lookup p).toList ++ []
    rw [lookup_cons_eq, List.append_nil]
    split_ifs with hpq
    · rw [hpq, lookup_tail_of_inGroup hgroup]
      rfl
    · rfl
  case case4 => rfl

end Mqtt

/-! ## The assistant -/

theorem level_of_tcpStep {b b' : Board} {t t' : TcpTask} {e : TaskEvent} (hp : p ∉ greenLeds)
    (hgroup : t.InGroup) (hs : TcpStep b t e b' t') : b'.level p.num = b.level p.num := by
  have hother {q : Pin} {u v : Bool} {ws : List (Pin × Bool)}
      (h : (q, v) :: ws <:+ greenLeds.map (·, u)) : p ≠ q := by
    rintro rfl
    obtain ⟨q, hq, heq⟩ := List.mem_map.1 (h.subset List.mem_cons_self)
    cases heq
    exact hp hq
  cases hs with
  | switchOn sock q v ws => rw [Board.level_setLevel, if_neg (hother hgroup)]
  | switchOff q v ws => rw [Board.level_setLevel, if_neg (hother hgroup)]
  | _ => rfl

theorem writtenBy_append (c : Controller) (ws ws' : List (Controller × Bool)) :
    writtenBy c (ws ++ ws') = writtenBy c ws ++ writtenBy c ws' := by
  rw [writtenBy, List.filter_append, List.map_append]
  rfl

theorem writtenBy_map (c c' : Controller) (o : Option Bool) :
    writtenBy c (o.map (c', ·)).toList = if c' = c then o.toList else [] := by
  cases o with
  | none => split_ifs <;> rfl
  | some v => cases c <;> cases c' <;> rfl

namespace Home

variable {b : Board} {h h' : Home} {e : HomeEvent} {es : List HomeEvent}

/-- **What a step does to the level of a pin** that the session does not set. -/
theorem level_getD_of_step (hp : p ∉ greenLeds) (hgroups : h.InGroups)
    (hstep : h.step e = some h') :
    h'.board.level p.num = ((h.writes p e).map Prod.snd).getD (h.board.level p.num) := by
  cases step_iff.1 hstep with
  | udp hs => exact congrFun (level_of_udpStep hs) p.num
  | tcp hs => exact level_of_tcpStep hp hgroups.tcp hs
  | server hs =>
    rw [writes, Option.map_map]
    exact (level_getD_of_serverStep hs).trans (by rw [Function.comp_def, Option.map_id'])
  | mqtt hs =>
    rw [writes, Option.map_map]
    exact (Mqtt.level_getD_of_mqttStep hs).trans (by rw [Function.comp_def, Option.map_id'])

/-- **What a step does for a controller**: what its messages ask for is written or still to be
written. -/
theorem account_of_step (hgroups : h.InGroups) (hstep : h.step e = some h') (c : Controller) :
    writtenBy c (h.writes p e).toList ++ (c.pending p h').toList =
      (c.pending p h).toList ++ (c.command e).filterMap fun m => (c.writesFor m).lookup p := by
  cases step_iff.1 hstep with
  | udp hs => cases c <;> exact (List.append_nil _).symm
  | tcp hs => cases c <;> exact (List.append_nil _).symm
  | server hs =>
    rw [writes, writtenBy_map]
    cases c with
    | server => exact account_of_serverStep hs
    | mqtt => exact (List.append_nil _).symm
  | mqtt hs =>
    rw [writes, writtenBy_map]
    cases c with
    | server => exact (List.append_nil _).symm
    | mqtt => exact Mqtt.account_of_mqttStep hgroups.mqtt hs

/-- What is written to a pin, and what is still to be written. -/
structure Obeys (b : Board) (p : Pin) (es : List HomeEvent) (h : Home) : Prop where
  level : h.board.level p.num =
    ((effects p (start b) es).getLast?.map Prod.snd).getD (b.level p.num)
  order : ∀ c : Controller, writtenBy c (effects p (start b) es) ++ (c.pending p h).toList =
    (es.flatMap c.command).filterMap fun m => (c.writesFor m).lookup p

theorem Obeys.step (hp : p ∉ greenLeds) (hgroups : h.InGroups)
    (hrun : run Home.step (start b) es = some h) (hobeys : Obeys b p es h)
    (hstep : h.step e = some h') : Obeys b p (es ++ [e]) h' := by
  have heffects : effects p (start b) (es ++ [e]) =
      effects p (start b) es ++ (h.writes p e).toList := trace_concat hrun hstep
  refine ⟨?_, fun c => ?_⟩
  · rw [level_getD_of_step hp hgroups hstep, heffects, List.getLast?_append, hobeys.level]
    cases h.writes p e <;> rfl
  · rw [heffects, writtenBy_append, List.append_assoc, account_of_step hgroups hstep,
      ← List.append_assoc, hobeys.order, List.flatMap_append, List.flatMap_singleton,
      List.filterMap_append]

/-- **A pin obeys its two controllers**: in every run its level is the one written last, and each
controller has written, in their order, the levels that its messages ask for, but for one that it
still has to write. -/
theorem obeys_of_run (hp : p ∉ greenLeds) (hrun : run step (start b) es = some h) :
    Obeys b p es h := by
  refine (run_induction (H := fun es h => run step (start b) es = some h ∧ h.InGroups ∧
    Obeys b p es h) ⟨rfl, ⟨trivial, trivial⟩, rfl, fun c => ?_⟩ ?_ hrun).2.2
  · cases c <;> rfl
  · rintro pre e t t' - ⟨hpre, hgroups, hobeys⟩ hstep
    refine ⟨?_, hgroups.step hstep, hobeys.step hp hgroups hpre hstep⟩
    rw [run_append, hpre, Option.bind_some, run_cons step hstep]
    rfl

/-- An `off` over MQTT, and the commands `ll2` and `ll1` while its levels are written. -/
def overtakenRun : List HomeEvent :=
  [.server (.socket (some 3)), .server (.bind true), .server (.listen true),
    .server (.accept (some (4, .zeros bufferSize))),
    .mqtt (.event (fun n => some (.zeros n)) (.data (ascii "off"))), .mqtt .tick,
    .server (.recv (some (ascii "ll2"))), .server .tick,
    .server (.recv (some (ascii "ll1"))), .server .tick, .mqtt .tick, .mqtt .tick, .mqtt .tick]

/-- The lamp obeys the server last and the red LED the `off`, though the server has turned on the
lamp first. -/
theorem off_overtaken :
    ∃ h, run step (start .initial) overtakenRun = some h ∧
      Obeys .initial .luminaria overtakenRun h ∧ Obeys .initial .userRedLedPin overtakenRun h ∧
      effects .luminaria (start .initial) overtakenRun = [(.mqtt, low), (.server, high)] ∧
      effects .userRedLedPin (start .initial) overtakenRun = [(.server, high), (.mqtt, low)] := by
  obtain ⟨h, hrun⟩ : ∃ h, run step (start .initial) overtakenRun = some h := ⟨_, rfl⟩
  exact ⟨h, hrun, obeys_of_run (by decide) hrun, obeys_of_run (by decide) hrun, rfl, rfl⟩

end Home

end HomeAssistant
