import HomeAssistant.Home.Controllers
import Mathlib.Data.List.Infix

/-!
# Commands as a whole

A command of the server sets its pin in one step, an `off` over MQTT four pins one after another. Is
an `off` nevertheless carried out as if at once? A command takes effect with the first level that it
sets (`Home.taken`), and `carryOut` carries it out whole, on levels of its own. The levels of the
board, once the handler has set what is left of a command that it has begun (`Home.settled`), are
the levels so computed throughout a run exactly if the server never turns on the red LED while an
`off` has still to turn it off (`Home.atomic_iff`).
-/

namespace HomeAssistant

open Audio Machine

/-- The command that a step of the server carries out. -/
def Audio.ServerTask.carriesOut : ServerTask → ServerEvent → Option Bytes
  | .handle _ _ buffer _, .tick => some buffer.str
  | _, _ => none

namespace Mqtt

/-- The command that these levels are set for, if none of them has been set yet. -/
def whole (ws : List (Pin × Bool)) : Option Bytes :=
  [ascii "on", ascii "off"].find? fun m => turnLed m = ws

/-- The command that a step of the handler begins to carry out. -/
def Task.begins : Task → TaskEvent → Option Bytes
  | .writing ws, .tick => whole ws
  | _, _ => none

/-- The level of a pin that is left to set of a command that the handler has begun. -/
def Task.rest (p : Pin) : Task → Option Bool
  | .writing ws => if (whole ws).isSome then none else ws.lookup p
  | _ => none

end Mqtt

/-- A command carried out at once. -/
def carryOut (levels : Pin → Bool) (c : Controller × Bytes) (p : Pin) : Bool :=
  ((c.1.writesFor c.2).lookup p).getD (levels p)

namespace Home

/-- The command that takes effect with a step. -/
def taken (h : Home) : HomeEvent → Option (Controller × Bytes)
  | .server e => (h.server.carriesOut e).map (.server, ·)
  | .mqtt e => (h.mqtt.begins e).map (.mqtt, ·)
  | _ => none

/-- The level of a pin once the handler has set what is left of a command that it has begun. -/
def settled (h : Home) (p : Pin) : Bool := (h.mqtt.rest p).getD (h.board.level p.num)

/-- The levels that no session sets settle at these. -/
def Settles (h : Home) (levels : Pin → Bool) : Prop := ∀ p, p ∉ greenLeds → h.settled p = levels p

/-- The server turns on the red LED that an `off` has still to turn off. -/
def Overtakes (h : Home) (e : HomeEvent) : Prop :=
  h.writes .userRedLedPin e = some (.server, high) ∧ h.mqtt.rest .userRedLedPin = some low

end Home

theorem foldl_carryOut (c : Controller) (m : Option Bytes) (levels : Pin → Bool) (p : Pin) :
    (m.map (c, ·)).toList.foldl carryOut levels p =
      (m.bind fun m => (c.writesFor m).lookup p).getD (levels p) := by
  cases m <;> rfl

/-! ## The server -/

variable {p : Pin} {b b' : Board}

theorem eq_of_lookup_serverWrites {m : Bytes} {v : Bool}
    (h : (serverWrites m).lookup p = some v) : p = .userRedLedPin ∨ p = .luminaria := by
  unfold serverWrites at h
  split_ifs at h
  all_goals first
    | rw [lookup_cons_eq] at h
      split_ifs at h with hp
      · simp [hp]
      · cases h
    | cases h

/-- What the server writes belongs to the command that it carries out. -/
theorem writes_eq_bind (t : ServerTask) (e : ServerEvent) :
    t.writes p e = (t.carriesOut e).bind fun m => (serverWrites m).lookup p := by
  cases t <;> cases e <;> rfl

theorem eq_of_serverTask_writes {t : ServerTask} {e : ServerEvent} {v : Bool}
    (h : t.writes p e = some v) : p = .userRedLedPin ∨ p = .luminaria := by
  rw [writes_eq_bind, Option.bind_eq_some_iff] at h
  obtain ⟨m, -, hm⟩ := h
  exact eq_of_lookup_serverWrites hm

/-! ## The handler -/

namespace Mqtt

variable {t t' : Task} {e : TaskEvent} {v : Bool} {ws : List (Pin × Bool)}

theorem turnLed_of_whole {m : Bytes} (h : whole ws = some m) : turnLed m = ws :=
  of_decide_eq_true (List.find?_some (p := fun m => turnLed m = ws) h)

/-- What is left of a command is all of it, or lets the lamp be and turns off. -/
theorem whole_or_off {m : Bytes} (h : ws <:+ turnLed m) :
    (whole ws).isSome ∨ ∀ w ∈ ws, w.1 ≠ .luminaria ∧ w.2 = low := by
  have htails : ∀ x ∈ (turnLed m).tails,
      (whole x).isSome ∨ ∀ w ∈ x, w.1 ≠ .luminaria ∧ w.2 = low := by
    unfold turnLed
    split_ifs <;> decide
  exact htails _ ((List.mem_tails _ _).2 h)

/-- What is left behind the first level is not all of a command. -/
theorem whole_tail {w : Pin × Bool} {m : Bytes} (h : w :: ws <:+ turnLed m) : whole ws = none := by
  have htails : ∀ x ∈ (turnLed m).tails, whole x.tail = none := by
    unfold turnLed
    split_ifs <;> decide
  exact htails _ ((List.mem_tails _ _).2 h)

theorem rest_turnLed (m : Bytes) : (Task.writing (turnLed m)).rest p = none := by
  unfold turnLed
  split_ifs <;> rfl

theorem eq_of_rest (hgroup : t.InGroup) (h : t.rest p = some v) : p ≠ .luminaria ∧ v = low := by
  cases t with
  | writing ws =>
    rw [Task.rest] at h
    split_ifs at h with hwhole
    obtain ⟨m, hm⟩ := hgroup
    have hoff := (whole_or_off hm).resolve_left hwhole
    obtain ⟨pre, post, rfl, -⟩ := List.lookup_eq_some_iff.1 h
    exact hoff (p, v) (by simp)
  | _ => cases h

theorem getD_setLevel {q : Pin} (hgroup : (Task.writing ((q, v) :: ws)).InGroup) :
    (ws.lookup p).getD ((b.setLevel q v).level p.num) =
      (((q, v) :: ws).lookup p).getD (b.level p.num) := by
  rw [lookup_cons_eq, Board.level_setLevel]
  split_ifs with hpq
  · rw [hpq, lookup_tail_of_inGroup hgroup]
    rfl
  · rfl

/-- **What a step of the handler does to the levels that settle**: it carries out the command that
it begins. -/
theorem settled_of_mqttStep (hgroup : t.InGroup) (hs : t.step b e = some (b', t')) :
    (t'.rest p).getD (b'.level p.num) =
      ((t.begins e).bind fun m => (turnLed m).lookup p).getD
        ((t.rest p).getD (b.level p.num)) := by
  obtain ⟨q, v, ws, rfl, rfl, rfl, rfl⟩ | ⟨rfl, rfl, rfl⟩ | ⟨rfl, hb, ht⟩ := Task.step_cases hs
  · obtain ⟨m, hm⟩ := hgroup
    rw [Task.rest, whole_tail hm, Task.begins, Task.rest]
    show (ws.lookup p).getD _ = _
    rw [getD_setLevel ⟨m, hm⟩]
    cases hwhole : whole ((q, v) :: ws) with
    | none => rfl
    | some m' =>
      show _ = ((turnLed m').lookup p).getD _
      rw [turnLed_of_whole hwhole]
      rfl
  · cases e <;> rfl
  · have hlevel : b'.level = b.level := by
      rcases hb with rfl | ⟨topic, rfl⟩ <;> rfl
    have hrest : t'.rest p = none := by
      rcases ht with rfl | ⟨m, rfl⟩ | ⟨f, rfl⟩
      · rfl
      · exact rest_turnLed m
      · rfl
    rw [hrest, hlevel]
    cases e <;> rfl

end Mqtt

/-! ## The assistant -/

/-- A level that is set and one that is still to be set can change places if they agree. -/
theorem getD_comm_iff (o u : Option Bool) (x : Bool) :
    u.getD (o.getD x) = o.getD (u.getD x) ↔ ¬ ∃ v w, o = some v ∧ u = some w ∧ v ≠ w := by
  cases o <;> cases u <;> simp [eq_comm]

namespace Home

variable {h h' : Home} {e : HomeEvent} {levels : Pin → Bool}

/-- What the server can overtake is that the red LED is turned off. -/
theorem overtakes_iff {e : ServerEvent} (hgroup : h.mqtt.InGroup) :
    h.Overtakes (.server e) ↔ ∃ p, p ∉ greenLeds ∧ ∃ u v, h.server.writes p e = some u ∧
      h.mqtt.rest p = some v ∧ u ≠ v := by
  have hwrites (p : Pin) (u : Bool) :
      h.writes p (.server e) = some (.server, u) ↔ h.server.writes p e = some u := by
    simp [writes]
  rw [Overtakes, hwrites]
  constructor
  · rintro ⟨hw, hrest⟩
    exact ⟨_, by decide, _, _, hw, hrest, by decide⟩
  · rintro ⟨p, -, u, v, hw, hrest, hne⟩
    obtain ⟨hlamp, rfl⟩ := Mqtt.eq_of_rest hgroup hrest
    obtain rfl := (eq_of_serverTask_writes hw).resolve_right hlamp
    obtain rfl : u = high := by simpa [low, high] using hne
    exact ⟨hw, hrest⟩

theorem settles_serverStep_iff {b : Board} {t : ServerTask} {e : ServerEvent}
    (hgroup : h.mqtt.InGroup) (hsettles : h.Settles levels)
    (hs : ServerStep h.board h.server e b t) :
    Settles { h with board := b, server := t }
        ((h.taken (.server e)).toList.foldl carryOut levels) ↔
      ¬ h.Overtakes (.server e) := by
  have hpin {p : Pin} (hp : p ∉ greenLeds) :
      settled { h with board := b, server := t } p =
          (h.taken (.server e)).toList.foldl carryOut levels p ↔
        ¬ ∃ u v, h.server.writes p e = some u ∧ h.mqtt.rest p = some v ∧ u ≠ v := by
    rw [taken, foldl_carryOut, ← getD_comm_iff _ _ (h.board.level p.num), ← hsettles p hp,
      settled, settled, level_getD_of_serverStep hs, writes_eq_bind]
    rfl
  rw [overtakes_iff hgroup, not_exists]
  refine forall_congr' fun p => ?_
  rw [not_and]
  exact forall_congr' hpin

/-- **What a step does to the levels that settle**: it carries out the command that takes effect
with it, exactly if the server does not overtake the handler. -/
theorem settles_step_iff (hgroups : h.InGroups) (hsettles : h.Settles levels)
    (hstep : h.step e = some h') :
    h'.Settles ((h.taken e).toList.foldl carryOut levels) ↔ ¬ h.Overtakes e := by
  cases step_iff.1 hstep with
  | udp hs =>
    refine iff_of_true (fun p hp => ?_) (by rintro ⟨hw, -⟩; cases hw)
    rw [settled, congrFun (level_of_udpStep hs) p.num]
    exact hsettles p hp
  | tcp hs =>
    refine iff_of_true (fun p hp => ?_) (by rintro ⟨hw, -⟩; cases hw)
    rw [settled, level_of_tcpStep hp hgroups.tcp hs]
    exact hsettles p hp
  | server hs => exact settles_serverStep_iff hgroups.mqtt hsettles hs
  | mqtt hs =>
    refine iff_of_true (fun p hp => ?_) ?_
    · rw [taken, foldl_carryOut, ← hsettles p hp]
      exact Mqtt.settled_of_mqttStep hgroups.mqtt hs
    · rintro ⟨hw, -⟩
      rw [writes, Option.map_eq_some_iff] at hw
      obtain ⟨_, -, heq⟩ := hw
      cases heq

/-- **When commands are carried out as a whole**: throughout a run the levels settle at what the
commands give one after another, in the order in which they take effect, exactly if the server never
overtakes the handler. -/
theorem atomic_iff (b : Board) (es : List HomeEvent) :
    Follows step taken carryOut Settles (start b) (fun p => b.level p.num) es ↔
      Meets step (fun h e => ¬ h.Overtakes e) (start b) es :=
  follows_iff_meets (I := InGroups) (R := Settles)
    (fun _ _ _ hgroups hstep => hgroups.step hstep)
    (fun _ _ _ _ hgroups hsettles hstep => settles_step_iff hgroups hsettles hstep)
    (show (start b).InGroups from ⟨trivial, trivial⟩) (fun _ _ => rfl) es

end Home

end HomeAssistant
