import HomeAssistant.Foundations.History
import Mathlib.Data.Int.Notation

/-!
# The events of the station

`event_handler` of the station retries a lost connection a number of times and sets a bit of the
event group when it has got an address or has given up. Its state is a function of the history of
events (`event_handler_follows`): the counter counts the disconnections since the last address, up
to the maximum, and the two bits say whether an address was ever got and whether the maximum was
ever passed.
-/

namespace HomeAssistant.Wifi

open History

/-- The numbers of the events with the base `WIFI_EVENT`. -/
inductive WifiEventId
  | staStart
  | staDisconnected
  | other (id : ℤ)
  deriving DecidableEq

/-- The numbers of the events with the base `IP_EVENT`. -/
inductive IpEventId
  | staGotIp
  | other (id : ℤ)
  deriving DecidableEq

/-- An event, by its base and its number in it. -/
inductive Event
  | wifi (id : WifiEventId)
  | ip (id : IpEventId)
  | other
  deriving DecidableEq

/-- The station has lost its connection, or has not got one. -/
abbrev disconnected : Event := .wifi .staDisconnected

/-- The station has got an address. -/
abbrev gotIp : Event := .ip .staGotIp

/-- `ESP_MAXIMUM_RETRY`. -/
def espMaximumRetry : ℕ := 5

/-- What `event_handler` works on: `s_retry_num`, the two bits of `s_wifi_event_group`, and the
calls of `esp_wifi_connect`, each with the event it answers. -/
structure Station where
  retryNum : ℕ
  connectedBit : Bool
  failBit : Bool
  connects : List Event
  deriving DecidableEq

namespace Station

/-- The station before any event. -/
def initial : Station := ⟨0, false, false, []⟩

/-- `esp_wifi_connect`, in answer to an event. -/
def connect (s : Station) (e : Event) : Station := { s with connects := s.connects ++ [e] }

/-- `event_handler`. -/
def eventHandler (s : Station) (e : Event) : Station :=
  match e with
  | .wifi .staStart => s.connect e
  | .wifi .staDisconnected =>
    if s.retryNum < espMaximumRetry then { s.connect e with retryNum := s.retryNum + 1 }
    else { s with failBit := true }
  | .ip .staGotIp => { s with retryNum := 0, connectedBit := true }
  | _ => s

/-- The station after a history of events. -/
def after (es : List Event) : Station := es.foldl eventHandler .initial

theorem after_concat (es : List Event) (e : Event) :
    after (es ++ [e]) = (after es).eventHandler e := by
  rw [after, List.foldl_append]
  rfl

/-- The counter and the bits of two stations are the same. -/
structure SameFlags (s s' : Station) : Prop where
  retryNum : s'.retryNum = s.retryNum
  connectedBit : s'.connectedBit = s.connectedBit
  failBit : s'.failBit = s.failBit

/-- **Any other event** leaves the counter and the bits alone, and no disconnection is answered. -/
theorem eventHandler_of_ne (s : Station) {e : Event} (hd : e ≠ disconnected) (hip : e ≠ gotIp) :
    SameFlags s (s.eventHandler e) ∧
      (s.eventHandler e).connects.count disconnected = s.connects.count disconnected := by
  have hconnect : (s.connect e).connects.count disconnected =
      s.connects.count disconnected := by
    rw [connect, List.count_append, List.count_singleton, if_neg (by simpa using hd)]
    rfl
  unfold eventHandler
  split
  next => exact ⟨⟨rfl, rfl, rfl⟩, hconnect⟩
  next => exact absurd rfl hd
  next => exact absurd rfl hip
  next => exact ⟨⟨rfl, rfl, rfl⟩, rfl⟩

/-! ## The state as a function of the history -/

/-- What the state of the station says about the history of events. -/
structure Follows (es : List Event) (s : Station) : Prop where
  retryNum : s.retryNum = min ((since gotIp es).count disconnected) espMaximumRetry
  connects : s.connects.count disconnected =
    (after (upTo gotIp es)).connects.count disconnected + s.retryNum
  failBit : s.failBit ↔ HasRow gotIp disconnected espMaximumRetry es
  connectedBit : s.connectedBit ↔ gotIp ∈ es

theorem follows_initial : Follows [] .initial where
  retryNum := rfl
  connects := rfl
  failBit := iff_of_false Bool.false_ne_true hasRow_nil
  connectedBit := iff_of_false Bool.false_ne_true List.not_mem_nil

variable {es : List Event} {s : Station}

/-- An address starts the count anew. -/
theorem Follows.gotIp (h : Follows es (after es)) :
    Follows (es ++ [gotIp]) (after (es ++ [gotIp])) where
  retryNum := by
    rw [since_concat_self, after_concat]
    rfl
  connects := by
    rw [upTo_concat_self, after_concat]
    rfl
  failBit := by
    rw [hasRow_concat, since_concat_self, after_concat, ← h.failBit, List.count_nil,
      or_iff_left (Nat.not_lt_zero _)]
    rfl
  connectedBit := by
    rw [after_concat]
    exact iff_of_true rfl (List.mem_append_right es List.mem_cons_self)

/-- A disconnection is answered and counted, or is one too many. -/
theorem Follows.disconnected (h : Follows es (after es)) :
    Follows (es ++ [disconnected]) (after (es ++ [disconnected])) := by
  have hne : Wifi.disconnected ≠ Wifi.gotIp := by decide
  have hcount : (since Wifi.gotIp (es ++ [Wifi.disconnected])).count Wifi.disconnected =
      (since Wifi.gotIp es).count Wifi.disconnected + 1 := by
    rw [since_concat_of_ne hne, List.count_append, List.count_singleton_self]
  have hmem : Wifi.gotIp ∈ es ++ [Wifi.disconnected] ↔ Wifi.gotIp ∈ es := by simp
  have hretry := h.retryNum
  by_cases hlt : (after es).retryNum < espMaximumRetry
  · have hafter : after (es ++ [Wifi.disconnected]) =
        { (after es).connect Wifi.disconnected with retryNum := (after es).retryNum + 1 } := by
      rw [after_concat]
      exact if_pos hlt
    refine ⟨?_, ?_, ?_, ?_⟩
    · rw [hafter, hcount]
      show (after es).retryNum + 1 = _
      omega
    · rw [upTo_concat_of_ne hne, hafter]
      show ((after es).connects ++ [Wifi.disconnected]).count Wifi.disconnected = _
      rw [List.count_append, List.count_singleton_self, h.connects]
      rfl
    · rw [hasRow_concat, hcount, or_iff_left (by omega), ← h.failBit, hafter]
      rfl
    · rw [hmem, ← h.connectedBit, hafter]
      rfl
  · have hafter : after (es ++ [Wifi.disconnected]) = { after es with failBit := true } := by
      rw [after_concat]
      exact if_neg hlt
    refine ⟨?_, ?_, ?_, ?_⟩
    · rw [hafter, hcount]
      show (after es).retryNum = _
      omega
    · rw [upTo_concat_of_ne hne, hafter]
      exact h.connects
    · rw [hasRow_concat, hcount, hafter]
      exact iff_of_true rfl (Or.inr (by omega))
    · rw [hmem, ← h.connectedBit, hafter]

/-- Any other event changes nothing that the history tells. -/
theorem Follows.other (h : Follows es (after es)) {e : Event} (hd : e ≠ Wifi.disconnected)
    (hip : e ≠ Wifi.gotIp) : Follows (es ++ [e]) (after (es ++ [e])) := by
  obtain ⟨hsame, hconnects⟩ := (after es).eventHandler_of_ne hd hip
  rw [← after_concat] at hsame hconnects
  have hcount : (since Wifi.gotIp (es ++ [e])).count Wifi.disconnected =
      (since Wifi.gotIp es).count Wifi.disconnected := by
    rw [since_concat_of_ne hip, List.count_append, List.count_singleton,
      if_neg (by simpa using hd)]
    rfl
  have hretry := h.retryNum
  refine ⟨?_, ?_, ?_, ?_⟩
  · rw [hsame.retryNum, hcount, hretry]
  · rw [hconnects, upTo_concat_of_ne hip, hsame.retryNum]
    exact h.connects
  · rw [hsame.failBit, hasRow_concat, hcount]
    exact h.failBit.trans ⟨Or.inl, fun hfail => hfail.elim id hasRow_of_since⟩
  · rw [hsame.connectedBit, h.connectedBit, List.mem_append, List.mem_singleton,
      or_iff_left (Ne.symm hip)]

theorem follows_after (es : List Event) : Follows es (after es) := by
  induction es using List.reverseRecOn with
  | nil => exact follows_initial
  | append_singleton es e ih =>
    by_cases hd : e = Wifi.disconnected
    · rw [hd]
      exact ih.disconnected
    · by_cases hip : e = Wifi.gotIp
      · rw [hip]
        exact ih.gotIp
      · exact ih.other hd hip

/-- **The retry state machine**: the state of the station is what its history says, and events
other than a disconnection and an address leave the counter and the bits alone. -/
theorem event_handler_follows (es : List Event) :
    Follows es (after es) ∧ ∀ e, e ≠ Wifi.disconnected → e ≠ Wifi.gotIp →
      SameFlags (after es) ((after es).eventHandler e) :=
  ⟨follows_after es, fun _ hd hip => ((after es).eventHandler_of_ne hd hip).1⟩

end Station

end HomeAssistant.Wifi
