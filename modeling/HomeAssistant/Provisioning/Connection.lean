import HomeAssistant.Provisioning.Station
import HomeAssistant.Provisioning.WifiEvents

/-!
# The outcome of the connection

`wifi_init_sta` configures the station, starts it and waits for one of the two bits that
`event_handler` sets. It logs which one it was (`outcome_connected_iff`) and returns `ESP_OK` in
either case, so its caller learns of a connection that was made and of none that failed
(`reports_outcome_iff`).
-/

namespace HomeAssistant.Wifi

open History

/-- The calls of the framework in `wifi_init_sta` that are checked. -/
inductive WifiCall
  | registerWifiEvent
  | registerIpEvent
  | setMode
  | setConfig
  | start
  deriving DecidableEq

/-- What `wifi_init_sta` logs at its end. -/
inductive Outcome
  | connected
  | failed
  | unexpected
  deriving DecidableEq

namespace Station

/-- One of the two bits is set. -/
def Signals (s : Station) : Prop := s.connectedBit ∨ s.failBit

instance (s : Station) : Decidable s.Signals := inferInstanceAs (Decidable (_ ∨ _))

/-- `xEventGroupWaitBits`, on the events to come: the station when the wait ends, if it does. -/
def waitBits (s : Station) : List Event → Option Station
  | [] => if s.Signals then some s else none
  | e :: es => if s.Signals then some s else (s.eventHandler e).waitBits es

/-- The branch that is taken on the bits. -/
def outcome (s : Station) : Outcome :=
  if s.connectedBit then .connected else if s.failBit then .failed else .unexpected

end Station

/-- What a call of `wifi_init_sta` that returns has done. -/
structure InitSta where
  config : StaConfig
  outcome : Outcome
  ret : EspErr

/-- `wifi_init_sta`, with the events that are handled before it waits and those that come while it
does. It gives nothing if it still waits after these. -/
def wifiInitSta (stack : (n : ℕ) → Buffer n) (driver : WifiCall → EspErr)
    (before events : List Event) : Eff Device (Option InitSta) := do
  let config ← staConfig stack
  espErrorCheck (driver .registerWifiEvent)
  espErrorCheck (driver .registerIpEvent)
  espErrorCheck (driver .setMode)
  espErrorCheck (driver .setConfig)
  espErrorCheck (driver .start)
  match (Station.after before).waitBits events with
  | none => return none
  | some bits => return some ⟨config, bits.outcome, .ok⟩

/-- The line that `app_main` logs if `wifi_init_sta` returns an error. -/
def staErrorLine (ret : EspErr) : Option Bytes :=
  if ret ≠ .ok then some (ascii "Erro ao Conectar no WIFI") else none

/-- An address is got before the sixth disconnection in a row. -/
def GotIpFirst (es : List Event) : Prop :=
  ∃ pre, pre ++ [gotIp] <+: es ∧ ¬ HasRow gotIp disconnected espMaximumRetry pre

/-- The return code tells whether there is a connection, and `app_main` notices if there is none. -/
structure ReportsOutcome (es : List Event) (ret : EspErr) : Prop where
  code : ret = .ok ↔ GotIpFirst es
  noticed : (staErrorLine ret).isSome ↔ ¬ GotIpFirst es

/-! ## The wait -/

namespace Station

/-- **When the wait ends**: at the first event that sets a bit. -/
theorem waitBits_eq_some {s s' : Station} {es : List Event} (h : s.waitBits es = some s') :
    s'.Signals ∧ (s' = s ∨ ∃ pre e, pre ++ [e] <+: es ∧ s' = (pre ++ [e]).foldl eventHandler s ∧
      ¬ (pre.foldl eventHandler s).Signals) := by
  induction es generalizing s with
  | nil =>
    unfold waitBits at h
    split at h
    next hs =>
      cases h
      exact ⟨hs, Or.inl rfl⟩
    next => cases h
  | cons e es ih =>
    unfold waitBits at h
    split at h
    next hs =>
      cases h
      exact ⟨hs, Or.inl rfl⟩
    next hs =>
      obtain ⟨hs', heq | ⟨pre, e', hpre, heq, hnot⟩⟩ := ih h
      · exact ⟨hs', Or.inr ⟨[], e, List.prefix_append [e] es, heq, hs⟩⟩
      · exact ⟨hs', Or.inr ⟨e :: pre, e', List.cons_prefix_cons.2 ⟨rfl, hpre⟩, heq, hnot⟩⟩

end Station

theorem not_signals_after {es : List Event} (h : ¬ (Station.after es).Signals) :
    gotIp ∉ es ∧ ¬ HasRow gotIp disconnected espMaximumRetry es := by
  have hfollows := Station.follows_after es
  rw [Station.Signals, not_or] at h
  exact ⟨mt hfollows.connectedBit.2 h.1, mt hfollows.failBit.2 h.2⟩

/-- **What is logged is what has happened**: a wait that begins with the events ends with the bit
for an address exactly if an address is got before the station gives up. -/
theorem outcome_connected_iff {es : List Event} {s : Station}
    (h : Station.initial.waitBits es = some s) : s.outcome = .connected ↔ GotIpFirst es := by
  obtain ⟨hs, rfl | ⟨pre, e, hpre, rfl, hnot⟩⟩ := Station.waitBits_eq_some h
  · exact absurd hs (by decide)
  have hbefore := not_signals_after hnot
  have hfollows := Station.follows_after (pre ++ [e])
  have houtcome : (Station.after (pre ++ [e])).outcome = .connected ↔ gotIp ∈ pre ++ [e] := by
    rw [← hfollows.connectedBit, Station.outcome]
    split_ifs <;> simp_all
  refine houtcome.trans ⟨fun hmem => ?_, fun hfirst => ?_⟩
  · have he : e = gotIp := by
      rcases List.mem_append.1 hmem with hmem | hmem
      · exact absurd hmem hbefore.1
      · exact (List.mem_singleton.1 hmem).symm
    exact ⟨pre, he ▸ hpre, hbefore.2⟩
  · by_contra hmem
    -- then the wait has ended by a row of disconnections, with no address before
    have hrow := hfollows.failBit.1 (hs.resolve_left (mt hfollows.connectedBit.1 hmem))
    obtain ⟨pre', hpre', hrow'⟩ := hfirst
    rcases List.prefix_or_prefix_of_prefix hpre hpre' with hle | hle
    · rcases List.prefix_concat_iff.1 hle with heq | hle
      · exact hmem (heq ▸ List.mem_append_right _ List.mem_cons_self)
      · exact hrow' (hrow.mono hle)
    · exact hmem (hle.subset (List.mem_append_right _ List.mem_cons_self))

/-! ## What is returned -/

variable {stack : (n : ℕ) → Buffer n} {driver : WifiCall → EspErr} {before events : List Event}
  {d d' : Device} {r : InitSta}

/-- **A call of `wifi_init_sta`** with credentials that fit and a driver that works. -/
theorem exec_wifiInitSta {c : Credentials} (h : d.nvs.Holds c) (hc : c.Fits)
    (hdriver : ∀ w, driver w = .ok) : (wifiInitSta stack driver before events).exec d =
      (.ok (((Station.after before).waitBits events).map fun bits =>
        ⟨⟨Buffer.padded 32 (cstr c.ssid), Buffer.padded 64 (cstr c.password)⟩, bits.outcome, .ok⟩),
        d) := by
  simp only [wifiInitSta, Eff.exec_bind, exec_staConfig h hc, hdriver, espErrorCheck,
    Eff.exec_pure]
  cases (Station.after before).waitBits events <;> rfl

theorem wifiInitSta_ret (h : (wifiInitSta stack driver before events).exec d = (.ok (some r), d')) :
    r.ret = .ok := by
  simp only [wifiInitSta, Eff.exec_bind_eq_ok] at h
  obtain ⟨config, _, -, _, _, -, _, _, -, _, _, -, _, _, -, _, _, -, h⟩ := h
  split at h
  next => cases h
  next => cases h; rfl

/-- **When the outcome is reported**: exactly if it is a success. -/
theorem reports_outcome_iff
    (h : (wifiInitSta stack driver before events).exec d = (.ok (some r), d')) :
    ReportsOutcome (before ++ events) r.ret ↔ GotIpFirst (before ++ events) := by
  have hret := wifiInitSta_ret h
  rw [hret]
  constructor
  · intro hreports
    exact hreports.code.1 rfl
  · intro hfirst
    exact ⟨iff_of_true rfl hfirst, iff_of_false (by decide) (not_not_intro hfirst)⟩

/-- The credentials of a network. -/
def homeCredentials : Credentials := ⟨ascii "casa", ascii "segredo99", ascii "192.168.0.10"⟩

/-- A device that holds the credentials of a network. -/
def homeDevice : Device := ⟨Nvs.putCredentials ⟨false, fun _ => none⟩ homeCredentials, 0, []⟩

theorem exec_wifiInitSta_home (events : List Event) :
    (wifiInitSta Buffer.zeros (fun _ => .ok) [] events).exec homeDevice =
      (.ok ((Station.initial.waitBits events).map fun bits =>
        ⟨⟨Buffer.padded 32 (cstr homeCredentials.ssid),
          Buffer.padded 64 (cstr homeCredentials.password)⟩, bits.outcome, .ok⟩), homeDevice) :=
  exec_wifiInitSta (Nvs.holds_putCredentials _ _) ⟨by decide, by decide, by decide⟩ fun _ => rfl

/-- A station that gets an address. -/
theorem reports_outcome_connected : ReportsOutcome [.wifi .staStart, gotIp] .ok := by
  have hrun := exec_wifiInitSta_home [.wifi .staStart, gotIp]
  refine (reports_outcome_iff hrun).2 ⟨[.wifi .staStart], List.prefix_rfl, ?_⟩
  rw [← (Station.follows_after _).failBit]
  decide

/-- A station that gives up after six disconnections, and says that all is well. -/
theorem failure_reported_as_success :
    (∃ r, (wifiInitSta Buffer.zeros (fun _ => .ok) [] (List.replicate 6 disconnected)).exec
      homeDevice = (.ok (some r), homeDevice) ∧ r.outcome = .failed ∧ r.ret = .ok) ∧
      ¬ GotIpFirst (List.replicate 6 disconnected) ∧
      ¬ ReportsOutcome (List.replicate 6 disconnected) .ok := by
  have hnot : ¬ GotIpFirst (List.replicate 6 disconnected) := by
    rintro ⟨pre, hpre, -⟩
    have hmem := hpre.subset (List.mem_append_right pre List.mem_cons_self)
    exact absurd hmem (by decide)
  exact ⟨⟨_, exec_wifiInitSta_home _, rfl, rfl⟩, hnot, fun h => hnot (h.code.1 rfl)⟩

end HomeAssistant.Wifi
