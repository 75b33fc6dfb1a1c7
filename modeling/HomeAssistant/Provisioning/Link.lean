import HomeAssistant.Provisioning.Connection

/-!
# The station and its radio

`event_handler` is all that ever calls `esp_wifi_connect`: when the station has started, and after
one of the first disconnections since an address was got. It does not look at what the call
returns. The events that it is given come from the driver, which is not part of the program. What is
assumed of it (`RadioContract`) is that it reports its start once, and a disconnection or an address
only while it works on a call that it has accepted.

A station that has given up, or whose call was refused, gets no event any more that would make it
call again. So it comes online again at some time only if there was neither a sixth disconnection in
a row nor a refused call (`can_get_online_iff`), and `wifi_init_sta`, which waits for one of the two
bits, waits for ever if a call is refused before one is set (`wait_ends_iff`).
-/

namespace HomeAssistant.Wifi

open History

/-- An event that the handler is given, and whether `esp_wifi_connect` accepts the call if the
handler makes one. -/
structure Report where
  event : Event
  ret : Bool
  deriving DecidableEq

/-- The handler calls `esp_wifi_connect` in answer to the event. -/
def Station.Asks (s : Station) (e : Event) : Prop := (s.eventHandler e).connects ≠ s.connects

instance (s : Station) (e : Event) : Decidable (s.Asks e) := inferInstanceAs (Decidable (_ ≠ _))

namespace Link

/-- The station after the reports. -/
def station (rs : List Report) : Station := .after (rs.map Report.event)

/-- A call of `esp_wifi_connect` is refused. -/
def Refused (rs : List Report) : Prop :=
  ∃ pre r, pre ++ [r] <+: rs ∧ (station pre).Asks r.event ∧ r.ret = false

/-- The driver tries to connect and to get an address, or has one: it has accepted a call, and has
reported no disconnection since. -/
def Working (rs : List Report) : Prop :=
  Stands (fun pre r => (station pre).Asks r.event ∧ r.ret = true) (fun r => r.event = disconnected)
    rs

/-- The station has an address: one was got, and there was no disconnection since. -/
def Online (rs : List Report) : Prop :=
  Stands (fun _ r => r.event = gotIp) (fun r => r.event = disconnected) rs

/-- The driver has reported that it has started. -/
def Started (rs : List Report) : Prop := .wifi .staStart ∈ rs.map Report.event

/-- What the driver can report after what it has reported so far. -/
structure MayReport (rs : List Report) (e : Event) : Prop where
  start : e = .wifi .staStart → ¬ Started rs
  working : e = disconnected ∨ e = gotIp → Working rs

/-- What is assumed of the driver: it reports its start once, and a disconnection or an address only
while it works on a call. -/
def RadioContract (rs : List Report) : Prop :=
  ∀ pre r, pre ++ [r] <+: rs → MayReport pre r.event

end Link

/-! ## What the handler asks for -/

namespace Station

variable {s : Station} {e : Event}

theorem asks_of_connect (h : (s.eventHandler e).connects = s.connects ++ [e]) : s.Asks e := by
  rw [Asks, h]
  simp

theorem asks_staStart : s.Asks (.wifi .staStart) := asks_of_connect rfl

theorem not_asks_of_eq (h : s.eventHandler e = s) : ¬ s.Asks e := fun hasks => hasks (by rw [h])

theorem not_asks_gotIp : ¬ s.Asks gotIp := fun h => h rfl

theorem eventHandler_disconnected_of_lt (hlt : s.retryNum < espMaximumRetry) :
    s.eventHandler disconnected =
      { s.connect disconnected with retryNum := s.retryNum + 1 } := if_pos hlt

theorem eventHandler_disconnected_of_not_lt (hlt : ¬ s.retryNum < espMaximumRetry) :
    s.eventHandler disconnected = { s with failBit := true } := if_neg hlt

/-- A disconnection that is answered is not the last. -/
theorem failBit_of_asks (h : s.Asks disconnected) :
    (s.eventHandler disconnected).failBit = s.failBit := by
  by_cases hlt : s.retryNum < espMaximumRetry
  · rw [eventHandler_disconnected_of_lt hlt]
    rfl
  · exact absurd (by rw [eventHandler_disconnected_of_not_lt hlt]) h

/-- The station gives up at a disconnection that it does not answer. -/
theorem failBit_of_not_asks (h : ¬ s.Asks disconnected) :
    (s.eventHandler disconnected).failBit := by
  by_cases hlt : s.retryNum < espMaximumRetry
  · exact absurd (asks_of_connect (by rw [eventHandler_disconnected_of_lt hlt]; rfl)) h
  · rw [eventHandler_disconnected_of_not_lt hlt]

end Station

namespace Link

variable {rs : List Report} {r : Report}

/-! ## One more report -/

theorem station_concat : station (rs ++ [r]) = (station rs).eventHandler r.event := by
  rw [station, List.map_append, List.map_singleton, Station.after_concat, station]

theorem refused_nil : ¬ Refused [] := by
  rintro ⟨pre, r, hpre, -⟩
  exact absurd (List.prefix_nil.1 hpre) (by simp)

theorem refused_concat :
    Refused (rs ++ [r]) ↔ Refused rs ∨ (station rs).Asks r.event ∧ r.ret = false := by
  constructor
  · rintro ⟨pre, r', hpre, h⟩
    rw [List.prefix_concat_iff, List.append_singleton_inj] at hpre
    rcases hpre with ⟨rfl, rfl⟩ | hpre
    · exact Or.inr h
    · exact Or.inl ⟨pre, r', hpre, h⟩
  · rintro (⟨pre, r', hpre, h⟩ | h)
    · exact ⟨pre, r', hpre.trans (List.prefix_append _ _), h⟩
    · exact ⟨rs, r, List.prefix_rfl, h⟩

theorem started_concat : Started (rs ++ [r]) ↔ Started rs ∨ r.event = .wifi .staStart := by
  simp [Started, eq_comm]

theorem working_concat : Working (rs ++ [r]) ↔
    (station rs).Asks r.event ∧ r.ret = true ∨ Working rs ∧ r.event ≠ disconnected :=
  stands_concat

theorem online_concat :
    Online (rs ++ [r]) ↔ r.event = gotIp ∨ Online rs ∧ r.event ≠ disconnected :=
  stands_concat

theorem contract_nil : RadioContract [] :=
  fun pre r hpre => absurd (List.prefix_nil.1 hpre) (by simp)

theorem contract_concat :
    RadioContract (rs ++ [r]) ↔ RadioContract rs ∧ MayReport rs r.event := by
  constructor
  · intro h
    exact ⟨fun pre r' hpre => h pre r' (hpre.trans (List.prefix_append _ _)),
      h rs r List.prefix_rfl⟩
  · rintro ⟨h, hlast⟩ pre r' hpre
    rw [List.prefix_concat_iff, List.append_singleton_inj] at hpre
    rcases hpre with ⟨rfl, rfl⟩ | hpre
    · exact hlast
    · exact h pre r' hpre

/-- What a report does: it starts the driver, ends what the driver did, brings an address or is none
of these. -/
inductive Change (rs : List Report) : Report → Prop
  | start (ret) (h : ¬ Started rs) : Change rs ⟨.wifi .staStart, ret⟩
  | disconnected (ret) (h : Working rs) : Change rs ⟨disconnected, ret⟩
  | gotIp (ret) (h : Working rs) : Change rs ⟨gotIp, ret⟩
  | other (e ret) (hstart : e ≠ .wifi .staStart) (hd : e ≠ Wifi.disconnected)
    (h : ∀ s : Station, s.eventHandler e = s) : Change rs ⟨e, ret⟩

theorem change_of_mayReport (h : MayReport rs r.event) : Change rs r := by
  obtain ⟨e, ret⟩ := r
  match e with
  | .wifi .staStart => exact .start ret (h.start rfl)
  | .wifi .staDisconnected => exact .disconnected ret (h.working (Or.inl rfl))
  | .ip .staGotIp => exact .gotIp ret (h.working (Or.inr rfl))
  | .wifi (.other _) | .ip (.other _) | .other =>
    exact .other _ ret (by simp) (by simp) fun _ => rfl

theorem mayReport_start (h : ¬ Started rs) : MayReport rs (.wifi .staStart) :=
  ⟨fun _ => h, fun he => by rcases he with he | he <;> cases he⟩

theorem mayReport_disconnected (h : Working rs) : MayReport rs disconnected :=
  ⟨by rintro ⟨⟩, fun _ => h⟩

theorem mayReport_gotIp (h : Working rs) : MayReport rs gotIp := ⟨by rintro ⟨⟩, fun _ => h⟩

/-! ## The invariant -/

/-- The driver waits for a call: it has started, and works on none. -/
def Waits (rs : List Report) : Prop := Started rs ∧ ¬ Working rs

/-- **The invariant** of the link: the driver waits for a call exactly if the station has given up
or was refused. -/
structure Inv (rs : List Report) : Prop where
  started : Working rs → Started rs
  waits : Waits rs ↔ (station rs).failBit ∨ Refused rs

theorem inv_nil : Inv [] where
  started h := absurd h not_stands_nil
  waits := iff_of_false (fun h => List.not_mem_nil h.1)
    (not_or.2 ⟨Bool.false_ne_true, refused_nil⟩)

theorem concat_other {e : Event} (ret : Bool) (hstart : e ≠ .wifi .staStart)
    (hd : e ≠ disconnected) (he : (station rs).eventHandler e = station rs) :
    station (rs ++ [⟨e, ret⟩]) = station rs ∧ (Refused (rs ++ [⟨e, ret⟩]) ↔ Refused rs) ∧
      (Started (rs ++ [⟨e, ret⟩]) ↔ Started rs) ∧ (Working (rs ++ [⟨e, ret⟩]) ↔ Working rs) := by
  have hasks := Station.not_asks_of_eq he
  rw [station_concat, refused_concat, started_concat, working_concat]
  exact ⟨he, or_iff_left fun h => hasks h.1, or_iff_left hstart,
    (or_iff_right fun h => hasks h.1).trans (and_iff_left hd)⟩

theorem Inv.concat (h : Inv rs) (hr : Change rs r) : Inv (rs ++ [r]) := by
  have hnot : ¬ Waits rs → ¬ ((station rs).failBit ∨ Refused rs) := mt h.waits.2
  cases hr with
  | start ret hstart =>
    have hidle : ¬ Working rs := mt h.started hstart
    have hasks : (station rs).Asks (.wifi .staStart) := Station.asks_staStart
    refine ⟨fun _ => started_concat.2 (Or.inr rfl), ?_⟩
    rw [Waits, started_concat, working_concat, refused_concat, station_concat, ← or_assoc]
    show _ ∧ _ ↔ ((station rs).failBit ∨ Refused rs) ∨ _
    rw [or_iff_right (hnot fun hwaits => hstart hwaits.1), and_iff_right (Or.inr rfl),
      or_iff_left fun h => hidle h.1, and_iff_right hasks, and_iff_right hasks, Bool.not_eq_true]
  | disconnected ret hw =>
    have hstarted := h.started hw
    refine ⟨fun _ => started_concat.2 (Or.inl hstarted), ?_⟩
    rw [Waits, started_concat, working_concat, refused_concat, station_concat,
      and_iff_right (Or.inl hstarted), or_iff_left fun h => h.2 rfl]
    by_cases hasks : (station rs).Asks disconnected
    · rw [Station.failBit_of_asks hasks, ← or_assoc, or_iff_right (hnot fun h => h.2 hw),
        and_iff_right hasks, and_iff_right hasks, Bool.not_eq_true]
    · exact iff_of_true (fun h => hasks h.1) (Or.inl (Station.failBit_of_not_asks hasks))
  | gotIp ret hw =>
    have hw' : Working (rs ++ [⟨Wifi.gotIp, ret⟩]) :=
      working_concat.2 (Or.inr ⟨hw, show Wifi.gotIp ≠ Wifi.disconnected by decide⟩)
    refine ⟨fun _ => started_concat.2 (Or.inl (h.started hw)), iff_of_false (fun h => h.2 hw') ?_⟩
    rw [refused_concat, station_concat, ← or_assoc,
      or_iff_left fun h => Station.not_asks_gotIp h.1]
    exact hnot fun h => h.2 hw
  | other e ret hstart hd he =>
    obtain ⟨hstation, hrefused, hstarted, hworking⟩ := concat_other ret hstart hd (he (station rs))
    exact ⟨by rw [hworking, hstarted]; exact h.started,
      by rw [Waits, hstarted, hworking, hstation, hrefused]; exact h.waits⟩

theorem inv_of_contract (h : RadioContract rs) : Inv rs := by
  induction rs using List.reverseRecOn with
  | nil => exact inv_nil
  | append_singleton rs r ih =>
    obtain ⟨hpre, hr⟩ := contract_concat.1 h
    exact (ih hpre).concat (change_of_mayReport hr)

/-! ## Coming online -/

/-- A driver that waits for a call waits for ever, and the station stays as it is. -/
theorem waits_append {rs' : List Report} (hwaits : Waits rs) (h : RadioContract (rs ++ rs')) :
    Waits (rs ++ rs') ∧ station (rs ++ rs') = station rs := by
  induction rs' using List.reverseRecOn with
  | nil => exact ⟨by rwa [List.append_nil], by rw [List.append_nil]⟩
  | append_singleton rs' r ih =>
    rw [← List.append_assoc] at h ⊢
    obtain ⟨hpre, hr⟩ := contract_concat.1 h
    obtain ⟨hwaits', hsame⟩ := ih hpre
    cases change_of_mayReport hr with
    | start ret hstart => exact absurd hwaits'.1 hstart
    | disconnected ret hw => exact absurd hw hwaits'.2
    | gotIp ret hw => exact absurd hw hwaits'.2
    | other e ret hstart hd he =>
      obtain ⟨hstation, -, hstarted, hworking⟩ :=
        concat_other ret hstart hd (he (station (rs ++ rs')))
      exact ⟨by rw [Waits, hstarted, hworking]; exact hwaits', hstation.trans hsame⟩

theorem working_of_online (h : RadioContract rs) (honline : Online rs) : Working rs := by
  induction rs using List.reverseRecOn with
  | nil => exact absurd honline not_stands_nil
  | append_singleton rs r ih =>
    obtain ⟨hpre, hr⟩ := contract_concat.1 h
    rw [working_concat]
    rcases online_concat.1 honline with hip | ⟨honline, hd⟩
    · exact Or.inr ⟨hr.working (Or.inr hip), by rw [hip]; decide⟩
    · exact Or.inr ⟨ih hpre honline, hd⟩

theorem online_of_working (h : RadioContract rs) (hw : Working rs) :
    RadioContract (rs ++ [⟨gotIp, true⟩]) ∧ Online (rs ++ [⟨gotIp, true⟩]) ∧
      (station (rs ++ [⟨gotIp, true⟩])).connectedBit := by
  refine ⟨contract_concat.2 ⟨h, mayReport_gotIp hw⟩, online_concat.2 (Or.inl rfl), ?_⟩
  rw [station_concat]
  rfl

/-- A driver that does not wait for a call can come to bring an address. -/
theorem exists_online (h : RadioContract rs) (hwaits : ¬ Waits rs) :
    ∃ rs', RadioContract (rs ++ rs') ∧ Online (rs ++ rs') ∧
      (station (rs ++ rs')).connectedBit := by
  by_cases hstarted : Started rs
  · have hw : Working rs := by
      by_contra hidle
      exact hwaits ⟨hstarted, hidle⟩
    exact ⟨[⟨gotIp, true⟩], online_of_working h hw⟩
  · have hstart : RadioContract (rs ++ [⟨.wifi .staStart, true⟩]) :=
      contract_concat.2 ⟨h, mayReport_start hstarted⟩
    have hw : Working (rs ++ [⟨.wifi .staStart, true⟩]) :=
      working_concat.2 (Or.inl ⟨Station.asks_staStart, rfl⟩)
    refine ⟨[⟨.wifi .staStart, true⟩, ⟨gotIp, true⟩], ?_⟩
    rw [List.append_cons]
    exact online_of_working hstart hw

/-- **When the station can come online again**: exactly if there was neither a sixth disconnection
in a row nor a refused call. -/
theorem can_get_online_iff (h : RadioContract rs) :
    (∃ rs', RadioContract (rs ++ rs') ∧ Online (rs ++ rs')) ↔
      ¬ HasRow gotIp disconnected espMaximumRetry (rs.map Report.event) ∧ ¬ Refused rs := by
  have hfail := (Station.follows_after (rs.map Report.event)).failBit
  rw [← not_or, ← hfail, ← station, ← (inv_of_contract h).waits]
  constructor
  · rintro ⟨rs', h', honline⟩ hwaits
    exact (waits_append hwaits h').1.2 (working_of_online h' honline)
  · intro hwaits
    obtain ⟨rs', h', honline, -⟩ := exists_online h hwaits
    exact ⟨rs', h', honline⟩

/-- The station is started, and its first attempts fail. -/
def failures (n : ℕ) : List Report :=
  ⟨.wifi .staStart, true⟩ :: List.replicate n ⟨disconnected, true⟩

theorem failures_succ (n : ℕ) : failures (n + 1) = failures n ++ [⟨disconnected, true⟩] := by
  rw [failures, List.replicate_succ', ← List.cons_append, failures]

theorem working_failures {n : ℕ} (hn : n ≤ 5) : Working (failures n) := by
  cases n with
  | zero => exact ⟨[], _, [], rfl, ⟨Station.asks_staStart, rfl⟩, List.forall_mem_nil _⟩
  | succ n =>
    have hasks : ∀ m < 5, (station (failures m)).Asks disconnected := by decide
    rw [failures_succ, working_concat]
    exact Or.inl ⟨hasks n hn, rfl⟩

theorem contract_start (ret : Bool) : RadioContract [⟨.wifi .staStart, ret⟩] :=
  contract_concat.2 ⟨contract_nil, mayReport_start List.not_mem_nil⟩

theorem contract_failures {n : ℕ} (hn : n ≤ 6) : RadioContract (failures n) := by
  induction n with
  | zero => exact contract_start true
  | succ n ih =>
    have hw := working_failures (Nat.le_of_succ_le_succ hn)
    rw [failures_succ]
    exact contract_concat.2 ⟨ih (Nat.le_of_succ_le hn), mayReport_disconnected hw⟩

/-- After six attempts in a row that fail the station does not come online any more. -/
theorem can_get_online_six : RadioContract (failures 6) ∧
    ¬ ∃ rs, RadioContract (failures 6 ++ rs) ∧ Online (failures 6 ++ rs) := by
  have hcontract : RadioContract (failures 6) := contract_failures (Nat.le_refl 6)
  refine ⟨hcontract, fun h => ((can_get_online_iff hcontract).1 h).1 ?_⟩
  exact ⟨List.replicate 6 disconnected, List.infix_cons List.infix_rfl, by decide, by decide⟩

/-! ## The wait of `wifi_init_sta` -/

/-- **When the wait can end**: as long as no bit is set there were five disconnections at most, and
a bit can still be set exactly if no call was refused. -/
theorem wait_ends_iff (h : RadioContract rs) (hwait : ¬ (station rs).Signals) :
    (rs.map Report.event).count disconnected ≤ espMaximumRetry ∧
      ((∃ rs', RadioContract (rs ++ rs') ∧ (station (rs ++ rs')).Signals) ↔ ¬ Refused rs) := by
  have hfail : ¬ (station rs).failBit := fun hfail => hwait (Or.inr hfail)
  have hwaits : Waits rs ↔ Refused rs := (inv_of_contract h).waits.trans (or_iff_right hfail)
  obtain ⟨hip, hrow⟩ := not_signals_after hwait
  refine ⟨?_, ?_⟩
  · by_contra hlt
    exact hrow ⟨_, List.infix_rfl, hip, Nat.lt_of_not_le hlt⟩
  rw [← hwaits]
  constructor
  · rintro ⟨rs', h', hsignals⟩ hw
    rw [(waits_append hw h').2] at hsignals
    exact hwait hsignals
  · intro hw
    obtain ⟨rs', h', -, hbit⟩ := exists_online h hw
    exact ⟨rs', h', Or.inl hbit⟩

/-- If the very first call is refused, `wifi_init_sta` waits for ever. -/
theorem wait_ends_refused : RadioContract [⟨.wifi .staStart, false⟩] ∧
    ¬ ∃ rs, RadioContract (⟨.wifi .staStart, false⟩ :: rs) ∧
      (station (⟨.wifi .staStart, false⟩ :: rs)).Signals := by
  have hcontract := contract_start false
  refine ⟨hcontract, fun h => ((wait_ends_iff hcontract (by decide)).2.1 h) ?_⟩
  exact ⟨[], _, List.prefix_rfl, Station.asks_staStart, rfl⟩

end Link

end HomeAssistant.Wifi
