import HomeAssistant.Home.System

/-!
# The microphone

Both streaming tasks read from one microphone. A burst of the UDP task cannot begin during a session
of the TCP task, which holds the flag at 2; but the TCP task does not wait for a burst to end. So
the two record at the same time exactly in the runs in which a session enters its loop during a
burst
(`exclusive_microphone_iff`).
-/

namespace HomeAssistant

open Audio Machine

/-- The UDP task is in its chunk loop. -/
def Audio.UdpTask.Reads (t : UdpTask) : Prop := ∃ sock l, t = .burst sock l

/-- The TCP task is in its chunk loop. -/
def Audio.TcpTask.Reads (t : TcpTask) : Prop := ∃ sock l, t = .session sock l

namespace Home

/-- Both tasks read from the microphone. -/
def Overlap (h : Home) : Prop := h.udp.Reads ∧ h.tcp.Reads

/-- The step does not take the TCP task into its chunk loop during a burst of the UDP task. -/
def EntersAlone (h : Home) (e : HomeEvent) : Prop :=
  ∀ sock, h.tcp = .switchOn sock [] → e = .tcp .tick → ¬ h.udp.Reads

variable {h h' : Home} {e : HomeEvent}

theorem not_overlap_of_udpStep {b b' : Board} {t t' : UdpTask} {e : TaskEvent} {tcp : TcpTask}
    (hflag : ¬ tcp.Ended → b.semaforo = 2) (hno : ¬ (t.Reads ∧ tcp.Reads))
    (hs : UdpStep b t e b' t') : ¬ (t'.Reads ∧ tcp.Reads) := by
  rintro ⟨hudp, htcp⟩
  cases hs with
  | firstFails | first | secondFails | second | waits =>
    obtain ⟨_, _, h⟩ := hudp
    cases h
  | begins sock h1 =>
    obtain ⟨_, _, rfl⟩ := htcp
    have h2 := hflag (by rintro (h | h) <;> cases h)
    rw [h1] at h2
    exact absurd h2 (by decide)
  | chunk sock hl => exact hno ⟨⟨_, _, rfl⟩, htcp⟩

/-- The TCP task enters its loop at one place. -/
theorem not_overlap_of_tcpStep {b b' : Board} {t t' : TcpTask} {e : TaskEvent} {udp : UdpTask}
    (hno : ¬ (udp.Reads ∧ t.Reads)) (hs : TcpStep b t e b' t') :
    ¬ (udp.Reads ∧ t'.Reads) ↔ ∀ sock, t = .switchOn sock [] → e = .tick → ¬ udp.Reads := by
  cases hs with
  | begins | waits | socketFails | socket | connectFails | connect | switchOn | close | switchOff
    | reset =>
    refine iff_of_true ?_ (fun _ h => by cases h)
    rintro ⟨-, _, _, h⟩
    cases h
  | starts sock =>
    have hreads : (TcpTask.inLoop sock (.start sessionBytes)).Reads := ⟨_, _, rfl⟩
    refine ⟨fun h _ _ _ hudp => h ⟨hudp, hreads⟩, fun h hboth => ?_⟩
    exact h sock rfl rfl hboth.1
  | chunk sock hl =>
    refine iff_of_true (fun hboth => hno ⟨hboth.1, _, _, rfl⟩) (fun _ h => by cases h)

/-- A step from a state without overlap leads to one exactly if it enters the loop alone. -/
theorem not_overlap_step_iff (hflag : h.FlagHeld) (hno : ¬ h.Overlap)
    (hstep : h.step e = some h') : ¬ h'.Overlap ↔ h.EntersAlone e := by
  cases step_iff.1 hstep with
  | udp hs =>
    refine iff_of_true (not_overlap_of_udpStep hflag hno hs) ?_
    rintro _ _ ⟨⟩
  | tcp hs =>
    refine (not_overlap_of_tcpStep hno hs).trans ?_
    simp only [EntersAlone, HomeEvent.tcp.injEq]
  | server hs =>
    refine iff_of_true hno ?_
    rintro _ _ ⟨⟩
  | mqtt hs =>
    refine iff_of_true hno ?_
    rintro _ _ ⟨⟩

/-- **When the microphone is used by one task at a time**: in exactly the runs in which no session
enters its chunk loop during a burst. -/
theorem exclusive_microphone_iff (b : Board) (es : List HomeEvent) :
    Throughout step (fun h => ¬ h.Overlap) (start b) es ↔ Meets step EntersAlone (start b) es := by
  refine throughout_iff_meets (fun _ _ _ hflag hs => FlagHeld.step hflag hs)
    (fun _ _ _ hflag hno hs => not_overlap_step_iff hflag hno hs) (flagHeld_start b) ?_ es
  rintro ⟨⟨_, _, h⟩, -⟩
  cases h

/-- A run in which a client asks for a recording during a burst. -/
def overlappingRun : List HomeEvent :=
  [.udp (.socket (some 3)), .udp (.socket (some 4)), .server (.socket (some 5)),
    .server (.bind true), .server (.listen true), .server (.accept (some (6, .zeros bufferSize))),
    .udp .tick, .server (.recv (some (ascii "eden"))), .server .tick, .tcp .tick,
    .tcp (.socket (some 7)), .tcp (.connect true), .tcp .tick, .tcp .tick, .tcp .tick, .tcp .tick]

/-- A session that is asked for during a burst overlaps it. -/
theorem session_overlaps_burst :
    (∃ h, run step (start .initial) overlappingRun = some h ∧ h.Overlap) ∧
      ¬ Throughout step (fun h => ¬ h.Overlap) (start .initial) overlappingRun := by
  obtain ⟨h, hrun, hoverlap⟩ :
      ∃ h, run step (start .initial) overlappingRun = some h ∧ h.Overlap :=
    ⟨_, rfl, ⟨_, _, rfl⟩, ⟨_, _, rfl⟩⟩
  exact ⟨⟨h, hrun, hoverlap⟩, fun hall => hall.last hrun hoverlap⟩

end Home

end HomeAssistant
