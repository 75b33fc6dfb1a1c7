import HomeAssistant.Audio.StreamTasks

/-!
# One recording session

An attempt of `i2s_example_tcp_stream_task` to record begins when the task has found `semaforo` at 2
and ends when the task is back at its check, or deleted. An attempt that has got a connection ends
with the flag reset, the LEDs off and its socket closed, whatever happens while it records; one
that has not leaves the flag at 2 (`restores_idle_iff`).
-/

namespace HomeAssistant.Audio

open Machine

/-- One step of an attempt, with no other task running. -/
def attemptStep (s : Board × TcpTask) (e : TaskEvent) : Option (Board × TcpTask) :=
  if s.2.Ended then none else s.2.step s.1 e

/-- The flag is 1, the green LEDs are off, and the sockets open are those in `sockets`. -/
structure Idle (sockets : List ℕ) (b : Board) : Prop where
  semaforo : b.semaforo = 1
  leds : ∀ p ∈ greenLeds, b.level p.num = low
  sockets : b.sockets = sockets

/-- The attempt gets a socket and a connection. -/
def Connected (es : List TaskEvent) : Prop :=
  ∃ fd rest, es = .socket (some fd) :: .connect true :: rest

/-- Some green LEDs are off, and the levels in `ws` will turn off the others. -/
structure TurnsOff (ws : List (Pin × Bool)) (b : Board) : Prop where
  low : ∀ w ∈ ws, w.2 = low
  leds : ∀ p ∈ greenLeds, (∃ v, (p, v) ∈ ws) ∨ b.level p.num = HomeAssistant.low

/-- The invariant of an attempt that has got a connection: its socket is open up to the point where
it is closed, and behind that point the LEDs go off. -/
def Recording (sockets : List ℕ) (s : Board × TcpTask) : Prop :=
  match s.2 with
  | .switchOn sock _ | .session sock _ | .close sock => s.1.sockets = sock :: sockets
  | .switchOff ws => s.1.sockets = sockets ∧ TurnsOff ws s.1
  | .check => Idle sockets s.1
  | _ => False

variable {sockets : List ℕ} {s s' : Board × TcpTask} {e : TaskEvent}

theorem turnsOff_greenLeds (b : Board) : TurnsOff (greenLeds.map (·, low)) b where
  low w hw := by
    obtain ⟨p, -, rfl⟩ := List.mem_map.1 hw
    rfl
  leds p hp := Or.inl ⟨low, List.mem_map.2 ⟨p, hp, rfl⟩⟩

theorem TurnsOff.setLevel {p : Pin} {v : Bool} {ws : List (Pin × Bool)} {b : Board}
    (h : TurnsOff ((p, v) :: ws) b) : TurnsOff ws (b.setLevel p v) where
  low w hw := h.low w (List.mem_cons_of_mem _ hw)
  leds q hq := by
    rw [b.level_setLevel]
    by_cases hqp : q = p
    · rw [if_pos hqp]
      exact Or.inr (h.low (p, v) List.mem_cons_self)
    · rw [if_neg hqp]
      refine (h.leds q hq).imp_left fun ⟨u, hu⟩ => ⟨u, ?_⟩
      rcases List.mem_cons.1 hu with heq | hu
      · cases heq
        exact absurd rfl hqp
      · exact hu

theorem attemptStep_eq_some {b b' : Board} {t t' : TcpTask} :
    attemptStep (b, t) e = some (b', t') ↔ ¬ t.Ended ∧ TcpStep b t e b' t' := by
  rw [attemptStep, ← TcpTask.step_iff]
  split
  next h => simp [h]
  next h => simp [h]

theorem recording_inLoop {b : Board} {sock : ℕ} (h : b.sockets = sock :: sockets) (l : ChunkLoop) :
    Recording sockets (b, .inLoop sock l) := by
  rcases TcpTask.inLoop_cases sock l with hl | hl <;> rw [hl] <;> exact h

/-- **Every step of a connected attempt keeps its invariant.** -/
theorem Recording.step (h : Recording sockets s) (hs : attemptStep s e = some s') :
    Recording sockets s' := by
  obtain ⟨b, t⟩ := s
  obtain ⟨b', t'⟩ := s'
  obtain ⟨hend, hstep⟩ := attemptStep_eq_some.1 hs
  cases hstep with
  | begins | waits => exact absurd (Or.inl rfl) hend
  | socketFails | socket | connectFails | connect => exact absurd h id
  | switchOn sock p v ws => exact h
  | starts sock => exact recording_inLoop h _
  | chunk sock hl => exact recording_inLoop h _
  | close sock =>
    have hopen : b.sockets = sock :: sockets := h
    refine ⟨?_, turnsOff_greenLeds _⟩
    show b.sockets.erase sock = sockets
    rw [hopen, List.erase_cons_head]
  | switchOff p v ws => exact ⟨h.1, h.2.setLevel⟩
  | reset =>
    refine ⟨rfl, fun p hp => ?_, h.1⟩
    refine (h.2.leds p hp).resolve_left ?_
    rintro ⟨v, hv⟩
    cases hv

theorem Recording.idle {b : Board} {t : TcpTask} (h : Recording sockets (b, t)) (hend : t.Ended) :
    Idle sockets b := by
  rcases hend with rfl | rfl
  · exact h
  · exact absurd h id

theorem run_of_ended {b b' : Board} {t t' : TcpTask} {es : List TaskEvent} (hend : t.Ended)
    (hrun : run attemptStep (b, t) es = some (b', t')) : es = [] ∧ b' = b := by
  cases es with
  | nil =>
    cases hrun
    exact ⟨rfl, rfl⟩
  | cons e es =>
    obtain ⟨⟨b₁, t₁⟩, hs, -⟩ := (run_cons_eq_some _).1 hrun
    exact absurd hend (attemptStep_eq_some.1 hs).1

theorem not_idle_of_flag {b : Board} (h2 : b.semaforo = 2) : ¬ Idle sockets b := fun h =>
  absurd (h2.symm.trans h.semaforo) (by decide)

/-- **When an attempt restores the idle state**: exactly if it has got a socket and a connection. -/
theorem restores_idle_iff {b₀ b : Board} {t : TcpTask} {es : List TaskEvent}
    (h2 : b₀.semaforo = 2) (hrun : run attemptStep (b₀, .openSocket) es = some (b, t))
    (hend : t.Ended) : Idle b₀.sockets b ↔ Connected es := by
  cases es with
  | nil =>
    cases hrun
    exact absurd hend (by decide)
  | cons e es =>
    obtain ⟨⟨b₁, t₁⟩, hs, hrun⟩ := (run_cons_eq_some _).1 hrun
    obtain ⟨-, hstep⟩ := attemptStep_eq_some.1 hs
    cases hstep with
    | socketFails =>
      obtain ⟨rfl, rfl⟩ := run_of_ended (Or.inr rfl) hrun
      exact iff_of_false (not_idle_of_flag h2) (fun ⟨fd, rest, h⟩ => by cases h)
    | @socket fd hfd =>
      cases es with
      | nil =>
        cases hrun
        rcases hend with h | h <;> cases h
      | cons e' es =>
        obtain ⟨⟨b₂, t₂⟩, hs', hrun⟩ := (run_cons_eq_some _).1 hrun
        obtain ⟨-, hstep'⟩ := attemptStep_eq_some.1 hs'
        cases hstep' with
        | connectFails =>
          obtain ⟨rfl, rfl⟩ := run_of_ended (Or.inr rfl) hrun
          exact iff_of_false (not_idle_of_flag h2) (fun ⟨fd', rest, h⟩ => by cases h)
        | connect =>
          have hstart : Recording b₀.sockets
              (b₀.openSocket fd, .switchOn fd (greenLeds.map (·, high))) := rfl
          have hlast := (throughout_of_invariant (fun _ _ _ h hs => Recording.step h hs) hstart
            es).last hrun
          exact iff_of_true (hlast.idle hend) ⟨fd, es, rfl⟩

/-- A board with the flag set for a session. -/
def requested : Board := { Board.initial with semaforo := 2 }

/-- An attempt whose first read fails restores the idle state. -/
theorem restores_idle_read_error :
    ∃ b, run attemptStep (requested, .openSocket)
      [.socket (some 3), .connect true, .tick, .tick, .tick, .tick, .chunk (.read none), .tick,
        .tick, .tick, .tick, .tick] = some (b, .check) ∧ Idle requested.sockets b := by
  obtain ⟨b, hrun⟩ : ∃ b, run attemptStep (requested, .openSocket)
      [.socket (some 3), .connect true, .tick, .tick, .tick, .tick, .chunk (.read none), .tick,
        .tick, .tick, .tick, .tick] = some (b, .check) := ⟨_, rfl⟩
  exact ⟨b, hrun, (restores_idle_iff rfl hrun (Or.inl rfl)).2 ⟨3, _, rfl⟩⟩

/-- An attempt that gets no socket ends with the flag still at 2. -/
theorem no_socket_leaves_flag :
    run attemptStep (requested, .openSocket) [.socket none] = some (requested, .deleted) ∧
      requested.semaforo = 2 ∧ ¬ Idle requested.sockets requested :=
  ⟨rfl, rfl, fun h => absurd h.semaforo (by decide)⟩

end HomeAssistant.Audio
