import HomeAssistant.Sensor.Dht11

/-!
# The pulse timer

`_dht11_wait_input_level` counts in 16 bits how long a level lasts, and returns `MAX_TIMEOUT`, which
is a value of the same type, if it lasts too long. The loop is modelled here with its counter and
its reads of the pin. For timeouts up to `0xFFFD` it always returns, its counter does not wrap
around, and a count is never taken for `MAX_TIMEOUT` (`pulse_timer_exact`); so it is the function
that the frame reader is built on (`waitInputLevel_eq_loop`).
-/

namespace HomeAssistant.Sensor

/-- The loop of `_dht11_wait_input_level` between two rounds: its counter, how often it has read the
pin, and the samples from the current one on. -/
structure Poll where
  watingTime : UInt16
  reads : ℕ
  line : Line

namespace Poll

/-- The loop at its start. -/
def start (line : Line) : Poll := ⟨0, 0, line⟩

/-- `gpio_get_level` reads the current sample. -/
def read (p : Poll) : Poll := { p with reads := p.reads + 1 }

/-- The counter goes up, and `ets_delay_us(1)` goes on to the next sample. -/
def delay (p : Poll) : Poll := { p with watingTime := p.watingTime + 1, line := p.line.tail }

/-- The loop, for at most so many reads: what the function returns, and where the loop is then. -/
def loop (timeout : UInt16) (level : Bool) : ℕ → Poll → Option (UInt16 × Poll)
  | 0, _ => none
  | fuel + 1, p =>
    let p := p.read
    if p.line.head = level then
      if p.watingTime > timeout then some (UInt16.ofNat maxTimeout, p)
      else loop timeout level fuel p.delay
    else some (p.watingTime, p)

/-- The loop after `w` rounds that have found the level. -/
def after (line : Line) (w : ℕ) : Poll := ⟨UInt16.ofNat w, w, line.drop w⟩

end Poll

/-- The level lasts for exactly the first `n` samples of the line. -/
def Lasts (level : Bool) (line : Line) (n : ℕ) : Prop :=
  (∀ i < n, line.get i = level) ∧ line.get n ≠ level

namespace Poll

variable {timeout : UInt16} {level : Bool} {line : Line} {w n fuel : ℕ}

theorem toNat_watingTime_after (hw : w < 0x10000) :
    (after line w).watingTime.toNat = w :=
  UInt16.toNat_ofNat_of_lt' hw

theorem head_after (line : Line) (w : ℕ) : (after line w).line.head = line.get w := by
  show line.get (0 + w) = line.get w
  rw [Nat.zero_add]

theorem delay_read_after (line : Line) (w : ℕ) :
    (after line w).read.delay = after line (w + 1) := by
  have hcounter : UInt16.ofNat w + 1 = UInt16.ofNat (w + 1) := (UInt16.ofNat_add w 1).symm
  have hline : (line.drop w).tail = line.drop (w + 1) := Stream'.tail_drop'
  show Poll.mk (UInt16.ofNat w + 1) (w + 1) (line.drop w).tail = _
  rw [hcounter, hline]
  rfl

/-- **A round of the loop**, which has not counted as far as its counter goes. -/
theorem loop_after (hw : w < 0x10000) (fuel : ℕ) :
    loop timeout level (fuel + 1) (after line w) =
      if line.get w = level then
        if timeout.toNat < w then some (UInt16.ofNat maxTimeout, (after line w).read)
        else loop timeout level fuel (after line (w + 1))
      else some (UInt16.ofNat w, (after line w).read) := by
  rw [loop, delay_read_after]
  show (if (after line w).line.head = level then
      if timeout < (after line w).watingTime then _ else _ else _) = _
  simp only [head_after, UInt16.lt_iff_toNat_lt, toNat_watingTime_after hw]
  rfl

theorem loop_rounds (ht : timeout.toNat ≤ 0xFFFD) (hn : n ≤ timeout.toNat + 1)
    (hlevel : ∀ i < n, line.get i = level) (fuel : ℕ) :
    loop timeout level (fuel + n) (start line) = loop timeout level fuel (after line n) := by
  induction n generalizing fuel with
  | zero => rfl
  | succ n ih =>
    have hround := @loop_after timeout level line n (by omega) fuel
    rw [if_pos (hlevel n (Nat.lt_succ_self n)), if_neg (by omega)] at hround
    rw [← hround, ← ih (by omega) fun i hi => hlevel i (Nat.lt_succ_of_lt hi)]
    congr 1
    omega

/-- **A level that does not last too long** is counted. -/
theorem loop_of_lasts (ht : timeout.toNat ≤ 0xFFFD) (hn : n ≤ timeout.toNat + 1)
    (h : Lasts level line n) (hfuel : n < fuel) :
    loop timeout level fuel (start line) = some (UInt16.ofNat n, (after line n).read) := by
  obtain ⟨k, rfl⟩ := Nat.exists_eq_add_of_lt hfuel
  rw [show n + k + 1 = k + 1 + n by omega, loop_rounds ht hn h.1, loop_after (by omega),
    if_neg h.2]

/-- **A level that lasts too long** is not. -/
theorem loop_of_timeout (ht : timeout.toNat ≤ 0xFFFD)
    (h : ∀ i < timeout.toNat + 2, line.get i = level) (hfuel : timeout.toNat + 2 ≤ fuel) :
    loop timeout level fuel (start line) =
      some (UInt16.ofNat maxTimeout, (after line (timeout.toNat + 1)).read) := by
  obtain ⟨k, rfl⟩ := Nat.exists_eq_add_of_le hfuel
  rw [show timeout.toNat + 2 + k = k + 1 + (timeout.toNat + 1) by omega,
    loop_rounds ht (Nat.le_refl _) fun i hi => h i (by omega), loop_after (by omega),
    if_pos (h _ (by omega)), if_pos (Nat.lt_succ_self _)]

end Poll

open Poll

variable {timeout : UInt16} {level : Bool} {line : Line} {m n : ℕ}

theorem exists_lasts_or (level : Bool) (line : Line) (m : ℕ) :
    (∃ n < m, Lasts level line n) ∨ ∀ i < m, line.get i = level := by
  induction m with
  | zero => exact Or.inr fun i hi => absurd hi (Nat.not_lt_zero i)
  | succ m ih =>
    rcases ih with ⟨n, hn, h⟩ | h
    · exact Or.inl ⟨n, Nat.lt_succ_of_lt hn, h⟩
    · by_cases hm : line.get m = level
      · refine Or.inr fun i hi => ?_
        rcases Nat.lt_succ_iff_lt_or_eq.1 hi with hi | rfl
        · exact h i hi
        · exact hm
      · exact Or.inl ⟨m, Nat.lt_succ_self m, h, hm⟩

theorem Lasts.unique (h : Lasts level line n) (h' : Lasts level line m) : n = m := by
  rcases Nat.lt_trichotomy n m with hlt | heq | hlt
  · exact absurd (h'.1 n hlt) h.2
  · exact heq
  · exact absurd (h.1 m hlt) h'.2

/-- The function has returned `ret` as it should, with its loop where `p` says: it has not read the
pin too often, its counter has counted each delay, a level that lasts for up to `timeout + 1`
samples is counted, up to the first sample behind it, and one that lasts longer is reported by
`MAX_TIMEOUT`, which is no count. -/
structure TimesExactly (timeout : UInt16) (level : Bool) (line : Line) (ret : UInt16) (p : Poll) :
    Prop where
  reads : p.reads ≤ timeout.toNat + 2
  noWrap : p.watingTime.toNat + 1 = p.reads
  counted : ∀ n ≤ timeout.toNat + 1, Lasts level line n →
    ret.toNat = n ∧ ret ≠ UInt16.ofNat maxTimeout ∧ p.line = line.drop n
  timedOut : (∀ n ≤ timeout.toNat + 1, ¬ Lasts level line n) → ret = UInt16.ofNat maxTimeout

theorem timesExactly_of_lasts (ht : timeout.toNat ≤ 0xFFFD) (hn : n ≤ timeout.toNat + 1)
    (h : Lasts level line n) :
    TimesExactly timeout level line (UInt16.ofNat n) (after line n).read := by
  have hcount : (UInt16.ofNat n).toNat = n :=
    UInt16.toNat_ofNat_of_lt' (show n < 2 ^ 16 by omega)
  refine ⟨Nat.succ_le_succ hn, congrArg Nat.succ hcount, fun m _ h' => ?_, fun hnone => ?_⟩
  · obtain rfl := h.unique h'
    refine ⟨hcount, fun hmax => ?_, rfl⟩
    rw [hmax] at hcount
    have hval : (UInt16.ofNat maxTimeout).toNat = 0xFFFF := rfl
    omega
  · exact absurd h (hnone n hn)

theorem timesExactly_of_timeout (ht : timeout.toNat ≤ 0xFFFD)
    (h : ∀ i < timeout.toNat + 2, line.get i = level) :
    TimesExactly timeout level line (UInt16.ofNat maxTimeout)
      (after line (timeout.toNat + 1)).read := by
  have hcount : (UInt16.ofNat (timeout.toNat + 1)).toNat = timeout.toNat + 1 :=
    UInt16.toNat_ofNat_of_lt' (show timeout.toNat + 1 < 2 ^ 16 by omega)
  refine ⟨Nat.le_refl _, congrArg Nat.succ hcount, fun n hn h' => ?_, fun _ => rfl⟩
  exact absurd (h n (by omega)) h'.2

/-- **The pulse timer is exact and always returns**, on every line, if the timeout leaves room for
the counter. -/
theorem pulse_timer_exact (ht : timeout.toNat ≤ 0xFFFD) (level : Bool) (line : Line) :
    ∃ ret p, (∀ fuel, timeout.toNat + 2 ≤ fuel →
        loop timeout level fuel (start line) = some (ret, p)) ∧
      TimesExactly timeout level line ret p := by
  rcases exists_lasts_or level line (timeout.toNat + 2) with ⟨n, hn, h⟩ | h
  · have hle : n ≤ timeout.toNat + 1 := Nat.le_of_lt_succ hn
    refine ⟨_, _, fun fuel hfuel => ?_, timesExactly_of_lasts ht hle h⟩
    exact loop_of_lasts ht hle h (Nat.lt_of_lt_of_le hn hfuel)
  · refine ⟨_, _, fun fuel hfuel => ?_, timesExactly_of_timeout ht h⟩
    exact loop_of_timeout ht h hfuel

/-- The timer on a pulse of three samples, with the timeout of the start signal. -/
theorem pulse_timer_exact_pulse :
    ∃ ret p, (∀ fuel, 82 ≤ fuel →
        loop 80 high fuel (start (List.replicate 3 high ++ₛ Stream'.const low)) = some (ret, p)) ∧
      TimesExactly 80 high (List.replicate 3 high ++ₛ Stream'.const low) ret p :=
  @pulse_timer_exact 80 (by decide) high _

/-! ## The function of the frame reader -/

theorem waitLoop_rounds {t : ℕ} (hn : n ≤ t + 1) (hlevel : ∀ i < n, line.get i = level) :
    waitLoop t level 0 line = waitLoop t level n (line.drop n) := by
  induction n with
  | zero => rfl
  | succ n ih =>
    have hhead : (line.drop n).head = level := by
      rw [← hlevel n (Nat.lt_succ_self n)]
      exact head_after line n
    rw [ih (by omega) fun i hi => hlevel i (Nat.lt_succ_of_lt hi)]
    conv_lhs => unfold waitLoop
    rw [if_pos hhead, if_neg (by omega), Stream'.tail_drop']

/-- The loop that the frame reader is built on, at the round that returns. -/
theorem waitInputLevel_of_lasts {t : ℕ} (hn : n ≤ t + 1) (h : Lasts level line n) :
    waitInputLevel t level line = (n, line.drop n) := by
  have hhead : (line.drop n).head ≠ level := fun heq => h.2 ((head_after line n).symm.trans heq)
  rw [waitInputLevel, waitLoop_rounds hn h.1]
  unfold waitLoop
  exact if_neg hhead

theorem waitInputLevel_of_timeout {t : ℕ} (h : ∀ i < t + 2, line.get i = level) :
    waitInputLevel t level line = (maxTimeout, line.drop (t + 1)) := by
  have hhead : (line.drop (t + 1)).head = level :=
    (head_after line (t + 1)).trans (h _ (Nat.lt_succ_self _))
  rw [waitInputLevel, waitLoop_rounds (Nat.le_refl _) fun i hi => h i (by omega)]
  unfold waitLoop
  rw [if_pos hhead, if_pos (Nat.lt_succ_self t)]

/-- **The frame reader's function is the loop** with its 16-bit counter. -/
theorem waitInputLevel_eq_loop {fuel : ℕ} (ht : timeout.toNat ≤ 0xFFFD)
    (hfuel : timeout.toNat + 2 ≤ fuel) (level : Bool) (line : Line) :
    (loop timeout level fuel (start line)).map (fun r => (r.1.toNat, r.2.line)) =
      some (waitInputLevel timeout.toNat level line) := by
  rcases exists_lasts_or level line (timeout.toNat + 2) with ⟨n, hn, h⟩ | h
  · rw [loop_of_lasts ht (by omega) h (by omega), waitInputLevel_of_lasts (by omega) h]
    show some ((UInt16.ofNat n).toNat, line.drop n) = _
    rw [UInt16.toNat_ofNat_of_lt' (show n < 2 ^ 16 by omega)]
  · rw [loop_of_timeout ht h hfuel, waitInputLevel_of_timeout h]
    rfl

end HomeAssistant.Sensor
