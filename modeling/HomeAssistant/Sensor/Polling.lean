import HomeAssistant.Foundations.Bounded
import HomeAssistant.Sensor.PulseTimer

/-!
# The driver of the sensor

`dth11_read_statistics` with the loops that it waits in, which count in 16 bits and read the pin
once a microsecond. On every line, however long the sensor keeps a level, it returns after at most
5124 reads of the pin, and what it returns and logs is what the model with counts of any size says
(`poll_returns`).
-/

namespace HomeAssistant.Sensor

open BitPacking Bounded

/-- The data line as the driver meets it: how often it has been read, and the samples from the
current one on. -/
structure Polled where
  reads : ℕ
  line : Line

/-- A function of the driver. It does not return if a loop runs out of rounds. -/
abbrev Driver (α : Type) : Type := StateT Polled Option α

/-- `MAX_TIMEOUT`, as a value of the type that the waits return. -/
def maxTimeout16 : UInt16 := UInt16.ofNat maxTimeout

/-- `_dht11_wait_input_level`, in a loop of at most `fuel` reads. -/
def pollInputLevel (fuel : ℕ) (timeout : UInt16) (level : Bool) : Driver UInt16 := fun s =>
  (Poll.loop timeout level fuel (Poll.start s.line)).map fun r =>
    (r.1, ⟨s.reads + r.2.reads, r.2.line⟩)

/-- `_dht11_receive_start_signal`. -/
def pollStartSignal (fuel : ℕ) : Driver EspErr := do
  let time ← pollInputLevel fuel 80 low
  if time = maxTimeout16 then return .errTimeout
  let time ← pollInputLevel fuel 80 high
  if time = maxTimeout16 then return .errTimeout
  return .ok

/-- A round of the bit loop, which ends the function if a wait runs out of time. -/
def pollBit (fuel : ℕ) (data : Data) (i : Fin dht11ReadDataBits) : Driver (Option Data) := do
  let time ← pollInputLevel fuel 50 low
  if time = maxTimeout16 then return none
  let timeout ← pollInputLevel fuel 70 high
  if timeout = maxTimeout16 then return none
  return some (if timeout > 28 then setBit data i else data)

/-- The bit loop. -/
def pollBits (fuel : ℕ) (data : Data) : List (Fin dht11ReadDataBits) → Driver (Option Data)
  | [] => return some data
  | i :: is => do
    match ← pollBit fuel data i with
    | none => return none
    | some data => pollBits fuel data is

/-- `dth11_read_statistics`, on the samples after the start request. -/
def pollStatistics (fuel : ℕ) : Driver (EspErr × List Log) := do
  let err ← pollStartSignal fuel
  if err = .errTimeout then return (.fail, [.startSignalError])
  match ← pollBits fuel (fun _ => 0) (List.finRange dht11ReadDataBits) with
  | none => return (.errTimeout, [])
  | some data =>
    return (.ok,
      if checksum data = (data (.last 4)).toUInt16 then [.reading (readingOf data)] else [])

variable {fuel : ℕ} {timeout : UInt16} {level : Bool} {s : Polled} {data : Data}

/-- **A wait of the driver** counts what the wait with numbers counts, and reads the pin twice more
often than its timeout says at most. -/
theorem exists_pollInputLevel (ht : timeout.toNat + 2 ≤ fuel) (hlt : timeout.toNat ≤ 0xFFFD)
    (level : Bool) (s : Polled) :
    ∃ ret : UInt16, ret.toNat = (waitInputLevel timeout.toNat level s.line).1 ∧
      Returns Polled.reads (pollInputLevel fuel timeout level) s (timeout.toNat + 2) ret
        fun s' => s'.line = (waitInputLevel timeout.toNat level s.line).2 := by
  rcases exists_lasts_or level s.line (timeout.toNat + 2) with ⟨n, hn, h⟩ | h
  · rw [waitInputLevel_of_lasts (Nat.le_of_lt_succ hn) h]
    refine ⟨UInt16.ofNat n, UInt16.toNat_ofNat_of_lt' (show n < 2 ^ 16 by omega),
      ⟨s.reads + (n + 1), s.line.drop n⟩, ?_, ?_, rfl⟩
    · show (Poll.loop timeout level fuel (Poll.start s.line)).map _ = _
      rw [Poll.loop_of_lasts hlt (Nat.le_of_lt_succ hn) h (by omega)]
      rfl
    · show s.reads + (n + 1) ≤ _
      omega
  · rw [waitInputLevel_of_timeout h]
    refine ⟨UInt16.ofNat maxTimeout, rfl,
      ⟨s.reads + (timeout.toNat + 1 + 1), s.line.drop (timeout.toNat + 1)⟩, ?_, Nat.le_refl _, rfl⟩
    show (Poll.loop timeout level fuel (Poll.start s.line)).map _ = _
    rw [Poll.loop_of_timeout hlt h ht]
    rfl

theorem eq_maxTimeout16_iff {ret : UInt16} {n : ℕ} (h : ret.toNat = n) :
    ret = maxTimeout16 ↔ n = maxTimeout := by
  rw [← UInt16.toNat_inj, h]
  rfl

/-! ## Two waits -/

/-- Waits for the end of a low and of a high pulse: what comes of them, and the line behind them. -/
def twoWaits {α : Type} (t t' : ℕ) (stop : α) (go : ℕ → α) (line : Line) : α × Line :=
  let (n, line) := waitInputLevel t low line
  if n = maxTimeout then (stop, line)
  else
    let (m, line) := waitInputLevel t' high line
    if m = maxTimeout then (stop, line) else (go m, line)

theorem receiveStartSignal_eq (line : Line) :
    receiveStartSignal line = twoWaits dht11Timeout dht11Timeout .errTimeout (fun _ => .ok) line :=
  rfl

theorem readBit_eq (data : Data) (line : Line) (i : Fin dht11ReadDataBits) :
    readBit data line i =
      match twoWaits dht11FirstBitDataTimeout dht11DataBit1 none
        (fun m => some (if m > dht11DataBit0 then setBit data i else data)) line with
      | (some data, line) => some (data, line)
      | (none, _) => none := by
  rcases hlow : waitInputLevel dht11FirstBitDataTimeout low line with ⟨n, mid⟩
  rcases hhigh : waitInputLevel dht11DataBit1 high mid with ⟨m, rest⟩
  simp only [readBit, twoWaits, hlow, hhigh]
  by_cases hn : n = maxTimeout
  · rw [if_pos hn, if_pos hn]
  rw [if_neg hn, if_neg hn]
  by_cases hm : m = maxTimeout
  · rw [if_pos hm, if_pos hm]
  · rw [if_neg hm, if_neg hm]

/-- **Two waits of the driver** come to what the two waits with counts of any size come to. -/
theorem twoWaits_returns {α : Type} (timeout timeout' : UInt16) (stop : α) (go : UInt16 → α)
    (go' : ℕ → α) {t t' : ℕ} (ht : timeout.toNat = t) (ht' : timeout'.toNat = t')
    (hfuel : t + 2 ≤ fuel) (hfuel' : t' + 2 ≤ fuel) (hlt : t ≤ 0xFFFD) (hlt' : t' ≤ 0xFFFD)
    (hgo : ∀ ret, go ret = go' ret.toNat) (s : Polled) :
    Returns Polled.reads (do
      let time ← pollInputLevel fuel timeout low
      if time = maxTimeout16 then return stop
      let time ← pollInputLevel fuel timeout' high
      if time = maxTimeout16 then return stop
      return go time) s (t + 2 + (t' + 2)) (twoWaits t t' stop go' s.line).1
      fun s' => s'.line = (twoWaits t t' stop go' s.line).2 := by
  subst ht ht'
  obtain ⟨n, hn, hlow⟩ := exists_pollInputLevel hfuel hlt low s
  rcases hwait : waitInputLevel timeout.toNat low s.line with ⟨k, mid⟩
  rw [hwait] at hn hlow
  simp only [twoWaits, hwait]
  refine hlow.bind fun s₁ hs₁ => ?_
  by_cases hmax : k = maxTimeout
  · rw [if_pos ((eq_maxTimeout16_iff hn).2 hmax), if_pos hmax]
    refine Returns.mono (returns_pure ?_) (Nat.zero_le _)
    exact hs₁
  rw [if_neg (mt (eq_maxTimeout16_iff hn).1 hmax), if_neg hmax]
  obtain ⟨m, hm, hhigh⟩ := exists_pollInputLevel hfuel' hlt' high s₁
  rcases hwait' : waitInputLevel timeout'.toNat high mid with ⟨k', rest⟩
  rw [show s₁.line = mid from hs₁, hwait'] at hm hhigh
  refine hhigh.bind (m := 0) fun s₂ hs₂ => ?_
  by_cases hmax' : k' = maxTimeout
  · rw [if_pos ((eq_maxTimeout16_iff hm).2 hmax'), if_pos hmax']
    refine returns_pure ?_
    exact hs₂
  · rw [if_neg (mt (eq_maxTimeout16_iff hm).1 hmax'), if_neg hmax', hgo m, hm]
    refine returns_pure ?_
    exact hs₂

/-! ## The driver -/

/-- The response of the sensor is received by the driver. -/
theorem pollStartSignal_returns (hfuel : 82 ≤ fuel) (s : Polled) :
    Returns Polled.reads (pollStartSignal fuel) s 164 (receiveStartSignal s.line).1
      fun s' => s'.line = (receiveStartSignal s.line).2 := by
  rw [receiveStartSignal_eq]
  exact twoWaits_returns 80 80 EspErr.errTimeout (fun _ => EspErr.ok) (fun _ => EspErr.ok) rfl rfl
    hfuel hfuel (by decide) (by decide) (fun _ => rfl) s

/-- **A round of the bit loop** of the driver. -/
theorem pollBit_returns (hfuel : 82 ≤ fuel) (data : Data) (i : Fin dht11ReadDataBits) (s : Polled) :
    Returns Polled.reads (pollBit fuel data i) s 124 ((readBit data s.line i).map Prod.fst)
      fun s' => ∀ r, readBit data s.line i = some r → s'.line = r.2 := by
  have hlong (ret : UInt16) : ret > 28 ↔ ret.toNat > dht11DataBit0 := UInt16.lt_iff_toNat_lt
  have hlow : dht11FirstBitDataTimeout + 2 ≤ fuel := Nat.le_trans (by decide) hfuel
  have hhigh : dht11DataBit1 + 2 ≤ fuel := Nat.le_trans (by decide) hfuel
  have hwaits := twoWaits_returns 50 70 none
    (fun ret => some (if ret > 28 then setBit data i else data))
    (fun m => some (if m > dht11DataBit0 then setBit data i else data))
    (show (50 : UInt16).toNat = dht11FirstBitDataTimeout from rfl)
    (show (70 : UInt16).toNat = dht11DataBit1 from rfl) hlow hhigh (by decide) (by decide)
    (fun ret => by simp only [hlong ret]) s
  rw [readBit_eq]
  rcases hresult : twoWaits dht11FirstBitDataTimeout dht11DataBit1 none
    (fun m => some (if m > dht11DataBit0 then setBit data i else data)) s.line with ⟨r, line⟩
  rw [hresult] at hwaits
  obtain ⟨s', hrun, hcost, hline⟩ := hwaits
  cases r with
  | none => exact ⟨s', hrun, hcost, nofun⟩
  | some data' =>
    refine ⟨s', hrun, hcost, ?_⟩
    rintro _ ⟨⟩
    exact hline

/-- **The bit loop** of the driver. -/
theorem pollBits_returns (hfuel : 82 ≤ fuel) (data : Data) (is : List (Fin dht11ReadDataBits))
    (s : Polled) :
    Returns Polled.reads (pollBits fuel data is) s (124 * is.length)
      ((is.foldlM (fun s i => readBit s.1 s.2 i) (data, s.line)).map Prod.fst) fun _ => True := by
  induction is generalizing data s with
  | nil => exact returns_pure trivial
  | cons i is ih =>
    rw [pollBits, List.length_cons, Nat.mul_succ, Nat.add_comm, List.foldlM_cons]
    refine (pollBit_returns hfuel data i s).bind fun s₁ hs₁ => ?_
    cases hround : readBit data s.line i with
    | none => exact (returns_pure trivial).mono (Nat.zero_le _)
    | some r =>
      have hrest := ih r.1 s₁
      rw [hs₁ r hround] at hrest
      exact hrest

theorem dth11ReadStatistics_eq (line : Line) : dth11ReadStatistics line =
    if (receiveStartSignal line).1 = .errTimeout then (.fail, [.startSignalError])
    else
      match (readBits (receiveStartSignal line).2).map Prod.fst with
      | none => (.errTimeout, [])
      | some data =>
        (.ok, if checksum data = (data (.last 4)).toUInt16 then [.reading (readingOf data)]
          else []) := by
  rw [dth11ReadStatistics, receiveData]
  dsimp only
  split_ifs
  · rfl
  · cases readBits (receiveStartSignal line).2 <;> rfl

/-- **The driver returns**, on every line, after at most 5124 reads of the pin, what the model with
counts of any size says. -/
theorem poll_returns (hfuel : 82 ≤ fuel) (line : Line) :
    ∃ s, (pollStatistics fuel).run ⟨0, line⟩ = some (dth11ReadStatistics line, s) ∧
      s.reads ≤ 5124 := by
  have hall : Returns Polled.reads (pollStatistics fuel) ⟨0, line⟩ (164 + 4960)
      (dth11ReadStatistics line) fun _ => True := by
    rw [dth11ReadStatistics_eq]
    refine (pollStartSignal_returns hfuel ⟨0, line⟩).bind fun s₁ hs₁ => ?_
    have hline : s₁.line = (receiveStartSignal line).2 := hs₁
    dsimp only
    split_ifs
    · exact (returns_pure trivial).mono (Nat.zero_le _)
    refine (pollBits_returns hfuel _ _ s₁).bind (m := 0) fun s₂ _ => ?_
    rw [← readBits, hline]
    cases readBits (receiveStartSignal line).2 <;> exact returns_pure trivial
  obtain ⟨s, hrun, hcost, -⟩ := hall
  exact ⟨s, hrun, hcost.trans (Nat.le_of_eq (Nat.zero_add _))⟩

/-- The driver on a line that stays high. -/
theorem poll_returns_high : ∃ s, (pollStatistics 82).run ⟨0, Stream'.const high⟩ =
    some (dth11ReadStatistics (Stream'.const high), s) ∧ s.reads ≤ 5124 :=
  poll_returns (Nat.le_refl 82) _

end HomeAssistant.Sensor
