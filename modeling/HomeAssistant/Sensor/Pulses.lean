import HomeAssistant.Sensor.Checksum
import HomeAssistant.Sensor.PulseTimer

/-!
# What the reader of the sensor takes for a frame

`dth11_read_statistics` gets to the end of its bit loop on the lines that begin with a low and a
high pulse and then have a low and a high pulse for each bit, none of them longer than its timeout
allows; nothing is asked of how short they are. The bytes are those whose bits are 1 where the high
pulse is longer than 28 samples (`receiveData_eq_ok_iff`). It reports the reading of a frame whose
bytes sum up without a carry, and so a frame that was changed in one byte is not reported as well
(`two_bytes_of_reported`).
-/

namespace HomeAssistant.Sensor

open BitPacking Waveform

variable {level : Bool} {line line' rest : Line} {t n : ℕ} {b d d' : Data}
  {i : Fin dht11ReadDataBits} {is : List (Fin dht11ReadDataBits)}

/-! ## One wait -/

theorem replicate_append_drop (h : ∀ i < n, line.get i = level) :
    List.replicate n level ++ₛ line.drop n = line := by
  have htake : line.take n = List.replicate n level := by
    induction n with
    | zero => rfl
    | succ n ih =>
      rw [Stream'.take_succ', ih fun i hi => h i (Nat.lt_succ_of_lt hi), h n (Nat.lt_succ_self n),
        ← List.replicate_succ']
  rw [← htake, Stream'.append_take_drop]

/-- **When a wait returns a count**: exactly if the level lasts so long, and not too long. -/
theorem waitInputLevel_eq_iff (hn : n ≠ maxTimeout) :
    waitInputLevel t level line = (n, line') ↔
      n ≤ t + 1 ∧ line = List.replicate n level ++ₛ line' ∧ line'.head ≠ level := by
  constructor
  · intro h
    rcases exists_lasts_or level line (t + 2) with ⟨m, hm, hlasts⟩ | hall
    · rw [waitInputLevel_of_lasts (Nat.le_of_lt_succ hm) hlasts] at h
      cases h
      refine ⟨Nat.le_of_lt_succ hm, (replicate_append_drop hlasts.1).symm, ?_⟩
      rw [Stream'.head_drop]
      exact hlasts.2
    · rw [waitInputLevel_of_timeout hall] at h
      cases h
      exact absurd rfl hn
  · rintro ⟨hle, rfl, hhead⟩
    exact waitInputLevel_pulse hle hhead

/-- A pulse in front of another level that begins with its own is there. -/
theorem one_le_of_head (hhead : (List.replicate n level ++ₛ line).head = level)
    (hline : line.head ≠ level) : 1 ≤ n := by
  cases n with
  | zero => exact absurd hhead hline
  | succ n => exact Nat.succ_le_succ (Nat.zero_le n)

/-- **Two waits in a row**, for the end of a low pulse and for that of the high pulse behind it. -/
theorem two_waits_iff {t' m : ℕ} (hn : n ≠ maxTimeout) (hm : m ≠ maxTimeout) :
    (∃ mid, waitInputLevel t low line = (n, mid) ∧ waitInputLevel t' high mid = (m, line')) ↔
      n ≤ t + 1 ∧ (1 ≤ m ∧ m ≤ t' + 1) ∧ line'.head = low ∧
        line = List.replicate n low ++ₛ (List.replicate m high ++ₛ line') := by
  simp only [waitInputLevel_eq_iff hn, waitInputLevel_eq_iff hm]
  constructor
  · rintro ⟨_, ⟨hle, rfl, hmid⟩, hle', rfl, hhead⟩
    have hhigh := Bool.eq_true_of_not_eq_false hmid
    exact ⟨hle, ⟨one_le_of_head hhigh hhead, hle'⟩, Bool.eq_false_of_not_eq_true hhead, rfl⟩
  · rintro ⟨hle, ⟨hpos, hle'⟩, hhead, rfl⟩
    refine ⟨_, ⟨hle, rfl, ?_⟩, hle', rfl, ?_⟩
    · rw [head_replicate_append hpos]
      decide
    · rw [hhead]
      decide

/-! ## The bit loop -/

/-- The pulses of the bits `is` of the packet `b`, in front of the line `rest`. -/
inductive Carries (b : Data) : List (Fin dht11ReadDataBits) → Line → Line → Prop
  | nil {rest : Line} : Carries b [] rest rest
  | cons {i : Fin dht11ReadDataBits} {is : List (Fin dht11ReadDataBits)} {line rest : Line}
    {bitLow bitHigh : ℕ} (hlow : 1 ≤ bitLow ∧ bitLow ≤ 51)
    (hhigh : 1 ≤ bitHigh ∧ bitHigh ≤ 71) (hbit : bit b i = decide (28 < bitHigh))
    (h : Carries b is line rest) :
    Carries b (i :: is)
      (List.replicate bitLow low ++ₛ (List.replicate bitHigh high ++ₛ line)) rest

/-- **When a round of the bit loop goes on**: exactly if a low and a high pulse come that are not
too long. -/
theorem readBit_eq_some_iff : readBit d line i = some (d', rest) ↔
    ∃ bitLow bitHigh, bitLow ≤ 51 ∧ (1 ≤ bitHigh ∧ bitHigh ≤ 71) ∧ rest.head = low ∧
      line = List.replicate bitLow low ++ₛ (List.replicate bitHigh high ++ₛ rest) ∧
        d' = if 28 < bitHigh then setBit d i else d := by
  have hmax : maxTimeout = 65535 := rfl
  constructor
  · intro h
    rcases hlow : waitInputLevel dht11FirstBitDataTimeout low line with ⟨n, mid⟩
    rcases hhigh : waitInputLevel dht11DataBit1 high mid with ⟨m, line'⟩
    simp only [readBit, hlow, hhigh] at h
    split at h
    · cases h
    · split at h
      · cases h
      · cases h
        obtain ⟨hn, hm, hhead, hline⟩ := (two_waits_iff ‹_› ‹_›).1 ⟨mid, hlow, hhigh⟩
        exact ⟨n, m, hn, hm, hhead, hline, rfl⟩
  · rintro ⟨n, m, hn, hm, hhead, hline, rfl⟩
    obtain ⟨mid, hlow, hhigh⟩ : ∃ mid,
        waitInputLevel dht11FirstBitDataTimeout low line = (n, mid) ∧
          waitInputLevel dht11DataBit1 high mid = (m, rest) :=
      (two_waits_iff (by omega) (by omega)).2 ⟨hn, hm, hhead, hline⟩
    simp only [readBit, hlow, hhigh]
    rw [if_neg (by omega), if_neg (by omega)]
    rfl

theorem bit_readBit (h : readBit d line i = some (d', rest)) {j : Fin dht11ReadDataBits}
    (hj : j ≠ i) : bit d' j = bit d j := by
  obtain ⟨_, _, -, -, -, -, rfl⟩ := readBit_eq_some_iff.1 h
  split
  · rw [bit_setBit, decide_eq_false hj.symm, Bool.or_false]
  · rfl

theorem bit_foldlM_readBit
    (h : is.foldlM (fun s i => readBit s.1 s.2 i) (d, line) = some (d', rest))
    {j : Fin dht11ReadDataBits} (hj : j ∉ is) : bit d' j = bit d j := by
  induction is generalizing d line with
  | nil =>
    cases h
    rfl
  | cons i is ih =>
    rw [List.foldlM_cons] at h
    obtain ⟨⟨d₁, line₁⟩, hround, hrest⟩ := Option.bind_eq_some_iff.1 h
    rw [ih hrest (fun hmem => hj (List.mem_cons_of_mem _ hmem)),
      bit_readBit hround (fun heq => hj (heq ▸ List.mem_cons_self))]

/-- **What the bit loop has taken off the line** are the pulses of the bytes that it returns. -/
theorem carries_of_foldlM (hnodup : is.Nodup) (hclear : ∀ j ∈ is, bit d j = false)
    (hline : line.head = low)
    (h : is.foldlM (fun s i => readBit s.1 s.2 i) (d, line) = some (d', rest)) :
    Carries d' is line rest ∧ rest.head = low := by
  induction is generalizing d line with
  | nil =>
    cases h
    exact ⟨.nil, hline⟩
  | cons i is ih =>
    obtain ⟨hi, hnodup⟩ := List.nodup_cons.1 hnodup
    rw [List.foldlM_cons] at h
    obtain ⟨⟨d₁, line₁⟩, hround, hrest⟩ := Option.bind_eq_some_iff.1 h
    have hclear₁ : ∀ j ∈ is, bit d₁ j = false := fun j hj => by
      rw [bit_readBit hround fun heq => hi (heq ▸ hj), hclear j (List.mem_cons_of_mem _ hj)]
    obtain ⟨n, m, hn, hm, hhead, rfl, hd₁⟩ := readBit_eq_some_iff.1 hround
    obtain ⟨hcarries, hend⟩ := ih hnodup hclear₁ hhead hrest
    have hpos : 1 ≤ n := one_le_of_head hline (by rw [head_replicate_append hm.1]; decide)
    refine ⟨.cons ⟨hpos, hn⟩ hm ?_ hcarries, hend⟩
    rw [bit_foldlM_readBit hrest hi, hd₁]
    split
    next hlong => rw [bit_setBit, decide_eq_true rfl, Bool.or_true, decide_eq_true hlong]
    next hshort => rw [hclear i List.mem_cons_self, decide_eq_false hshort]

/-- The line in front of the pulses of some bits begins low. -/
theorem Carries.head (h : Carries b is line rest) (hrest : rest.head = low) : line.head = low := by
  cases h with
  | nil => exact hrest
  | cons hlow => exact head_replicate_append hlow.1 low _

/-- **The pulses of some bits** are taken off the line. -/
theorem Carries.foldlM (h : Carries b is line rest) (hrest : rest.head = low) (d : Data) :
    is.foldlM (fun s i => readBit s.1 s.2 i) (d, line) =
      some (is.foldl (fun d i => if bit b i then setBit d i else d) d, rest) := by
  induction h generalizing d with
  | nil => rfl
  | @cons i is line rest bitLow bitHigh hlow hhigh hbit h ih =>
    have hround : readBit d
        (List.replicate bitLow low ++ₛ (List.replicate bitHigh high ++ₛ line)) i =
          some (if bit b i then setBit d i else d, line) := by
      refine readBit_eq_some_iff.2 ⟨bitLow, bitHigh, hlow.2, hhigh, h.head hrest, rfl, ?_⟩
      simp only [hbit, decide_eq_true_eq]
    rw [List.foldlM_cons, List.foldl_cons]
    show (readBit d _ i).bind _ = _
    rw [hround, Option.bind_some]
    exact ih hrest _

theorem readBits_eq_some_iff (hline : line.head = low) : readBits line = some (b, rest) ↔
    Carries b (List.finRange dht11ReadDataBits) line rest ∧ rest.head = low := by
  constructor
  · exact carries_of_foldlM (List.nodup_finRange _) (fun j _ => @bit_zero 5 j) hline
  · rintro ⟨hcarries, hrest⟩
    rw [readBits, hcarries.foldlM hrest, foldl_setBit]

/-! ## The frame -/

/-- The line begins with a response of the sensor and the pulses of the packet `b`, behind which it
is low. -/
def FrameOn (b : Data) (line : Line) : Prop :=
  ∃ responseLow responseHigh bits rest, responseLow ≤ 81 ∧
    (1 ≤ responseHigh ∧ responseHigh ≤ 81) ∧
    line = List.replicate responseLow low ++ₛ (List.replicate responseHigh high ++ₛ bits) ∧
    Carries b (List.finRange dht11ReadDataBits) bits rest ∧ rest.head = low

/-- **When the response of the sensor is received**: exactly if a low and a high pulse come that are
not too long. -/
theorem receiveStartSignal_eq_ok_iff : receiveStartSignal line = (.ok, rest) ↔
    ∃ responseLow responseHigh, responseLow ≤ 81 ∧ (1 ≤ responseHigh ∧ responseHigh ≤ 81) ∧
      rest.head = low ∧
        line = List.replicate responseLow low ++ₛ (List.replicate responseHigh high ++ₛ rest) := by
  have hmax : maxTimeout = 65535 := rfl
  constructor
  · intro h
    rcases hlow : waitInputLevel dht11Timeout low line with ⟨n, mid⟩
    rcases hhigh : waitInputLevel dht11Timeout high mid with ⟨m, line'⟩
    simp only [receiveStartSignal, hlow, hhigh] at h
    split at h
    · cases h
    · split at h
      · cases h
      · cases h
        exact ⟨n, m, (two_waits_iff ‹_› ‹_›).1 ⟨mid, hlow, hhigh⟩⟩
  · rintro ⟨n, m, hn, hm, hhead, hline⟩
    obtain ⟨mid, hlow, hhigh⟩ : ∃ mid, waitInputLevel dht11Timeout low line = (n, mid) ∧
        waitInputLevel dht11Timeout high mid = (m, rest) :=
      (two_waits_iff (by omega) (by omega)).2 ⟨hn, hm, hhead, hline⟩
    simp only [receiveStartSignal, hlow, hhigh]
    rw [if_neg (by omega), if_neg (by omega)]

theorem receiveStartSignal_cases (line : Line) :
    (receiveStartSignal line).1 = .errTimeout ∨ (receiveStartSignal line).1 = .ok := by
  unfold receiveStartSignal
  dsimp only
  split
  · exact Or.inl rfl
  · split
    · exact Or.inl rfl
    · exact Or.inr rfl

/-- **What the reader takes for a frame**, on every line. -/
theorem receiveData_eq_ok_iff : receiveData line = .ok b ↔ FrameOn b line := by
  rcases hstart : receiveStartSignal line with ⟨err, bits⟩
  constructor
  · intro h
    simp only [receiveData, hstart] at h
    split at h
    · cases h
    next hok =>
      have hok : err = .ok := by
        have hcases := receiveStartSignal_cases line
        rw [hstart] at hcases
        exact hcases.resolve_left hok
      subst hok
      obtain ⟨n, m, hn, hm, hhead, hline⟩ := receiveStartSignal_eq_ok_iff.1 hstart
      split at h
      · cases h
      next hbits =>
        cases h
        obtain ⟨hcarries, hrest⟩ := (readBits_eq_some_iff hhead).1 hbits
        exact ⟨n, m, bits, _, hn, hm, hline, hcarries, hrest⟩
  · rintro ⟨n, m, bits', rest, hn, hm, hline, hcarries, hrest⟩
    have hhead := hcarries.head hrest
    have hstart' := receiveStartSignal_eq_ok_iff.2 ⟨n, m, hn, hm, hhead, hline⟩
    rw [receiveData, hstart']
    simp only [reduceCtorEq, if_false, (readBits_eq_some_iff hhead).2 ⟨hcarries, hrest⟩]

/-! ## What is reported -/

theorem reading_notMem_of_error {e : EspErr × List Log} (h : receiveData line = .error e)
    (r : Reading) : Log.reading r ∉ e.2 := by
  unfold receiveData at h
  dsimp only at h
  split_ifs at h
  · cases h
    simp
  · split at h <;> cases h
    simp

/-- **When a reading is reported**: exactly if it is that of a frame on the line whose bytes sum up
to the last one without a carry. -/
theorem reading_mem_iff {r : Reading} : .reading r ∈ (dth11ReadStatistics line).2 ↔
    ∃ b, FrameOn b line ∧ checksum b = (b 4).toUInt16 ∧ r = readingOf b := by
  simp only [← receiveData_eq_ok_iff]
  cases hdata : receiveData line with
  | error e =>
    rw [dth11ReadStatistics, hdata]
    refine iff_of_false (reading_notMem_of_error hdata r) ?_
    rintro ⟨_, h, -⟩
    cases h
  | ok data =>
    rw [dth11ReadStatistics, hdata]
    simp only [Except.ok.injEq, exists_eq_left']
    split_ifs with hsum <;> simp [hsum]

/-- A frame whose reading is reported sums up without a carry. -/
theorem sum_of_reported {r : Reading} (hframe : FrameOn b line)
    (hr : .reading r ∈ (dth11ReadStatistics line).2) :
    (b 0).toNat + (b 1).toNat + (b 2).toNat + (b 3).toNat = (b 4).toNat := by
  rw [dth11ReadStatistics, receiveData_eq_ok_iff.2 hframe] at hr
  dsimp only at hr
  split_ifs at hr with hsum
  · exact checksum_eq_iff.1 hsum
  · cases hr

/-- **Frames that are reported are apart**: if two lines carry different frames and a reading is
reported for both, the frames differ in at least two bytes. -/
theorem two_bytes_of_reported {line₁ line₂ : Line} {b₁ b₂ : Data} {r₁ r₂ : Reading}
    (h₁ : FrameOn b₁ line₁) (h₂ : FrameOn b₂ line₂) (hne : b₁ ≠ b₂)
    (hr₁ : .reading r₁ ∈ (dth11ReadStatistics line₁).2)
    (hr₂ : .reading r₂ ∈ (dth11ReadStatistics line₂).2) :
    ∃ j k, j ≠ k ∧ b₁ j ≠ b₂ j ∧ b₁ k ≠ b₂ k := by
  obtain ⟨j, hj⟩ := Function.ne_iff.1 hne
  by_contra hnone
  have hall : ∀ k, k ≠ j → (b₁ k).toNat = (b₂ k).toNat := by
    intro k hk
    by_contra hk'
    exact hnone ⟨k, j, hk, fun heq => hk' (congrArg UInt8.toNat heq), hj⟩
  have hsum₁ := sum_of_reported h₁ hr₁
  have hsum₂ := sum_of_reported h₂ hr₂
  have hcases : ∀ j : Fin 5, j = 0 ∨ j = 1 ∨ j = 2 ∨ j = 3 ∨ j = 4 := by decide
  refine hj (UInt8.toNat_inj.1 ?_)
  -- the other four bytes are the same, and so are the two sums
  have h0 := hall 0
  have h1 := hall 1
  have h2 := hall 2
  have h3 := hall 3
  have h4 := hall 4
  rcases hcases j with rfl | rfl | rfl | rfl | rfl <;>
    simp only [ne_eq, Fin.reduceEq, not_true_eq_false, not_false_eq_true, forall_const,
      false_implies] at h0 h1 h2 h3 h4 <;> omega

theorem frameOn_plainWaveform (b : Data) : FrameOn b (plainWaveform b).line :=
  receiveData_eq_ok_iff.1 (receiveData_of_lead _ rfl)

theorem reported_plainWaveform {b : Data} (h : checksum b = (b 4).toUInt16) :
    .reading (readingOf b) ∈ (dth11ReadStatistics (plainWaveform b).line).2 := by
  rw [dth11ReadStatistics, receiveData_of_lead _ rfl]
  dsimp only
  rw [if_pos h]
  exact List.mem_singleton_self _

/-- Two readings that are reported, of 23.4 degrees and humidities of 51 and 50 percent. -/
theorem two_bytes_of_humidity :
    .reading ⟨23, 4, 51, 0⟩ ∈ (dth11ReadStatistics (plainWaveform ![51, 0, 23, 4, 78]).line).2 ∧
      .reading ⟨23, 4, 50, 0⟩ ∈ (dth11ReadStatistics (plainWaveform ![50, 0, 23, 4, 77]).line).2 ∧
        ∃ j k, j ≠ k ∧ (![51, 0, 23, 4, 78] : Data) j ≠ ![50, 0, 23, 4, 77] j ∧
          (![51, 0, 23, 4, 78] : Data) k ≠ ![50, 0, 23, 4, 77] k := by
  have h₁ := reported_plainWaveform (b := ![51, 0, 23, 4, 78]) (by decide)
  have h₂ := reported_plainWaveform (b := ![50, 0, 23, 4, 77]) (by decide)
  exact ⟨h₁, h₂, two_bytes_of_reported (frameOn_plainWaveform _) (frameOn_plainWaveform _)
    (fun heq => absurd (congrFun heq 0) (by decide)) h₁ h₂⟩

end HomeAssistant.Sensor
