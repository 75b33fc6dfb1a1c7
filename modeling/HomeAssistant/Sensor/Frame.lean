import HomeAssistant.Sensor.Dht11
import Mathlib.Data.Fin.VecNotation

/-!
# Frames on the data line

The waveform of a frame: an idle lead-in, the response of the sensor, a low and a high pulse for
each bit, and then the low level for ever. The widths of the pulses may vary within the bounds of a
`Waveform`. Each round of the bit loop takes one bit off the line (`readBit_bitsLine`), so a frame
without a lead-in is decoded bit for bit; a lead-in shifts the response of the sensor into the first
round, where it is too long to pass for a bit (`frame_decoded`).
-/

namespace HomeAssistant.Sensor

open BitPacking

/-- The widths of the pulses of a frame that carries the bytes `b`, in samples. -/
structure Waveform (b : Data) where
  lead : ℕ
  responseLow : ℕ
  responseHigh : ℕ
  bitLow : Fin dht11ReadDataBits → ℕ
  bitHigh : Fin dht11ReadDataBits → ℕ
  responseLow_bounds : 52 ≤ responseLow ∧ responseLow ≤ 81
  responseHigh_bounds : 72 ≤ responseHigh ∧ responseHigh ≤ 81
  bitLow_bounds : ∀ i, 1 ≤ bitLow i ∧ bitLow i ≤ 51
  bitHigh_zero : ∀ i, bit b i = false → 1 ≤ bitHigh i ∧ bitHigh i ≤ 28
  bitHigh_one : ∀ i, bit b i = true → 29 ≤ bitHigh i ∧ bitHigh i ≤ 71

/-- The frame with the widths of the data sheet. -/
def plainWaveform (b : Data) : Waveform b where
  lead := 0
  responseLow := 80
  responseHigh := 80
  bitLow _ := 50
  bitHigh i := if bit b i then 70 else 26
  responseLow_bounds := by decide
  responseHigh_bounds := by decide
  bitLow_bounds _ := by decide
  bitHigh_zero i h := by simp [h]
  bitHigh_one i h := by simp [h]

namespace Waveform

variable {b : Data} (w : Waveform b)

/-- The pulses of some bits, in front of a line. -/
def bitsLine (is : List (Fin dht11ReadDataBits)) (line : Line) : Line :=
  is.foldr (fun i line =>
    List.replicate (w.bitLow i) low ++ₛ (List.replicate (w.bitHigh i) high ++ₛ line)) line

/-- The line behind the lead-in. -/
def responseLine : Line :=
  List.replicate w.responseLow low ++ₛ (List.replicate w.responseHigh high ++ₛ
    w.bitsLine (List.finRange dht11ReadDataBits) (Stream'.const low))

/-- The line after the start request. -/
def line : Line := List.replicate w.lead high ++ₛ w.responseLine

theorem head_replicate_append {n : ℕ} (h : 1 ≤ n) (level : Bool) (line : Line) :
    (List.replicate n level ++ₛ line).head = level := by
  obtain ⟨m, rfl⟩ := Nat.exists_eq_add_of_le' h
  rfl

theorem head_bitsLine (is : List (Fin dht11ReadDataBits)) :
    (w.bitsLine is (Stream'.const low)).head = low := by
  cases is with
  | nil => rfl
  | cons i is => exact head_replicate_append (w.bitLow_bounds i).1 low _

theorem head_responseLine : w.responseLine.head = low :=
  head_replicate_append (by have := w.responseLow_bounds; omega) low _

/-- The width of the high pulse tells the bit. -/
theorem bitHigh_bounds (i : Fin dht11ReadDataBits) : 1 ≤ w.bitHigh i ∧ w.bitHigh i ≤ 71 ∧
    (w.bitHigh i > dht11DataBit0 ↔ bit b i) := by
  rw [dht11DataBit0]
  cases hb : bit b i with
  | false =>
    have hbounds := w.bitHigh_zero i hb
    exact ⟨by omega, by omega, iff_of_false (by omega) Bool.false_ne_true⟩
  | true =>
    have hbounds := w.bitHigh_one i hb
    exact ⟨by omega, by omega, iff_of_true (by omega) rfl⟩

/-- **A round of the bit loop** takes one bit off the line. -/
theorem readBit_bitsLine (data : Data) (i : Fin dht11ReadDataBits) {line : Line}
    (hline : line.head = low) :
    readBit data (w.bitsLine [i] line) i =
      some (if bit b i then setBit data i else data, line) := by
  obtain ⟨hpos, hle, hbit⟩ := w.bitHigh_bounds i
  have hlow : waitInputLevel dht11FirstBitDataTimeout low (w.bitsLine [i] line) =
      (w.bitLow i, List.replicate (w.bitHigh i) high ++ₛ line) := by
    refine waitInputLevel_pulse (w.bitLow_bounds i).2 ?_
    rw [head_replicate_append hpos]
    decide
  have hhigh : waitInputLevel dht11DataBit1 high (List.replicate (w.bitHigh i) high ++ₛ line) =
      (w.bitHigh i, line) := by
    refine waitInputLevel_pulse hle ?_
    rw [hline]
    decide
  have hlow' := (w.bitLow_bounds i).2
  have hmax : maxTimeout = 65535 := rfl
  simp only [readBit, hlow, hhigh, hbit]
  rw [if_neg (by omega), if_neg (by omega)]

/-- **The bit loop** takes all bits off the line. -/
theorem foldlM_readBit (is : List (Fin dht11ReadDataBits)) (data : Data) :
    is.foldlM (fun s i => readBit s.1 s.2 i) (data, w.bitsLine is (Stream'.const low)) =
      some (is.foldl (fun d i => if bit b i then setBit d i else d) data, Stream'.const low) := by
  induction is generalizing data with
  | nil => rfl
  | cons i is ih =>
    have hround := w.readBit_bitsLine data i (w.head_bitsLine is)
    rw [List.foldlM_cons]
    show (readBit data (w.bitsLine [i] (w.bitsLine is (Stream'.const low))) i).bind _ = _
    rw [hround, Option.bind_some, ih]
    rfl

theorem readBits_bitsLine :
    readBits (w.bitsLine (List.finRange dht11ReadDataBits) (Stream'.const low)) =
      some (b, Stream'.const low) := by
  rw [readBits, foldlM_readBit, foldl_setBit]

theorem receiveStartSignal_responseLine : receiveStartSignal w.responseLine =
    (.ok, w.bitsLine (List.finRange dht11ReadDataBits) (Stream'.const low)) := by
  have hl := w.responseLow_bounds
  have hh := w.responseHigh_bounds
  have hlow : waitInputLevel dht11Timeout low w.responseLine =
      (w.responseLow, List.replicate w.responseHigh high ++ₛ
        w.bitsLine (List.finRange dht11ReadDataBits) (Stream'.const low)) := by
    refine waitInputLevel_pulse hl.2 ?_
    rw [head_replicate_append (by omega)]
    decide
  have hhigh : waitInputLevel dht11Timeout high (List.replicate w.responseHigh high ++ₛ
      w.bitsLine (List.finRange dht11ReadDataBits) (Stream'.const low)) =
        (w.responseHigh, w.bitsLine (List.finRange dht11ReadDataBits) (Stream'.const low)) := by
    refine waitInputLevel_pulse hh.2 ?_
    rw [head_bitsLine]
    decide
  have hmax : maxTimeout = 65535 := rfl
  simp only [receiveStartSignal, hlow, hhigh]
  rw [if_neg (by omega), if_neg (by omega)]

/-- **A frame without a lead-in** is decoded. -/
theorem receiveData_of_lead (h : w.lead = 0) : receiveData w.line = .ok b := by
  have hline : w.line = w.responseLine := by
    rw [line, h]
    rfl
  rw [receiveData, hline, receiveStartSignal_responseLine]
  simp only [reduceCtorEq, if_false, readBits_bitsLine]

/-- The lead-in is taken for the response of the sensor. -/
theorem receiveStartSignal_lead (h : 1 ≤ w.lead) :
    (receiveStartSignal w.line).1 = .errTimeout ∨
      receiveStartSignal w.line = (.ok, w.responseLine) := by
  have hlow : waitInputLevel dht11Timeout low w.line = (0, w.line) := by
    refine waitInputLevel_pulse (n := 0) (Nat.zero_le _) ?_
    rw [head_replicate_append h]
    decide
  have hmax : maxTimeout = 65535 := rfl
  by_cases hlead : w.lead ≤ dht11Timeout + 1
  · right
    have hhigh : waitInputLevel dht11Timeout high w.line = (w.lead, w.responseLine) := by
      refine waitInputLevel_pulse hlead ?_
      rw [head_responseLine]
      decide
    rw [dht11Timeout] at hlead
    simp only [receiveStartSignal, hlow, hhigh]
    rw [if_neg (by omega), if_neg (by omega)]
  · left
    have hhigh : (waitInputLevel dht11Timeout high w.line).1 = maxTimeout :=
      waitInputLevel_timeout (by omega)
    simp only [receiveStartSignal, hlow, hhigh]
    rw [if_neg (by omega)]
    rfl

/-- The response of the sensor is too long for the low pulse of a bit. -/
theorem readBits_responseLine : readBits w.responseLine = none := by
  have hl := w.responseLow_bounds
  have htimeout : (waitInputLevel dht11FirstBitDataTimeout low w.responseLine).1 = maxTimeout :=
    waitInputLevel_timeout (by rw [dht11FirstBitDataTimeout]; omega)
  have hround : readBit (fun _ => 0) w.responseLine 0 = none := by
    simp only [readBit, htimeout]
    rfl
  rw [readBits, List.finRange_succ, List.foldlM_cons]
  show (readBit (fun _ => 0) w.responseLine 0).bind _ = none
  rw [hround, Option.bind_none]

/-- **A frame behind a lead-in** is not decoded. -/
theorem receiveData_of_lead_pos (h : 1 ≤ w.lead) (data : Data) : receiveData w.line ≠ .ok data := by
  rcases w.receiveStartSignal_lead h with hstart | hstart
  · simp [receiveData, hstart]
  · simp [receiveData, hstart, readBits_responseLine]

end Waveform

/-- **Frames are decoded bit for bit and never misframed**: a frame without a lead-in is decoded,
and whenever the bit loop gets to its end the bytes are those of the frame. -/
theorem frame_decoded {b : Data} (w : Waveform b) :
    (w.lead = 0 → receiveData w.line = .ok b) ∧
      ∀ data, receiveData w.line = .ok data → data = b := by
  refine ⟨w.receiveData_of_lead, fun data hdata => ?_⟩
  by_cases h : w.lead = 0
  · rw [w.receiveData_of_lead h, Except.ok.injEq] at hdata
    exact hdata.symm
  · exact absurd hdata (w.receiveData_of_lead_pos (Nat.one_le_iff_ne_zero.2 h) data)

/-- The frame of a reading of 23.4 degrees and a humidity of 51 percent. -/
theorem frame_decoded_reading :
    receiveData (plainWaveform ![51, 0, 23, 4, 78]).line = .ok ![51, 0, 23, 4, 78] :=
  (frame_decoded (plainWaveform ![51, 0, 23, 4, 78])).1 rfl

end HomeAssistant.Sensor
