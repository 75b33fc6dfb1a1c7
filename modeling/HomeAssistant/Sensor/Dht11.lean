import HomeAssistant.Board
import HomeAssistant.Foundations.BitPacking
import HomeAssistant.Framework
import Mathlib.Data.Stream.Init

/-!
# The DHT11 sensor

`dth11_read_statistics` reads 40 bits off the data line of the sensor by polling it once a
microsecond: each bit is a pulse whose width tells a 0 from a 1. The line is the stream of the
samples that are still to come, from the end of the start request on; `gpio_get_level` reads the
first of them and `ets_delay_us(1)` goes on to the next.

Polling a level that lasts `n` samples takes `n` rounds if the timeout is at least `n - 1`
(`waitInputLevel_pulse`), and runs out of time otherwise (`waitInputLevel_timeout`).
-/

namespace HomeAssistant.Sensor

open BitPacking

/-- The samples of the data line that are still to come. -/
abbrev Line : Type := Stream' Bool

/-- The bytes of a frame. -/
abbrev Data : Type := Fin 5 → UInt8

/-- `MAX_TIMEOUT`. -/
def maxTimeout : ℕ := 0xFFFF

/-- `DHT11_TIMEOUT`. -/
def dht11Timeout : ℕ := 80

/-- `DHT11_FIRST_BIT_DATA_TIMEOUT`. -/
def dht11FirstBitDataTimeout : ℕ := 50

/-- `DHT11_DATA_BIT_0`. -/
def dht11DataBit0 : ℕ := 28

/-- `DHT11_DATA_BIT_1`. -/
def dht11DataBit1 : ℕ := 70

/-- `DHT11_READ_DATA_BITS`. -/
abbrev dht11ReadDataBits : ℕ := 40

/-- The loop of `_dht11_wait_input_level`. The waiting time stays below the timeout plus two, so it
does not wrap around. -/
def waitLoop (timeout : ℕ) (level : Bool) (watingTime : ℕ) (line : Line) : ℕ × Line :=
  if line.head = level then
    if watingTime > timeout then (maxTimeout, line)
    else waitLoop timeout level (watingTime + 1) line.tail
  else (watingTime, line)
termination_by timeout + 1 - watingTime

/-- `_dht11_wait_input_level`. -/
def waitInputLevel (timeout : ℕ) (level : Bool) (line : Line) : ℕ × Line :=
  waitLoop timeout level 0 line

/-- `_dht11_receive_start_signal`. -/
def receiveStartSignal (line : Line) : EspErr × Line :=
  let (time, line) := waitInputLevel dht11Timeout low line
  if time = maxTimeout then (.errTimeout, line)
  else
    let (time, line) := waitInputLevel dht11Timeout high line
    if time = maxTimeout then (.errTimeout, line) else (.ok, line)

/-- A round of the bit loop, which ends the function if a wait runs out of time. -/
def readBit (data : Data) (line : Line) (i : Fin dht11ReadDataBits) : Option (Data × Line) :=
  let (time, line) := waitInputLevel dht11FirstBitDataTimeout low line
  if time = maxTimeout then none
  else
    let (timeout, line) := waitInputLevel dht11DataBit1 high line
    if timeout = maxTimeout then none
    else some (if timeout > dht11DataBit0 then setBit data i else data, line)

/-- The bit loop. -/
def readBits (line : Line) : Option (Data × Line) :=
  (List.finRange dht11ReadDataBits).foldlM (fun s i => readBit s.1 s.2 i) (fun _ => 0, line)

/-- The values of a reading, in the order in which they are logged. -/
structure Reading where
  temperature : UInt8
  temperatureDecimal : UInt8
  humidity : UInt8
  humidityDecimal : UInt8
  deriving DecidableEq

/-- What the function logs. -/
inductive Log
  | startSignalError
  | reading (r : Reading)
  deriving DecidableEq

/-- `dth11_read_statistics` up to the end of its bit loop, on the samples after the start request:
the bytes, or the error that it returns with and what it has logged. -/
def receiveData (line : Line) : Except (EspErr × List Log) Data :=
  let (err, line) := receiveStartSignal line
  if err = .errTimeout then .error (.fail, [.startSignalError])
  else
    match readBits line with
    | none => .error (.errTimeout, [])
    | some (data, _) => .ok data

/-- The sum of the first four bytes, in 16 bits. -/
def checksum (data : Data) : UInt16 :=
  (data 0).toUInt16 + (data 1).toUInt16 + (data 2).toUInt16 + (data 3).toUInt16

/-- The reading in the bytes. -/
def readingOf (data : Data) : Reading := ⟨data 2, data 3, data 0, data 1⟩

/-- `dth11_read_statistics`, on the samples after the start request. -/
def dth11ReadStatistics (line : Line) : EspErr × List Log :=
  match receiveData line with
  | .error e => e
  | .ok data =>
    (.ok, if checksum data = (data 4).toUInt16 then [.reading (readingOf data)] else [])

/-- The checksum of the sensor is right: the last byte is the sum of the others, in 8 bits. -/
def ChecksumRight (data : Data) : Prop := data 4 = data 0 + data 1 + data 2 + data 3

instance (data : Data) : Decidable (ChecksumRight data) := inferInstanceAs (Decidable (_ = _))

/-! ## Waiting -/

variable {timeout n : ℕ} {level : Bool} {line : Line}

theorem replicate_succ_append (n : ℕ) (level : Bool) (line : Line) :
    List.replicate (n + 1) level ++ₛ line = Stream'.cons level (List.replicate n level ++ₛ line) :=
  rfl

theorem waitLoop_pulse {w : ℕ} (h : w + n ≤ timeout + 1) (hline : line.head ≠ level) :
    waitLoop timeout level w (List.replicate n level ++ₛ line) = (w + n, line) := by
  induction n generalizing w with
  | zero =>
    unfold waitLoop
    exact if_neg hline
  | succ n ih =>
    unfold waitLoop
    rw [replicate_succ_append, Stream'.head_cons, if_pos rfl, if_neg (by omega), Stream'.tail_cons,
      ih (by omega), Nat.add_right_comm, Nat.add_assoc]

/-- **Waiting for the end of a pulse** counts its samples. -/
theorem waitInputLevel_pulse (h : n ≤ timeout + 1) (hline : line.head ≠ level) :
    waitInputLevel timeout level (List.replicate n level ++ₛ line) = (n, line) := by
  rw [waitInputLevel, waitLoop_pulse (by omega) hline, Nat.zero_add]

theorem waitLoop_timeout {w : ℕ} (hw : w ≤ timeout + 1) (h : timeout + 1 < w + n) :
    (waitLoop timeout level w (List.replicate n level ++ₛ line)).1 = maxTimeout := by
  induction n generalizing w with
  | zero => omega
  | succ n ih =>
    unfold waitLoop
    rw [replicate_succ_append, Stream'.head_cons, if_pos rfl]
    split
    next => rfl
    next hle => exact ih (by omega) (by omega)

/-- **A pulse that is too long** runs out of time. -/
theorem waitInputLevel_timeout (h : timeout + 1 < n) :
    (waitInputLevel timeout level (List.replicate n level ++ₛ line)).1 = maxTimeout :=
  waitLoop_timeout (Nat.zero_le _) (by omega)

end HomeAssistant.Sensor
