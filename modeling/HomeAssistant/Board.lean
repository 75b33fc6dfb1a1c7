import HomeAssistant.Foundations.Effects
import Mathlib.Data.Int.Notation
import Mathlib.Logic.Function.Basic

/-!
# The board

What the tasks of the assistant share: the flag `semaforo`, the levels of the output pins, the
channel to the speaker, the open sockets and the topics subscribed to. A level belongs to the number
of a pin; the pins of the board have different numbers, so that setting one leaves the others alone
(`Board.level_setLevel`).
-/

namespace HomeAssistant

/-- The output pins of the board, under the names that `gpioo.h` gives them. -/
inductive Pin
  | userLedPin
  | userGreenLedPin
  | userGreenLedPin2
  | userGreenLedPin3
  | userBlueLedPin
  | userRedLedPin
  | luminaria
  deriving DecidableEq

/-- The number of a pin. -/
def Pin.num : Pin → ℕ
  | .userLedPin => 2
  | .userGreenLedPin => 22
  | .userGreenLedPin2 => 21
  | .userGreenLedPin3 => 23
  | .userBlueLedPin => 12
  | .userRedLedPin => 3
  | .luminaria => 18

theorem Pin.num_injective : Function.Injective Pin.num := by
  intro p q h
  cases p <;> cases q <;> first | rfl | cases h

/-- The level `HIGH`. -/
abbrev high : Bool := true

/-- The level `LOW`. -/
abbrev low : Bool := false

/-- What the tasks share. -/
structure Board where
  semaforo : ℤ
  /-- The level of each pin, by its number. -/
  level : ℕ → Bool
  /-- The bytes handed to `i2s_channel_write`. -/
  speaker : Bytes
  /-- The descriptors of the open sockets. -/
  sockets : List ℕ
  /-- The topics subscribed to. -/
  topics : List Bytes

namespace Board

/-- The board before any task has run, with every pin at `LOW`. -/
def initial : Board := ⟨1, fun _ => low, [], [], []⟩

variable (b : Board)

/-- `gpio_set_level`. -/
def setLevel (p : Pin) (v : Bool) : Board :=
  { b with level := Function.update b.level p.num v }

/-- A sequence of calls of `gpio_set_level`. -/
def setLevels (ws : List (Pin × Bool)) : Board :=
  ws.foldl (fun b w => b.setLevel w.1 w.2) b

/-- `socket` returns a descriptor that is not in use. -/
def openSocket (fd : ℕ) : Board := { b with sockets := fd :: b.sockets }

/-- `close`. -/
def closeSocket (fd : ℕ) : Board := { b with sockets := b.sockets.erase fd }

/-- `i2s_channel_write` is handed a chunk of bytes. -/
def handToSpeaker (data : Bytes) : Board := { b with speaker := b.speaker ++ data }

/-- `esp_mqtt_client_subscribe`. -/
def subscribe (topic : Bytes) : Board := { b with topics := b.topics ++ [topic] }

theorem level_setLevel (p q : Pin) (v : Bool) :
    (b.setLevel p v).level q.num = if q = p then v else b.level q.num := by
  show Function.update b.level p.num v q.num = _
  rw [Function.update_apply]
  simp only [Pin.num_injective.eq_iff]

theorem setLevels_nil : b.setLevels [] = b := rfl

theorem setLevels_cons (p : Pin) (v : Bool) (ws : List (Pin × Bool)) :
    b.setLevels ((p, v) :: ws) = (b.setLevel p v).setLevels ws := rfl

theorem setLevels_append (ws ws' : List (Pin × Bool)) :
    b.setLevels (ws ++ ws') = (b.setLevels ws).setLevels ws' := List.foldl_append

end Board

end HomeAssistant
