import DeviceLayer.Event.Poll
import DeviceLayer.Pin.Watch
import DeviceLayer.Timer.Status

/-!
# A board with pins and timers

The board samples two event types: buffered pin edges and the timer status word.
Every other type is posted.

Main results:

- Theorem {lit}`Board.kindOf_eq_none_iff`: the posted types are those from
  {lit}`firstPostedType` on.
-/

namespace DeviceLayer

/-- The sampled state of a board. -/
structure Board where
  pins : PinWatch
  timers : TimerStatus
deriving DecidableEq

namespace Board

/-- The sampled sources of a board. -/
inductive Source where
  | pins
  | timers
deriving DecidableEq, Repr

/-- The type of a buffered pin edge. -/
def pinEventType : EventType := 0

/-- The type of a timer expiry. -/
def timerEventType : EventType := 1

/-- The first type that is posted. -/
def firstPostedType : EventType := 2

/-- No edge watched or buffered, no timer bit raised. -/
def empty : Board where
  pins := .empty
  timers := .empty

/-- The source that an event type is read from. -/
def sourceOf? (type : EventType) : Option Source :=
  if type = pinEventType then some .pins
  else if type = timerEventType then some .timers
  else none

/-- Read one of the sources. -/
def read (b : Board) (source : Source) (mode : ReadMode) : Option EventValue × Board :=
  match source with
  | .pins =>
    let (value, pins) := b.pins.read mode
    (value, { b with pins })
  | .timers =>
    let (value, timers) := b.timers.read mode
    (value, { b with timers })

instance : Sources Board Source where
  kindOf _ := sourceOf?
  read := read

/-- The posted types are those from {lit}`firstPostedType` on. -/
theorem kindOf_eq_none_iff (b : Board) (type : EventType) :
    Sources.kindOf b type = none ↔ firstPostedType ≤ type := by
  have hle : firstPostedType ≤ type ↔ 2 ≤ type.toNat := UInt32.le_iff_toNat_le
  have hpin : type = pinEventType ↔ type.toNat = 0 := UInt32.toNat_inj.symm
  have htimer : type = timerEventType ↔ type.toNat = 1 := UInt32.toNat_inj.symm
  show sourceOf? type = none ↔ _
  unfold sourceOf?
  rw [hle]
  split
  · simp_all
  · split
    · simp_all
    · simp_all
      omega

theorem kindOf_eq_pins_iff (b : Board) (type : EventType) :
    Sources.kindOf b type = some .pins ↔ type = pinEventType := by
  show sourceOf? type = some .pins ↔ _
  unfold sourceOf?
  split
  · simp_all
  · split <;> simp_all

theorem kindOf_eq_timers_iff (b : Board) (type : EventType) :
    Sources.kindOf b type = some .timers ↔ type = timerEventType := by
  show sourceOf? type = some .timers ↔ _
  unfold sourceOf?
  split
  · rename_i hpin
    simp [hpin, pinEventType, timerEventType]
  · split <;> simp_all

end Board
end DeviceLayer
