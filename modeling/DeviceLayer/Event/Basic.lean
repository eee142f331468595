/-!
# Events

The scheduler of the virtual machine learns of the world through events.  An
event has a type, a value, and the number of the wait that it satisfies.

Main results:

- Theorem {lit}`EventType.isWifi_iff`: the wireless events are the types up to
  the end of a scan.
- Theorem {lit}`Event.numberOrZero_none`: no event is reported as number zero.
-/

namespace DeviceLayer

/-- Class of an event. -/
abbrev EventType := UInt32

/-- Number of a wait; a live wait never has number zero. -/
abbrev EventNumber := UInt32

/-- Whom a post addresses: the number of a wait, or everyone. -/
abbrev Recipient := UInt32

/-- What an event carries. -/
abbrev EventValue := Int32

/-- The number reported when nothing is ready. -/
def noEvent : EventNumber := 0

/-- The recipient that stands for every wait of a type. -/
def everyone : Recipient := 0

/-- Whether reading a source leaves what was observed in place or consumes it. -/
inductive ReadMode where
  | peek
  | take
deriving DecidableEq, Repr

/-- How events of a type reach the scheduler. -/
inductive Delivery where
  /-- Read from a source when the scheduler polls. -/
  | sampled
  /-- Posted to the waits that were registered for it. -/
  | posted
deriving DecidableEq, Repr

/-- The number of a delivery class. -/
def Delivery.code : Delivery → UInt8
  | .sampled => 0
  | .posted => 1

/-! ## Types of network events -/

namespace EventType

/-- The station joined a network. -/
def stationConnected : EventType := 0

/-- The station left its network. -/
def stationDisconnected : EventType := 1

/-- The access point changed how it authenticates. -/
def stationAuthChanged : EventType := 2

/-- The station was given an address. -/
def stationGotAddress : EventType := 3

/-- No address was given in time. -/
def stationAddressTimeout : EventType := 4

/-- A scan for networks ended. -/
def scanDone : EventType := 8

/-- A host name was resolved. -/
def resolved : EventType := 9

/-- A socket is connected. -/
def connected : EventType := 10

/-- A socket has data to read. -/
def readReady : EventType := 11

/-- A socket takes data to write. -/
def writeReady : EventType := 12

/-- A connection was accepted. -/
def accepted : EventType := 13

/-- A connection attempt failed. -/
def connectFailed : EventType := 14

/-- The named types, in ascending order. -/
def named : List EventType :=
  [stationConnected, stationDisconnected, stationAuthChanged, stationGotAddress,
    stationAddressTimeout, scanDone, resolved, connected, readReady, writeReady, accepted,
    connectFailed]

/-- Whether a type belongs to the wireless station or its scans. -/
def isWifi (type : EventType) : Bool :=
  stationConnected ≤ type && type ≤ scanDone

/-- The wireless events are the types up to the end of a scan. -/
theorem isWifi_iff (type : EventType) : isWifi type = true ↔ type.toNat ≤ 8 := by
  simp [isWifi, stationConnected, scanDone, UInt32.le_iff_toNat_le]

end EventType

/-! ## Reported events -/

/-- A satisfied wait as the scheduler sees it. -/
structure Event where
  number : EventNumber
  type : EventType
  value : EventValue
deriving DecidableEq, Repr

namespace Event

/-- The number that crosses to the machine: that of the event, or zero for none. -/
def numberOrZero : Option Event → EventNumber
  | some event => event.number
  | none => noEvent

@[simp]
theorem numberOrZero_none : numberOrZero none = noEvent :=
  rfl

@[simp]
theorem numberOrZero_some (event : Event) : numberOrZero (some event) = event.number :=
  rfl

end Event
end DeviceLayer
