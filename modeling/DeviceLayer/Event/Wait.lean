import DeviceLayer.Event.Basic

/-!
# Waits

A wait says that a thread wants to hear of one event type.  It is pending until
a post reaches it and signaled from then on; a later post replaces the value.

Main results:

- Theorem {lit}`Wait.posted?_eq_ite`: a wait has a value exactly while it is signaled.
-/

namespace DeviceLayer

/-- Whether a post has reached a wait. -/
inductive Phase where
  | pending
  | signaled
deriving DecidableEq, Repr

/-- The number of a phase. -/
def Phase.code : Phase → UInt8
  | .pending => 0
  | .signaled => 1

/-- A registered wait. -/
structure Wait where
  number : EventNumber
  type : EventType
  phase : Phase
  /-- The value last posted; it means nothing while the wait is pending. -/
  value : EventValue
deriving DecidableEq, Repr

namespace Wait

/-- A wait as it is registered. -/
def registered (number : EventNumber) (type : EventType) : Wait :=
  { number, type, phase := .pending, value := 0 }

/-- What an unused node holds. -/
def blank : Wait :=
  registered noEvent 0

/-- Record a post. -/
def signal (wait : Wait) (value : EventValue) : Wait :=
  { wait with phase := .signaled, value }

/-- Whether this is the wait with the given number and type. -/
def isFor (wait : Wait) (number : EventNumber) (type : EventType) : Bool :=
  wait.number == number && wait.type == type

/-- The value of a signaled wait. -/
def posted? (wait : Wait) : Option EventValue :=
  match wait.phase with
  | .pending => none
  | .signaled => some wait.value

/-- The event that reports this wait with the given value. -/
def toEvent (wait : Wait) (value : EventValue) : Event :=
  { number := wait.number, type := wait.type, value }

/-- A wait has a value exactly while it is signaled. -/
theorem posted?_eq_ite (wait : Wait) :
    wait.posted? = if wait.phase = .signaled then some wait.value else none := by
  unfold posted?
  split <;> simp_all

theorem posted?_eq_none_iff {wait : Wait} : wait.posted? = none ↔ wait.phase = .pending := by
  unfold posted?
  split <;> simp_all

end Wait
end DeviceLayer
