import DeviceLayer.Event.Source
import DeviceLayer.Event.WaitList
import DeviceLayer.Fault

/-!
# The event queue

The queue joins the waits of the virtual machine's threads with the sources of
a platform.  A thread registers a wait, interrupts post to it, and the scheduler
scans for the oldest satisfied wait.  Taking an event ends its wait: one
registration is one wait.

Main results:

- Theorem {lit}`Queue.registerFor_of_number_eq_zero`: the requestor whose number
  would be zero is refused, and nothing changes.
- Theorem {lit}`Queue.post_of_sampled`: a post to a sampled type has no effect.
- Theorem {lit}`Queue.scan_peek_waits`: peeking leaves every wait in place.
-/

namespace DeviceLayer

/-- The live waits and the sources of a platform. -/
structure Queue (S : Type) where
  waits : WaitList
  sources : S
deriving DecidableEq

namespace Queue

variable {S κ : Type}

/-- A queue without waits. -/
def new (sources : S) : Queue S where
  waits := .empty
  sources

/-- Number of live waits. -/
def pending (q : Queue S) : Nat :=
  q.waits.size

/-- Drop every wait and start numbering anew; the sources are not touched. -/
def reset (q : Queue S) : Queue S :=
  { q with waits := .empty }

/-- Set the number last given out in sequence. -/
def withLastNumber (q : Queue S) (number : EventNumber) : Queue S :=
  { q with waits := { q.waits with lastNumber := number } }

/-! ## Registering -/

/-- Add a wait with the given number as the youngest one. -/
def append (q : Queue S) (number : EventNumber) (type : EventType) :
    Except Fault EventNumber × Queue S :=
  match q.waits.push? number type with
  | some waits => (.ok number, { q with waits })
  | none => (.error .waitPoolEmpty, q)

/--
Register a wait under the next number in sequence.  The number counts as given
out only if a node was left for the wait.
-/
def register (q : Queue S) (type : EventType) : Except Fault EventNumber × Queue S :=
  if inInterrupt then (.error .registeredInInterrupt, q)
  else
    match q.append q.waits.nextNumber type with
    | (.ok number, q') => (.ok number, q'.withLastNumber number)
    | (.error fault, q') => (.error fault, q')

/--
Register a wait for a requestor.  Its number is one above the requestor's, so
that posts directed at the requestor's thread reach it.
-/
def registerFor (q : Queue S) (requestor : UInt32) (type : EventType) :
    Except Fault EventNumber × Queue S :=
  let number := requestor + 1
  if inInterrupt then (.error .registeredInInterrupt, q)
  else if number = noEvent then (.error .requestorWithoutNumber, q)
  else if q.waits.holds number type then (.error .alreadyWaiting, q)
  else q.append number type

/-- End the wait with this number and type without an event. -/
def cancel (q : Queue S) (number : EventNumber) (type : EventType) :
    Except Fault Unit × Queue S :=
  match q.waits.locate fun wait => wait.isFor number type with
  | some (before, slot) => (.ok (), { q with waits := q.waits.remove before slot })
  | none => (.error .noSuchWait, q)

/-! ## Posting and sampling -/

variable [Sources S κ]

/-- How events of a type reach the scheduler. -/
def delivery (q : Queue S) (type : EventType) : Delivery :=
  Sources.delivery q.sources type

/--
Post an event to everyone who waits for its type, or to one number.  Posts
never end a wait, and a post to a sampled type is ignored.
-/
def post (q : Queue S) (recipient : Recipient) (type : EventType) (value : EventValue) :
    Queue S :=
  match q.delivery type with
  | .sampled => q
  | .posted => { q with waits := q.waits.post recipient type value }

/-- Read the source of a type directly, whether or not anyone waits for it. -/
def readType (q : Queue S) (type : EventType) (mode : ReadMode) :
    Option EventValue × Queue S :=
  let (value, sources) := Sources.readType q.sources type mode
  (value, { q with sources })

/-! ## Scanning -/

/-- A satisfied wait: its node, the node before it and the value that satisfies it. -/
structure Hit where
  before : Option Slot
  slot : Slot
  value : EventValue

/--
The first satisfied wait among the given nodes; {lit}`before` precedes the first
of them.  Every source on the way is read, also the one that has nothing.
-/
def firstHit (waits : WaitList) (mode : ReadMode) (sources : S) (before : Option Slot) :
    List Slot → Option Hit × S
  | [] => (none, sources)
  | slot :: rest =>
    match Sources.sample sources (waits.wait slot) mode with
    | (some value, sources') => (some { before, slot, value }, sources')
    | (none, sources') => firstHit waits mode sources' (some slot) rest

/-- The oldest satisfied wait; taking ends it. -/
def scan (q : Queue S) (mode : ReadMode) : Option Event × Queue S :=
  match firstHit q.waits mode q.sources none q.waits.live with
  | (none, sources) => (none, { q with sources })
  | (some hit, sources) =>
    (some ((q.waits.wait hit.slot).toEvent hit.value),
      { waits := match mode with
          | .peek => q.waits
          | .take => q.waits.remove hit.before hit.slot
        sources })

/-! ## First facts -/

@[simp]
theorem pending_new (sources : S) : (new sources).pending = 0 :=
  rfl

@[simp]
theorem reset_eq_new (q : Queue S) : q.reset = new q.sources :=
  rfl

/-- The requestor whose number would be zero is refused, and nothing changes. -/
theorem registerFor_of_number_eq_zero (q : Queue S) {requestor : UInt32}
    (h : requestor + 1 = noEvent) (type : EventType) :
    q.registerFor requestor type = (.error .requestorWithoutNumber, q) := by
  simp [registerFor, inInterrupt, h]

/-- A post to a sampled type has no effect. -/
theorem post_of_sampled {q : Queue S} {type : EventType} (h : q.delivery type = .sampled)
    (recipient : Recipient) (value : EventValue) : q.post recipient type value = q := by
  simp [post, h]

/-- Peeking leaves every wait in place. -/
@[simp]
theorem scan_peek_waits (q : Queue S) : (q.scan .peek).2.waits = q.waits := by
  unfold scan
  split <;> rfl

end Queue
end DeviceLayer
