import DeviceLayer.Bitmap.Basic
import DeviceLayer.Fault
import DeviceLayer.Limits

/-!
# Descriptor tables

A table hands out small natural numbers, its descriptors, for payloads.  A new
payload gets the lowest free descriptor; any number may be offered back.
Occupancy is kept in a bitmap; the lowest free slot is cached, so that handing
out a descriptor searches only above it.

Main results:

- Theorem {lit}`Table.allocate_of_full`: a full table refuses and stays as it is.
- Theorem {lit}`Table.release?_of_not_isAllocated`: releasing an unused
  descriptor does nothing.
-/

namespace DeviceLayer

/-- Payloads of type {lit}`α` keyed by descriptors. -/
structure Table (α : Type) where
  /-- The descriptors in use. -/
  occupied : Bitmap (wordsFor descriptorLimit)
  /-- The payload of each descriptor. -/
  slots : Vector (Option α) descriptorLimit
  /-- The lowest free descriptor, none if the table is full. -/
  lowestFree : Option Nat
deriving DecidableEq

namespace Table

variable {α : Type}

/-! ## Reading -/

/-- The table without payloads. -/
def empty : Table α where
  occupied := .empty descriptorLimit
  slots := Vector.replicate descriptorLimit none
  lowestFree := some 0

/-- The most payloads that a table can hold. -/
def capacity (_ : Table α) : Nat :=
  descriptorLimit

/-- Number of descriptors in use. -/
def size (t : Table α) : Nat :=
  t.occupied.ones

/-- Whether no descriptor is in use. -/
def isEmpty (t : Table α) : Bool :=
  t.size == 0

/-- Whether no descriptor is free. -/
def isFull (t : Table α) : Bool :=
  t.lowestFree.isNone

/-- Whether a descriptor is in use. -/
def isAllocated (t : Table α) (d : Nat) : Bool :=
  t.occupied.get d

/-- What a slot holds; there is nothing outside the table. -/
def slot (t : Table α) (d : Nat) : Option α :=
  t.slots[d]?.join

/-- The payload of a descriptor, none if it is unused or out of range. -/
def get? (t : Table α) (d : Nat) : Option α :=
  if t.isAllocated d then t.slot d else none

/-- The payload of a descriptor; a descriptor out of range and an unused one are told apart. -/
def fetch (t : Table α) (d : Nat) : Except Fault α :=
  if d < descriptorLimit then
    match t.get? d with
    | some payload => .ok payload
    | none => .error .descriptorUnused
  else .error .descriptorOutOfRange

/-- The descriptors in use with their payloads, lowest first. -/
def entries (t : Table α) : List (Nat × α) :=
  (List.range descriptorLimit).filterMap fun d => (t.slot d).map fun payload => (d, payload)

/-! ## Writing -/

/-- Give a payload the lowest free descriptor; a full table refuses. -/
def allocate (t : Table α) (payload : α) : Except Fault Nat × Table α :=
  match t.lowestFree with
  | none => (.error .descriptorsFull, t)
  | some d =>
    let occupied := t.occupied.set d
    (.ok d,
      { occupied
        slots := t.slots.setIfInBounds d (some payload)
        lowestFree := occupied.nextClear? (d + 1) })

/-- Replace the payload of a descriptor in use, returning the old one. -/
def replace? (t : Table α) (d : Nat) (payload : α) : Option α × Table α :=
  match t.get? d with
  | none => (none, t)
  | some old => (some old, { t with slots := t.slots.setIfInBounds d (some payload) })

/-- The lowest free slot once {lit}`d` is free as well. -/
def lowestWith (lowestFree : Option Nat) (d : Nat) : Nat :=
  match lowestFree with
  | none => d
  | some lowest => min lowest d

/-- Free a descriptor and hand back its payload; an unused descriptor changes nothing. -/
def release? (t : Table α) (d : Nat) : Option α × Table α :=
  if t.isAllocated d then
    (t.slot d,
      { occupied := t.occupied.clear d
        slots := t.slots.setIfInBounds d none
        lowestFree := some (lowestWith t.lowestFree d) })
  else (none, t)

/--
Free a descriptor and hand back its payload; a descriptor out of range and an
unused one are told apart.
-/
def release (t : Table α) (d : Nat) : Except Fault α × Table α :=
  if d < descriptorLimit then
    match t.release? d with
    | (some payload, t') => (.ok payload, t')
    | (none, t') => (.error .descriptorUnused, t')
  else (.error .descriptorOutOfRange, t)

/-- Free every descriptor. -/
def clear (t : Table α) : Table α where
  occupied := t.occupied.clearAll
  slots := Vector.replicate descriptorLimit none
  lowestFree := some 0

/-! ## Refused operations -/

/-- A full table refuses a payload and stays as it is. -/
theorem allocate_of_full {t : Table α} (h : t.lowestFree = none) (payload : α) :
    t.allocate payload = (.error .descriptorsFull, t) := by
  simp [allocate, h]

/-- A table that is not full hands out its lowest free descriptor. -/
theorem allocate_fst {t : Table α} {d : Nat} (h : t.lowestFree = some d) (payload : α) :
    (t.allocate payload).1 = .ok d := by
  simp [allocate, h]

/-- Releasing a descriptor that is not in use changes nothing. -/
theorem release?_of_not_isAllocated {t : Table α} {d : Nat}
    (h : t.isAllocated d = false) : t.release? d = (none, t) := by
  simp [release?, h]

/-- A descriptor at or above the limit is out of range for every table. -/
theorem fetch_of_le (t : Table α) {d : Nat} (h : descriptorLimit ≤ d) :
    t.fetch d = .error .descriptorOutOfRange := by
  simp [fetch, Nat.not_lt.mpr h]

/-- Releasing a descriptor at or above the limit fails and changes nothing. -/
theorem release_of_le (t : Table α) {d : Nat} (h : descriptorLimit ≤ d) :
    t.release d = (.error .descriptorOutOfRange, t) := by
  simp [release, Nat.not_lt.mpr h]

end Table
end DeviceLayer
