import DeviceLayer.Event.Pool

/-!
# The list of waits

Live waits stand in a singly linked list in order of registration.  Its nodes
come from a fixed pool; unused nodes form a second list through the same links,
so that registering and withdrawing a wait never allocate.

Main results:

- Theorem {lit}`WaitList.waits_empty`: a new list holds no wait.
- Theorem {lit}`WaitList.push?_eq_none_iff`: a wait is refused exactly when no
  node is unused.
-/

namespace DeviceLayer

/-- The live waits in order of registration, and the unused nodes. -/
structure WaitList where
  nodes : Pool
  /-- The oldest live wait. -/
  head : Option Slot
  /-- The youngest live wait. -/
  tail : Option Slot
  /-- The first unused node. -/
  free : Option Slot
  /-- Number of live waits. -/
  size : Nat
  /-- The number last given out in sequence. -/
  lastNumber : EventNumber
deriving DecidableEq

namespace WaitList

/-! ## Reading -/

/-- A list without waits, every node unused. -/
def empty : WaitList where
  nodes := .fresh
  head := none
  tail := none
  free := some 0
  size := 0
  lastNumber := noEvent

/-- The wait at a node. -/
def wait (l : WaitList) (slot : Slot) : Wait :=
  (l.nodes.get slot).wait

/-- The link of a node. -/
def next (l : WaitList) (slot : Slot) : Option Slot :=
  (l.nodes.get slot).next

/-- The nodes met by following links from {lit}`start`, at most {lit}`fuel` of them. -/
def chain (l : WaitList) (fuel : Nat) (start : Option Slot) : List Slot :=
  match fuel, start with
  | 0, _ => []
  | _, none => []
  | fuel + 1, some slot => slot :: l.chain fuel (l.next slot)

/-- The nodes of the live waits, oldest first.  A list cannot be longer than the pool. -/
def live (l : WaitList) : List Slot :=
  l.chain waitLimit l.head

/-- The unused nodes, next to be used first. -/
def spare (l : WaitList) : List Slot :=
  l.chain waitLimit l.free

/-- The live waits, oldest first. -/
def waits (l : WaitList) : List Wait :=
  l.live.map l.wait

/--
The first of the given nodes whose wait satisfies {lit}`p`, with the node before
it; {lit}`before` precedes the first of them.
-/
def locateAmong (l : WaitList) (p : Wait → Bool) (before : Option Slot) :
    List Slot → Option (Option Slot × Slot)
  | [] => none
  | slot :: rest =>
    if p (l.wait slot) then some (before, slot) else l.locateAmong p (some slot) rest

/-- The oldest live wait that satisfies {lit}`p`, with the node before it. -/
def locate (l : WaitList) (p : Wait → Bool) : Option (Option Slot × Slot) :=
  l.locateAmong p none l.live

/-- Whether a live wait has this number. -/
def carries (l : WaitList) (number : EventNumber) : Bool :=
  l.waits.any fun wait => wait.number == number

/-- Whether a live wait has this number and type. -/
def holds (l : WaitList) (number : EventNumber) (type : EventType) : Bool :=
  l.waits.any fun wait => wait.isFor number type

/-! ## Adding and removing -/

/-- Add a pending wait as the youngest; refused when no node is unused. -/
def push? (l : WaitList) (number : EventNumber) (type : EventType) : Option WaitList :=
  match l.free with
  | none => none
  | some slot =>
    let nodes := l.nodes.put slot ⟨.registered number type, none⟩
    some
      { l with
        nodes := match l.tail with
          | some last => nodes.link last (some slot)
          | none => nodes
        head := match l.tail with
          | some _ => l.head
          | none => some slot
        tail := some slot
        free := l.next slot
        size := l.size + 1 }

/-- Take the node {lit}`slot`, which follows {lit}`before`, out of the list and into the pool. -/
def remove (l : WaitList) (before : Option Slot) (slot : Slot) : WaitList :=
  let after := l.next slot
  let nodes := match before with
    | some previous => l.nodes.link previous after
    | none => l.nodes
  { l with
    nodes := nodes.put slot ⟨.blank, l.free⟩
    head := match before with
      | some _ => l.head
      | none => after
    tail := if l.tail = some slot then before else l.tail
    free := some slot
    size := l.size - 1 }

/-! ## Posting -/

/-- Record a post at one node. -/
def signal (l : WaitList) (slot : Slot) (value : EventValue) : WaitList :=
  { l with nodes := l.nodes.put slot ⟨(l.wait slot).signal value, l.next slot⟩ }

/--
The nodes that a post reaches: every live wait of the type if everyone is
addressed, else the oldest one with that number and type.
-/
def targets (l : WaitList) (recipient : Recipient) (type : EventType) : List Slot :=
  if recipient = everyone then
    l.live.filter fun slot => (l.wait slot).type == type
  else
    (l.live.find? fun slot => (l.wait slot).isFor recipient type).toList

/-- Record a post at every node that it reaches. -/
def post (l : WaitList) (recipient : Recipient) (type : EventType) (value : EventValue) :
    WaitList :=
  (l.targets recipient type).foldl (fun l slot => l.signal slot value) l

/-! ## Numbering -/

/--
The first number from {lit}`candidate` on that is not zero and that no live wait
carries, searched for at most {lit}`fuel` steps.
-/
def firstUnused (l : WaitList) (fuel : Nat) (candidate : EventNumber) : EventNumber :=
  match fuel with
  | 0 => candidate
  | fuel + 1 =>
    if candidate ≠ noEvent ∧ l.carries candidate = false then candidate
    else l.firstUnused fuel (candidate + 1)

/--
The next number in sequence.  Zero and the numbers of the live waits are all
that can be in the way, so the search needs one step more than there are nodes.
-/
def nextNumber (l : WaitList) : EventNumber :=
  l.firstUnused (waitLimit + 1) (l.lastNumber + 1)

/-! ## First facts -/

@[simp]
theorem waits_empty : empty.waits = [] :=
  rfl

@[simp]
theorem size_empty : empty.size = 0 :=
  rfl

/-- A wait is refused exactly when no node is unused. -/
theorem push?_eq_none_iff (l : WaitList) (number : EventNumber) (type : EventType) :
    l.push? number type = none ↔ l.free = none := by
  unfold push?
  split <;> simp_all

end WaitList
end DeviceLayer
