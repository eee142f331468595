import DeviceLayer.Event.Wait
import DeviceLayer.Limits

/-!
# The pool of nodes

Waits live in a fixed pool of nodes that point to each other by index.  This
module reads and writes single nodes; the lists threaded through the pool are
built on top of it.

Main results:

- Theorem {lit}`Pool.get_put`: a written node is read back, and the others are
  unchanged.
- Theorem {lit}`Pool.wait_link`: relinking a node changes no wait.
-/

namespace DeviceLayer

/-- Index of a node. -/
abbrev Slot := Fin waitLimit

/-- A wait and the next node of its list. -/
structure Node where
  wait : Wait
  next : Option Slot
deriving DecidableEq

/-- All nodes. -/
abbrev Pool := Vector Node waitLimit

namespace Pool

/-- The node after {lit}`slot` in a pool where every node links to its neighbour. -/
def neighbour (slot : Slot) : Option Slot :=
  if h : slot.val + 1 < waitLimit then some ⟨slot.val + 1, h⟩ else none

/-- Blank nodes, each linked to its neighbour. -/
def fresh : Pool :=
  Vector.ofFn fun slot => ⟨.blank, neighbour slot⟩

/-- Read a node. -/
def get (pool : Pool) (slot : Slot) : Node :=
  pool[slot]

/-- Write a node. -/
def put (pool : Pool) (slot : Slot) (node : Node) : Pool :=
  pool.set slot node

/-- Let a node point to another one. -/
def link (pool : Pool) (slot : Slot) (next : Option Slot) : Pool :=
  pool.put slot { pool.get slot with next }

/-- A written node is read back, and the others are unchanged. -/
theorem get_put (pool : Pool) (slot other : Slot) (node : Node) :
    (pool.put slot node).get other = if slot = other then node else pool.get other := by
  unfold get put
  by_cases heq : slot = other
  · subst heq
    simp
  · have hne : slot.val ≠ other.val := fun h => heq (Fin.ext h)
    simp [heq, hne]

@[simp]
theorem get_put_self (pool : Pool) (slot : Slot) (node : Node) :
    (pool.put slot node).get slot = node := by
  simp [get_put]

/-- Relinking a node changes no wait. -/
theorem wait_link (pool : Pool) (slot other : Slot) (next : Option Slot) :
    ((pool.link slot next).get other).wait = (pool.get other).wait := by
  rw [link, get_put]
  by_cases heq : slot = other
  · subst heq
    simp
  · simp [heq]

/-- Relinking a node changes no other link. -/
theorem next_link_of_ne (pool : Pool) {slot other : Slot} (hne : slot ≠ other)
    (next : Option Slot) : ((pool.link slot next).get other).next = (pool.get other).next := by
  rw [link, get_put]
  simp [hne]

end Pool
end DeviceLayer
