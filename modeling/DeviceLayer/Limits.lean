/-!
# Limits of the device layer

Every table, pool and buffer of the layer has a fixed capacity.  The capacities
are collected here, so that a reader sees the size of the whole layer at once.
-/

namespace DeviceLayer

/-- Number of slots of a descriptor table. -/
abbrev descriptorLimit : Nat := 32

/-- Number of nodes of the wait pool, so the largest number of live waits. -/
abbrev waitLimit : Nat := 4

/-- Number of pin edges that can be buffered. -/
abbrev edgeLimit : Nat := 4

/-- Number of pins that can be watched; each takes two bits of a 64-bit mask. -/
abbrev pinLimit : UInt32 := 32

/--
Whether the caller runs inside an interrupt handler.  A hosted build has no
interrupts, so every call comes from a thread.
-/
def inInterrupt : Bool := false

end DeviceLayer
