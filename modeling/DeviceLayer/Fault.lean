/-!
# Faults

The reasons for which an operation of the layer can fail.  Each fault has a
numeric code: codes from 11000 belong to descriptors, from 12000 to waits, from
13000 to pins and from 13100 to timers.

Main results:

- Theorem {lit}`Fault.code_injective`: two faults with one code are the same.
- Theorem {lit}`Fault.isErr_iff`: every fault but the absent one is an error.
-/

namespace DeviceLayer

/-- Why an operation failed. -/
inductive Fault where
  /-- Nothing failed. -/
  | noFault
  /-- Every slot of the descriptor table is taken. -/
  | descriptorsFull
  /-- The descriptor lies outside the table. -/
  | descriptorOutOfRange
  /-- The descriptor's slot holds nothing. -/
  | descriptorUnused
  /-- Every node of the wait pool is taken. -/
  | waitPoolEmpty
  /-- The requestor already waits on this event type. -/
  | alreadyWaiting
  /-- No live wait has this number and type. -/
  | noSuchWait
  /-- An interrupt handler tried to register a wait. -/
  | registeredInInterrupt
  /-- The requestor has no event number. -/
  | requestorWithoutNumber
  /-- The pin cannot be watched. -/
  | pinOutOfRange
  /-- Every timer slot is taken. -/
  | timersFull
  /-- The delay of a timer is zero. -/
  | zeroDelay
deriving DecidableEq, Repr

namespace Fault

/-- The numeric code of a fault. -/
def code : Fault → UInt16
  | noFault => 0
  | descriptorsFull => 11001
  | descriptorOutOfRange => 11002
  | descriptorUnused => 11003
  | waitPoolEmpty => 12001
  | alreadyWaiting => 12002
  | noSuchWait => 12003
  | registeredInInterrupt => 12004
  | requestorWithoutNumber => 12005
  | pinOutOfRange => 13001
  | timersFull => 13101
  | zeroDelay => 13102

/-- The absent fault stands for success. -/
def isOk (fault : Fault) : Bool :=
  fault == noFault

/-- Every other fault is an error. -/
def isErr (fault : Fault) : Bool :=
  fault != noFault

/-- Two faults with one code are the same. -/
theorem code_injective {a b : Fault} (h : a.code = b.code) : a = b := by
  revert h
  cases a <;> cases b <;> decide

/-- Every fault but the absent one is an error. -/
theorem isErr_iff (fault : Fault) : fault.isErr = true ↔ fault ≠ noFault := by
  simp [isErr]

end Fault

end DeviceLayer
