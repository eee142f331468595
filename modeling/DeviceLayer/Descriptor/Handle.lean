/-!
# Handles of native resources

A driver hands the layer the address of a resource that it owns.  The layer
keeps the address and never looks behind it.  Address zero means "no resource",
so a handle never holds it.

Main results:

- Theorem {lit}`Handle.ofAddress?_eq_none_iff`: only address zero is refused.
- Theorem {lit}`Handle.ofPointer_toPointer`: a handle survives the way to a
  typed pointer and back.
-/

namespace DeviceLayer

/-- Address of a resource of kind {lit}`ρ`, never zero. -/
structure Pointer (ρ : Type) where
  address : UInt64
  address_ne_zero : address ≠ 0
deriving DecidableEq

/-- Address of a driver-owned resource whose kind is not known to the layer. -/
structure Handle where
  address : UInt64
  address_ne_zero : address ≠ 0
deriving DecidableEq

namespace Handle

/-- Wrap an address; address zero is refused. -/
def ofAddress? (address : UInt64) : Option Handle :=
  if h : address ≠ 0 then some ⟨address, h⟩ else none

/-- Forget the kind of a resource. -/
def ofPointer {ρ : Type} (pointer : Pointer ρ) : Handle :=
  ⟨pointer.address, pointer.address_ne_zero⟩

/-- Read a handle as the address of a resource of kind {lit}`ρ`. -/
def toPointer (ρ : Type) (handle : Handle) : Pointer ρ :=
  ⟨handle.address, handle.address_ne_zero⟩

/-- Only address zero is refused. -/
theorem ofAddress?_eq_none_iff (address : UInt64) : ofAddress? address = none ↔ address = 0 := by
  simp [ofAddress?]

/-- A wrapped address is the address that was given. -/
theorem address_of_ofAddress? {address : UInt64} {handle : Handle}
    (h : ofAddress? address = some handle) : handle.address = address := by
  unfold ofAddress? at h
  split at h
  · exact (Option.some.inj h) ▸ rfl
  · cases h

@[simp]
theorem ofPointer_toPointer (ρ : Type) (handle : Handle) :
    ofPointer (handle.toPointer ρ) = handle :=
  rfl

end Handle
end DeviceLayer
