import DeviceLayer.Fault

/-!
# The boundary to the virtual machine

The machine sees results of the layer as single 32-bit integers.  A success
crosses as its value, a failure as one sentinel whatever its cause.

Main results:

- Theorem {lit}`Boundary.flatten_error`: every fault crosses as the sentinel.
- Theorem {lit}`Boundary.flatten_ok_of_fits`: a value that fits crosses unchanged.
- Theorem {lit}`Boundary.flatten_ok_of_not_fits`: any other value crosses as the
  largest 32-bit integer.
-/

namespace DeviceLayer
namespace Boundary

/-- The integer that stands for every failure. -/
def failure : Int32 := -1

/-- Whether an integer can be written in 32 bits with sign. -/
def Fits (value : Int) : Prop :=
  Int32.minValue.toInt ≤ value ∧ value ≤ Int32.maxValue.toInt

instance (value : Int) : Decidable (Fits value) :=
  inferInstanceAs (Decidable (_ ∧ _))

/--
The integer that the machine sees of a result.  A value too large for 32 bits
is reported as the largest one, so that a success is not mistaken for a failure.
-/
def flatten (result : Except Fault Int) : Int32 :=
  match result with
  | .ok value => if Fits value then Int32.ofInt value else Int32.maxValue
  | .error _ => failure

@[simp]
theorem flatten_error (fault : Fault) :
    flatten (.error fault) = failure :=
  rfl

theorem flatten_ok_of_fits {value : Int} (h : Fits value) :
    flatten (.ok value) = Int32.ofInt value := by
  simp [flatten, h]

theorem flatten_ok_of_not_fits {value : Int} (h : ¬ Fits value) :
    flatten (.ok value) = Int32.maxValue := by
  simp [flatten, h]

end Boundary
end DeviceLayer
