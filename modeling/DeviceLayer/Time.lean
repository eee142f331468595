/-!
# Points in time

Clocks of the layer count in 64 bits.  A point too far ahead is cut at the last
one that can be written, so a deadline never wraps into the past.

Main results:

- Theorem {lit}`Time.toNat_after`: the later point is the sum, cut at the end of time.
- Theorem {lit}`Time.le_after`: no point lies before the one it is counted from.
- Theorem {lit}`Time.after_afterTimes`: one distance after the {lit}`n`th point is the
  next point, also at the end of time.
-/

namespace DeviceLayer

/-- A reading of a clock, or a distance between two readings. -/
abbrev Time := UInt64

namespace Time

/-- The last point in time, as a number. -/
def last : Nat :=
  UInt64.size - 1

/-- The point {lit}`distance` after {lit}`start`, or the last one. -/
def after (start distance : Time) : Time :=
  UInt64.ofNat (min last (start.toNat + distance.toNat))

/-- The later point is the sum, cut at the end of time. -/
theorem toNat_after (start distance : Time) :
    (after start distance).toNat = min last (start.toNat + distance.toNat) := by
  have hlt : min last (start.toNat + distance.toNat) < 2 ^ 64 := by
    simp only [last, UInt64.size]
    omega
  exact UInt64.toNat_ofNat_of_lt' hlt

/-- No point lies before the one it is counted from. -/
theorem le_after (start distance : Time) : start ≤ after start distance := by
  have hstart : start.toNat < 2 ^ 64 := start.toNat_lt
  rw [UInt64.le_iff_toNat_le, toNat_after]
  simp only [last, UInt64.size]
  omega

/-- A larger distance after a later point leads to a later one. -/
theorem after_le_after {start start' distance distance' : Time} (hstart : start ≤ start')
    (hdistance : distance ≤ distance') : start.after distance ≤ start'.after distance' := by
  rw [UInt64.le_iff_toNat_le] at hstart hdistance ⊢
  rw [toNat_after, toNat_after]
  omega

/-! ## Points at equal distances -/

/-- The point {lit}`n` distances after {lit}`start`, or the last one. -/
def afterTimes (start : Time) (n : Nat) (distance : Time) : Time :=
  UInt64.ofNat (min last (start.toNat + n * distance.toNat))

theorem toNat_afterTimes (start : Time) (n : Nat) (distance : Time) :
    (start.afterTimes n distance).toNat = min last (start.toNat + n * distance.toNat) := by
  have hle : min last (start.toNat + n * distance.toNat) ≤ last := Nat.min_le_left ..
  exact UInt64.toNat_ofNat_of_lt' (Nat.lt_of_le_of_lt hle (by decide))

@[simp]
theorem afterTimes_zero (start distance : Time) : start.afterTimes 0 distance = start := by
  have hle : start.toNat ≤ last := Nat.le_of_lt_succ start.toNat_lt
  apply UInt64.toNat_inj.mp
  rw [toNat_afterTimes, Nat.zero_mul, Nat.add_zero, Nat.min_eq_right hle]

@[simp]
theorem afterTimes_one (start distance : Time) :
    start.afterTimes 1 distance = start.after distance := by
  rw [afterTimes, after, Nat.one_mul]

/-- One distance after the {lit}`n`th point is the next point, also at the end of time. -/
theorem after_afterTimes (start : Time) (n : Nat) (distance : Time) :
    (start.afterTimes n distance).after distance = start.afterTimes (n + 1) distance := by
  apply UInt64.toNat_inj.mp
  rw [toNat_after, toNat_afterTimes, toNat_afterTimes, Nat.add_mul, Nat.one_mul]
  omega

end Time
end DeviceLayer
