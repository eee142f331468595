import DeviceLayer.Event.Basic
import DeviceLayer.Limits

/-!
# The edge buffer

A ring of fixed capacity holds the edges that were not read yet.  An edge that
arrives while the ring is full is dropped, so that older edges are never lost.
Cells outside the held stretch keep stale values, which nothing reads.

Main results:

- Theorem {lit}`EdgeBuffer.toList_push`: a value is added behind the others, or
  dropped if the ring is full.
- Theorem {lit}`EdgeBuffer.read_fst`: reading shows the oldest value.
- Theorem {lit}`EdgeBuffer.toList_read_take`: taking removes the oldest value.
-/

namespace DeviceLayer

/-- The place after a place, around the end of the ring. -/
def nextPlace (i : Fin edgeLimit) : Fin edgeLimit :=
  ⟨(i.val + 1) % edgeLimit, Nat.mod_lt _ (by decide)⟩

theorem val_nextPlace (i : Fin edgeLimit) : (nextPlace i).val = (i.val + 1) % edgeLimit :=
  rfl

/-- A ring of event values. -/
structure EdgeBuffer where
  cells : Vector EventValue edgeLimit
  /-- Where the next value goes. -/
  writeAt : Fin edgeLimit
  /-- Where the oldest value stands. -/
  readAt : Fin edgeLimit
  /-- Number of values held. -/
  size : Nat
  /-- A ring holds no more than it has cells. -/
  size_le : size ≤ edgeLimit
  /-- The held values reach from the one place to the other. -/
  writeAt_eq : writeAt.val = (readAt.val + size) % edgeLimit
deriving DecidableEq

namespace EdgeBuffer

/-! ## Operations -/

/-- The ring without values. -/
def empty : EdgeBuffer where
  cells := Vector.replicate edgeLimit 0
  writeAt := ⟨0, by decide⟩
  readAt := ⟨0, by decide⟩
  size := 0
  size_le := Nat.zero_le edgeLimit
  writeAt_eq := rfl

/-- The cell {lit}`i` places behind the oldest value, around the end of the ring. -/
def position (b : EdgeBuffer) (i : Nat) : Fin edgeLimit :=
  ⟨(b.readAt.val + i) % edgeLimit, Nat.mod_lt _ (by decide)⟩

/-- The value {lit}`i` places behind the oldest one. -/
def valueAt (b : EdgeBuffer) (i : Nat) : EventValue :=
  b.cells[b.position i]

/-- The values held, oldest first. -/
def toList (b : EdgeBuffer) : List EventValue :=
  (List.range b.size).map b.valueAt

/-- The ring with one more value as the youngest. -/
def store (b : EdgeBuffer) (value : EventValue) (room : b.size < edgeLimit) : EdgeBuffer where
  cells := b.cells.set b.writeAt value
  writeAt := nextPlace b.writeAt
  readAt := b.readAt
  size := b.size + 1
  size_le := room
  writeAt_eq := by
    rw [val_nextPlace, b.writeAt_eq, Nat.mod_add_mod, Nat.add_assoc]

/-- Add a value as the youngest; a full ring drops it and answers so. -/
def push (b : EdgeBuffer) (value : EventValue) : Bool × EdgeBuffer :=
  if room : b.size < edgeLimit then (true, b.store value room) else (false, b)

/-- The ring without its oldest value. -/
def dropOldest (b : EdgeBuffer) (held : b.size ≠ 0) : EdgeBuffer where
  cells := b.cells
  writeAt := b.writeAt
  readAt := nextPlace b.readAt
  size := b.size - 1
  size_le := Nat.le_trans (Nat.sub_le b.size 1) b.size_le
  writeAt_eq := by
    have hsize : 1 + (b.size - 1) = b.size := by omega
    rw [val_nextPlace, Nat.mod_add_mod, Nat.add_assoc, hsize, b.writeAt_eq]

/-- The oldest value; taking removes it. -/
def read (b : EdgeBuffer) (mode : ReadMode) : Option EventValue × EdgeBuffer :=
  if empty : b.size = 0 then (none, b)
  else
    match mode with
    | .peek => (some (b.cells.get b.readAt), b)
    | .take => (some (b.cells.get b.readAt), b.dropOldest empty)

/-! ## The values held -/

@[simp]
theorem toList_empty : empty.toList = [] :=
  rfl

@[simp]
theorem length_toList (b : EdgeBuffer) : b.toList.length = b.size := by
  simp [toList]

/-- Two places less than a ring apart are different cells. -/
theorem position_injective (b : EdgeBuffer) {i j : Nat} (hi : i < edgeLimit) (hj : j < edgeLimit)
    (h : b.position i = b.position j) : i = j := by
  have hval := congrArg Fin.val h
  simp only [position, edgeLimit] at hval hi hj
  omega

/-- The next value goes behind the youngest one. -/
theorem writeAt_eq_position (b : EdgeBuffer) : b.writeAt = b.position b.size :=
  Fin.ext b.writeAt_eq

/-- The oldest value stands at the front. -/
theorem readAt_eq_position (b : EdgeBuffer) : b.readAt = b.position 0 :=
  Fin.ext (Nat.mod_eq_of_lt b.readAt.isLt).symm

/-- Storing a value writes the place behind the youngest and no other. -/
theorem valueAt_store (b : EdgeBuffer) (value : EventValue) (room : b.size < edgeLimit) {i : Nat}
    (hi : i < edgeLimit) :
    (b.store value room).valueAt i = if b.size = i then value else b.valueAt i := by
  change (b.cells.set b.writeAt value)[b.position i] = _
  simp only [writeAt_eq_position]
  by_cases heq : b.size = i
  · subst heq
    simp
  · have hne : (b.position b.size).val ≠ (b.position i).val :=
      fun h => heq (b.position_injective room hi (Fin.ext h))
    simp [valueAt, heq, hne]

/-- The answer to a push is whether there was room. -/
theorem push_fst (b : EdgeBuffer) (value : EventValue) :
    (b.push value).1 = decide (b.size < edgeLimit) := by
  unfold push
  split <;> simp_all

/-- A full ring drops the newcomer. -/
theorem push_of_full {b : EdgeBuffer} (h : edgeLimit ≤ b.size) (value : EventValue) :
    b.push value = (false, b) := by
  simp [push, Nat.not_lt.mpr h]

/-- A value is added behind the others, or dropped if the ring is full. -/
theorem toList_push (b : EdgeBuffer) (value : EventValue) :
    (b.push value).2.toList = if b.size < edgeLimit then b.toList ++ [value] else b.toList := by
  unfold push
  split
  · rename_i room
    have hsize : (b.store value room).size = b.size + 1 := rfl
    have hold : ∀ i ∈ List.range b.size, (b.store value room).valueAt i = b.valueAt i := by
      intro i hi
      have hlt : i < b.size := List.mem_range.mp hi
      rw [valueAt_store _ _ _ (Nat.lt_trans hlt room)]
      simp [Nat.ne_of_gt hlt]
    simp only [toList, hsize, List.range_succ, List.map_append, List.map_cons, List.map_nil]
    rw [List.map_congr_left hold, valueAt_store _ _ _ room]
    simp
  · rfl

/-- Reading shows the oldest value. -/
theorem read_fst (b : EdgeBuffer) (mode : ReadMode) : (b.read mode).1 = b.toList.head? := by
  unfold read
  split
  · rename_i hzero
    simp [toList, hzero]
  · rename_i hpos
    obtain ⟨n, hn⟩ := Nat.exists_eq_succ_of_ne_zero hpos
    have holdest : b.cells.get b.readAt = b.valueAt 0 :=
      congrArg b.cells.get b.readAt_eq_position
    cases mode <;> simp [toList, hn, List.range_succ_eq_map, holdest]

/-- Peeking leaves the ring as it is. -/
@[simp]
theorem read_peek_snd (b : EdgeBuffer) : (b.read .peek).2 = b := by
  unfold read
  split <;> rfl

/-- A read that returns nothing changes nothing. -/
theorem read_snd_of_none {b : EdgeBuffer} {mode : ReadMode} (h : (b.read mode).1 = none) :
    (b.read mode).2 = b := by
  cases mode with
  | peek => exact b.read_peek_snd
  | take =>
      unfold read at h ⊢
      split
      · rfl
      · rename_i held
        simp [held] at h

/-- Without the oldest value every other one moves up a place. -/
theorem valueAt_dropOldest (b : EdgeBuffer) (held : b.size ≠ 0) (i : Nat) :
    (b.dropOldest held).valueAt i = b.valueAt (i + 1) := by
  have hposition : (b.dropOldest held).position i = b.position (i + 1) := by
    apply Fin.ext
    simp only [position, dropOldest, nextPlace, edgeLimit]
    omega
  unfold valueAt
  simp only [hposition]
  rfl

/-- Without the oldest value the others remain in order. -/
theorem toList_dropOldest (b : EdgeBuffer) (held : b.size ≠ 0) :
    (b.dropOldest held).toList = b.toList.tail := by
  have hsize : (b.dropOldest held).size = b.size - 1 := rfl
  have hshift : (b.dropOldest held).valueAt = b.valueAt ∘ Nat.succ :=
    funext (b.valueAt_dropOldest held)
  obtain ⟨n, hn⟩ := Nat.exists_eq_succ_of_ne_zero held
  simp [toList, hsize, hn, hshift, List.range_succ_eq_map]

/-- Taking removes the oldest value. -/
theorem toList_read_take (b : EdgeBuffer) : (b.read .take).2.toList = b.toList.tail := by
  unfold read
  split
  · rename_i hzero
    simp [toList, hzero]
  · rename_i held
    exact b.toList_dropOldest held

end EdgeBuffer
end DeviceLayer
