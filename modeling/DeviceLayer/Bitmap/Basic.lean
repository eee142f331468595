import DeviceLayer.Bitmap.Word

/-!
# Bitmaps

A bitmap holds a set of indices below its capacity.  Index {lit}`i` lives at bit
{lit}`i % 64` of word {lit}`i / 64`.  Storage beyond the capacity is padding: no
operation writes it and no search reports it.

Main results:

- Theorem {lit}`Bitmap.capacity_empty`: the capacity is the wanted one, cut at
  what the words can hold.
- Theorems {lit}`Bitmap.capacity_set`, {lit}`Bitmap.capacity_clear` and
  {lit}`Bitmap.capacity_clearAll`: no operation changes the capacity.
-/

namespace DeviceLayer

/-- Number of 64-bit words that hold {lit}`bits` bits. -/
def wordsFor (bits : Nat) : Nat :=
  (bits + 63) / 64

/-- A set of indices below {lit}`capacity`, held in {lit}`W` words of 64 bits. -/
structure Bitmap (W : Nat) where
  /-- Number of indices that can be members. -/
  capacity : Nat
  /-- The bits, lowest index first. -/
  words : Vector UInt64 W
  /-- Every index has a bit. -/
  capacity_le : capacity ≤ 64 * W
deriving DecidableEq

namespace Bitmap

variable {W : Nat}

/-- An index below the capacity lies in one of the words. -/
theorem word_lt (b : Bitmap W) {index : Nat} (h : index < b.capacity) : index / 64 < W := by
  have := b.capacity_le
  omega

/-! ## Operations -/

/-- The empty bitmap with the wanted capacity, or as much of it as {lit}`W` words hold. -/
def empty (wanted : Nat) : Bitmap W where
  capacity := min wanted (64 * W)
  words := Vector.replicate W 0
  capacity_le := Nat.min_le_right wanted (64 * W)

/-- Whether an index is a member; an index out of range is not. -/
def get (b : Bitmap W) (index : Nat) : Bool :=
  if h : index < b.capacity then
    have := b.word_lt h
    Word.hasBit b.words[index / 64] (index % 64)
  else false

/-- Rewrite the word that holds {lit}`index`; an index out of range changes nothing. -/
def updateWord (b : Bitmap W) (index : Nat) (f : UInt64 → UInt64) : Bitmap W :=
  if h : index < b.capacity then
    have hw := b.word_lt h
    { b with words := b.words.set (index / 64) (f b.words[index / 64]) hw }
  else b

/-- Add an index; an index out of range is ignored. -/
def set (b : Bitmap W) (index : Nat) : Bitmap W :=
  b.updateWord index fun word => word ||| Word.bit (index % 64)

/-- Remove an index; an index out of range is ignored. -/
def clear (b : Bitmap W) (index : Nat) : Bitmap W :=
  b.updateWord index fun word => word &&& ~~~Word.bit (index % 64)

/-- Add every index from {lit}`first` up to, but not including, {lit}`past`. -/
def setRange (b : Bitmap W) (first past : Nat) : Bitmap W :=
  (List.range' first (min past b.capacity - first)).foldl set b

/-- Remove every index. -/
def clearAll (b : Bitmap W) : Bitmap W :=
  { b with words := Vector.replicate W 0 }

/-- Number of set bits in all words. -/
def ones (b : Bitmap W) : Nat :=
  b.words.toList.foldr (fun word count => Word.ones word + count) 0

/-- First clear bit of a list of words whose first bit has index {lit}`base`. -/
def firstClear? (base : Nat) : List UInt64 → Option Nat
  | [] => none
  | word :: rest =>
    match Word.lowestClear? word with
    | some offset => some (base + offset)
    | none => firstClear? (base + 64) rest

/--
The lowest index at or above {lit}`start` that is not a member.  The bits below
{lit}`start` in its word count as set, and a clear bit of the padding is no answer.
-/
def nextClear? (b : Bitmap W) (start : Nat) : Option Nat :=
  let found :=
    match b.words.toList.drop (start / 64) with
    | [] => none
    | word :: rest => firstClear? (start / 64 * 64) ((word ||| Word.below (start % 64)) :: rest)
  found.filter (· < b.capacity)

/-! ## Capacity -/

@[simp]
theorem capacity_empty (wanted : Nat) :
    (empty wanted : Bitmap W).capacity = min wanted (64 * W) :=
  rfl

@[simp]
theorem capacity_updateWord (b : Bitmap W) (index : Nat) (f : UInt64 → UInt64) :
    (b.updateWord index f).capacity = b.capacity := by
  unfold updateWord
  split <;> rfl

@[simp]
theorem capacity_set (b : Bitmap W) (index : Nat) : (b.set index).capacity = b.capacity :=
  capacity_updateWord ..

@[simp]
theorem capacity_clear (b : Bitmap W) (index : Nat) : (b.clear index).capacity = b.capacity :=
  capacity_updateWord ..

@[simp]
theorem capacity_clearAll (b : Bitmap W) : b.clearAll.capacity = b.capacity :=
  rfl

/-! ## Indices out of range -/

/-- An index at or above the capacity is never a member. -/
theorem get_of_le (b : Bitmap W) {index : Nat} (h : b.capacity ≤ index) :
    b.get index = false := by
  simp [get, Nat.not_lt.mpr h]

/-- Adding an index at or above the capacity changes nothing. -/
theorem set_of_le (b : Bitmap W) {index : Nat} (h : b.capacity ≤ index) : b.set index = b := by
  simp [set, updateWord, Nat.not_lt.mpr h]

/-- Removing an index at or above the capacity changes nothing. -/
theorem clear_of_le (b : Bitmap W) {index : Nat} (h : b.capacity ≤ index) :
    b.clear index = b := by
  simp [clear, updateWord, Nat.not_lt.mpr h]

end Bitmap
end DeviceLayer
