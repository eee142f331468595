/-!
# Bits of a 64-bit word

A word is read as the set of the indices below 64 whose bit is set.  The
operations here are those that a bitmap of many words is built from.

Main results:

- Theorem {lit}`Word.hasBit_eq_testBit`: a bit read from the word is that bit of
  its value.
- Theorems {lit}`Word.hasBit_or_bit` and {lit}`Word.hasBit_and_not_bit`: setting
  and clearing a bit touch no other bit.
- Theorem {lit}`Word.lowestClear?_eq_some_iff`: the search finds the lowest
  index whose bit is clear.
-/

namespace DeviceLayer
namespace Word

/-! ## Operations -/

/-- The word whose only set bit is at {lit}`index`. -/
def bit (index : Nat) : UInt64 :=
  1 <<< UInt64.ofNat index

/-- The word whose set bits are exactly those below {lit}`index`. -/
def below (index : Nat) : UInt64 :=
  bit index - 1

/-- Whether the bit at {lit}`index` is set. -/
def hasBit (word : UInt64) (index : Nat) : Bool :=
  word &&& bit index != 0

/-- The number of set bits. -/
def ones (word : UInt64) : Nat :=
  (List.range 64).countP (hasBit word)

/-- The lowest index whose bit is clear. -/
def lowestClear? (word : UInt64) : Option Nat :=
  (List.range 64).find? fun index => !hasBit word index

/-! ## Bits as a set of indices -/

theorem toNat_bit {index : Nat} (h : index < 64) : (bit index).toNat = 1 <<< index := by
  have hlt : 2 ^ index < 2 ^ 64 := Nat.pow_lt_pow_right (by decide) h
  simp [bit, Nat.shiftLeft_eq, Nat.mod_eq_of_lt h]
  omega

/-- A single bit, as a number, has that bit and no other. -/
theorem testBit_one_shiftLeft (i j : Nat) : (1 <<< i).testBit j = decide (i = j) := by
  rw [Nat.one_shiftLeft, Nat.testBit_two_pow]

/-- Masking a number with a single bit gives zero exactly when that bit is clear. -/
theorem and_bit_eq_zero_iff (value index : Nat) :
    value &&& 1 <<< index = 0 ↔ value.testBit index = false := by
  constructor
  · intro h
    have hbit := congrArg (Nat.testBit · index) h
    simpa [Nat.testBit_and, testBit_one_shiftLeft] using hbit
  · intro h
    apply Nat.eq_of_testBit_eq
    intro j
    rw [Nat.testBit_and, testBit_one_shiftLeft, Nat.zero_testBit]
    by_cases hj : index = j
    · subst hj
      simp [h]
    · simp [hj]

/-- Reading a bit of the word reads that bit of its value. -/
theorem hasBit_eq_testBit (word : UInt64) {index : Nat} (h : index < 64) :
    hasBit word index = word.toNat.testBit index := by
  have hzero : (word &&& bit index = 0) ↔ word.toNat.testBit index = false := by
    rw [← UInt64.toNat_inj, UInt64.toNat_and, toNat_bit h]
    exact and_bit_eq_zero_iff ..
  rw [Bool.eq_iff_iff, hasBit, bne_iff_ne, ne_eq, hzero, Bool.not_eq_false]

@[simp]
theorem hasBit_zero (index : Nat) : hasBit 0 index = false := by
  simp [hasBit]

/-- The union of two words holds the bits of both. -/
theorem hasBit_or (word other : UInt64) {index : Nat} (h : index < 64) :
    hasBit (word ||| other) index = (hasBit word index || hasBit other index) := by
  rw [hasBit_eq_testBit _ h, hasBit_eq_testBit _ h, hasBit_eq_testBit _ h, UInt64.toNat_or,
    Nat.testBit_or]

/-- Setting a bit sets that bit and no other. -/
theorem hasBit_or_bit (word : UInt64) {i j : Nat} (hi : i < 64) (hj : j < 64) :
    hasBit (word ||| bit i) j = (hasBit word j || decide (i = j)) := by
  rw [hasBit_or _ _ hj, hasBit_eq_testBit (bit i) hj, toNat_bit hi, testBit_one_shiftLeft]

/-- Clearing a bit clears that bit and no other. -/
theorem hasBit_and_not_bit (word : UInt64) {i j : Nat} (hi : i < 64) (hj : j < 64) :
    hasBit (word &&& ~~~bit i) j = (hasBit word j && !decide (i = j)) := by
  have hnot : (~~~bit i).toNat.testBit j = !decide (i = j) := by
    have := BitVec.getLsbD_not (x := (bit i).toBitVec) (i := j)
    simp only [hj, decide_true, Bool.true_and, BitVec.getLsbD] at this
    rw [← testBit_one_shiftLeft, ← toNat_bit hi]
    exact this
  rw [hasBit_eq_testBit _ hj, hasBit_eq_testBit _ hj, UInt64.toNat_and, Nat.testBit_and, hnot]

/-- The low mask holds exactly the indices below its bound. -/
theorem hasBit_below {i j : Nat} (hi : i < 64) (hj : j < 64) :
    hasBit (below i) j = decide (j < i) := by
  have hle : 1 ≤ bit i := by
    rw [UInt64.le_iff_toNat_le, toNat_bit hi, Nat.one_shiftLeft]
    exact Nat.one_le_two_pow
  have hval : (below i).toNat = 2 ^ i - 1 := by
    rw [below, UInt64.toNat_sub_of_le _ _ hle, toNat_bit hi, Nat.one_shiftLeft]
    rfl
  rw [hasBit_eq_testBit _ hj, hval, Nat.testBit_two_pow_sub_one]

/-- The search finds the lowest index whose bit is clear. -/
theorem lowestClear?_eq_some_iff (word : UInt64) (index : Nat) :
    lowestClear? word = some index ↔
      index < 64 ∧ hasBit word index = false ∧ ∀ j < index, hasBit word j = true := by
  simp [lowestClear?, List.find?_range_eq_some]
  exact and_left_comm

/-- The search fails exactly when every bit is set. -/
theorem lowestClear?_eq_none_iff (word : UInt64) :
    lowestClear? word = none ↔ ∀ j < 64, hasBit word j = true := by
  simp [lowestClear?]

end Word
end DeviceLayer
