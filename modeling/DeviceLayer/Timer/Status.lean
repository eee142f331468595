import DeviceLayer.Event.Basic

/-!
# The timer status word

Each timer owns one bit of a 32-bit word.  The bit is raised when the timer
expires and stays raised until the word is taken or the bit is dropped.

Main results:

- Theorems {lit}`TimerStatus.isRaised_raise` and {lit}`TimerStatus.isRaised_drop`:
  raising and dropping touch exactly the given bits.
- Theorem {lit}`TimerStatus.read_fst_eq_none_iff`: nothing is read exactly when
  no bit is raised.
- Theorem {lit}`TimerStatus.read_peek_snd`: peeking leaves the word as it is.
-/

namespace DeviceLayer

/-- The raised bits of all timers. -/
structure TimerStatus where
  word : UInt32
deriving DecidableEq, Repr

namespace TimerStatus

/-- No bit raised. -/
def empty : TimerStatus where
  word := 0

/-- The word whose only bit belongs to timer {lit}`d`. -/
def bit (d : Nat) : UInt32 :=
  1 <<< UInt32.ofNat d

/-- Whether the bit of timer {lit}`d` is raised. -/
def isRaised (s : TimerStatus) (d : Nat) : Bool :=
  s.word.toNat.testBit d

/-- Raise bits. -/
def raise (s : TimerStatus) (bits : UInt32) : TimerStatus where
  word := s.word ||| bits

/-- Drop bits without reporting them. -/
def drop (s : TimerStatus) (bits : UInt32) : TimerStatus where
  word := s.word &&& ~~~bits

/-- The whole word if a bit is raised; taking drops every bit. -/
def read (s : TimerStatus) (mode : ReadMode) : Option EventValue × TimerStatus :=
  let value := if s.word = 0 then none else some s.word.toInt32
  match mode with
  | .peek => (value, s)
  | .take => (value, empty)

/-! ## Single bits -/

/-- The word of timer {lit}`d` has no other bit. -/
theorem testBit_bit {d : Nat} (h : d < 32) (j : Nat) :
    (bit d).toNat.testBit j = decide (d = j) := by
  have hlt : 2 ^ d < 2 ^ 32 := Nat.pow_lt_pow_right (by decide) h
  have hval : (bit d).toNat = 2 ^ d := by
    simp [bit, Nat.shiftLeft_eq, Nat.mod_eq_of_lt h]
    omega
  rw [hval, Nat.testBit_two_pow]

@[simp]
theorem isRaised_empty (d : Nat) : empty.isRaised d = false := by
  simp [isRaised, empty]

/-- No timer beyond the width of the word has a bit. -/
theorem isRaised_of_le (s : TimerStatus) {d : Nat} (h : 32 ≤ d) : s.isRaised d = false := by
  have hlt : s.word.toNat < 2 ^ 32 := s.word.toNat_lt
  exact Nat.testBit_lt_two_pow (Nat.lt_of_lt_of_le hlt (Nat.pow_le_pow_right (by decide) h))

/-- Raising adds exactly the given bits. -/
theorem isRaised_raise (s : TimerStatus) (bits : UInt32) (d : Nat) :
    (s.raise bits).isRaised d = (s.isRaised d || bits.toNat.testBit d) := by
  simp [isRaised, raise, Nat.testBit_or]

/-- Dropping removes exactly the given bits. -/
theorem isRaised_drop (s : TimerStatus) (bits : UInt32) (d : Nat) :
    (s.drop bits).isRaised d = (s.isRaised d && !bits.toNat.testBit d) := by
  by_cases h : d < 32
  · have hnot : (~~~bits).toNat.testBit d = !bits.toNat.testBit d := by
      have := BitVec.getLsbD_not (x := bits.toBitVec) (i := d)
      simp only [h, decide_true, Bool.true_and, BitVec.getLsbD] at this
      exact this
    show (s.word &&& ~~~bits).toNat.testBit d = _
    rw [UInt32.toNat_and, Nat.testBit_and, hnot]
    rfl
  · have hle : 32 ≤ d := Nat.le_of_not_lt h
    simp [isRaised_of_le _ hle]

/-- Of all bits, raising that of timer {lit}`d` touches this one only. -/
theorem isRaised_raise_bit (s : TimerStatus) {d : Nat} (h : d < 32) (j : Nat) :
    (s.raise (bit d)).isRaised j = (s.isRaised j || decide (d = j)) := by
  rw [isRaised_raise, testBit_bit h]

/-- Of all bits, dropping that of timer {lit}`d` touches this one only. -/
theorem isRaised_drop_bit (s : TimerStatus) {d : Nat} (h : d < 32) (j : Nat) :
    (s.drop (bit d)).isRaised j = (s.isRaised j && !decide (d = j)) := by
  rw [isRaised_drop, testBit_bit h]

/-! ## Reading the word -/

/-- Nothing is read exactly when no bit is raised. -/
theorem read_fst_eq_none_iff (s : TimerStatus) (mode : ReadMode) :
    (s.read mode).1 = none ↔ s = empty := by
  cases s
  cases mode <;> simp [read, empty]

/-- Peeking leaves the word as it is. -/
@[simp]
theorem read_peek_snd (s : TimerStatus) : (s.read .peek).2 = s :=
  rfl

/-- Taking returns what peeking shows. -/
theorem read_take_fst (s : TimerStatus) : (s.read .take).1 = (s.read .peek).1 :=
  rfl

end TimerStatus
end DeviceLayer
