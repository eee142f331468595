import DeviceLayer.Event.Basic

/-!
# Pin edges

A pin interrupt reports an edge of one pin.  As an event value the pin is
shifted up by two bits and the edge is written into them: 1 for a falling edge,
2 for a rising one.  The word is then read with sign.

Main results:

- Theorem {lit}`PinEdge.decode_edge`: the lowest bit alone tells the edges apart.
- Theorem {lit}`PinEdge.toNat_decode_pin`: the pin is the value without its two
  low bits.
- Theorem {lit}`PinEdge.decode_encode`: an edge whose pin leaves room for the two
  bits comes back.
-/

namespace DeviceLayer

/-- Direction in which a pin changed its level. -/
inductive Edge where
  | fall
  | rise
deriving DecidableEq, Repr

namespace Edge

/-- The two low bits that stand for an edge. -/
def code : Edge → UInt32
  | fall => 1
  | rise => 2

/-- Position of an edge among the two mask bits of its pin. -/
def offset : Edge → Nat
  | fall => 0
  | rise => 1

theorem toNat_code_lt (edge : Edge) : edge.code.toNat < 4 := by
  cases edge <;> decide

end Edge

/-- An edge of one pin. -/
structure PinEdge where
  pin : UInt32
  edge : Edge
deriving DecidableEq, Repr

namespace PinEdge

/-- Pack an edge into an event value.  The two highest bits of the pin are lost. -/
def encode (e : PinEdge) : EventValue :=
  (e.pin <<< 2 ||| e.edge.code).toInt32

/-- Unpack an event value. -/
def decode (value : EventValue) : PinEdge where
  pin := value.toUInt32 >>> 2
  edge := if value.toUInt32 &&& 1 = 0 then .rise else .fall

/-- The lowest bit alone tells the edges apart. -/
theorem decode_edge (value : EventValue) :
    (decode value).edge = .rise ↔ value.toUInt32 &&& 1 = 0 := by
  simp [decode]

/-- The pin is the value without its two low bits. -/
theorem toNat_decode_pin (value : EventValue) :
    (decode value).pin.toNat = value.toUInt32.toNat / 4 := by
  simp [decode, Nat.shiftRight_eq_div_pow]

/-- A packed edge is four times the pin, as far as it fits, and the bits of the edge. -/
theorem toNat_encode (e : PinEdge) :
    e.encode.toUInt32.toNat = 4 * e.pin.toNat % UInt32.size + e.edge.code.toNat := by
  have hcode : e.edge.code.toNat < 2 ^ 2 := e.edge.toNat_code_lt
  have hshift : 4 * e.pin.toNat % UInt32.size = 2 ^ 2 * (e.pin.toNat % 2 ^ 30) := by
    simp only [UInt32.size]
    omega
  rw [hshift, Nat.two_pow_add_eq_or_of_lt hcode, ← hshift]
  simp [encode, Nat.shiftLeft_eq, Nat.mul_comm]

theorem encode_and_one (e : PinEdge) : e.encode.toUInt32 &&& 1 = 0 ↔ e.edge = .rise := by
  rw [← UInt32.toNat_inj, UInt32.toNat_and, toNat_encode]
  change (4 * e.pin.toNat % 4294967296 + e.edge.code.toNat) &&& 1 = 0 ↔ _
  rw [Nat.and_one_is_mod]
  cases e.edge with
  | fall =>
      simp only [Edge.code, UInt32.toNat_one, reduceCtorEq, iff_false]
      omega
  | rise =>
      simp only [Edge.code, UInt32.reduceToNat, iff_true]
      omega

/-- The direction of an edge always comes back. -/
theorem decode_encode_edge (e : PinEdge) : (decode e.encode).edge = e.edge := by
  simp only [decode, encode_and_one]
  cases e.edge <;> rfl

/-- An edge whose pin leaves room for the two bits comes back. -/
theorem decode_encode {e : PinEdge} (h : 4 * e.pin.toNat < UInt32.size) :
    decode e.encode = e := by
  have hpin : (decode e.encode).pin = e.pin := by
    have hcode : e.edge.code.toNat < 4 := e.edge.toNat_code_lt
    rw [← UInt32.toNat_inj, toNat_decode_pin, toNat_encode, Nat.mod_eq_of_lt h]
    omega
  calc
    decode e.encode = ⟨(decode e.encode).pin, (decode e.encode).edge⟩ := rfl
    _ = e := by rw [hpin, decode_encode_edge]

end PinEdge
end DeviceLayer
