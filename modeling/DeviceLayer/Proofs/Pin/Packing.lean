import DeviceLayer.Pin.Edge
import Mathlib.Data.Set.Function

/-!
# Edges as event values

A packed edge is a word with two fields: the pin, and below it two bits for the
direction.  The field of the pin has thirty bits, so the two highest bits of a pin do
not fit.  The field of the direction has four values, and edges are packed with only two
of them.

Main results:

- Theorem {lit}`PinEdge.decode_encode_eq`: what comes back is the edge of the pin without
  its two highest bits.
- Theorem {lit}`PinEdge.encode_decode_iff`: a value is a packed edge exactly if its two low
  bits stand for a direction.
- Theorem {lit}`packing_keeps_thirty_pin_bits`: all pins and all values.
-/

namespace DeviceLayer
namespace PinEdge

/-- The pins below this one leave room for the direction: two to the power of thirty. -/
def pinRange : UInt32 :=
  1073741824

theorem toNat_pinRange : pinRange.toNat = 1073741824 :=
  rfl

/-! ## From edges to values and back -/

/-- A packed edge is its two fields. -/
theorem toNat_encode_fields (e : PinEdge) :
    e.encode.toUInt32.toNat = 4 * (e.pin % pinRange).toNat + e.edge.code.toNat := by
  have hshift : 4 * e.pin.toNat % UInt32.size = 4 * (e.pin.toNat % 1073741824) := by
    simp only [UInt32.size]
    omega
  rw [toNat_encode, UInt32.toNat_mod, toNat_pinRange, hshift]

/-- What comes back is the edge of the pin without its two highest bits. -/
theorem decode_encode_eq (e : PinEdge) : decode e.encode = ⟨e.pin % pinRange, e.edge⟩ := by
  have hpin : (decode e.encode).pin = e.pin % pinRange := by
    have hcode : e.edge.code.toNat < 4 := e.edge.toNat_code_lt
    rw [← UInt32.toNat_inj, toNat_decode_pin, toNat_encode_fields]
    omega
  calc
    decode e.encode = ⟨(decode e.encode).pin, (decode e.encode).edge⟩ := rfl
    _ = ⟨e.pin % pinRange, e.edge⟩ := by rw [hpin, decode_encode_edge]

theorem mod_pinRange_eq_iff (pin : UInt32) : pin % pinRange = pin ↔ pin < pinRange := by
  rw [← UInt32.toNat_inj, UInt32.toNat_mod, UInt32.lt_iff_toNat_lt, toNat_pinRange]
  omega

theorem decode_encode_iff (e : PinEdge) : decode e.encode = e ↔ e.pin < pinRange := by
  rw [decode_encode_eq, ← mod_pinRange_eq_iff]
  constructor
  · intro h
    exact congrArg pin h
  · intro h
    rw [h]

/-- Edges whose pins fit are told apart by their values. -/
theorem injOn_encode : Set.InjOn encode {e | e.pin < pinRange} := by
  intro e he e' he' heq
  calc
    e = decode e.encode := ((decode_encode_iff e).mpr he).symm
    _ = decode e'.encode := congrArg decode heq
    _ = e' := (decode_encode_iff e').mpr he'

/-- The bits of the direction are never both clear, so no packed edge is zero. -/
theorem encode_ne_zero (e : PinEdge) : e.encode ≠ 0 := by
  intro hzero
  have hcode : 0 < e.edge.code.toNat := by cases e.edge <;> decide
  have hfields := e.toNat_encode_fields
  rw [hzero] at hfields
  change 0 = _ at hfields
  omega

/-! ## From values to edges and back -/

/-- The direction that is read off a value, as the bits that stand for it. -/
theorem toNat_code_decode (value : EventValue) :
    (decode value).edge.code.toNat = if value.toUInt32.toNat % 2 = 0 then 2 else 1 := by
  have hlow : value.toUInt32 &&& 1 = 0 ↔ value.toUInt32.toNat % 2 = 0 := by
    rw [← UInt32.toNat_inj, UInt32.toNat_and]
    exact Eq.congr_left (Nat.and_one_is_mod _)
  simp only [decode, hlow]
  split
  · rfl
  · rfl

/-- Packing what was read off a value restores all but the two low bits. -/
theorem toNat_encode_decode (value : EventValue) :
    (decode value).encode.toUInt32.toNat =
      4 * (value.toUInt32.toNat / 4) + (decode value).edge.code.toNat := by
  have hlt : value.toUInt32.toNat < 4294967296 := value.toUInt32.toNat_lt
  rw [toNat_encode_fields, UInt32.toNat_mod, toNat_decode_pin, toNat_pinRange]
  omega

/-- A value is a packed edge exactly if its two low bits stand for a direction. -/
theorem encode_decode_iff (value : EventValue) :
    (decode value).encode = value ↔ value.toUInt32 &&& 3 = 1 ∨ value.toUInt32 &&& 3 = 2 := by
  have hlow : (value.toUInt32 &&& 3).toNat = value.toUInt32.toNat % 4 := by
    rw [UInt32.toNat_and]
    exact Nat.and_two_pow_sub_one_eq_mod _ 2
  have hword : (decode value).encode = value ↔
      (decode value).encode.toUInt32.toNat = value.toUInt32.toNat := by
    rw [UInt32.toNat_inj]
    exact (Function.LeftInverse.injective Int32.toInt32_toUInt32).eq_iff.symm
  rw [hword, toNat_encode_decode, toNat_code_decode, ← UInt32.toNat_inj, ← UInt32.toNat_inj, hlow]
  change _ ↔ value.toUInt32.toNat % 4 = 1 ∨ value.toUInt32.toNat % 4 = 2
  split
  · omega
  · omega

end PinEdge

/-! ## All pins and all values -/

open PinEdge in
/--
Packing an edge and unpacking it again keeps the direction and the pin but for the two
highest of its bits.  So exactly the edges whose pin is below two to the power of thirty
come back, and these are told apart by their values.  The other way round, exactly the
values come back whose two low bits are 1 or 2.  No edge of any pin is packed as zero.
-/
theorem packing_keeps_thirty_pin_bits :
    (∀ e : PinEdge, decode e.encode = ⟨e.pin % pinRange, e.edge⟩) ∧
      (∀ e : PinEdge, decode e.encode = e ↔ e.pin < pinRange) ∧
      Set.InjOn encode {e | e.pin < pinRange} ∧
      (∀ value : EventValue, (decode value).encode = value ↔
        value.toUInt32 &&& 3 = 1 ∨ value.toUInt32 &&& 3 = 2) ∧
      ∀ e : PinEdge, e.encode ≠ 0 :=
  ⟨decode_encode_eq, decode_encode_iff, injOn_encode, encode_decode_iff, encode_ne_zero⟩

/-- The last pin that fits gives negative values, and a pin above it is taken for a low one. -/
theorem last_pin_packs_below_zero :
    let last : PinEdge := ⟨1073741823, .rise⟩
    let beyond : PinEdge := ⟨1073741829, .fall⟩
    last.encode = -2 ∧ PinEdge.decode (-2) = last ∧
      PinEdge.decode beyond.encode = ⟨5, .fall⟩ ∧
      (PinEdge.decode (-2)).encode = -2 ∧ (PinEdge.decode (-1)).encode ≠ -1 := by
  intro last beyond
  obtain ⟨hback, hfits, -, hvalue, -⟩ := packing_keeps_thirty_pin_bits
  have hencode : last.encode = -2 := by decide
  refine ⟨hencode, ?_, (hback beyond).trans (by decide), (hvalue (-2)).mpr (by decide),
    mt (hvalue (-1)).mp (by decide)⟩
  rw [← hencode]
  exact (hfits last).mpr (by decide)

end DeviceLayer
