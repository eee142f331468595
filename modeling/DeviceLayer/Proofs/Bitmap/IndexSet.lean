import DeviceLayer.Proofs.Bitmap.Padding
import Mathlib.Data.Finset.Card
import Mathlib.Data.Finset.Range

/-!
# A bitmap is a set of indices

The members of a bitmap are a finite set of indices below its capacity.  Each
change of a bitmap is the change of that set, whichever words the indices lie in.
As the padding stays clear, the words of a bitmap are determined by its members,
so that comparing words compares sets.

Main results:

- Theorem {lit}`Bitmap.members_edit`: a change of a bitmap is a change of its
  members.
- Theorem {lit}`Bitmap.Tidy.eq_of_members_eq`: tidy bitmaps with one capacity and
  the same members are equal.
- Theorem {lit}`Bitmap.bitmap_refines_set`: after any changes a new bitmap reads,
  counts and compares as the set that the same changes lead to.
-/

namespace DeviceLayer

/-- Words with the same bits are equal. -/
theorem Word.eq_of_hasBit_eq {word other : UInt64}
    (h : ∀ index < 64, hasBit word index = hasBit other index) : word = other := by
  apply UInt64.toNat_inj.mp
  apply Nat.eq_of_testBit_eq
  intro index
  by_cases hindex : index < 64
  · rw [← hasBit_eq_testBit word hindex, ← hasBit_eq_testBit other hindex]
    exact h index hindex
  · have hpow : 2 ^ 64 ≤ 2 ^ index := Nat.pow_le_pow_right (by omega) (Nat.le_of_not_lt hindex)
    rw [Nat.testBit_lt_two_pow (Nat.lt_of_lt_of_le word.toNat_lt hpow),
      Nat.testBit_lt_two_pow (Nat.lt_of_lt_of_le other.toNat_lt hpow)]

namespace Bitmap

variable {W : Nat} {b b' : Bitmap W}

/-! ## Changes -/

/-- A change of the members. -/
inductive Edit where
  | set (index : Nat)
  | clear (index : Nat)
  | clearAll

/-- The change on a set of the indices below a capacity. -/
def Edit.onSet (capacity : Nat) (s : Finset Nat) : Edit → Finset Nat
  | .set index => if index < capacity then insert index s else s
  | .clear index => if index < capacity then s.erase index else s
  | .clearAll => ∅

/-- Changes on a set, one after the other. -/
def Edit.onSetAll (capacity : Nat) (s : Finset Nat) (edits : List Edit) : Finset Nat :=
  edits.foldl (onSet capacity) s

/-- The change on a bitmap. -/
def edit (b : Bitmap W) : Edit → Bitmap W
  | .set index => b.set index
  | .clear index => b.clear index
  | .clearAll => b.clearAll

/-- Changes on a bitmap, one after the other. -/
def editAll (b : Bitmap W) (edits : List Edit) : Bitmap W :=
  edits.foldl edit b

@[simp]
theorem editAll_nil (b : Bitmap W) : b.editAll [] = b :=
  rfl

@[simp]
theorem editAll_cons (b : Bitmap W) (e : Edit) (edits : List Edit) :
    b.editAll (e :: edits) = (b.edit e).editAll edits :=
  rfl

/-! ## Members -/

/-- The indices that a bitmap holds. -/
def members (b : Bitmap W) : Finset Nat :=
  (Finset.range b.capacity).filter fun index => b.get index = true

theorem mem_members {index : Nat} : index ∈ b.members ↔ b.get index = true := by
  rw [members, Finset.mem_filter, Finset.mem_range, and_iff_right_iff_imp]
  intro hget
  by_contra hle
  rw [b.get_of_le (Nat.le_of_not_lt hle)] at hget
  contradiction

theorem lt_capacity_of_mem {index : Nat} (h : index ∈ b.members) : index < b.capacity :=
  Finset.mem_range.mp (Finset.mem_filter.mp h).1

@[simp]
theorem members_empty (wanted : Nat) : (empty wanted : Bitmap W).members = ∅ := by
  ext index
  simp [mem_members]

theorem members_set (b : Bitmap W) (index : Nat) :
    (b.set index).members = if index < b.capacity then insert index b.members else b.members := by
  split
  · rename_i hlt
    ext j
    rw [mem_members, b.get_set hlt, Finset.mem_insert, mem_members, Bool.or_eq_true,
      decide_eq_true_eq, or_comm, eq_comm]
  · rename_i hle
    rw [b.set_of_le (Nat.le_of_not_lt hle)]

theorem members_clear (b : Bitmap W) (index : Nat) :
    (b.clear index).members =
      if index < b.capacity then b.members.erase index else b.members := by
  split
  · rename_i hlt
    ext j
    rw [mem_members, b.get_clear hlt, Finset.mem_erase, mem_members, Bool.and_eq_true,
      Bool.not_eq_true', decide_eq_false_iff_not, and_comm, ne_comm]
  · rename_i hle
    rw [b.clear_of_le (Nat.le_of_not_lt hle)]

@[simp]
theorem members_clearAll (b : Bitmap W) : b.clearAll.members = ∅ := by
  ext index
  simp [mem_members]

/-! ## What changes keep -/

@[simp]
theorem capacity_edit (b : Bitmap W) (e : Edit) : (b.edit e).capacity = b.capacity := by
  cases e with
  | set index => exact b.capacity_set index
  | clear index => exact b.capacity_clear index
  | clearAll => rfl

/-- A change of a bitmap is a change of its members. -/
theorem members_edit (b : Bitmap W) (e : Edit) :
    (b.edit e).members = e.onSet b.capacity b.members := by
  cases e with
  | set index => exact b.members_set index
  | clear index => exact b.members_clear index
  | clearAll => exact b.members_clearAll

theorem Tidy.edit (hb : b.Tidy) (e : Edit) : (b.edit e).Tidy := by
  cases e with
  | set index => exact hb.set index
  | clear index => exact hb.clear index
  | clearAll => exact b.tidy_clearAll

@[simp]
theorem capacity_editAll (b : Bitmap W) (edits : List Edit) :
    (b.editAll edits).capacity = b.capacity := by
  induction edits generalizing b with
  | nil => rfl
  | cons e rest ih => rw [editAll_cons, ih, capacity_edit]

theorem members_editAll (b : Bitmap W) (edits : List Edit) :
    (b.editAll edits).members = Edit.onSetAll b.capacity b.members edits := by
  induction edits generalizing b with
  | nil => rfl
  | cons e rest ih =>
      rw [editAll_cons, ih, members_edit, capacity_edit]
      rfl

theorem Tidy.editAll (hb : b.Tidy) (edits : List Edit) : (b.editAll edits).Tidy := by
  induction edits generalizing b with
  | nil => exact hb
  | cons e rest ih => exact ih (hb.edit e)

/-! ## Tidy bitmaps -/

/-- In a tidy bitmap there are as many set bits as members. -/
theorem Tidy.ones_eq_card (hb : b.Tidy) : b.ones = b.members.card := by
  rw [hb.ones_eq, List.countP_eq_length_filter, members, Finset.card, Finset.filter_val,
    Finset.range_val, Multiset.range, Multiset.filter_coe, Multiset.coe_card]
  simp only [Bool.decide_eq_true]

/-- The bits of a tidy bitmap are its members. -/
theorem Tidy.hasBitAt_iff (hb : b.Tidy) (index : Nat) :
    hasBitAt b.words.toList index = true ↔ index ∈ b.members := by
  rw [mem_members]
  by_cases hlt : index < b.capacity
  · rw [get_eq_hasBitAt b hlt]
  · have hle := Nat.le_of_not_lt hlt
    rw [hb index hle, b.get_of_le hle]

/-- Tidy bitmaps with one capacity and the same members are equal. -/
theorem Tidy.eq_of_members_eq (hb : b.Tidy) (hb' : b'.Tidy) (hcapacity : b.capacity = b'.capacity)
    (hmembers : b.members = b'.members) : b = b' := by
  have hwords : b.words = b'.words := by
    apply Vector.ext
    intro k hk
    apply Word.eq_of_hasBit_eq
    intro offset hoffset
    -- the bit stands at this index, and members or padding decide it
    have hbit : hasBitAt b.words.toList (64 * k + offset) =
        hasBitAt b'.words.toList (64 * k + offset) := by
      rw [Bool.eq_iff_iff, hb.hasBitAt_iff, hb'.hasBitAt_iff, hmembers]
    have hword : (64 * k + offset) / 64 = k := by omega
    have hplace : (64 * k + offset) % 64 = offset := by omega
    rw [hasBitAt_of_lt b (by omega), hasBitAt_of_lt b' (by omega)] at hbit
    simpa only [hword, hplace] using hbit
  cases b
  cases b'
  cases hcapacity
  cases hwords
  rfl

/-! ## The refinement -/

/--
A new bitmap that underwent any changes stands for the set that the same changes
make of no indices at all.  It reads and counts as that set, and what lies at or
above the capacity is never set and cannot be changed.  Two such bitmaps compare
equal exactly if their capacities and their sets do, however they came about.
-/
theorem bitmap_refines_set (wanted : Nat) (edits : List Edit) :
    let capacity := min wanted (64 * W)
    let b := (empty wanted : Bitmap W).editAll edits
    let s := Edit.onSetAll capacity ∅ edits
    b.capacity = capacity ∧
      ((∀ index, b.get index = true ↔ index ∈ s) ∧ ∀ index ∈ s, index < capacity) ∧
      b.ones = s.card ∧
      (∀ index, capacity ≤ index →
        hasBitAt b.words.toList index = false ∧ b.set index = b ∧ b.clear index = b) ∧
      ∀ wanted' edits',
        let b' := (empty wanted' : Bitmap W).editAll edits'
        (b == b') = true ↔
          b.capacity = b'.capacity ∧ s = Edit.onSetAll (min wanted' (64 * W)) ∅ edits' := by
  intro capacity b s
  have hcapacity : b.capacity = capacity := capacity_editAll (empty wanted) edits
  have hset : ∀ wanted edits, ((empty wanted : Bitmap W).editAll edits).members =
      Edit.onSetAll (min wanted (64 * W)) ∅ edits := by
    intro wanted edits
    rw [members_editAll, members_empty, capacity_empty]
  have htidy : ∀ wanted edits, ((empty wanted : Bitmap W).editAll edits).Tidy :=
    fun wanted edits => (tidy_empty wanted).editAll edits
  have hmembers : b.members = s := hset wanted edits
  refine ⟨hcapacity, ⟨?_, ?_⟩, ?_, ?_, ?_⟩
  · intro index
    rw [← hmembers, mem_members]
  · intro index hindex
    rw [← hmembers] at hindex
    exact hcapacity ▸ lt_capacity_of_mem hindex
  · rw [← hmembers]
    exact (htidy wanted edits).ones_eq_card
  · intro index hle
    rw [← hcapacity] at hle
    exact ⟨htidy wanted edits index hle, b.set_of_le hle, b.clear_of_le hle⟩
  · intro wanted' edits' b'
    rw [beq_iff_eq, ← hmembers, ← hset wanted' edits']
    constructor
    · intro heq
      exact ⟨congrArg Bitmap.capacity heq, congrArg members heq⟩
    · rintro ⟨hsame, hmembers'⟩
      exact (htidy wanted edits).eq_of_members_eq (htidy wanted' edits') hsame hmembers'

/-- One set, reached past the capacity in the second word and over a cleared bitmap. -/
theorem two_histories_of_one_set :
    let b := (empty 100 : Bitmap 2).editAll [.set 64, .set 0, .set 100, .set 63, .clear 63]
    let b' := (empty 100 : Bitmap 2).editAll [.set 7, .clearAll, .set 0, .set 64]
    (b == b') = true ∧ b.ones = 2 ∧ (b.get 64 = true ∧ 64 < b.capacity) ∧
      hasBitAt b.words.toList 127 = false ∧ b.set 127 = b := by
  intro b b'
  rcases @bitmap_refines_set 2 100 [.set 64, .set 0, .set 100, .set 63, .clear 63] with
    ⟨hcapacity, ⟨hget, hbelow⟩, hones, hpadding, hequal⟩
  have hset : Edit.onSetAll (min 100 (64 * 2)) ∅
      [.set 64, .set 0, .set 100, .set 63, .clear 63] = {0, 64} := by decide
  have hset' : Edit.onSetAll (min 100 (64 * 2)) ∅ [.set 7, .clearAll, .set 0, .set 64] =
      {0, 64} := by decide
  rw [hset] at hget hbelow hones hequal
  have hmem : 64 ∈ ({0, 64} : Finset Nat) := by decide
  rcases hpadding 127 (by decide) with ⟨hbit, hignored, -⟩
  refine ⟨(hequal 100 _).mpr ⟨rfl, hset'.symm⟩, hones, ⟨(hget 64).mpr hmem, ?_⟩, hbit, hignored⟩
  rw [hcapacity]
  exact hbelow 64 hmem

end Bitmap
end DeviceLayer
