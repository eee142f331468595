import DeviceLayer.Bitmap.Lemmas
import DeviceLayer.Descriptor.Table

/-!
# Descriptor tables as finite maps

Bitmap, slots and cached cursor of a table describe one finite map from
descriptors to payloads.  Every operation keeps them in agreement.

Main results:

- Theorem {lit}`Table.consistent_empty` and its companions: a new table is
  consistent, and every operation keeps it so.
- Theorem {lit}`Table.Consistent.clear_eq_empty`: clearing leaves a new table.
- Theorem {lit}`Table.get?_allocate`: a new payload is bound to the lowest free
  descriptor and to no other.
- Theorem {lit}`Table.get?_release?`: a release unbinds one descriptor.
-/

namespace DeviceLayer
namespace Table

variable {α : Type}

/-- Bitmap, slots and cursor describe the same finite map. -/
structure Consistent (t : Table α) : Prop where
  /-- The bitmap has one index for each slot. -/
  capacity : t.occupied.capacity = descriptorLimit
  /-- A descriptor is in use exactly when its slot holds a payload. -/
  isAllocated_eq : ∀ d, t.isAllocated d = (t.slot d).isSome
  /-- The cursor is the lowest free descriptor. -/
  lowestFree_eq : t.lowestFree = t.occupied.nextClear? 0

/-! ## Slots -/

/-- Writing a slot of a table changes that slot alone. -/
theorem join_setIfInBounds (slots : Vector (Option α) descriptorLimit) {d : Nat}
    (h : d < descriptorLimit) (content : Option α) (j : Nat) :
    (slots.setIfInBounds d content)[j]?.join = if d = j then content else slots[j]?.join := by
  rw [Vector.getElem?_setIfInBounds]
  by_cases heq : d = j
  · subst heq
    simp [h]
  · simp [heq]

/-- A descriptor in use lies in range. -/
theorem Consistent.lt_of_isAllocated {t : Table α} (ht : t.Consistent) {d : Nat}
    (h : t.isAllocated d = true) : d < descriptorLimit := by
  apply Nat.lt_of_not_le
  intro hle
  have hget : t.occupied.get d = false :=
    t.occupied.get_of_le (by rw [ht.capacity]; exact hle)
  exact absurd (h.symm.trans hget) nofun

/-- In a consistent table reading a descriptor reads its slot. -/
theorem Consistent.get?_eq_slot {t : Table α} (ht : t.Consistent) (d : Nat) :
    t.get? d = t.slot d := by
  unfold get?
  rw [ht.isAllocated_eq]
  cases t.slot d <;> simp

/-- In a consistent table a descriptor is in use exactly when it has a payload. -/
theorem Consistent.isSome_get? {t : Table α} (ht : t.Consistent) (d : Nat) :
    (t.get? d).isSome = t.isAllocated d := by
  rw [ht.get?_eq_slot, ht.isAllocated_eq]

/-- The cursor names a free descriptor below which every descriptor is in use. -/
theorem Consistent.lowestFree_eq_some_iff {t : Table α} (ht : t.Consistent) (d : Nat) :
    t.lowestFree = some d ↔
      d < descriptorLimit ∧ t.isAllocated d = false ∧ ∀ j < d, t.isAllocated j = true := by
  rw [ht.lowestFree_eq, Bitmap.nextClear?_eq_some_iff, ht.capacity]
  simp [isAllocated]

/-- There is no cursor exactly when every descriptor is in use. -/
theorem Consistent.lowestFree_eq_none_iff {t : Table α} (ht : t.Consistent) :
    t.lowestFree = none ↔ ∀ j < descriptorLimit, t.isAllocated j = true := by
  rw [ht.lowestFree_eq, Bitmap.nextClear?_eq_none_iff, ht.capacity]
  simp [isAllocated]

/-! ## New and cleared tables -/

theorem slot_of_slots_eq_replicate {t : Table α}
    (h : t.slots = Vector.replicate descriptorLimit none) (d : Nat) : t.slot d = none := by
  unfold slot
  rw [h, Vector.getElem?_replicate]
  split <;> rfl

theorem consistent_empty : (empty : Table α).Consistent where
  capacity := rfl
  isAllocated_eq d := by
    rw [slot_of_slots_eq_replicate rfl]
    exact Bitmap.get_empty ..
  lowestFree_eq := by
    refine ((Bitmap.nextClear?_eq_some_iff _ 0 0).mpr ⟨Nat.le_refl 0, ?_, ?_, ?_⟩).symm
    · exact Nat.zero_lt_of_lt (show 0 < descriptorLimit by decide)
    · exact Bitmap.get_empty ..
    · intro j _ hj
      omega

theorem Consistent.clear {t : Table α} (ht : t.Consistent) : t.clear.Consistent where
  capacity := ht.capacity
  isAllocated_eq d := by
    rw [slot_of_slots_eq_replicate rfl]
    exact Bitmap.get_clearAll ..
  lowestFree_eq := by
    refine ((Bitmap.nextClear?_eq_some_iff _ 0 0).mpr ⟨Nat.le_refl 0, ?_, ?_, ?_⟩).symm
    · rw [show t.clear.occupied.capacity = descriptorLimit from ht.capacity]
      decide
    · exact Bitmap.get_clearAll ..
    · intro j _ hj
      omega

/-- Clearing leaves a new table, whatever was in it. -/
theorem Consistent.clear_eq_empty {t : Table α} (ht : t.Consistent) : t.clear = empty := by
  have hbits : t.occupied.clearAll = .empty descriptorLimit := by
    unfold Bitmap.clearAll Bitmap.empty
    rw [Bitmap.mk.injEq]
    exact ⟨ht.capacity, rfl⟩
  rw [Table.clear, hbits]
  rfl

@[simp]
theorem get?_empty (d : Nat) : (empty : Table α).get? d = none := by
  rw [consistent_empty.get?_eq_slot, slot_of_slots_eq_replicate rfl]

/-- Nothing is left after clearing. -/
theorem get?_clear (t : Table α) (d : Nat) : t.clear.get? d = none := by
  have h : t.clear.isAllocated d = false := Bitmap.get_clearAll ..
  simp [get?, h]

/-! ## Handing out a descriptor -/

/-- The table that {lit}`allocate` leaves when {lit}`d` is the lowest free descriptor. -/
theorem allocate_snd {t : Table α} {d : Nat} (h : t.lowestFree = some d) (payload : α) :
    (t.allocate payload).2 =
      { occupied := t.occupied.set d
        slots := t.slots.setIfInBounds d (some payload)
        lowestFree := (t.occupied.set d).nextClear? (d + 1) } := by
  simp [allocate, h]

theorem Consistent.allocate {t : Table α} (ht : t.Consistent) (payload : α) :
    (t.allocate payload).2.Consistent := by
  cases hfree : t.lowestFree with
  | none =>
    rw [allocate_of_full hfree]
    exact ht
  | some d =>
    obtain ⟨hlt, _, hbelow⟩ := (ht.lowestFree_eq_some_iff d).mp hfree
    have hcap : d < t.occupied.capacity := ht.capacity.symm ▸ hlt
    rw [allocate_snd hfree]
    refine ⟨(t.occupied.capacity_set d).trans ht.capacity, ?_, ?_⟩
    · intro j
      have hslot := join_setIfInBounds t.slots hlt (some payload) j
      have hold := ht.isAllocated_eq j
      simp only [isAllocated, slot] at hold ⊢
      rw [hslot, Bitmap.get_set _ hcap, hold]
      by_cases heq : d = j <;> simp [heq]
    · apply Option.ext
      intro i
      rw [Bitmap.nextClear?_eq_some_iff, Bitmap.nextClear?_eq_some_iff]
      have hset : ∀ j, j ≤ d → (t.occupied.set d).get j = true := by
        intro j hj
        rw [Bitmap.get_set _ hcap]
        by_cases heq : d = j
        · simp [heq]
        · have := hbelow j (by omega)
          simp only [isAllocated] at this
          simp [this]
      constructor
      · rintro ⟨_, hi, hclear, hall⟩
        refine ⟨Nat.zero_le i, hi, hclear, fun j _ hj => ?_⟩
        by_cases hjd : j ≤ d
        · exact hset j hjd
        · exact hall j (by omega) hj
      · rintro ⟨_, hi, hclear, hall⟩
        refine ⟨?_, hi, hclear, fun j hj hji => hall j (Nat.zero_le j) hji⟩
        apply Nat.lt_of_not_le
        intro hle
        exact absurd (hclear.symm.trans (hset i hle)) nofun

/-- A new payload is bound to the lowest free descriptor and to no other. -/
theorem get?_allocate {t : Table α} (ht : t.Consistent) {d : Nat}
    (h : t.lowestFree = some d) (payload : α) (j : Nat) :
    (t.allocate payload).2.get? j = if d = j then some payload else t.get? j := by
  obtain ⟨hlt, _, _⟩ := (ht.lowestFree_eq_some_iff d).mp h
  rw [(ht.allocate payload).get?_eq_slot, ht.get?_eq_slot, allocate_snd h]
  exact join_setIfInBounds t.slots hlt (some payload) j

/-! ## Replacing a payload -/

theorem replace?_fst (t : Table α) (d : Nat) (payload : α) :
    (t.replace? d payload).1 = t.get? d := by
  unfold replace?
  split <;> simp_all

theorem Consistent.replace? {t : Table α} (ht : t.Consistent) (d : Nat) (payload : α) :
    (t.replace? d payload).2.Consistent := by
  unfold Table.replace?
  split
  · exact ht
  · rename_i old hold
    have hsome : t.isAllocated d = true := by
      rw [← ht.isSome_get?, hold]
      rfl
    have hlt := ht.lt_of_isAllocated hsome
    refine ⟨ht.capacity, fun j => ?_, ht.lowestFree_eq⟩
    have hslot := join_setIfInBounds t.slots hlt (some payload) j
    have hj := ht.isAllocated_eq j
    simp only [isAllocated, slot] at hj hsome ⊢
    rw [hslot]
    by_cases heq : d = j
    · subst heq
      simp [hsome]
    · simp [heq, hj]

/-- A replacement changes the payload of a descriptor in use and of no other. -/
theorem get?_replace? {t : Table α} (ht : t.Consistent) (d : Nat) (payload : α)
    (j : Nat) :
    (t.replace? d payload).2.get? j =
      if d = j ∧ t.isAllocated d = true then some payload else t.get? j := by
  rw [(ht.replace? d payload).get?_eq_slot, ht.get?_eq_slot]
  unfold Table.replace?
  split
  · rename_i hnone
    have hfree : t.isAllocated d = false := by
      rw [← ht.isSome_get?, hnone]
      rfl
    simp [hfree]
  · rename_i old hold
    have hsome : t.isAllocated d = true := by
      rw [← ht.isSome_get?, hold]
      rfl
    have hslot := join_setIfInBounds t.slots (ht.lt_of_isAllocated hsome) (some payload) j
    simp only [slot, hsome, and_true]
    exact hslot

/-! ## Freeing a descriptor -/

theorem release?_fst (t : Table α) (d : Nat) : (t.release? d).1 = t.get? d := by
  unfold release? get?
  split <;> rfl

/-- The lower of the cursor and a freed descriptor is the new cursor. -/
theorem Consistent.lowestWith_eq {t : Table α} (ht : t.Consistent) {d : Nat}
    (h : d < descriptorLimit) :
    (t.occupied.clear d).nextClear? 0 = some (lowestWith t.lowestFree d) := by
  have hcap : d < t.occupied.capacity := ht.capacity.symm ▸ h
  rw [Bitmap.nextClear?_eq_some_iff, Bitmap.capacity_clear, ht.capacity]
  simp only [Bitmap.get_clear _ hcap]
  cases hfree : t.lowestFree with
  | none =>
    have hall := ht.lowestFree_eq_none_iff.mp hfree
    simp only [isAllocated] at hall
    refine ⟨Nat.zero_le d, h, by simp [lowestWith], fun j _ hj => ?_⟩
    simp only [lowestWith] at hj
    have hne : ¬ d = j := by omega
    simp [hall j (Nat.lt_trans hj h), hne]
  | some lowest =>
    obtain ⟨hlt, hclear, hbelow⟩ := (ht.lowestFree_eq_some_iff lowest).mp hfree
    simp only [isAllocated] at hclear hbelow
    refine ⟨Nat.zero_le _, by simp only [lowestWith]; omega, ?_, fun j _ hj => ?_⟩
    · simp only [lowestWith]
      by_cases hle : lowest ≤ d
      · simp [Nat.min_eq_left hle, hclear]
      · simp [Nat.min_eq_right (Nat.le_of_not_le hle)]
    · simp only [lowestWith] at hj
      have hne : ¬ d = j := by omega
      simp [hbelow j (by omega), hne]

theorem Consistent.release? {t : Table α} (ht : t.Consistent) (d : Nat) :
    (t.release? d).2.Consistent := by
  cases hused : t.isAllocated d with
  | false =>
    rw [release?_of_not_isAllocated hused]
    exact ht
  | true =>
    have hlt := ht.lt_of_isAllocated hused
    have hcap : d < t.occupied.capacity := ht.capacity.symm ▸ hlt
    simp only [Table.release?, hused, ↓reduceIte]
    refine ⟨(t.occupied.capacity_clear d).trans ht.capacity, fun j => ?_,
      (ht.lowestWith_eq hlt).symm⟩
    have hslot := join_setIfInBounds t.slots hlt none j
    have hj := ht.isAllocated_eq j
    simp only [isAllocated, slot] at hj ⊢
    rw [hslot, Bitmap.get_clear _ hcap, hj]
    by_cases heq : d = j <;> simp [heq]

/-- A release unbinds one descriptor and leaves the others as they were. -/
theorem get?_release? {t : Table α} (ht : t.Consistent) (d j : Nat) :
    (t.release? d).2.get? j = if d = j then none else t.get? j := by
  cases hused : t.isAllocated d with
  | false =>
    rw [release?_of_not_isAllocated hused]
    by_cases heq : d = j
    · subst heq
      simp [get?, hused]
    · simp [heq]
  | true =>
    have hslot := join_setIfInBounds t.slots (ht.lt_of_isAllocated hused) none j
    rw [(ht.release? d).get?_eq_slot, ht.get?_eq_slot]
    simp only [Table.release?, hused, ↓reduceIte, slot]
    exact hslot

/-- Releasing with reasons leaves the table that releasing without them leaves. -/
theorem Consistent.release_snd {t : Table α} (ht : t.Consistent) (d : Nat) :
    (t.release d).2 = (t.release? d).2 := by
  unfold release
  split
  · split <;> simp_all
  · rename_i hle
    have hfree : t.isAllocated d = false := by
      cases hused : t.isAllocated d with
      | false => rfl
      | true => exact absurd (ht.lt_of_isAllocated hused) hle
    rw [release?_of_not_isAllocated hfree]

/-- Releasing with reasons answers with the payload, or with why there is none. -/
theorem release_fst (t : Table α) (d : Nat) : (t.release d).1 = t.fetch d := by
  unfold release fetch
  split
  · rw [← release?_fst]
    split <;> simp_all
  · rfl

/-- A descriptor without a payload cannot be released, and the table stays as it is. -/
theorem Consistent.release_of_get?_eq_none {t : Table α} (ht : t.Consistent) {d : Nat}
    (h : t.get? d = none) :
    t.release d =
      (.error (if d < descriptorLimit then .descriptorUnused else .descriptorOutOfRange), t) := by
  have hfree : t.isAllocated d = false := by
    rw [← ht.isSome_get?, h]
    rfl
  simp only [Table.release, release?_of_not_isAllocated hfree]
  split <;> rfl

/-- A descriptor with a payload is released. -/
theorem Consistent.release_of_get?_eq_some {t : Table α} (ht : t.Consistent) {d : Nat}
    {payload : α} (h : t.get? d = some payload) :
    t.release d = (.ok payload, (t.release? d).2) := by
  have hused : t.isAllocated d = true := by
    rw [← ht.isSome_get?, h]
    rfl
  have hanswer : (t.release? d).1 = some payload := by rw [release?_fst, h]
  rcases hrelease : t.release? d with ⟨payload?, t'⟩
  rw [hrelease] at hanswer
  obtain rfl : payload? = some payload := hanswer
  simp only [Table.release, ht.lt_of_isAllocated hused, ↓reduceIte, hrelease]

theorem Consistent.release {t : Table α} (ht : t.Consistent) (d : Nat) :
    (t.release d).2.Consistent := by
  rw [ht.release_snd]
  exact ht.release? d

end Table
end DeviceLayer
