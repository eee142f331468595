import DeviceLayer.Descriptor.Lemmas
import DeviceLayer.Proofs.Bitmap.Search

/-!
# Runs of a descriptor table

A run makes any calls on a new table, in any order and with any descriptors.
Bitmap, slots and cursor of a table are three records of one set of descriptors.
Each call updates them step by step and none is ever computed anew, so that they
agree is a matter of the whole run.

Main results:

- Theorem {lit}`respond_simulates`: machines whose states stay related give the
  same answers.
- Theorem {lit}`Table.Sound.perform`: no call breaks the agreement of bitmap,
  slots and cursor.
- Theorem {lit}`Table.bitmap_slots_cursor_agree`: in every state of every run the
  bits are the occupied slots, the cursor is the lowest clear bit, and each access
  to a slot meets one.
-/

namespace DeviceLayer

/-! ## Machines that answer calls -/

section Machine

variable {σ τ κ ρ : Type}

/-- Make calls one after the other: the answers in order, and the state that is left. -/
def respond (step : σ → κ → ρ × σ) (s : σ) : List κ → List ρ × σ
  | [] => ([], s)
  | call :: rest =>
    let later := respond step (step s call).2 rest
    ((step s call).1 :: later.1, later.2)

/-- What every call keeps holds after any number of them. -/
theorem respond_induction {step : σ → κ → ρ × σ} {p : σ → Prop}
    (hstep : ∀ s call, p s → p (step s call).2) {s : σ} (h : p s) (calls : List κ) :
    p (respond step s calls).2 := by
  induction calls generalizing s with
  | nil => exact h
  | cons call rest ih => exact ih (hstep s call h)

/-- Later calls go on from the state that the earlier ones left. -/
theorem respond_append (step : σ → κ → ρ × σ) (s : σ) (calls later : List κ) :
    respond step s (calls ++ later) =
      ((respond step s calls).1 ++ (respond step (respond step s calls).2 later).1,
        (respond step (respond step s calls).2 later).2) := by
  induction calls generalizing s with
  | nil => rfl
  | cons call rest ih =>
      rw [List.cons_append, respond, ih]
      rfl

/-- Machines whose states stay related give the same answers. -/
theorem respond_simulates {step : σ → κ → ρ × σ} {step' : τ → κ → ρ × τ} {R : σ → τ → Prop}
    (hstep : ∀ s s' call, R s s' →
      (step s call).1 = (step' s' call).1 ∧ R (step s call).2 (step' s' call).2)
    {s : σ} {s' : τ} (h : R s s') (calls : List κ) :
    (respond step s calls).1 = (respond step' s' calls).1 ∧
      R (respond step s calls).2 (respond step' s' calls).2 := by
  induction calls generalizing s s' with
  | nil => exact ⟨rfl, h⟩
  | cons call rest ih =>
      rcases hstep s s' call h with ⟨hanswer, hnext⟩
      rcases ih hnext with ⟨hanswers, hlast⟩
      exact ⟨congrArg₂ List.cons hanswer hanswers, hlast⟩

end Machine

namespace Table

variable {α : Type}

/-! ## Calls and answers -/

/--
What is asked of a table.  Reading a payload also stands for copying it, and
replacing it for every write through a reference to it.
-/
inductive Call (α : Type) where
  | allocate (payload : α)
  | get? (d : Nat)
  | fetch (d : Nat)
  | replace? (d : Nat) (payload : α)
  | release? (d : Nat)
  | release (d : Nat)
  | isAllocated (d : Nat)
  | size
  | isEmpty
  | isFull
  | entries
  | clear

/-- What a table answers. -/
inductive Answer (α : Type) where
  | descriptor (result : Except Fault Nat)
  | payload? (result : Option α)
  | payload (result : Except Fault α)
  | flag (result : Bool)
  | count (result : Nat)
  | entries (result : List (Nat × α))
  | nothing

/-- Make a call. -/
def perform (t : Table α) : Call α → Answer α × Table α
  | .allocate payload => (.descriptor (t.allocate payload).1, (t.allocate payload).2)
  | .get? d => (.payload? (t.get? d), t)
  | .fetch d => (.payload (t.fetch d), t)
  | .replace? d payload => (.payload? (t.replace? d payload).1, (t.replace? d payload).2)
  | .release? d => (.payload? (t.release? d).1, (t.release? d).2)
  | .release d => (.payload (t.release d).1, (t.release d).2)
  | .isAllocated d => (.flag (t.isAllocated d), t)
  | .size => (.count t.size, t)
  | .isEmpty => (.flag t.isEmpty, t)
  | .isFull => (.flag t.isFull, t)
  | .entries => (.entries t.entries, t)
  | .clear => (.nothing, t.clear)

/-- The table that calls on a new one leave. -/
def after (calls : List (Call α)) : Table α :=
  (respond perform empty calls).2

/-! ## What every call keeps -/

/-- The records of a table agree, and no bit is set beyond them. -/
structure Sound (t : Table α) : Prop where
  consistent : t.Consistent
  tidy : t.occupied.Tidy

theorem sound_empty : (empty : Table α).Sound :=
  ⟨consistent_empty, Bitmap.tidy_empty _⟩

variable {t : Table α}

theorem Sound.allocate (h : t.Sound) (payload : α) : (t.allocate payload).2.Sound := by
  refine ⟨h.consistent.allocate payload, ?_⟩
  cases hfree : t.lowestFree with
  | none =>
      rw [allocate_of_full hfree]
      exact h.tidy
  | some d =>
      rw [allocate_snd hfree]
      exact h.tidy.set d

theorem Sound.replace? (h : t.Sound) (d : Nat) (payload : α) :
    (t.replace? d payload).2.Sound := by
  refine ⟨h.consistent.replace? d payload, ?_⟩
  unfold Table.replace?
  split <;> exact h.tidy

theorem Sound.release? (h : t.Sound) (d : Nat) : (t.release? d).2.Sound := by
  refine ⟨h.consistent.release? d, ?_⟩
  unfold Table.release?
  split
  · exact h.tidy.clear d
  · exact h.tidy

theorem Sound.clear (h : t.Sound) : t.clear.Sound :=
  ⟨h.consistent.clear, Bitmap.tidy_clearAll _⟩

/-- No call breaks the agreement of the records. -/
theorem Sound.perform (h : t.Sound) (call : Call α) : (t.perform call).2.Sound := by
  cases call with
  | allocate payload => exact h.allocate payload
  | replace? d payload => exact h.replace? d payload
  | release? d => exact h.release? d
  | release d =>
      show (t.release d).2.Sound
      rw [h.consistent.release_snd]
      exact h.release? d
  | clear => exact h.clear
  | _ => exact h

theorem sound_after (calls : List (Call α)) : (after calls).Sound :=
  respond_induction (fun _ call h => h.perform call) sound_empty calls

/-! ## One set in three records -/

/-- Every bit of the words, padding included, is set exactly if its slot is occupied. -/
theorem Sound.hasBitAt_eq (h : t.Sound) (index : Nat) :
    Bitmap.hasBitAt t.occupied.words.toList index = (t.slot index).isSome := by
  rw [← h.consistent.isAllocated_eq]
  by_cases hlt : index < t.occupied.capacity
  · exact (Bitmap.get_eq_hasBitAt _ hlt).symm
  · have hle := Nat.le_of_not_lt hlt
    rw [h.tidy index hle]
    exact (Bitmap.get_of_le _ hle).symm

/-- The number of occupied slots is the number of descriptors in use. -/
theorem Sound.size_eq (h : t.Sound) :
    t.size = (List.range descriptorLimit).countP t.isAllocated := by
  rw [size, h.tidy.ones_eq, h.consistent.capacity]
  rfl

/-- The cursor is the least descriptor that is not in use. -/
theorem Consistent.isLeast_iff (ht : t.Consistent) (d : Nat) :
    t.lowestFree = some d ↔ IsLeast {i | i < descriptorLimit ∧ t.isAllocated i = false} d := by
  rw [ht.lowestFree_eq_some_iff, isLeast_lt_and_iff]
  simp only [Bool.not_eq_false]

/-- A table is full when every slot counts. -/
theorem Sound.isFull_iff (h : t.Sound) : t.isFull = true ↔ t.size = descriptorLimit := by
  have hones := h.tidy.ones_eq_capacity_iff
  rw [h.consistent.capacity] at hones
  rw [isFull, Option.isNone_iff_eq_none, h.consistent.lowestFree_eq_none_iff]
  exact hones.symm

/-! ## Access to the slots -/

/-- Writing in bounds is writing. -/
theorem setIfInBounds_eq_set (slots : Vector (Option α) descriptorLimit) {d : Nat}
    (h : d < descriptorLimit) (content : Option α) :
    slots.setIfInBounds d content = slots.set d content h := by
  ext j hj
  rw [Vector.getElem_setIfInBounds, Vector.getElem_set]

/--
Where a call goes to a slot, there is one: allocating goes to the slot of the
cursor, and the other calls go to that of a descriptor in use.
-/
structure InRange (t : Table α) : Prop where
  allocate : ∀ d, t.lowestFree = some d → ∃ h : d < descriptorLimit, ∀ payload,
    (t.allocate payload).2.slots = t.slots.set d (some payload) h
  get? : ∀ d, t.isAllocated d = true → ∃ h : d < descriptorLimit, t.get? d = t.slots[d]
  replace? : ∀ d, t.isAllocated d = true → ∃ h : d < descriptorLimit, ∀ payload,
    (t.replace? d payload).2.slots = t.slots.set d (some payload) h
  release? : ∀ d, t.isAllocated d = true → ∃ h : d < descriptorLimit,
    (t.release? d).1 = t.slots[d] ∧ (t.release? d).2.slots = t.slots.set d none h

theorem Sound.inRange (h : t.Sound) : t.InRange where
  allocate d hfree := by
    have hlt := ((h.consistent.lowestFree_eq_some_iff d).mp hfree).1
    refine ⟨hlt, fun payload => ?_⟩
    rw [allocate_snd hfree]
    exact setIfInBounds_eq_set t.slots hlt (some payload)
  get? d hused := by
    have hlt := h.consistent.lt_of_isAllocated hused
    refine ⟨hlt, ?_⟩
    rw [h.consistent.get?_eq_slot, slot, Vector.getElem?_eq_getElem hlt]
    rfl
  replace? d hused := by
    have hlt := h.consistent.lt_of_isAllocated hused
    refine ⟨hlt, fun payload => ?_⟩
    have hsome : (t.get? d).isSome = true := by rw [h.consistent.isSome_get?, hused]
    rcases Option.isSome_iff_exists.mp hsome with ⟨old, hold⟩
    rw [Table.replace?, hold]
    exact setIfInBounds_eq_set t.slots hlt (some payload)
  release? d hused := by
    have hlt := h.consistent.lt_of_isAllocated hused
    rw [Table.release?, if_pos hused, slot, Vector.getElem?_eq_getElem hlt]
    exact ⟨hlt, rfl, setIfInBounds_eq_set t.slots hlt none⟩

/-! ## The agreement -/

/--
Whatever was asked of a new table, the bits of its words are the occupied slots,
and the padding is clear.  The cursor is the lowest index in range whose bit is
clear, so it is missing exactly when every slot is occupied, and the table is full
exactly when it counts as many descriptors as it has slots.
-/
theorem bitmap_slots_cursor_agree (calls : List (Call α)) :
    let t := after calls
    let bit := Bitmap.hasBitAt t.occupied.words.toList
    ((∀ d : Fin descriptorLimit, bit d = t.slots[d].isSome) ∧
        ∀ index, descriptorLimit ≤ index → bit index = false) ∧
      ((∀ d, t.lowestFree = some d ↔ IsLeast {i | i < descriptorLimit ∧ bit i = false} d) ∧
        (t.lowestFree = none ↔ ∀ d : Fin descriptorLimit, t.slots[d].isSome = true)) ∧
      (t.isFull = true ↔ t.size = descriptorLimit) ∧
      t.InRange := by
  intro t bit
  have h : t.Sound := sound_after calls
  have hslot : ∀ d : Fin descriptorLimit, t.slot d = t.slots[d] := by
    intro d
    rw [slot, Vector.getElem?_eq_getElem d.isLt]
    rfl
  have hbit : ∀ i, bit i = t.isAllocated i := by
    intro i
    rw [h.consistent.isAllocated_eq]
    exact h.hasBitAt_eq i
  refine ⟨⟨?_, ?_⟩, ⟨?_, ?_⟩, h.isFull_iff, h.inRange⟩
  · intro d
    rw [← hslot]
    exact h.hasBitAt_eq d
  · intro index hle
    exact h.tidy index (by rwa [h.consistent.capacity])
  · intro d
    rw [h.consistent.isLeast_iff]
    simp only [hbit]
  · rw [h.consistent.lowestFree_eq_none_iff, Fin.forall_iff]
    simp only [h.consistent.isAllocated_eq]
    constructor
    · intro hall i hi
      rw [← hslot ⟨i, hi⟩]
      exact hall i hi
    · intro hall i hi
      rw [hslot ⟨i, hi⟩]
      exact hall i hi

/-- A descriptor far out of range does not move the cursor; one that is freed does. -/
theorem cursor_at_freed_descriptor :
    let calls : List (Call Nat) := [.allocate 10, .allocate 11, .allocate 12, .release? 1,
      .release? 18446744073709551615]
    let t := after calls
    let bit := Bitmap.hasBitAt t.occupied.words.toList
    (t.lowestFree = some 1 ∧ IsLeast {i | i < descriptorLimit ∧ bit i = false} 1) ∧
      (t.isAllocated 2 = true ∧ ∃ h : 2 < descriptorLimit, t.get? 2 = t.slots[2]) ∧
      bit 63 = false := by
  intro calls t bit
  have hfree : t.lowestFree = some 1 := by decide
  have hused : t.isAllocated 2 = true := by decide
  have hagree := bitmap_slots_cursor_agree calls
  exact ⟨⟨hfree, (hagree.2.1.1 1).mp hfree⟩, ⟨hused, hagree.2.2.2.get? 2 hused⟩,
    hagree.1.2 63 (by decide)⟩

end Table
end DeviceLayer
