import DeviceLayer.Proofs.Descriptor.Run
import Mathlib.Data.Finset.Lattice.Fold
import Mathlib.Order.Lattice.Nat

/-!
# Descriptors stay dense

Releases leave gaps among the descriptors in use, and the next payloads fill the
gaps from below.  So a descriptor is handed out only while every smaller one is in
use, and it tells how many were in use at that moment.  A table that never held
more than a few payloads at once never hands out a large descriptor, however often
it was used.

Main results:

- Theorem {lit}`Table.Sound.le_size`: a descriptor is at most the number of those
  in use when it is handed out.
- Theorem {lit}`Table.Sound.isAllocated_of_perform`: a call brings a descriptor into
  use only below the number that is then in use.
- Theorem {lit}`Table.descriptors_dense`: a descriptor in use is smaller than the
  most that were in use at once since the table was new or cleared.
-/

namespace DeviceLayer
namespace Table

variable {α : Type} {t : Table α}

/-! ## The descriptors in use -/

/-- The descriptors in use. -/
def inUse (t : Table α) : Finset Nat :=
  t.occupied.members

theorem mem_inUse {d : Nat} : d ∈ t.inUse ↔ t.isAllocated d = true :=
  Bitmap.mem_members

theorem Sound.size_eq_card (h : t.Sound) : t.size = t.inUse.card :=
  h.tidy.ones_eq_card

theorem Consistent.inUse_allocate (ht : t.Consistent) {d : Nat} (hfree : t.lowestFree = some d)
    (payload : α) : (t.allocate payload).2.inUse = insert d t.inUse := by
  have hlt := ((ht.lowestFree_eq_some_iff d).mp hfree).1
  rw [inUse, allocate_snd hfree, Bitmap.members_set, if_pos (ht.capacity.symm ▸ hlt), inUse]

/-- Handing out a descriptor adds one to those in use. -/
theorem Sound.size_allocate (h : t.Sound) {d : Nat} (hfree : t.lowestFree = some d)
    (payload : α) : (t.allocate payload).2.size = t.size + 1 := by
  have hunused := ((h.consistent.lowestFree_eq_some_iff d).mp hfree).2.1
  have hnot : d ∉ t.inUse := by
    rw [mem_inUse, hunused]
    exact Bool.false_ne_true
  rw [(h.allocate payload).size_eq_card, h.consistent.inUse_allocate hfree,
    Finset.card_insert_of_notMem hnot, h.size_eq_card]

/-! ## The descriptor that is handed out -/

/-- The descriptor that a payload gets is the lowest free one. -/
theorem lowestFree_of_allocate {payload : α} {d : Nat} (h : (t.allocate payload).1 = .ok d) :
    t.lowestFree = some d := by
  cases hfree : t.lowestFree with
  | none =>
      rw [allocate_of_full hfree] at h
      contradiction
  | some lowest =>
      rw [allocate_fst hfree] at h
      rw [Except.ok.inj h]

/-- Everything below the lowest free descriptor is in use. -/
theorem Consistent.range_subset_inUse (ht : t.Consistent) {d : Nat}
    (hfree : t.lowestFree = some d) : Finset.range d ⊆ t.inUse := by
  intro j hj
  have hbelow := ((ht.lowestFree_eq_some_iff d).mp hfree).2.2
  exact mem_inUse.mpr (hbelow j (Finset.mem_range.mp hj))

/-- A descriptor is at most the number of those in use when it is handed out. -/
theorem Sound.le_size (h : t.Sound) {d : Nat} (hfree : t.lowestFree = some d) : d ≤ t.size := by
  have hcard := Finset.card_le_card (h.consistent.range_subset_inUse hfree)
  rwa [Finset.card_range, ← h.size_eq_card] at hcard

/-- It is that number exactly if there are no gaps. -/
theorem Sound.eq_size_iff (h : t.Sound) {d : Nat} (hfree : t.lowestFree = some d) :
    d = t.size ↔ ∀ j, t.isAllocated j = true ↔ j < t.size := by
  constructor
  · intro hd j
    have hcard : t.inUse.card ≤ (Finset.range d).card := by
      rw [Finset.card_range, ← h.size_eq_card, hd]
    have hrange := Finset.eq_of_subset_of_card_le (h.consistent.range_subset_inUse hfree) hcard
    rw [← mem_inUse, ← hrange, Finset.mem_range, hd]
  · intro hdense
    have hunused := ((h.consistent.lowestFree_eq_some_iff d).mp hfree).2.1
    refine Nat.le_antisymm (h.le_size hfree) (Nat.le_of_not_lt fun hlt => ?_)
    rw [(hdense d).mpr hlt] at hunused
    contradiction

/-! ## One call -/

/-- A release brings no descriptor into use. -/
theorem Sound.isAllocated_of_release? (h : t.Sound) {e d : Nat}
    (hused : (t.release? e).2.isAllocated d = true) : t.isAllocated d = true := by
  rw [← (h.release? e).consistent.isSome_get?, get?_release? h.consistent] at hused
  split at hused
  · contradiction
  · rwa [h.consistent.isSome_get?] at hused

/-- A call brings a descriptor into use only below the number that is then in use. -/
theorem Sound.isAllocated_of_perform (h : t.Sound) (call : Call α) {d : Nat}
    (hused : (t.perform call).2.isAllocated d = true) :
    t.isAllocated d = true ∨ d < (t.perform call).2.size := by
  cases call with
  | allocate payload =>
      have hafter : (t.allocate payload).2.isAllocated d = true := hused
      cases hfree : t.lowestFree with
      | none =>
          rw [allocate_of_full hfree] at hafter
          exact Or.inl hafter
      | some e =>
          rw [← mem_inUse, h.consistent.inUse_allocate hfree, Finset.mem_insert, mem_inUse] at hafter
          rcases hafter with rfl | hbefore
          · have hle := h.le_size hfree
            have hsize : (t.perform (.allocate payload)).2.size = t.size + 1 :=
              h.size_allocate hfree payload
            exact Or.inr (by omega)
          · exact Or.inl hbefore
  | replace? e payload =>
      have hafter : (t.replace? e payload).2.isAllocated d = true := hused
      unfold Table.replace? at hafter
      split at hafter <;> exact Or.inl hafter
  | release? e => exact Or.inl (h.isAllocated_of_release? hused)
  | release e =>
      have hafter : (t.release e).2.isAllocated d = true := hused
      rw [h.consistent.release_snd] at hafter
      exact Or.inl (h.isAllocated_of_release? hafter)
  | clear =>
      have hafter : t.occupied.clearAll.get d = true := hused
      rw [Bitmap.get_clearAll] at hafter
      contradiction
  | _ => exact Or.inl hused

/-! ## The most descriptors in use at once -/

/-- Whether a call takes every descriptor out of use. -/
def Call.clears : Call α → Bool
  | .clear => true
  | _ => false

/--
The moments of a run since the table was new or last cleared, each given as the
number of calls before it.
-/
def momentsSinceCleared (calls : List (Call α)) : Finset Nat :=
  (Finset.range (calls.length + 1)).filter fun n => (calls.drop n).all fun call => !call.clears

/-- The most descriptors that were in use at once since the table was new or last cleared. -/
def peak (calls : List (Call α)) : Nat :=
  (momentsSinceCleared calls).sup fun n => (after (calls.take n)).size

theorem after_concat (calls : List (Call α)) (call : Call α) :
    after (calls ++ [call]) = ((after calls).perform call).2 := by
  rw [after, respond_append]
  rfl

theorem mem_momentsSinceCleared {calls : List (Call α)} {n : Nat} :
    n ∈ momentsSinceCleared calls ↔
      n ≤ calls.length ∧ ∀ call ∈ calls.drop n, call.clears = false := by
  rw [momentsSinceCleared, Finset.mem_filter, Finset.mem_range, Nat.lt_succ_iff]
  simp

/-- One more moment comes with each call. -/
theorem momentsSinceCleared_concat {calls : List (Call α)} {call : Call α}
    (h : call.clears = false) :
    momentsSinceCleared (calls ++ [call]) =
      insert (calls.length + 1) (momentsSinceCleared calls) := by
  ext n
  rw [Finset.mem_insert, mem_momentsSinceCleared, mem_momentsSinceCleared, List.length_append,
    List.length_singleton]
  rcases Nat.lt_or_ge calls.length n with hlast | hearlier
  · have hnone : (calls ++ [call]).drop n = [] := by
      apply List.drop_of_length_le
      rw [List.length_append, List.length_singleton]
      exact hlast
    rw [hnone]
    simp only [List.not_mem_nil, false_implies, implies_true, and_true]
    omega
  · have hlast : n ≠ calls.length + 1 := by omega
    rw [List.drop_append_of_le_length hearlier]
    simp [hlast, hearlier, Nat.le_succ_of_le hearlier, or_imp, forall_and, h]

theorem peak_concat {calls : List (Call α)} {call : Call α} (h : call.clears = false) :
    peak (calls ++ [call]) = max (after (calls ++ [call])).size (peak calls) := by
  have hlast : (calls ++ [call]).take (calls.length + 1) = calls ++ [call] :=
    List.take_of_length_le (by rw [List.length_append, List.length_singleton])
  have hearlier : (momentsSinceCleared calls).sup
      (fun n => (after ((calls ++ [call]).take n)).size) = peak calls := by
    apply Finset.sup_congr rfl
    intro n hn
    rw [List.take_append_of_le_length (mem_momentsSinceCleared.mp hn).1]
  rw [peak, momentsSinceCleared_concat h, Finset.sup_insert, hlast, hearlier]

/-- A descriptor in use is smaller than the most that were in use at once. -/
theorem lt_peak (calls : List (Call α)) {d : Nat} (h : (after calls).isAllocated d = true) :
    d < peak calls := by
  induction calls using List.reverseRecOn with
  | nil =>
      have hempty : (empty : Table α).isAllocated d = true := h
      rw [isAllocated, empty, Bitmap.get_empty] at hempty
      contradiction
  | append_singleton calls call ih =>
      cases hclears : call.clears with
      | true =>
          cases call with
          | clear =>
              rw [after_concat] at h
              have hcleared : (after calls).occupied.clearAll.get d = true := h
              rw [Bitmap.get_clearAll] at hcleared
              contradiction
          | _ => contradiction
      | false =>
          rw [after_concat] at h
          rw [peak_concat hclears, after_concat]
          rcases (sound_after calls).isAllocated_of_perform call h with hbefore | hlt
          · exact lt_max_of_lt_right (ih hbefore)
          · exact lt_max_of_lt_left hlt

/-! ## Density -/

/--
At every moment of every run the descriptor that a payload gets has every smaller
one in use below it, so it is at most their number, and equal to it exactly if the
descriptors in use leave no gap.  Hence a descriptor in use is smaller than the
most descriptors that were in use at once since the table was new or cleared.
-/
theorem descriptors_dense (calls : List (Call α)) :
    let t := after calls
    (∀ payload d, (t.allocate payload).1 = .ok d →
        (∀ j < d, t.isAllocated j = true) ∧ d ≤ t.size ∧
          (d = t.size ↔ ∀ j, t.isAllocated j = true ↔ j < t.size)) ∧
      ∀ d, t.isAllocated d = true → d < peak calls := by
  intro t
  have h : t.Sound := sound_after calls
  refine ⟨fun payload d hallocate => ?_, fun d hused => lt_peak calls hused⟩
  have hfree := lowestFree_of_allocate hallocate
  exact ⟨((h.consistent.lowestFree_eq_some_iff d).mp hfree).2.2, h.le_size hfree,
    h.eq_size_iff hfree⟩

/-- Two gaps below the last descriptor, and a larger load before the table was cleared. -/
theorem gaps_after_clearing :
    let calls : List (Call Nat) := [.allocate 10, .allocate 11, .allocate 12, .allocate 13, .clear,
      .allocate 20, .allocate 21, .allocate 22, .release? 0, .release 1]
    let t := after calls
    ((t.allocate 30).1 = .ok 0 ∧ 0 ≤ t.size ∧
        (0 = t.size ↔ ∀ j, t.isAllocated j = true ↔ j < t.size)) ∧
      t.size = 1 ∧ t.isAllocated 2 = true ∧ 2 < peak calls ∧ peak calls = 3 := by
  intro calls t
  have hallocate : (t.allocate 30).1 = .ok 0 := by decide
  have hsize : t.size = 1 := by decide
  have hused : t.isAllocated 2 = true := by decide
  have hpeak : peak calls = 3 := by decide
  rcases descriptors_dense calls with ⟨hlowest, hlt⟩
  rcases hlowest 30 0 hallocate with ⟨-, hle, heq⟩
  exact ⟨⟨hallocate, hle, heq⟩, hsize, hused, hlt 2 hused, hpeak⟩

end Table
end DeviceLayer
