import DeviceLayer.Proofs.Descriptor.Bindings
import Mathlib.Data.List.Basic

/-!
# A descriptor table is a partial map

The size of a table is read off its bitmap, its entries off its slots and whether
it is full off its cursor.  All of them answer for one partial map, in which a
new payload is bound to the smallest unbound key.

Main results:

- Theorem {lit}`Table.Sound.lowest?_bindings`: the cursor is the smallest unbound
  key.
- Theorem {lit}`Table.Sound.refines_perform`: one call on a table is one call on
  its map.
- Theorem {lit}`Table.table_refines_bindings`: throughout a run a table answers as
  a map does that started without bindings.
-/

namespace DeviceLayer
namespace Table

variable {α : Type} {t t' : Table α}

/-- The partial map that a table stands for. -/
def bindings (t : Table α) : Bindings α :=
  fun key => t.get? key

/-! ## Reading -/

/-- A number out of range has no payload. -/
theorem Sound.get?_of_le (h : t.Sound) {d : Nat} (hd : descriptorLimit ≤ d) :
    t.get? d = none := by
  have hfree : t.isAllocated d = false := by
    rw [Bool.eq_false_iff]
    intro hused
    exact Nat.not_lt.mpr hd (h.consistent.lt_of_isAllocated hused)
  simp [get?, hfree]

theorem Sound.lookup_bindings (h : t.Sound) (d : Nat) : t.bindings.lookup d = t.get? d := by
  by_cases hd : d < descriptorLimit
  · exact Bindings.lookup_of_lt _ hd
  · have hle := Nat.le_of_not_lt hd
    rw [Bindings.lookup_of_le _ hle, h.get?_of_le hle]

theorem Sound.isSome_lookup (h : t.Sound) (d : Nat) :
    (t.bindings.lookup d).isSome = t.isAllocated d := by
  rw [h.lookup_bindings, h.consistent.isSome_get?]

theorem Sound.lookup_eq_none_iff (h : t.Sound) (d : Nat) :
    t.bindings.lookup d = none ↔ t.isAllocated d = false := by
  rw [← h.isSome_lookup, Option.isSome_eq_false_iff, Option.isNone_iff_eq_none]

/-- The cursor is the smallest unbound key. -/
theorem Sound.lowest?_bindings (h : t.Sound) : t.bindings.lowest? = t.lowestFree := by
  ext d
  rw [Bindings.lowest?_eq_some_iff, h.consistent.isLeast_iff]
  simp only [h.lookup_eq_none_iff]

theorem Sound.fetch_bindings (h : t.Sound) (d : Nat) : t.bindings.fetch d = t.fetch d := by
  unfold Bindings.fetch fetch
  rw [h.lookup_bindings]
  cases hget : t.get? d with
  | none =>
      by_cases hd : d < descriptorLimit
      · simp only [hd, ↓reduceIte]
      · simp only [hd, ↓reduceIte]
  | some payload =>
      have hd : d < descriptorLimit := by
        rw [← h.lookup_bindings] at hget
        exact Bindings.lt_of_lookup hget
      simp only [hd, ↓reduceIte]

theorem Sound.length_keys (h : t.Sound) : t.bindings.keys.length = t.size := by
  rw [h.size_eq, Bindings.keys, ← List.countP_eq_length_filter]
  apply List.countP_congr
  intro d _
  rw [h.isSome_lookup]

theorem Sound.isEmpty_keys (h : t.Sound) : t.bindings.keys.isEmpty = t.isEmpty := by
  rw [isEmpty, ← h.length_keys]
  cases t.bindings.keys <;> rfl

theorem Sound.isFull_bindings (h : t.Sound) : t.bindings.isFull = t.isFull := by
  rw [Bool.eq_iff_iff, isFull, Option.isNone_iff_eq_none, h.consistent.lowestFree_eq_none_iff]
  simp [Bindings.isFull, h.isSome_lookup]

/-- The slots in order hold the keys in order. -/
theorem Sound.entries_bindings (h : t.Sound) : t.bindings.entries = t.entries := by
  rw [Bindings.entries, Bindings.keys, List.filterMap_filter, entries]
  apply List.filterMap_congr
  intro d _
  rw [Bindings.binding?, h.lookup_bindings, h.consistent.get?_eq_slot]
  cases t.slot d <;> rfl

/-! ## Writing -/

/-- A table whose payloads differ at one descriptor stands for a map that does. -/
theorem bindings_eq_put {d : Nat} {content : Option α}
    (h : ∀ j < descriptorLimit, t'.get? j = if d = j then content else t.get? j) :
    t'.bindings = t.bindings.put d content := by
  funext key
  exact h key key.isLt

theorem bindings_empty : (empty : Table α).bindings = .unbound := by
  funext key
  exact get?_empty key

theorem bindings_clear (t : Table α) : t.clear.bindings = .unbound := by
  funext key
  exact get?_clear t key

theorem Sound.allocate_bindings (h : t.Sound) (payload : α) :
    t.bindings.allocate payload = ((t.allocate payload).1, (t.allocate payload).2.bindings) := by
  unfold Bindings.allocate
  rw [h.lowest?_bindings]
  cases hfree : t.lowestFree with
  | none => rw [allocate_of_full hfree]
  | some d =>
      rw [allocate_fst hfree]
      have hput := bindings_eq_put fun j _ => get?_allocate h.consistent hfree payload j
      exact Prod.ext rfl hput.symm

theorem Sound.replace?_bindings (h : t.Sound) (d : Nat) (payload : α) :
    t.bindings.replace? d payload =
      ((t.replace? d payload).1, (t.replace? d payload).2.bindings) := by
  have hput : (t.replace? d payload).2.bindings =
      t.bindings.put d ((t.get? d).map fun _ => payload) := by
    apply bindings_eq_put
    intro j _
    rw [get?_replace? h.consistent, ← h.consistent.isSome_get?]
    by_cases heq : d = j
    · subst heq
      cases hget : t.get? d <;> simp
    · simp [heq]
  rw [Bindings.replace?, h.lookup_bindings, replace?_fst, hput]

theorem Sound.release?_bindings (h : t.Sound) (d : Nat) :
    t.bindings.release? d = ((t.release? d).1, (t.release? d).2.bindings) := by
  have hput := bindings_eq_put fun j _ => get?_release? h.consistent d j
  rw [Bindings.release?, h.lookup_bindings, release?_fst, hput]

theorem Sound.release_bindings (h : t.Sound) (d : Nat) :
    t.bindings.release d = ((t.release d).1, (t.release d).2.bindings) := by
  have hput := bindings_eq_put fun j _ => get?_release? h.consistent d j
  rw [Bindings.release, h.fetch_bindings, release_fst, h.consistent.release_snd, hput]

/-! ## Runs -/

/-- One call on a table is one call on its map. -/
theorem Sound.refines_perform (h : t.Sound) (call : Call α) :
    t.bindings.perform call = ((t.perform call).1, (t.perform call).2.bindings) := by
  cases call with
  | allocate payload => simp only [Bindings.perform, Table.perform, h.allocate_bindings]
  | get? d => simp only [Bindings.perform, Table.perform, h.lookup_bindings]
  | fetch d => simp only [Bindings.perform, Table.perform, h.fetch_bindings]
  | replace? d payload => simp only [Bindings.perform, Table.perform, h.replace?_bindings]
  | release? d => simp only [Bindings.perform, Table.perform, h.release?_bindings]
  | release d => simp only [Bindings.perform, Table.perform, h.release_bindings]
  | isAllocated d => simp only [Bindings.perform, Table.perform, h.isSome_lookup]
  | size => simp only [Bindings.perform, Table.perform, h.length_keys]
  | isEmpty => simp only [Bindings.perform, Table.perform, h.isEmpty_keys]
  | isFull => simp only [Bindings.perform, Table.perform, h.isFull_bindings]
  | entries => simp only [Bindings.perform, Table.perform, h.entries_bindings]
  | clear => simp only [Bindings.perform, Table.perform, bindings_clear]

/--
Whatever is asked of a new table, it answers as a partial map does that starts
without bindings, and it stands for the map that is left.  The laws of that map
say what was bound, unbound and refused on the way.
-/
theorem table_refines_bindings (calls : List (Call α)) :
    let table := respond perform empty calls
    let plain := respond Bindings.perform Bindings.unbound calls
    table.1 = plain.1 ∧ table.2.bindings = plain.2 ∧ plain.2.Lawful := by
  intro table plain
  -- at each call the table is sound, and the map beside it is the one it stands for
  have hstep : ∀ (t : Table α) (m : Bindings α) (call : Call α), t.Sound ∧ t.bindings = m →
      (t.perform call).1 = (m.perform call).1 ∧
        (t.perform call).2.Sound ∧ (t.perform call).2.bindings = (m.perform call).2 := by
    rintro t m call ⟨hsound, rfl⟩
    rw [hsound.refines_perform]
    exact ⟨rfl, hsound.perform call, rfl⟩
  rcases respond_simulates hstep ⟨sound_empty, bindings_empty⟩ calls with
    ⟨hanswers, -, hbindings⟩
  exact ⟨hanswers, hbindings, plain.2.lawful⟩

end Table
end DeviceLayer
