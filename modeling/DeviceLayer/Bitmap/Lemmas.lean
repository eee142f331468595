import DeviceLayer.Bitmap.Basic

/-!
# Members of a bitmap

What each operation does to the set of members, and what the search for a clear
index finds.

Main results:

- Theorems {lit}`Bitmap.get_set` and {lit}`Bitmap.get_clear`: one index is added
  or removed, the others stay.
- Theorem {lit}`Bitmap.nextClear?_eq_some_iff`: the search finds the lowest index
  from its start on that is below the capacity and not a member.
- Theorem {lit}`Bitmap.nextClear?_eq_none_iff`: it fails exactly when every such
  index is a member.
-/

namespace DeviceLayer
namespace Bitmap

variable {W : Nat}

/-! ## Single words -/

/-- Rewriting the word of an index leaves the other words as they were. -/
theorem getElem_updateWord (b : Bitmap W) (f : UInt64 → UInt64) {index : Nat}
    (h : index < b.capacity) {k : Nat} (hk : k < W) :
    (b.updateWord index f).words[k] = if index / 64 = k then f b.words[k] else b.words[k] := by
  simp only [updateWord, h, ↓reduceDIte]
  by_cases heq : index / 64 = k
  · subst heq
    simp
  · simp [heq]

/-- An index in range is read from its word. -/
theorem get_of_lt (b : Bitmap W) {index : Nat} (h : index < b.capacity)
    (hw : index / 64 < W) :
    b.get index = Word.hasBit b.words[index / 64] (index % 64) := by
  simp [get, h]

/-! ## Members after each operation -/

@[simp]
theorem get_empty (wanted index : Nat) : (empty wanted : Bitmap W).get index = false := by
  unfold get
  split
  · simp [empty]
  · rfl

@[simp]
theorem get_clearAll (b : Bitmap W) (index : Nat) : b.clearAll.get index = false := by
  unfold get
  split
  · simp [clearAll]
  · rfl

/-- Adding an index in range adds it and no other. -/
theorem get_set (b : Bitmap W) {i : Nat} (h : i < b.capacity) (j : Nat) :
    (b.set i).get j = (b.get j || decide (i = j)) := by
  by_cases hj : j < b.capacity
  · have hi64 : i % 64 < 64 := Nat.mod_lt i (by decide)
    have hj64 : j % 64 < 64 := Nat.mod_lt j (by decide)
    rw [get_of_lt _ (by simpa using hj) (b.word_lt hj), get_of_lt _ hj (b.word_lt hj)]
    simp only [set, getElem_updateWord _ _ h (b.word_lt hj)]
    by_cases hword : i / 64 = j / 64
    · have hsame : i % 64 = j % 64 ↔ i = j := by omega
      simp [hword, Word.hasBit_or_bit _ hi64 hj64, hsame]
    · have hne : i ≠ j := fun heq => hword (heq ▸ rfl)
      simp [hword, hne]
  · have hle : b.capacity ≤ j := Nat.le_of_not_lt hj
    have hne : i ≠ j := by omega
    have hset : (b.set i).get j = false := get_of_le _ (by simpa using hle)
    simp [get_of_le _ hle, hset, hne]

/-- Removing an index in range removes it and no other. -/
theorem get_clear (b : Bitmap W) {i : Nat} (h : i < b.capacity) (j : Nat) :
    (b.clear i).get j = (b.get j && !decide (i = j)) := by
  by_cases hj : j < b.capacity
  · have hi64 : i % 64 < 64 := Nat.mod_lt i (by decide)
    have hj64 : j % 64 < 64 := Nat.mod_lt j (by decide)
    rw [get_of_lt _ (by simpa using hj) (b.word_lt hj), get_of_lt _ hj (b.word_lt hj)]
    simp only [clear, getElem_updateWord _ _ h (b.word_lt hj)]
    by_cases hword : i / 64 = j / 64
    · have hsame : i % 64 = j % 64 ↔ i = j := by omega
      simp [hword, Word.hasBit_and_not_bit _ hi64 hj64, hsame]
    · have hne : i ≠ j := fun heq => hword (heq ▸ rfl)
      simp [hword, hne]
  · have hle : b.capacity ≤ j := Nat.le_of_not_lt hj
    have hclear : (b.clear i).get j = false := get_of_le _ (by simpa using hle)
    simp [get_of_le _ hle, hclear]

/-! ## The search for a clear index -/

/-- The bit at {lit}`index` of a list of words; there is none beyond the last word. -/
def hasBitAt (words : List UInt64) (index : Nat) : Bool :=
  match words[index / 64]? with
  | some word => Word.hasBit word (index % 64)
  | none => false

/-- The bits of the first word come first. -/
theorem hasBitAt_cons_of_lt (word : UInt64) (rest : List UInt64) {index : Nat}
    (h : index < 64) : hasBitAt (word :: rest) index = Word.hasBit word index := by
  have hdiv : index / 64 = 0 := by omega
  have hmod : index % 64 = index := by omega
  simp [hasBitAt, hdiv, hmod]

/-- The bits of the other words follow. -/
theorem hasBitAt_cons_of_le (word : UInt64) (rest : List UInt64) (index : Nat) :
    hasBitAt (word :: rest) (index + 64) = hasBitAt rest index := by
  have hdiv : (index + 64) / 64 = index / 64 + 1 := by omega
  have hmod : (index + 64) % 64 = index % 64 := by omega
  simp [hasBitAt, hdiv, hmod]

/-- Leaving out words leaves out 64 bits each. -/
theorem hasBitAt_drop (words : List UInt64) (count index : Nat) :
    hasBitAt (words.drop count) index = hasBitAt words (count * 64 + index) := by
  have hdiv : (count * 64 + index) / 64 = count + index / 64 := by omega
  have hmod : (count * 64 + index) % 64 = index % 64 := by omega
  simp [hasBitAt, hdiv, hmod]

/-- A member in range is a bit of the words. -/
theorem get_eq_hasBitAt (b : Bitmap W) {index : Nat} (h : index < b.capacity) :
    b.get index = hasBitAt b.words.toList index := by
  have hw := b.word_lt h
  rw [get_of_lt b h hw]
  simp [hasBitAt, hw]

/-- The search through the words finds the lowest clear bit. -/
theorem firstClear?_eq_some_iff (base : Nat) (words : List UInt64) (index : Nat) :
    firstClear? base words = some index ↔
      ∃ k, index = base + k ∧ k < 64 * words.length ∧ hasBitAt words k = false ∧
        ∀ j < k, hasBitAt words j = true := by
  induction words generalizing base with
  | nil => simp [firstClear?]
  | cons word rest ih =>
    unfold firstClear?
    split
    · rename_i offset hfound
      obtain ⟨hlt, hclear, hset⟩ := (Word.lowestClear?_eq_some_iff word offset).mp hfound
      constructor
      · intro h
        obtain rfl := Option.some.inj h
        refine ⟨offset, rfl, by simp only [List.length_cons]; omega, ?_, ?_⟩
        · rw [hasBitAt_cons_of_lt _ _ hlt]
          exact hclear
        · intro j hj
          rw [hasBitAt_cons_of_lt _ _ (Nat.lt_trans hj hlt)]
          exact hset j hj
      · rintro ⟨k, rfl, _, hk, hbelow⟩
        have hle : k ≤ offset := by
          apply Nat.le_of_not_lt
          intro hgt
          have := hbelow offset hgt
          rw [hasBitAt_cons_of_lt _ _ hlt, hclear] at this
          exact Bool.noConfusion this
        have hge : offset ≤ k := by
          apply Nat.le_of_not_lt
          intro hgt
          have := hset k hgt
          rw [← hasBitAt_cons_of_lt word rest (Nat.lt_trans hgt hlt), hk] at this
          exact Bool.noConfusion this
        rw [Nat.le_antisymm hle hge]
    · rename_i hfull
      have hset := (Word.lowestClear?_eq_none_iff word).mp hfull
      rw [ih]
      constructor
      · rintro ⟨k, rfl, hlt, hk, hbelow⟩
        refine ⟨k + 64, by omega, by simp only [List.length_cons]; omega, ?_, ?_⟩
        · rw [hasBitAt_cons_of_le]
          exact hk
        · intro j hj
          by_cases hj64 : j < 64
          · rw [hasBitAt_cons_of_lt _ _ hj64]
            exact hset j hj64
          · obtain ⟨i, rfl⟩ := Nat.exists_eq_add_of_le' (Nat.le_of_not_lt hj64)
            rw [hasBitAt_cons_of_le]
            exact hbelow i (by omega)
      · rintro ⟨k, rfl, hlt, hk, hbelow⟩
        have hk64 : 64 ≤ k := by
          apply Nat.le_of_not_lt
          intro hgt
          rw [hasBitAt_cons_of_lt _ _ hgt, hset k hgt] at hk
          exact Bool.noConfusion hk
        obtain ⟨i, rfl⟩ := Nat.exists_eq_add_of_le' hk64
        refine ⟨i, by omega, by simp only [List.length_cons] at hlt; omega, ?_, ?_⟩
        · rw [hasBitAt_cons_of_le] at hk
          exact hk
        · intro j hj
          rw [← hasBitAt_cons_of_le word]
          exact hbelow (j + 64) (by omega)

/-- Setting the low bits of the first word makes them set and changes no other bit. -/
theorem hasBitAt_or_below (word : UInt64) (rest : List UInt64) {low : Nat} (h : low < 64)
    (index : Nat) :
    hasBitAt ((word ||| Word.below low) :: rest) index =
      (hasBitAt (word :: rest) index || decide (index < low)) := by
  by_cases hindex : index < 64
  · rw [hasBitAt_cons_of_lt _ _ hindex, hasBitAt_cons_of_lt _ _ hindex,
      Word.hasBit_or _ _ hindex, Word.hasBit_below h hindex]
  · obtain ⟨i, rfl⟩ := Nat.exists_eq_add_of_le' (Nat.le_of_not_lt hindex)
    have hnot : ¬ i + 64 < low := by omega
    simp [hasBitAt_cons_of_le, hnot]

/--
The search finds the lowest index from its start on that is below the capacity
and not a member.
-/
theorem nextClear?_eq_some_iff (b : Bitmap W) (start index : Nat) :
    b.nextClear? start = some index ↔
      start ≤ index ∧ index < b.capacity ∧ b.get index = false ∧
        ∀ j, start ≤ j → j < index → b.get j = true := by
  have hcap := b.capacity_le
  have hlow : start % 64 < 64 := Nat.mod_lt start (by decide)
  have hlength : b.words.toList.length = W := by simp
  unfold nextClear?
  rw [Option.filter_eq_some_iff]
  cases hdrop : b.words.toList.drop (start / 64) with
  | nil =>
    have hW : W ≤ start / 64 := by
      simpa [hlength] using List.drop_eq_nil_iff.mp hdrop
    simp only [reduceCtorEq, false_and, false_iff, not_and]
    intro _ _
    omega
  | cons word rest =>
    have hrest : rest.length + 1 + start / 64 = W := by
      have := congrArg List.length hdrop
      simp only [List.length_drop, List.length_cons, hlength] at this
      omega
    have hbit : ∀ k, hasBitAt ((word ||| Word.below (start % 64)) :: rest) k =
        (hasBitAt b.words.toList (start / 64 * 64 + k) || decide (k < start % 64)) := by
      intro k
      rw [hasBitAt_or_below word rest hlow, ← hdrop, hasBitAt_drop]
    simp only [firstClear?_eq_some_iff, decide_eq_true_eq, hbit, List.length_cons]
    constructor
    · rintro ⟨⟨k, rfl, _, hk, hbelow⟩, hlt⟩
      simp only [Bool.or_eq_false_iff, decide_eq_false_iff_not] at hk
      refine ⟨by omega, hlt, ?_, ?_⟩
      · rw [get_eq_hasBitAt b hlt]
        exact hk.1
      · intro j hstart hj
        have hj' := hbelow (j - start / 64 * 64) (by omega)
        have hge : ¬ j - start / 64 * 64 < start % 64 := by omega
        have hsum : start / 64 * 64 + (j - start / 64 * 64) = j := by omega
        rw [get_eq_hasBitAt b (Nat.lt_trans hj hlt)]
        simpa [hge, hsum] using hj'
    · rintro ⟨hstart, hlt, hclear, hbelow⟩
      refine ⟨⟨index - start / 64 * 64, by omega, by omega, ?_, ?_⟩, hlt⟩
      · have hge : ¬ index - start / 64 * 64 < start % 64 := by omega
        have hsum : start / 64 * 64 + (index - start / 64 * 64) = index := by omega
        rw [get_eq_hasBitAt b hlt] at hclear
        simp [hge, hsum, hclear]
      · intro j hj
        by_cases hjlow : j < start % 64
        · simp [hjlow]
        · have hset := hbelow (start / 64 * 64 + j) (by omega) (by omega)
          rw [get_eq_hasBitAt b (by omega)] at hset
          simp [hset]

/-- The search fails exactly when every index from its start on is a member. -/
theorem nextClear?_eq_none_iff (b : Bitmap W) (start : Nat) :
    b.nextClear? start = none ↔
      ∀ j, start ≤ j → j < b.capacity → b.get j = true := by
  constructor
  · intro hnone j
    induction j using Nat.strongRecOn with
    | ind j ih =>
      intro hstart hlt
      cases hclear : b.get j with
      | true => rfl
      | false =>
        have hfound : b.nextClear? start = some j :=
          (b.nextClear?_eq_some_iff start j).mpr
            ⟨hstart, hlt, hclear, fun i hi hij => ih i hij hi (Nat.lt_trans hij hlt)⟩
        exact absurd (hnone.symm.trans hfound) nofun
  · intro hall
    cases hfound : b.nextClear? start with
    | none => rfl
    | some j =>
      obtain ⟨hstart, hlt, hclear, _⟩ := (b.nextClear?_eq_some_iff start j).mp hfound
      rw [hall j hstart hlt] at hclear
      exact Bool.noConfusion hclear

end Bitmap
end DeviceLayer
