import DeviceLayer.Bitmap.Lemmas

/-!
# The padding of a bitmap

The words of a bitmap can have more bits than it has indices.  The bits beyond
the capacity are padding.  A bitmap is tidy as long as none of them is set; then
the bits that are set are the members, and counting one counts the other.

Main results:

- Theorem {lit}`Bitmap.Tidy.set` and its companions: a new bitmap is tidy, and
  every operation keeps it so.
- Theorem {lit}`Bitmap.Tidy.ones_eq`: in a tidy bitmap there are as many set bits
  as members.
-/

namespace DeviceLayer
namespace Bitmap

variable {W : Nat}

/-- No bit of the padding is set. -/
def Tidy (b : Bitmap W) : Prop :=
  ∀ index, b.capacity ≤ index → hasBitAt b.words.toList index = false

/-! ## Bits of the words -/

theorem hasBitAt_of_lt (b : Bitmap W) {index : Nat} (h : index / 64 < W) :
    hasBitAt b.words.toList index = Word.hasBit b.words[index / 64] (index % 64) := by
  simp [hasBitAt, h]

/-- There is no bit beyond the last word. -/
theorem hasBitAt_of_le (b : Bitmap W) {index : Nat} (h : W ≤ index / 64) :
    hasBitAt b.words.toList index = false := by
  simp [hasBitAt, Nat.not_lt.mpr h]

/-- Words without a set bit have none at any index. -/
theorem hasBitAt_replicate (count index : Nat) :
    hasBitAt (List.replicate count 0) index = false := by
  unfold hasBitAt
  rw [List.getElem?_replicate]
  split
  · rename_i word hword
    obtain rfl : 0 = word := by simpa using (Option.ite_none_right_eq_some.mp hword).2
    exact Word.hasBit_zero _
  · rfl

/-! ## Operations keep the padding clear -/

theorem tidy_empty (wanted : Nat) : (empty wanted : Bitmap W).Tidy := by
  intro index _
  simp only [empty, Vector.toList_replicate]
  exact hasBitAt_replicate W index

theorem tidy_clearAll (b : Bitmap W) : b.clearAll.Tidy := by
  intro index _
  simp only [clearAll, Vector.toList_replicate]
  exact hasBitAt_replicate W index

/-- Rewriting the bit of one index leaves the padding as it is. -/
theorem Tidy.updateWord {b : Bitmap W} (hb : b.Tidy) {index : Nat} {f : UInt64 → UInt64}
    (hf : ∀ word, ∀ k < 64, index % 64 ≠ k → Word.hasBit (f word) k = Word.hasBit word k) :
    (b.updateWord index f).Tidy := by
  by_cases h : index < b.capacity
  · intro j hj
    rw [capacity_updateWord] at hj
    by_cases hw : j / 64 < W
    · have hold := hb j hj
      rw [hasBitAt_of_lt b hw] at hold
      rw [hasBitAt_of_lt _ hw, getElem_updateWord b f h hw]
      split
      · -- both indices lie in one word, but the padding lies above the rewritten one
        rw [hf _ _ (Nat.mod_lt j (by decide)) (by omega)]
        exact hold
      · exact hold
    · exact hasBitAt_of_le _ (Nat.le_of_not_lt hw)
  · rwa [Bitmap.updateWord, dif_neg h]

theorem Tidy.set {b : Bitmap W} (hb : b.Tidy) (index : Nat) : (b.set index).Tidy := by
  apply hb.updateWord
  intro word k hk hne
  rw [Word.hasBit_or_bit word (Nat.mod_lt index (by decide)) hk]
  simp [hne]

theorem Tidy.clear {b : Bitmap W} (hb : b.Tidy) (index : Nat) : (b.clear index).Tidy := by
  apply hb.updateWord
  intro word k hk hne
  rw [Word.hasBit_and_not_bit word (Nat.mod_lt index (by decide)) hk]
  simp [hne]

/-! ## Counting -/

/-- The ones of all words are the set bits of the whole. -/
theorem foldr_ones_eq (words : List UInt64) :
    words.foldr (fun word count => Word.ones word + count) 0 =
      (List.range (64 * words.length)).countP (hasBitAt words) := by
  induction words with
  | nil => rfl
  | cons word rest ih =>
      have hsplit : 64 * (word :: rest).length = 64 + 64 * rest.length := by
        rw [List.length_cons]
        omega
      have hfirst : (List.range 64).countP (hasBitAt (word :: rest)) = Word.ones word := by
        apply List.countP_congr
        intro k hk
        rw [hasBitAt_cons_of_lt word rest (List.mem_range.mp hk)]
      have hothers : hasBitAt (word :: rest) ∘ (64 + ·) = hasBitAt rest := by
        funext k
        rw [Function.comp_apply, Nat.add_comm, hasBitAt_cons_of_le]
      rw [List.foldr_cons, ih, hsplit, List.range_add, List.countP_append, hfirst,
        List.countP_map, hothers]

/-- In a tidy bitmap there are as many set bits as members. -/
theorem Tidy.ones_eq {b : Bitmap W} (hb : b.Tidy) :
    b.ones = (List.range b.capacity).countP b.get := by
  -- the bits of all words are those of the members and, above them, the padding
  have hbits : 64 * b.words.toList.length = b.capacity + (64 * W - b.capacity) := by
    have hcap := b.capacity_le
    rw [Vector.length_toList]
    omega
  have hmembers : (List.range b.capacity).countP (hasBitAt b.words.toList) =
      (List.range b.capacity).countP b.get := by
    apply List.countP_congr
    intro k hk
    rw [get_eq_hasBitAt b (List.mem_range.mp hk)]
  have hpadding : ((List.range (64 * W - b.capacity)).map (b.capacity + ·)).countP
      (hasBitAt b.words.toList) = 0 := by
    rw [List.countP_eq_zero]
    intro index hindex
    rcases List.mem_map.mp hindex with ⟨k, -, rfl⟩
    simp [hb (b.capacity + k) (Nat.le_add_right _ _)]
  rw [ones, foldr_ones_eq, hbits, List.range_add, List.countP_append, hmembers, hpadding,
    Nat.add_zero]

/-- As many bits are set as there are indices exactly when every index is a member. -/
theorem Tidy.ones_eq_capacity_iff {b : Bitmap W} (hb : b.Tidy) :
    b.ones = b.capacity ↔ ∀ index < b.capacity, b.get index = true := by
  have hall := List.countP_eq_length (p := b.get) (l := List.range b.capacity)
  rw [List.length_range] at hall
  simpa only [hb.ones_eq, List.mem_range] using hall

end Bitmap
end DeviceLayer
