import DeviceLayer.Proofs.Bitmap.IndexSet
import Mathlib.Order.Bounds.Basic
import Mathlib.Order.Minimal

/-!
# The search for a clear index

The search is a loop over the numbers of the words.  It reads one word after the
other until a word has a clear bit or was the last one, and only then compares what
it found with the capacity: in storage the padding looks clear.  Here the loop is
written down with the words that it reads, so that reading past the storage and
going on for too long are outcomes like any other.

Main results:

- Theorem {lit}`Bitmap.walk_eq`: the loop reads existing words in order, each at
  most once, and ends with the first clear bit of the words from its start on.
- Theorem {lit}`Bitmap.search_snd`: the loop answers what the search answers.
- Theorem {lit}`Bitmap.next_clear_is_least`: after any changes of a new bitmap the
  search finds the lowest index in range that is not a member, within the storage.
-/

namespace DeviceLayer

/-- The least number with a property below a limit is one that none before it shares. -/
theorem isLeast_lt_and_iff {p : Nat → Prop} {limit least : Nat} :
    IsLeast {i | i < limit ∧ p i} least ↔
      least < limit ∧ p least ∧ ∀ i < least, ¬ p i := by
  rw [← minimal_iff_isLeast, minimal_iff_forall_lt, Set.mem_ofPred_eq, and_assoc]
  refine and_congr_right fun hlt => and_congr_right fun _ => ?_
  constructor
  · intro hnone i hi hp
    exact hnone hi ⟨Nat.lt_trans hi hlt, hp⟩
  · rintro hnone i hi ⟨-, hp⟩
    exact hnone i hi hp

namespace Bitmap

variable {W : Nat}

/-! ## The loop over the words -/

/-- How the loop ends. -/
inductive Outcome where
  /-- With a clear index in range, if it found one. -/
  | answered (index? : Option Nat)
  /-- It reads a word that there is not. -/
  | outOfStorage
  /-- The words that it was allowed to read did not suffice. -/
  | unfinished
deriving DecidableEq, Repr

/--
Look for a clear bit from word {lit}`k` on, reading at most {lit}`fuel` words.  The
bits of {lit}`low` count as set in the first of them.  The numbers of the words that
are read are listed in order.
-/
def walk (b : Bitmap W) (fuel k : Nat) (low : UInt64) : List Nat × Outcome :=
  match fuel with
  | 0 => ([], .unfinished)
  | fuel + 1 =>
    match b.words[k]? with
    | none => ([k], .outOfStorage)
    | some word =>
      match Word.lowestClear? (word ||| low) with
      | some offset => ([k], .answered ((some (k * 64 + offset)).filter (· < b.capacity)))
      | none =>
        if k + 1 = W then ([k], .answered none)
        else
          let later := b.walk fuel (k + 1) 0
          (k :: later.1, later.2)

/-- The whole search: a start out of range needs no loop. -/
def search (b : Bitmap W) (start : Nat) : List Nat × Outcome :=
  if start < b.capacity then b.walk W (start / 64) (Word.below (start % 64))
  else ([], .answered none)

/--
The loop reads existing words in order, each at most once, and ends with the first
clear bit of the words from its start on, if that lies in range.
-/
theorem walk_eq (b : Bitmap W) {fuel k : Nat} {word : UInt64} {rest : List UInt64}
    (hwords : b.words.toList.drop k = word :: rest) (hfuel : W ≤ k + fuel) (low : UInt64) :
    (b.walk fuel k low).1 <+: List.range' k (W - k) ∧
      (b.walk fuel k low).2 =
        .answered ((firstClear? (k * 64) ((word ||| low) :: rest)).filter (· < b.capacity)) := by
  induction fuel generalizing k word rest low with
  | zero =>
      have hnone : b.words.toList.drop k = [] := by
        apply List.drop_of_length_le
        rw [Vector.length_toList]
        exact hfuel
      rw [hnone] at hwords
      contradiction
  | succ fuel ih =>
      have hlength : rest.length + 1 + k = W := by
        have := congrArg List.length hwords
        rw [List.length_drop, Vector.length_toList, List.length_cons] at this
        omega
      have hread : b.words[k]? = some word := by
        have := congrArg List.head? hwords
        rwa [List.head?_drop, Vector.getElem?_toList] at this
      have hrange : List.range' k (W - k) = k :: List.range' (k + 1) (W - (k + 1)) := by
        rw [show W - k = W - (k + 1) + 1 by omega, List.range'_succ]
      simp only [walk, hread, firstClear?]
      rw [hrange]
      cases hclear : Word.lowestClear? (word ||| low) with
      | some offset => exact ⟨List.prefix_cons_inj _ |>.mpr List.nil_prefix, rfl⟩
      | none =>
          cases rest with
          | nil =>
              have hlast : k + 1 = W := by simpa [Nat.add_comm] using hlength
              simp only [hlast, ↓reduceIte]
              exact ⟨List.prefix_cons_inj _ |>.mpr List.nil_prefix, rfl⟩
          | cons next others =>
              have hmore : ¬ k + 1 = W := by
                rw [List.length_cons] at hlength
                omega
              have hnext : b.words.toList.drop (k + 1) = next :: others := by
                rw [← List.tail_drop, hwords, List.tail_cons]
              rcases ih hnext (by omega) 0 with ⟨hstart, hanswer⟩
              simp only [hmore, ↓reduceIte]
              rw [UInt64.or_zero, Nat.succ_mul] at hanswer
              exact ⟨List.prefix_cons_inj _ |>.mpr hstart, hanswer⟩

/-- Within the storage a start in range has a word. -/
theorem exists_drop_eq_cons (b : Bitmap W) {start : Nat} (h : start < b.capacity) :
    ∃ word rest, b.words.toList.drop (start / 64) = word :: rest := by
  apply List.exists_cons_of_ne_nil
  rw [ne_eq, List.drop_eq_nil_iff, Vector.length_toList, Nat.not_le]
  exact b.word_lt h

/-- The loop answers what the search answers. -/
theorem search_snd (b : Bitmap W) (start : Nat) :
    (b.search start).2 = .answered (b.nextClear? start) := by
  unfold search
  split
  · rename_i hstart
    rcases b.exists_drop_eq_cons hstart with ⟨word, rest, hwords⟩
    have hanswer := (b.walk_eq hwords (Nat.le_add_left W _) (Word.below (start % 64))).2
    rw [hanswer, nextClear?, hwords]
  · rename_i hstart
    have hnone : b.nextClear? start = none :=
      (b.nextClear?_eq_none_iff start).mpr fun j hj hlt => absurd (Nat.lt_of_le_of_lt hj hlt) hstart
    rw [hnone]

/-- The loop starts at the word of its start and does not go past the last one. -/
theorem search_fst_prefix (b : Bitmap W) (start : Nat) :
    (b.search start).1 <+: List.range' (start / 64) (W - start / 64) := by
  unfold search
  split
  · rename_i hstart
    rcases b.exists_drop_eq_cons hstart with ⟨word, rest, hwords⟩
    exact (b.walk_eq hwords (Nat.le_add_left W _) (Word.below (start % 64))).1
  · exact List.nil_prefix

/-! ## What the search finds -/

/-- The search finds the least index in range from its start on that is not a member. -/
theorem nextClear?_eq_some_iff_isLeast (b : Bitmap W) (start index : Nat) :
    b.nextClear? start = some index ↔
      IsLeast {i | start ≤ i ∧ i < b.capacity ∧ b.get i = false} index := by
  have hset : {i | start ≤ i ∧ i < b.capacity ∧ b.get i = false} =
      {i | i < b.capacity ∧ start ≤ i ∧ b.get i = false} :=
    Set.ext fun i => and_left_comm
  have hblocked : (∀ i < index, ¬ (start ≤ i ∧ b.get i = false)) ↔
      ∀ i, start ≤ i → i < index → b.get i = true := by
    simp only [not_and, Bool.not_eq_false]
    exact forall_congr' fun i => forall_comm
  rw [nextClear?_eq_some_iff, hset, isLeast_lt_and_iff, hblocked, and_assoc]
  exact and_left_comm

/--
After any changes of a new bitmap, of any number of words and any capacity, the
search finds the least index in range from its start on that is not a member, and
finds nothing exactly if every such index is a member.  The loop over the words
comes to that answer, reads no word that there is not, and reads each word once at
most.
-/
theorem next_clear_is_least (wanted : Nat) (edits : List Edit) (start : Nat) :
    let capacity := min wanted (64 * W)
    let b := (empty wanted : Bitmap W).editAll edits
    let read := (b.search start).1
    ((∀ index, b.nextClear? start = some index ↔
          IsLeast {i | start ≤ i ∧ i < capacity ∧ b.get i = false} index) ∧
        (b.nextClear? start = none ↔ ∀ i, start ≤ i → i < capacity → b.get i = true) ∧
        (capacity ≤ start → b.nextClear? start = none)) ∧
      (b.search start).2 = .answered (b.nextClear? start) ∧
      read <+: List.range' (start / 64) (W - start / 64) ∧ (∀ k ∈ read, k < W) ∧
        read.length ≤ W := by
  intro capacity b read
  have hcapacity : b.capacity = capacity := capacity_editAll (empty wanted) edits
  have hread : read <+: List.range' (start / 64) (W - start / 64) := b.search_fst_prefix start
  have hnone := b.nextClear?_eq_none_iff start
  rw [hcapacity] at hnone
  refine ⟨⟨?_, hnone, ?_⟩, b.search_snd start, hread, ?_, ?_⟩
  · intro index
    rw [nextClear?_eq_some_iff_isLeast, hcapacity]
  · intro hle
    exact hnone.mpr fun i hi hlt => absurd (Nat.le_trans hle hi) (Nat.not_le.mpr hlt)
  · intro k hk
    have := List.mem_range'_1.mp (hread.subset hk)
    omega
  · have := hread.length_le
    rw [List.length_range'] at this
    omega

/-- The first word is full from the start on, the clear padding lies in the second one. -/
theorem search_across_words :
    let b := (empty 100 : Bitmap 2).editAll [.set 63, .set 64, .set 99, .set 100]
    (b.nextClear? 63 = some 65 ∧ IsLeast {i | 63 ≤ i ∧ i < 100 ∧ b.get i = false} 65) ∧
      (b.search 63 = ([0, 1], .answered (some 65)) ∧ 1 < 2) ∧
      b.nextClear? 99 = none ∧ b.get 99 = true ∧ b.nextClear? 100 = none := by
  intro b
  have hfound : b.nextClear? 63 = some 65 := by decide
  have hread : (b.search 63).1 = [0, 1] := by decide
  rcases @next_clear_is_least 2 100 [.set 63, .set 64, .set 99, .set 100] 63 with
    ⟨⟨hleast, -, -⟩, hanswer, -, hstorage, -⟩
  rcases @next_clear_is_least 2 100 [.set 63, .set 64, .set 99, .set 100] 99 with
    ⟨⟨-, hnone, -⟩, -⟩
  rcases @next_clear_is_least 2 100 [.set 63, .set 64, .set 99, .set 100] 100 with
    ⟨⟨-, -, hbeyond⟩, -⟩
  have hfull : b.nextClear? 99 = none := by decide
  refine ⟨⟨hfound, (hleast 65).mp hfound⟩, ⟨Prod.ext hread (hfound ▸ hanswer), ?_⟩, hfull,
    hnone.mp hfull 99 (Nat.le_refl 99) (by decide), hbeyond (by decide)⟩
  exact hstorage 1 (by rw [hread]; decide)

end Bitmap
end DeviceLayer
