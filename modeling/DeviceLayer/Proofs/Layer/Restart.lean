import DeviceLayer.Proofs.Event.Sequence
import DeviceLayer.Proofs.Layer.Run

/-!
# Restarting

A reset makes a queue, a table or a whole layer new again, whatever happened
before.  So each later run is answered as on a new one over the sources as they
are, and nothing of an earlier wait, post or resource can be seen in it.

Main results:

- Theorem {lit}`Recorded.performAll_after`: earlier entries of the log play no part
  in what comes later.
- Theorem {lit}`Queue.respond_register`: a new queue numbers from one on until its
  pool is used up.
- Theorem {lit}`Table.respond_allocate`: a new table hands out its descriptors in
  ascending order until it is full.
- Theorem {lit}`reset_starts_afresh`: at every moment of every run, a reset and
  what follows it are answered as the same calls on a new instance.
-/

namespace DeviceLayer

variable {S κ : Type} [Sources S κ]

/-! ## Runs after a log -/

namespace Recorded

theorem perform_after (log : List Entry) (r : Recorded S) (op : Operation S) :
    ({ r with log := log ++ r.log } : Recorded S).perform op =
      { r.perform op with log := log ++ (r.perform op).log } := by
  cases op with
  | call call => simp only [perform, List.append_assoc]
  | change f => rfl

/-- Earlier entries of the log stay in front and play no part in what comes later. -/
theorem performAll_after (log : List Entry) (r : Recorded S) (ops : List (Operation S)) :
    ({ r with log := log ++ r.log } : Recorded S).performAll ops =
      { r.performAll ops with log := log ++ (r.performAll ops).log } := by
  induction ops generalizing r with
  | nil => rfl
  | cons op ops ih => rw [performAll_cons, performAll_cons, perform_after, ih]

/-- After a reset the queue goes on as a new one over the same sources. -/
theorem performAll_reset (r : Recorded S) (ops : List (Operation S)) :
    let fresh := (new r.queue.sources).performAll ops
    (r.perform (.call .reset)).performAll ops =
      { fresh with log := r.log ++ ⟨.reset, .nothing⟩ :: fresh.log } := by
  intro fresh
  have hstart : r.perform (.call .reset) =
      { new r.queue.sources with
        log := (r.log ++ [⟨.reset, .nothing⟩]) ++ (new r.queue.sources).log } := by
    rw [new, List.append_nil]
    rfl
  rw [hstart, performAll_after, List.append_assoc, List.singleton_append]

end Recorded

/-! ## Numbering a new queue -/

namespace Roster

omit [Sources S κ] in
/-- If the number after the last one can be given out, it comes next. -/
theorem nextNumber_eq_succ {r : Roster S} (hlength : r.waits.length ≤ waitLimit)
    (hunused : isUnused r.waits (r.lastNumber + 1) = true) : r.nextNumber = r.lastNumber + 1 := by
  have hzero : r.lastNumber + 1 + UInt32.ofNat 0 = r.lastNumber + 1 := by simp
  rcases nextNumber_eq_first hlength with ⟨i, -, hnumber, -, hfirst⟩
  cases i with
  | zero => exact hnumber.trans hzero
  | succ i =>
      have hblocked := hfirst 0 (Nat.zero_lt_succ i)
      rw [hzero, hunused] at hblocked
      contradiction

/-- The waits were numbered from one on. -/
structure Counted (r : Roster S) : Prop where
  last_eq : r.lastNumber.toNat = r.waits.length
  number_le : ∀ wait ∈ r.waits, wait.number.toNat ≤ r.waits.length

omit [Sources S κ] in
/-- While there is room, the next number is one more than there are waits. -/
theorem Counted.register {r : Roster S} (h : r.Counted) (hroom : r.waits.length < waitLimit)
    (type : EventType) :
    (r.register type).1 = .ok (UInt32.ofNat (r.waits.length + 1)) ∧
      (r.register type).2.waits.length = r.waits.length + 1 ∧ (r.register type).2.Counted := by
  have hsize : waitLimit < UInt32.size := by decide
  have hnext : (UInt32.ofNat (r.waits.length + 1)).toNat = r.waits.length + 1 :=
    UInt32.toNat_ofNat_of_lt' (Nat.lt_of_le_of_lt hroom hsize)
  have hsucc : r.lastNumber + 1 = UInt32.ofNat (r.waits.length + 1) := by
    rw [← h.last_eq, UInt32.ofNat_add, UInt32.ofNat_toNat]
    rfl
  have hunused : isUnused r.waits (r.lastNumber + 1) = true := by
    rw [isUnused_iff, hsucc]
    refine ⟨?_, ?_⟩
    · intro hzero
      rw [hzero] at hnext
      exact absurd hnext (Nat.succ_ne_zero _).symm
    · intro wait hwait hsame
      have hle := h.number_le wait hwait
      rw [hsame, hnext] at hle
      exact absurd hle (Nat.not_succ_le_self _)
  have hnumber := nextNumber_eq_succ (Nat.le_of_lt hroom) hunused
  rw [hsucc] at hnumber
  rw [register_of_room hroom, hnumber]
  simp only [List.length_append, List.length_singleton, true_and]
  refine ⟨by rw [hnext, List.length_append, List.length_singleton], ?_⟩
  intro wait hwait
  rw [List.length_append, List.length_singleton]
  rcases List.mem_append.mp hwait with hold | hnew
  · exact Nat.le_succ_of_le (h.number_le wait hold)
  · rw [List.mem_singleton.mp hnew]
    exact Nat.le_of_eq hnext

/-- The numbers go up by one until the pool is used up. -/
theorem respond_register {r : Roster S} (h : r.Counted) {k : Nat}
    (hk : r.waits.length = min k waitLimit) (types : List EventType) :
    (respond perform r (types.map .register)).1 =
      (List.range' k types.length).map fun i =>
        .number (if i < waitLimit then .ok (UInt32.ofNat (i + 1)) else .error .waitPoolEmpty) := by
  induction types generalizing r k with
  | nil => rfl
  | cons type rest ih =>
      simp only [List.map_cons, List.length_cons, List.range'_succ, respond, perform]
      by_cases hroom : k < waitLimit
      · have hlength : r.waits.length = k := by omega
        rcases h.register (hlength ▸ hroom) type with ⟨hanswer, hlength', hcounted⟩
        have hk' : (r.register type).2.waits.length = min (k + 1) waitLimit := by omega
        rw [hanswer, if_pos hroom, ih hcounted hk', hlength]
      · have hfull : ¬ r.waits.length < waitLimit := by omega
        have hk' : r.waits.length = min (k + 1) waitLimit := by omega
        rw [register_of_full hfull, if_neg hroom, ih h hk']

end Roster

/-- A new queue numbers from one on, until its pool is used up. -/
theorem Queue.respond_register (sources : S) (types : List EventType) :
    (respond perform (new sources) (types.map .register)).1 =
      (List.range types.length).map fun i =>
        .number (if i < waitLimit then .ok (UInt32.ofNat (i + 1)) else .error .waitPoolEmpty) := by
  have hstep : ∀ (q : Queue S) (r : Roster S) (call : DeviceLayer.Call),
      q.waits.WellFormed ∧ q.toRoster = r →
        (q.perform call).1 = (r.perform call).1 ∧ (q.perform call).2.waits.WellFormed ∧
          (q.perform call).2.toRoster = (r.perform call).2 := by
    rintro q r call ⟨hwf, rfl⟩
    rcases refines_perform hwf call with ⟨hwf', hplain⟩
    rw [hplain]
    exact ⟨rfl, hwf', rfl⟩
  have hnew : (Roster.new sources).Counted := ⟨rfl, by simp [Roster.new]⟩
  rw [(respond_simulates hstep ⟨WaitList.wellFormed_empty, rfl⟩ _).1, List.range_eq_range']
  exact Roster.respond_register hnew rfl types

/-! ## Descriptors of a new table -/

namespace Table

variable {α : Type}

/-- The descriptors go up by one until the table is full. -/
theorem Consistent.respond_allocate {t : Table α} (ht : t.Consistent) {k : Nat}
    (hk : ∀ d, t.isAllocated d = true ↔ d < min k descriptorLimit) (payloads : List α) :
    (respond perform t (payloads.map .allocate)).1 =
      (List.range' k payloads.length).map fun d =>
        .descriptor (if d < descriptorLimit then .ok d else .error .descriptorsFull) := by
  induction payloads generalizing t k with
  | nil => rfl
  | cons payload rest ih =>
      simp only [List.map_cons, List.length_cons, List.range'_succ, respond, perform]
      by_cases hroom : k < descriptorLimit
      · have hfree : t.lowestFree = some k := by
          rw [ht.lowestFree_eq_some_iff]
          refine ⟨hroom, ?_, fun d hd => (hk d).mpr (by omega)⟩
          rw [Bool.eq_false_iff, Ne, hk]
          omega
        have hused : ∀ d, (t.allocate payload).2.isAllocated d = true ↔
            d < min (k + 1) descriptorLimit := by
          intro d
          rw [← (ht.allocate payload).isSome_get?, get?_allocate ht hfree]
          by_cases heq : k = d
          · simp only [heq, ↓reduceIte, Option.isSome_some, true_iff]
            omega
          · rw [if_neg heq, ht.isSome_get?, hk]
            omega
        rw [allocate_fst hfree, if_pos hroom, ih (ht.allocate payload) hused]
      · have hfree : t.lowestFree = none :=
          ht.lowestFree_eq_none_iff.mpr fun d hd => (hk d).mpr (by omega)
        have hused : ∀ d, t.isAllocated d = true ↔ d < min (k + 1) descriptorLimit := by
          intro d
          rw [hk]
          omega
        rw [allocate_of_full hfree, if_neg hroom, ih ht hused]

/-- A new table hands out its descriptors from the lowest one on, until it is full. -/
theorem respond_allocate (payloads : List α) :
    (respond perform empty (payloads.map .allocate)).1 =
      (List.range payloads.length).map fun d =>
        .descriptor (if d < descriptorLimit then .ok d else .error .descriptorsFull) := by
  rw [List.range_eq_range']
  refine consistent_empty.respond_allocate (fun d => ?_) payloads
  rw [← consistent_empty.isSome_get?, get?_empty]
  simp

end Table

/-! ## A layer -/

/-- A reset makes a layer new again over the same sources. -/
theorem Layer.reset_eq_new {l : Layer S} (h : l.resources.Consistent) :
    l.reset = .new l.queue.sources := by
  rw [Layer.reset, h.clear_eq_empty]
  rfl

/--
At every moment of every run of a queue, a reset touches no source, and the run
goes on as it would with a new queue over the sources as they are.  The same
holds of a table that is cleared and of a layer that is reset.  What is new
numbers its waits from one on and its descriptors from zero on, until pool and
table are used up.
-/
theorem reset_starts_afresh (sources : S) :
    (∀ (commands later : List (Command S)) (n : Nat),
      let r := moment sources commands n
      let restarted := Command.runAll later (r.perform (.call .reset))
      let fresh := Command.runAll later (.new r.queue.sources)
      restarted.queue = fresh.queue ∧ restarted.log = r.log ++ ⟨.reset, .nothing⟩ :: fresh.log ∧
        (r.perform (.call .reset)).queue.sources = r.queue.sources) ∧
    (∀ (α : Type) (calls later : List (Table.Call α)),
      let restarted := respond Table.perform (Table.after calls) (.clear :: later)
      let fresh := respond Table.perform .empty later
      restarted = (.nothing :: fresh.1, fresh.2)) ∧
    (∀ (commands later : List (Layer.Command S)) (n : Nat),
      let l := Layer.moment sources commands n
      let restarted := Layer.Command.runAll (.plain .reset :: later) l
      let fresh := Layer.Command.runAll later (.new l.queue.sources)
      restarted = (.nothing :: fresh.1, fresh.2) ∧
        (l.perform .reset).2.queue.sources = l.queue.sources) ∧
    (∀ types : List EventType,
      (respond Queue.perform (.new sources) (types.map .register)).1 =
        (List.range types.length).map fun i =>
          .number (if i < waitLimit then .ok (UInt32.ofNat (i + 1)) else .error .waitPoolEmpty)) ∧
    ∀ (α : Type) (payloads : List α),
      (respond Table.perform .empty (payloads.map .allocate)).1 =
        (List.range payloads.length).map fun d =>
          .descriptor (if d < descriptorLimit then .ok d else .error .descriptorsFull) := by
  refine ⟨?_, ?_, ?_, Queue.respond_register sources, fun α => Table.respond_allocate⟩
  · intro commands later n r restarted fresh
    have hrun : restarted = { fresh with log := r.log ++ ⟨.reset, .nothing⟩ :: fresh.log } := by
      simp only [restarted, fresh, Command.runAll_eq_performAll]
      exact r.performAll_reset _
    rw [hrun]
    exact ⟨rfl, rfl, rfl⟩
  · intro α calls later restarted fresh
    have hclear := (Table.sound_after calls).consistent.clear_eq_empty
    simp only [restarted, respond, Table.perform, hclear]
    rfl
  · intro commands later n l restarted fresh
    have hreset := Layer.reset_eq_new (Layer.consistent_moment sources commands n)
    refine ⟨?_, rfl⟩
    simp only [restarted, Layer.Command.runAll, Layer.Command.run, Layer.perform, l, hreset]
    rfl

end DeviceLayer
