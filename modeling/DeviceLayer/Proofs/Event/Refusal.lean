import DeviceLayer.Proofs.Event.Peek
import DeviceLayer.Proofs.Event.Sequence

/-!
# Refused registrations and cancels

A call can be refused for several reasons at once, and then one of them is told.
For a requestor the reasons come in a fixed order: its number, its own live wait,
the pool.  Whatever the reason, a refused call has no effect: the pool is asked for
a node before anything is written.

Main results:

- Theorem {lit}`Queue.perform_snd_of_isRefusal`: a refused call leaves the queue as
  it is, down to its nodes.
- Theorems {lit}`Roster.registerFor_of_live`, {lit}`Roster.registerFor_of_full` and
  {lit}`Roster.registerFor_of_room`: which reason comes before which.
- Theorem {lit}`refusals_are_exact`: at every moment of every run each reason is
  told exactly when it applies and no earlier one does.
-/

namespace DeviceLayer

/-- Whether a call was refused. -/
def Answer.isRefusal : Answer → Bool
  | .number (.error _) | .done (.error _) => true
  | _ => false

/-! ## Nothing changes -/

namespace Queue

variable {S κ : Type}

theorem append_snd_of_error {q : Queue S} {number : EventNumber} {type : EventType}
    {fault : Fault} (h : (q.append number type).1 = .error fault) :
    (q.append number type).2 = q := by
  unfold append at h ⊢
  split
  · rename_i hpush
    rw [hpush] at h
    contradiction
  · rfl

theorem register_snd_of_error {q : Queue S} {type : EventType} {fault : Fault}
    (h : (q.register type).1 = .error fault) : (q.register type).2 = q := by
  simp only [register, inInterrupt, Bool.false_eq_true, ↓reduceIte] at h ⊢
  rcases happend : q.append q.waits.nextNumber type with ⟨_ | number, q'⟩
  · have hfault := congrArg Prod.fst happend
    rw [← append_snd_of_error hfault, happend]
  · rw [happend] at h
    contradiction

theorem registerFor_snd_of_error {q : Queue S} {requestor : UInt32} {type : EventType}
    {fault : Fault} (h : (q.registerFor requestor type).1 = .error fault) :
    (q.registerFor requestor type).2 = q := by
  simp only [registerFor, inInterrupt, Bool.false_eq_true, ↓reduceIte] at h ⊢
  split
  · rfl
  · rename_i hne
    rw [if_neg hne] at h
    split
    · rfl
    · rename_i hfresh
      rw [if_neg hfresh] at h
      exact append_snd_of_error h

theorem cancel_snd_of_error {q : Queue S} {number : EventNumber} {type : EventType}
    {fault : Fault} (h : (q.cancel number type).1 = .error fault) :
    (q.cancel number type).2 = q := by
  unfold cancel at h ⊢
  split
  · rename_i hlocate
    rw [hlocate] at h
    contradiction
  · rfl

variable [Sources S κ]

/-- A refused call leaves the queue as it is, down to its nodes. -/
theorem perform_snd_of_isRefusal {q : Queue S} {call : Call}
    (h : (q.perform call).1.isRefusal = true) : (q.perform call).2 = q := by
  cases call with
  | register type =>
      cases hresult : (q.register type).1 with
      | error fault => exact register_snd_of_error hresult
      | ok number => simp [perform, hresult, Answer.isRefusal] at h
  | registerFor requestor type =>
      cases hresult : (q.registerFor requestor type).1 with
      | error fault => exact registerFor_snd_of_error hresult
      | ok number => simp [perform, hresult, Answer.isRefusal] at h
  | cancel number type =>
      cases hresult : (q.cancel number type).1 with
      | error fault => exact cancel_snd_of_error hresult
      | ok _ => simp [perform, hresult, Answer.isRefusal] at h
  | _ => contradiction

end Queue

/-! ## Which reason is told -/

/-- Only the last requestor has no number. -/
theorem requestor_add_one_eq_noEvent_iff (requestor : UInt32) :
    requestor + 1 = noEvent ↔ requestor = 4294967295 := by
  have hlt := requestor.toNat_lt
  rw [← UInt32.toNat_inj, ← UInt32.toNat_inj, UInt32.toNat_add]
  simp only [noEvent, UInt32.toNat_one, UInt32.reduceToNat]
  omega

namespace Roster

variable {S : Type} {r : Roster S} {requestor : UInt32} {number : EventNumber} {type : EventType}

/-- A wait matches a number and a type exactly if its key is among the live ones. -/
theorem any_isFor_iff (waits : List Wait) (number : EventNumber) (type : EventType) :
    waits.any (·.isFor number type) = true ↔ (number, type) ∈ waits.map Wait.key := by
  rw [List.any_eq_true, List.mem_map]
  simp only [Wait.isFor_iff]

theorem registerFor_of_zero (h : requestor + 1 = noEvent) :
    r.registerFor requestor type = (.error .requestorWithoutNumber, r) := by
  simp only [registerFor, h, ↓reduceIte]

/-- The requestor's own wait is told also when the pool is full. -/
theorem registerFor_of_live (hne : requestor + 1 ≠ noEvent)
    (hlive : (requestor + 1, type) ∈ r.waits.map Wait.key) :
    r.registerFor requestor type = (.error .alreadyWaiting, r) := by
  simp only [registerFor, hne, (any_isFor_iff _ _ _).mpr hlive, ↓reduceIte]

theorem registerFor_of_notMem (hne : requestor + 1 ≠ noEvent)
    (hfresh : (requestor + 1, type) ∉ r.waits.map Wait.key) :
    r.registerFor requestor type = r.append (requestor + 1) type := by
  simp only [registerFor, hne, mt (any_isFor_iff _ _ _).mp hfresh, ↓reduceIte,
    Bool.false_eq_true]

theorem registerFor_of_full (hne : requestor + 1 ≠ noEvent)
    (hfresh : (requestor + 1, type) ∉ r.waits.map Wait.key)
    (hfull : ¬ r.waits.length < waitLimit) :
    r.registerFor requestor type = (.error .waitPoolEmpty, r) := by
  rw [registerFor_of_notMem hne hfresh, append, if_neg hfull]

theorem registerFor_of_room (hne : requestor + 1 ≠ noEvent)
    (hfresh : (requestor + 1, type) ∉ r.waits.map Wait.key)
    (hroom : r.waits.length < waitLimit) :
    r.registerFor requestor type =
      (.ok (requestor + 1),
        { r with waits := r.waits ++ [⟨requestor + 1, type, .pending, 0⟩] }) := by
  rw [registerFor_of_notMem hne hfresh, append, if_pos hroom]

/-- Each reason is told exactly when it applies and no earlier one does. -/
theorem registerFor_fst_iff (hle : r.waits.length ≤ waitLimit) (requestor : UInt32)
    (type : EventType) :
    let answer := (r.registerFor requestor type).1
    let HasNumber := requestor ≠ 4294967295
    let IsLive := (requestor + 1, type) ∈ r.waits.map Wait.key
    let IsFull := r.waits.length = waitLimit
    (answer = .error .requestorWithoutNumber ↔ ¬ HasNumber) ∧
      (answer = .error .alreadyWaiting ↔ HasNumber ∧ IsLive) ∧
      (answer = .error .waitPoolEmpty ↔ HasNumber ∧ ¬ IsLive ∧ IsFull) ∧
      (answer = .ok (requestor + 1) ↔ HasNumber ∧ ¬ IsLive ∧ ¬ IsFull) := by
  intro answer HasNumber IsLive IsFull
  have hnumber : requestor + 1 ≠ noEvent ↔ HasNumber :=
    not_congr (requestor_add_one_eq_noEvent_iff requestor)
  have hroom : r.waits.length < waitLimit ↔ ¬ IsFull :=
    ⟨Nat.ne_of_lt, Nat.lt_of_le_of_ne hle⟩
  by_cases hhas : HasNumber
  · have hne := hnumber.mpr hhas
    by_cases hlive : IsLive
    · have hanswer : answer = .error .alreadyWaiting :=
        congrArg Prod.fst (registerFor_of_live hne hlive)
      simp [hanswer, hhas, hlive]
    · by_cases hfull : IsFull
      · have hanswer : answer = .error .waitPoolEmpty :=
          congrArg Prod.fst (registerFor_of_full hne hlive (mt hroom.mp (not_not_intro hfull)))
        simp [hanswer, hhas, hlive, hfull]
      · have hanswer : answer = .ok (requestor + 1) :=
          congrArg Prod.fst (registerFor_of_room hne hlive (hroom.mpr hfull))
        simp [hanswer, hhas, hlive, hfull]
  · have hanswer : answer = .error .requestorWithoutNumber :=
      congrArg Prod.fst (registerFor_of_zero (not_not.mp (mt hnumber.mp hhas)))
    simp [hanswer, hhas]

/-- Numbers of requestors do not move the counter. -/
theorem lastNumber_registerFor (r : Roster S) (requestor : UInt32) (type : EventType) :
    (r.registerFor requestor type).2.lastNumber = r.lastNumber := by
  simp only [registerFor, append]
  split_ifs <;> rfl

theorem register_fst_eq_error_iff (hle : r.waits.length ≤ waitLimit) (type : EventType)
    (fault : Fault) :
    (r.register type).1 = .error fault ↔ fault = .waitPoolEmpty ∧ r.waits.length = waitLimit := by
  by_cases hroom : r.waits.length < waitLimit
  · rw [register_of_room hroom]
    simp [Nat.ne_of_lt hroom]
  · rw [register_of_full hroom]
    simp [Nat.le_antisymm hle (Nat.le_of_not_lt hroom), eq_comm]

theorem cancel_of_live (hlive : (number, type) ∈ r.waits.map Wait.key) :
    r.cancel number type =
      (.ok (), { r with waits := r.waits.eraseP (·.isFor number type) }) := by
  rw [cancel, if_pos ((any_isFor_iff _ _ _).mpr hlive)]

theorem cancel_of_notMem (hfresh : (number, type) ∉ r.waits.map Wait.key) :
    r.cancel number type = (.error .noSuchWait, r) := by
  rw [cancel, if_neg (mt (any_isFor_iff _ _ _).mp hfresh)]

theorem cancel_fst_iff (r : Roster S) (number : EventNumber) (type : EventType) :
    let answer := (r.cancel number type).1
    let IsLive := (number, type) ∈ r.waits.map Wait.key
    (answer = .ok () ↔ IsLive) ∧ (answer = .error .noSuchWait ↔ ¬ IsLive) := by
  intro answer IsLive
  by_cases hlive : IsLive
  · have hanswer : answer = .ok () := congrArg Prod.fst (cancel_of_live hlive)
    simp [hanswer, hlive]
  · have hanswer : answer = .error .noSuchWait := congrArg Prod.fst (cancel_of_notMem hlive)
    simp [hanswer, hlive]

theorem lastNumber_cancel (r : Roster S) (number : EventNumber) (type : EventType) :
    (r.cancel number type).2.lastNumber = r.lastNumber := by
  unfold cancel
  split_ifs <;> rfl

end Roster

/-! ## Refusals throughout a run -/

/--
At every moment of every run, which may lie within the hook of a poll: a
registration in sequence is refused exactly if as many waits are live as there are
nodes.  A requestor is refused because it has no number, else because it has a live
wait of the type, however that was registered, else because no node is left, and
each reason is told exactly in its case.  A cancel is refused exactly if no live
wait has the key.  Whatever is refused leaves the queue as it is, down to its
nodes.  Registering for a requestor and cancelling leave the counter and the
sources alone even if they are not refused.
-/
theorem refusals_are_exact {S κ : Type} [Sources S κ] (sources : S)
    (commands : List (Command S)) (n : Nat) :
    let q := (moment sources commands n).queue
    let keys := q.waits.waits.map Wait.key
    let IsFull := keys.length = waitLimit
    (∀ type fault, (q.register type).1 = .error fault ↔ fault = .waitPoolEmpty ∧ IsFull) ∧
      (∀ requestor type,
        let answer := (q.registerFor requestor type).1
        let HasNumber := requestor ≠ 4294967295
        let IsLive := (requestor + 1, type) ∈ keys
        (answer = .error .requestorWithoutNumber ↔ ¬ HasNumber) ∧
          (answer = .error .alreadyWaiting ↔ HasNumber ∧ IsLive) ∧
          (answer = .error .waitPoolEmpty ↔ HasNumber ∧ ¬ IsLive ∧ IsFull) ∧
          (answer = .ok (requestor + 1) ↔ HasNumber ∧ ¬ IsLive ∧ ¬ IsFull)) ∧
      (∀ number type,
        ((q.cancel number type).1 = .ok () ↔ (number, type) ∈ keys) ∧
          ((q.cancel number type).1 = .error .noSuchWait ↔ (number, type) ∉ keys)) ∧
      (∀ call, (q.perform call).1.isRefusal = true → (q.perform call).2 = q) ∧
      (∀ requestor type,
        (q.registerFor requestor type).2.waits.lastNumber = q.waits.lastNumber ∧
          (q.registerFor requestor type).2.sources = q.sources) ∧
      ∀ number type,
        (q.cancel number type).2.waits.lastNumber = q.waits.lastNumber ∧
          (q.cancel number type).2.sources = q.sources := by
  intro q keys IsFull
  have hsound := Recorded.sound_moment sources commands n
  have hle : q.toRoster.waits.length ≤ waitLimit := hsound.keyed.length_le
  have hkeys : keys.length = q.toRoster.waits.length := List.length_map _
  have hregister := fun type => (Queue.refines_register hsound.wellFormed type).2
  have hregisterFor := fun requestor type =>
    (Queue.refines_registerFor hsound.wellFormed requestor type).2
  have hcancel := fun number type => (Queue.refines_cancel hsound.wellFormed number type).2
  refine ⟨fun type fault => ?_, fun requestor type => ?_, fun number type => ?_,
    fun call => Queue.perform_snd_of_isRefusal, fun requestor type => ?_, fun number type => ?_⟩
  · have hrefused := Roster.register_fst_eq_error_iff hle type fault
    rwa [hregister type, ← hkeys] at hrefused
  · have hreasons := Roster.registerFor_fst_iff hle requestor type
    rwa [hregisterFor requestor type, ← hkeys] at hreasons
  · have hreason := q.toRoster.cancel_fst_iff number type
    rwa [hcancel number type] at hreason
  · have hlast := q.toRoster.lastNumber_registerFor requestor type
    rw [hregisterFor requestor type] at hlast
    exact ⟨hlast, q.sources_registerFor requestor type⟩
  · have hlast := q.toRoster.lastNumber_cancel number type
    rw [hcancel number type] at hlast
    exact ⟨hlast, q.sources_cancel number type⟩

/-- The pool is full, and the wait with number one was registered in sequence. -/
def fullPool : List (Command PostedOnly) :=
  [.operation (.call (.registerFor 1 7)),
    .operation (.call (.register 7)),
    .operation (.call (.register 8)),
    .operation (.call (.registerFor 4294967294 7)),
    .operation (.call (.post 1 7 5))]

/-- Of several reasons that apply the first is told, and nothing changes. -/
theorem first_reason_is_told :
    let q := (moment PostedOnly.mk fullPool 5).queue
    q.waits.waits.map Wait.key = [(2, 7), (1, 7), (3, 8), (4294967295, 7)] ∧
      (q.register 9).1 = .error .waitPoolEmpty ∧
      (q.registerFor 4294967295 7).1 = .error .requestorWithoutNumber ∧
      (q.registerFor 0 7).1 = .error .alreadyWaiting ∧
      (q.registerFor 0 8).1 = .error .waitPoolEmpty ∧
      (q.perform (.registerFor 0 8)).2 = q ∧
      (q.cancel 1 8).1 = .error .noSuchWait ∧
      (q.cancel 1 7).1 = .ok () ∧ (q.cancel 1 7).2.waits.lastNumber = 3 := by
  intro q
  have hkeys : q.waits.waits.map Wait.key = [(2, 7), (1, 7), (3, 8), (4294967295, 7)] := by decide
  have hlast : q.waits.lastNumber = 3 := by decide
  obtain ⟨hregister, hregisterFor, hcancel, hrefused, -, hkept⟩ :=
    refusals_are_exact PostedOnly.mk fullPool 5
  have hanswer : (q.registerFor 0 8).1 = .error .waitPoolEmpty :=
    (hregisterFor 0 8).2.2.1.mpr ⟨by decide, by decide, by decide⟩
  refine ⟨hkeys, (hregister 9 _).mpr ⟨rfl, by decide⟩, (hregisterFor 4294967295 7).1.mpr (by decide),
    (hregisterFor 0 7).2.1.mpr ⟨by decide, by decide⟩, hanswer, ?_,
    (hcancel 1 8).2.mpr (by decide), (hcancel 1 7).1.mpr (by decide),
    (hkept 1 7).1.trans hlast⟩
  apply hrefused
  change Answer.isRefusal (.number (q.registerFor 0 8).1) = true
  rw [hanswer]
  rfl

end DeviceLayer
