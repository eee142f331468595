import DeviceLayer.Proofs.Event.Peek
import DeviceLayer.Proofs.Timer.Effect

/-!
# The bits of the timer status word

A bit is raised by the expiry of its timer or by a driver.  It is dropped when its
timer is stopped, by a driver, or by any read that takes the word and returns it.
Nothing else touches it, so whether a bit is raised is decided by the last deed
that touched it.

Main results:

- Theorem {lit}`Queue.timers_scan`: a scan reads the word for the event that it
  reports and leaves it alone otherwise.
- Theorem {lit}`Device.isRaised_perform`: what one action does to one bit.
- Theorem {lit}`last_touch_decides_bits`: a whole run, from a device that was just
  switched on.
-/

namespace DeviceLayer

/-! ## Reading the word -/

namespace TimerStatus

theorem word_eq_zero_iff (s : TimerStatus) : s.word = 0 ↔ s = empty := by
  cases s
  simp [empty]

/-- What is read is the whole word, with its last bit as the sign. -/
theorem toUInt32_of_read {s : TimerStatus} {mode : ReadMode} {value : EventValue}
    (h : (s.read mode).1 = some value) : value.toUInt32 = s.word := by
  have hread : (s.read mode).1 = if s.word = 0 then none else some s.word.toInt32 := by
    cases mode <;> rfl
  rw [hread] at h
  split at h
  · contradiction
  · rw [← Option.some.inj h, UInt32.toUInt32_toInt32]

/--
How a read of an event type stands to the word: a read of the timers returns the
word and leaves what such a read leaves, and any other read leaves the word alone.
-/
def Reads (mode : ReadMode) (type : EventType) (value : Option EventValue)
    (before after : TimerStatus) : Prop :=
  if type = Board.timerEventType then before.read mode = (value, after) else after = before

variable {mode : ReadMode} {type : EventType} {before after : TimerStatus}

theorem reads_read (s : TimerStatus) (mode : ReadMode) :
    Reads mode Board.timerEventType (s.read mode).1 s (s.read mode).2 := by
  rw [Reads, if_pos rfl]

/-- A read that returns nothing leaves the word as it is. -/
theorem Reads.eq_of_none (h : Reads mode type none before after) : after = before := by
  unfold Reads at h
  split at h
  · have hafter : (before.read mode).2 = after := congrArg Prod.snd h
    have hempty : before = empty := (before.read_fst_eq_none_iff mode).mp (congrArg Prod.fst h)
    rw [← hafter, hempty]
    cases mode <;> rfl
  · exact h

/-- A peek leaves the word as it is. -/
theorem Reads.eq_of_peek {value : Option EventValue} (h : Reads .peek type value before after) :
    after = before := by
  unfold Reads at h
  split at h
  · exact (congrArg Prod.snd h).symm
  · exact h

/-- A read of another type leaves the word as it is. -/
theorem Reads.eq_of_ne {value : Option EventValue} (h : Reads mode type value before after)
    (hne : type ≠ Board.timerEventType) : after = before := by
  rwa [Reads, if_neg hne] at h

/-- What a read of the timers returns is the word. -/
theorem Reads.toUInt32_eq {value : EventValue}
    (h : Reads mode Board.timerEventType (some value) before after) :
    value.toUInt32 = before.word := by
  rw [Reads, if_pos rfl] at h
  exact toUInt32_of_read (congrArg Prod.fst h)

/-- What a read makes of every bit: it drops them if it takes the word and returns it. -/
def touchOfRead? : ReadMode → EventType → Option EventValue → Option Bool
  | .take, type, some _ => if type = Board.timerEventType then some false else none
  | _, _, _ => none

theorem Reads.isRaised_eq {value : Option EventValue} (h : Reads mode type value before after)
    (d : Nat) : after.isRaised d = (touchOfRead? mode type value).getD (before.isRaised d) := by
  cases mode with
  | peek =>
      rw [h.eq_of_peek]
      rfl
  | take =>
      cases value with
      | none =>
          rw [h.eq_of_none]
          rfl
      | some value =>
          by_cases htype : type = Board.timerEventType
          · rw [Reads, if_pos htype] at h
            obtain rfl : empty = after := congrArg Prod.snd h
            rw [touchOfRead?, if_pos htype, isRaised_empty, Option.getD_some]
          · rw [touchOfRead?, if_neg htype, h.eq_of_ne htype, Option.getD_none]

/-! ## Raising and dropping -/

theorem isRaised_raise_eq_getD (s : TimerStatus) (bits : UInt32) (d : Nat) :
    (s.raise bits).isRaised d =
      (if bits.toNat.testBit d then some true else none).getD (s.isRaised d) := by
  rw [isRaised_raise]
  cases bits.toNat.testBit d with
  | false => exact Bool.or_false _
  | true => exact Bool.or_true _

theorem isRaised_drop_eq_getD (s : TimerStatus) (bits : UInt32) (d : Nat) :
    (s.drop bits).isRaised d =
      (if bits.toNat.testBit d then some false else none).getD (s.isRaised d) := by
  rw [isRaised_drop]
  cases bits.toNat.testBit d with
  | false => exact Bool.and_true _
  | true => exact Bool.and_false _

end TimerStatus

open TimerStatus (Reads)

/-! ## Scans and reads of a board -/

namespace Board

theorem reads_kind (b : Board) (type : EventType) {source : Source}
    (h : sourceOf? type = some source) (mode : ReadMode) :
    Reads mode type (b.read source mode).1 b.timers (b.read source mode).2.timers := by
  unfold sourceOf? at h
  split at h
  · rename_i htype
    obtain rfl : .pins = source := Option.some.inj h
    have hne : type ≠ timerEventType := by
      rw [htype]
      decide
    rw [Reads, if_neg hne]
    rfl
  · split at h
    · rename_i htype
      obtain rfl : .timers = source := Option.some.inj h
      rw [Reads, if_pos htype]
      rfl
    · contradiction

theorem reads_sample (b : Board) (wait : Wait) (mode : ReadMode) :
    Reads mode wait.type (Sources.sample b wait mode).1 b.timers
      (Sources.sample b wait mode).2.timers := by
  cases hkind : Sources.kindOf b wait.type with
  | some source =>
      rw [Sources.sample_of_kindOf_eq_some hkind]
      exact b.reads_kind wait.type hkind mode
  | none =>
      have hne : wait.type ≠ timerEventType := by
        intro htype
        rw [htype] at hkind
        contradiction
      rw [Sources.sample_of_kindOf_eq_none hkind, Reads, if_neg hne]

theorem reads_readType (b : Board) (type : EventType) (mode : ReadMode) :
    Reads mode type (Sources.readType b type mode).1 b.timers
      (Sources.readType b type mode).2.timers := by
  unfold Sources.readType
  split
  · rename_i source hkind
    exact b.reads_kind type hkind mode
  · rename_i hkind
    have hne : type ≠ timerEventType := by
      intro htype
      rw [htype] at hkind
      contradiction
    rw [Reads, if_neg hne]

end Board

namespace Queue

/-- A scan reads the word only for the wait that it stops at. -/
theorem timers_firstHit (l : WaitList) (mode : ReadMode) (b : Board) (before : Option Slot)
    (slots : List Slot) :
    match firstHit l mode b before slots with
    | (none, b') => b'.timers = b.timers
    | (some hit, b') => Reads mode (l.wait hit.slot).type (some hit.value) b.timers b'.timers := by
  induction slots generalizing b before with
  | nil => rfl
  | cons first rest ih =>
      have hreads := b.reads_sample (l.wait first) mode
      rcases hsample : Sources.sample b (l.wait first) mode with ⟨value?, b'⟩
      rw [hsample] at hreads
      cases value? with
      | some value =>
          simp only [firstHit, hsample]
          exact hreads
      | none =>
          -- a wait that is passed over has left the word as it was
          have hrest := ih b' (some first)
          simp only [firstHit, hsample]
          rwa [hreads.eq_of_none] at hrest

theorem timers_scan (q : Queue Board) (mode : ReadMode) :
    match (q.scan mode).1 with
    | none => (q.scan mode).2.sources.timers = q.sources.timers
    | some event =>
      Reads mode event.type (some event.value) q.sources.timers
        (q.scan mode).2.sources.timers := by
  have hreads := timers_firstHit q.waits mode q.sources none q.waits.live
  unfold scan
  rcases hhit : firstHit q.waits mode q.sources none q.waits.live with ⟨_ | hit, b'⟩
  · rw [hhit] at hreads
    exact hreads
  · rw [hhit] at hreads
    exact hreads

end Queue

/-! ## Deeds that touch a bit -/

namespace Deed

variable {ι : Type}

/-- The value that a deed reports of the timer word. -/
def timerValue? : Deed ι → Option EventValue
  | ⟨.readTimers _, .value value⟩ => value
  | ⟨.call (.readType type _), .answer (.value value)⟩ =>
    if type = Board.timerEventType then value else none
  | ⟨.call (.scan _), .answer (.event (some event))⟩ =>
    if event.type = Board.timerEventType then some event.value else none
  | _ => none

/-- What a deed makes of the bit of timer {lit}`d`: raised, dropped or not touched. -/
def touch? (d : Nat) : Deed ι → Option Bool
  | ⟨.raise bits, _⟩ => if bits.toNat.testBit d then some true else none
  | ⟨.drop bits, _⟩ => if bits.toNat.testBit d then some false else none
  | ⟨.expire _ d', .expired true _⟩ => if d' = d then some true else none
  | ⟨.stop _ d', .stopped (.ok ()) _⟩ => if d' = d then some false else none
  | ⟨.readTimers mode, .value value⟩ =>
    TimerStatus.touchOfRead? mode Board.timerEventType value
  | ⟨.call (.readType type mode), .answer (.value value)⟩ =>
    TimerStatus.touchOfRead? mode type value
  | ⟨.call (.scan mode), .answer (.event (some event))⟩ =>
    TimerStatus.touchOfRead? mode event.type (some event.value)
  | _ => none

/-- Only scans and direct reads touch bits from within the queue. -/
theorem touch?_of_not_samples {call : Call} (h : call.samples = false) (d : Nat) (reply : Reply) :
    touch? d (⟨.call call, reply⟩ : Deed ι) = none := by
  cases call with
  | scan mode => simp [Call.samples] at h
  | readType type mode => simp [Call.samples] at h
  | _ => rfl

end Deed

/-- What the last deed to touch the bit of timer {lit}`d` made of it. -/
def lastTouch? {ι : Type} (d : Nat) (log : List (Deed ι)) : Option Bool :=
  (log.filterMap (Deed.touch? d)).getLast?

namespace Device

variable {ι : Type} [DecidableEq ι] {m : Device ι}

/-- What a call of the queue does to one bit. -/
theorem isRaised_call (m : Device ι) (call : Call) (d : Nat) :
    (m.perform (.call call)).2.board.timers.isRaised d =
      (Deed.touch? d (⟨.call call, (m.perform (.call call)).1⟩ : Deed ι)).getD
        (m.board.timers.isRaised d) := by
  cases hsamples : call.samples with
  | false =>
      rw [Deed.touch?_of_not_samples hsamples]
      exact congrArg (fun b : Board => b.timers.isRaised d) (m.queue.sources_perform hsamples)
  | true =>
      cases call with
      | scan mode =>
          have hreads := m.queue.timers_scan mode
          simp only [perform, Queue.perform]
          cases hevent : (m.queue.scan mode).1 with
          | none =>
              rw [hevent] at hreads
              exact congrArg (·.isRaised d) hreads
          | some event =>
              rw [hevent] at hreads
              exact hreads.isRaised_eq d
      | readType type mode => exact (m.queue.sources.reads_readType type mode).isRaised_eq d
      | _ => simp [Call.samples] at hsamples

/-- What an action does to one bit can be read off its deed. -/
theorem isRaised_perform (hm : m.Consistent) (action : Action ι) (d : Nat) :
    (m.perform action).2.board.timers.isRaised d =
      (Deed.touch? d ⟨action, (m.perform action).1⟩).getD (m.board.timers.isRaised d) := by
  cases action with
  | call call => exact m.isRaised_call call d
  | raise bits => exact m.board.timers.isRaised_raise_eq_getD bits d
  | drop bits => exact m.board.timers.isRaised_drop_eq_getD bits d
  | readTimers mode => exact (m.board.timers.reads_read mode).isRaised_eq d
  | schedule i nowUs delayMs repeats =>
      rcases Scheduler.schedule_cases (hm i) m.board.timers nowUs delayMs repeats with
        ⟨fault, hrefused, -⟩ | ⟨d', s', hstarted, -⟩
      · simp only [perform, hrefused, board_settle, Deed.touch?, Option.getD_none]
      · simp only [perform, hstarted, board_settle, Deed.touch?, Option.getD_none]
  | expire i d' =>
      rcases Scheduler.expire_cases (hm i) m.board.timers d' with
        ⟨hrefused, -⟩ | ⟨timer, s', hrung, hrequest, -⟩
      · simp only [perform, hrefused, board_settle, Deed.touch?, Option.getD_none]
      · have hlt := (hm i).lt_of_request? hrequest
        simp only [perform, hrung, board_settle, TimerStatus.isRaised_raise_eq_getD,
          TimerStatus.testBit_bit hlt, decide_eq_true_eq, Deed.touch?]
  | stop i d' =>
      rcases Scheduler.cancel_cases (hm i) m.board.timers d' with
        ⟨hrefused, -⟩ | ⟨timer, s', hstopped, hrequest, -⟩
      · simp only [perform, hrefused, board_settle, Deed.touch?, Option.getD_none]
      · have hlt := (hm i).lt_of_request? hrequest
        simp only [perform, hstopped, board_settle, TimerStatus.isRaised_drop_eq_getD,
          TimerStatus.testBit_bit hlt, decide_eq_true_eq, Deed.touch?]
  | _ => rfl

/-- After a run, the last deed to touch a bit has decided it. -/
theorem isRaised_performAll (hm : m.Consistent) (actions : List (Action ι)) (d : Nat) :
    (m.performAll actions).2.board.timers.isRaised d =
      (lastTouch? d (m.performAll actions).1).getD (m.board.timers.isRaised d) :=
  view_performAll (·.board.timers.isRaised d) (Deed.touch? d)
    (fun _ action h => Consistent.perform h action)
    (fun _ action h => isRaised_perform h action d) hm actions

/-- A value that is reported of the word is the whole word. -/
theorem toUInt32_of_timerValue? {action : Action ι} {value : EventValue}
    (h : Deed.timerValue? ⟨action, (m.perform action).1⟩ = some value) :
    value.toUInt32 = m.board.timers.word := by
  cases action with
  | readTimers mode => exact TimerStatus.toUInt32_of_read h
  | call call =>
      cases call with
      | readType type mode =>
          obtain ⟨htype, hvalue⟩ := Option.ite_none_right_eq_some.mp h
          have hread : (Sources.readType m.board type mode).1 = some value := hvalue
          have hreads := m.board.reads_readType type mode
          rw [hread, htype] at hreads
          exact hreads.toUInt32_eq
      | scan mode =>
          have hreads := m.queue.timers_scan mode
          simp only [perform, Queue.perform] at h
          cases hevent : (m.queue.scan mode).1 with
          | none =>
              rw [hevent] at h
              contradiction
          | some event =>
              rw [hevent] at h hreads
              obtain ⟨htype, hvalue⟩ := Option.ite_none_right_eq_some.mp h
              obtain rfl : event.value = value := Option.some.inj hvalue
              simp only [htype] at hreads
              exact hreads.toUInt32_eq
      | _ => contradiction
  | _ => contradiction

/-- Reading the timers returns nothing exactly if no bit is raised. -/
theorem perform_readTimers_eq_none_iff (m : Device ι) (mode : ReadMode) :
    (m.perform (.readTimers mode)).1 = .value none ↔ m.board.timers.word = 0 := by
  rw [TimerStatus.word_eq_zero_iff, ← m.board.timers.read_fst_eq_none_iff mode]
  simp only [perform, Reply.value.injEq]

/-- Reading the type of the timers is reading the timers. -/
theorem perform_readType_eq_none_iff (m : Device ι) (mode : ReadMode) :
    (m.perform (.call (.readType Board.timerEventType mode))).1 = .answer (.value none) ↔
      m.board.timers.word = 0 := by
  rw [← m.perform_readTimers_eq_none_iff mode]
  simp only [perform, Queue.perform, Reply.answer.injEq, Answer.value.injEq, Reply.value.injEq]
  exact Iff.rfl

/-- A scan that does not report the timers leaves the word as it is. -/
theorem timers_perform_scan {mode : ReadMode} {event? : Option Event}
    (h : (m.perform (.call (.scan mode))).1 = .answer (.event event?))
    (hother : ∀ event ∈ event?, event.type ≠ Board.timerEventType) :
    (m.perform (.call (.scan mode))).2.board.timers = m.board.timers := by
  have hreads := m.queue.timers_scan mode
  obtain rfl : (m.queue.scan mode).1 = event? := Answer.event.inj (Reply.answer.inj h)
  cases hevent : (m.queue.scan mode).1 with
  | none =>
      rw [hevent] at hreads
      exact hreads
  | some event =>
      rw [hevent] at hreads
      exact hreads.eq_of_ne (hother event hevent)

end Device

/-! ## The law of the word -/

/--
On a device that was just switched on, with any number of schedulers, at every
point of every run: a bit of the status word is raised exactly if the last deed
that touched it was a raise.  A value that any deed reports of the word is the
whole word at that moment.  The timers read as nothing exactly if the word is
zero, and a scan that reports nothing or an event of another type leaves the word
as it is.
-/
theorem last_touch_decides_bits {ι : Type} [DecidableEq ι] (actions : List (Action ι)) :
    let log := (Device.new.performAll actions).1
    let m := (Device.new.performAll actions).2
    (∀ d, m.board.timers.isRaised d = true ↔ lastTouch? d log = some true) ∧
      (∀ action value, Deed.timerValue? ⟨action, (m.perform action).1⟩ = some value →
        value.toUInt32 = m.board.timers.word) ∧
      (∀ mode,
        ((m.perform (.readTimers mode)).1 = .value none ↔ m.board.timers.word = 0) ∧
          ((m.perform (.call (.readType Board.timerEventType mode))).1 = .answer (.value none) ↔
            m.board.timers.word = 0)) ∧
      ∀ mode event?, (m.perform (.call (.scan mode))).1 = .answer (.event event?) →
        (∀ event ∈ event?, event.type ≠ Board.timerEventType) →
          (m.perform (.call (.scan mode))).2.board.timers = m.board.timers := by
  intro log m
  refine ⟨fun d => ?_, fun action value => m.toUInt32_of_timerValue?, fun mode => ?_,
    fun mode event? => Device.timers_perform_scan⟩
  · have hstart : (Device.new : Device ι).board.timers.isRaised d = false :=
      TimerStatus.isRaised_empty d
    have hlast := Device.isRaised_performAll Device.consistent_new actions d
    rw [hlast, hstart, Option.getD_eq_iff]
    simp [log]
  · exact ⟨m.perform_readTimers_eq_none_iff mode, m.perform_readType_eq_none_iff mode⟩

/--
Both schedulers run timer 0.  One expires and is stopped, the other expires, the
driver raises the top bit, and a posted event is ready.
-/
def sharedTopBit : List (Action Bool) :=
  [.schedule false 0 5 false, .schedule true 100 7 true, .raise 0x80000000, .expire false 0,
    .stop false 0, .expire true 0, .call (.register 2), .call (.post everyone 2 9)]

/-- The word is reported with its top bit as the sign, and the posted event leaves it alone. -/
theorem top_bit_is_the_sign :
    let m := (Device.new.performAll sharedTopBit).2
    (m.perform (.readTimers .take)).1 = .value (some (-2147483647)) ∧
      (-2147483647 : EventValue).toUInt32 = m.board.timers.word ∧
      (m.perform (.call (.scan .take))).1 = .answer (.event (some ⟨1, 2, 9⟩)) ∧
      (m.perform (.call (.scan .take))).2.board.timers = m.board.timers := by
  intro m
  have hlaw := last_touch_decides_bits sharedTopBit
  have hread : (m.board.timers.read .take).1 = some (-2147483647) := by decide
  have hscan : (m.queue.scan .take).1 = some ⟨1, 2, 9⟩ := by decide
  have hreply : (m.perform (.call (.scan .take))).1 = .answer (.event (some ⟨1, 2, 9⟩)) :=
    congrArg (fun event => Reply.answer (.event event)) hscan
  refine ⟨congrArg Reply.value hread, hlaw.2.1 (.readTimers .take) _ hread, hreply,
    hlaw.2.2.2 _ _ hreply ?_⟩
  intro event hevent
  obtain rfl := Option.mem_some.mp hevent
  decide

end DeviceLayer
