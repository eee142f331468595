import DeviceLayer.Proofs.Descriptor.Run
import DeviceLayer.Proofs.Timer.Effect

/-!
# What an operation of a scheduler answers

Starting, ringing and stopping a timer each join a step of the timer table that can be
refused to an effect on the shared status word.  A refusal comes before any effect.  An
operation that goes through concerns one timer, whose descriptor is small enough for the
word to have a bit for it.

Main results:

- Theorem {lit}`Device.Sound.performAll`: no run breaks the records of the timer tables.
- Theorems {lit}`Scheduler.Sound.schedule_answer`, {lit}`Scheduler.Consistent.expire_answer`
  and {lit}`Scheduler.Consistent.cancel_answer`: which answer is given when.
- Theorems {lit}`Scheduler.Consistent.touches_schedule`,
  {lit}`Scheduler.Consistent.touches_expire` and {lit}`Scheduler.Consistent.touches_cancel`:
  an operation touches nothing or one timer.
- Theorem {lit}`timer_operations_all_or_nothing`: every operation, at any point of any run.
-/

namespace DeviceLayer

namespace Scheduler

/-! ## Schedulers that count their timers -/

/-- The records of the timer table agree, and no bit is set beyond them. -/
def Sound (s : Scheduler) : Prop :=
  s.timers.Sound

variable {s : Scheduler}

theorem Sound.consistent (hs : s.Sound) : s.Consistent :=
  Table.Sound.consistent hs

theorem sound_empty : empty.Sound :=
  Table.sound_empty

/-- A delay that is not zero is for the table to accept or refuse. -/
theorem timers_schedule {delayMs : UInt32} (hdelay : delayMs ≠ 0) (s : Scheduler)
    (status : TimerStatus) (nowUs : Time) (repeats : Bool) :
    (s.schedule status nowUs delayMs repeats).scheduler.timers =
      (s.timers.allocate (.started nowUs delayMs repeats)).2 := by
  simp only [schedule, if_neg hdelay, Timer.started]
  rcases s.timers.allocate _ with ⟨_ | _, timers⟩ <;> rfl

theorem timers_cancel (s : Scheduler) (status : TimerStatus) (d : Nat) :
    (s.cancel status d).scheduler.timers = (s.timers.release d).2 := by
  rw [cancel]
  rcases s.timers.release d with ⟨_ | _, timers⟩ <;> rfl

theorem Sound.schedule (hs : s.Sound) (status : TimerStatus) (nowUs : Time) (delayMs : UInt32)
    (repeats : Bool) : (s.schedule status nowUs delayMs repeats).scheduler.Sound := by
  by_cases hzero : delayMs = 0
  · subst hzero
    exact hs
  · rw [Sound, timers_schedule hzero]
    exact Table.Sound.allocate hs _

theorem Sound.expire (hs : s.Sound) (status : TimerStatus) (d : Nat) :
    (s.expire status d).scheduler.Sound := by
  unfold Scheduler.expire
  split
  · exact hs
  · split
    · exact Table.Sound.replace? hs d _
    · exact hs

theorem Sound.cancel (hs : s.Sound) (status : TimerStatus) (d : Nat) :
    (s.cancel status d).scheduler.Sound := by
  rw [Sound, timers_cancel, Table.Consistent.release_snd hs.consistent]
  exact Table.Sound.release? hs d

/-- No timer can be started exactly if as many run as there are descriptors. -/
theorem Sound.active_eq_limit_iff (hs : s.Sound) :
    s.active = descriptorLimit ↔ s.timers.lowestFree = none := by
  rw [active, ← Table.Sound.isFull_iff hs, Table.isFull, Option.isNone_iff_eq_none]

theorem Consistent.request?_eq_none_iff (hs : s.Consistent) (d : Nat) :
    s.request? d = none ↔ s.timers.isAllocated d = false := by
  rw [← hs.isSome_request?, Option.isSome_eq_false_iff, Option.isNone_iff_eq_none]

/-- The next timer gets the least descriptor that no timer runs under. -/
theorem Consistent.isLeast_iff (hs : s.Consistent) (d : Nat) :
    s.timers.lowestFree = some d ↔ IsLeast {j | j < descriptorLimit ∧ s.request? j = none} d := by
  simp only [hs.request?_eq_none_iff]
  exact Table.Consistent.isLeast_iff hs d

/-! ## Answers -/

variable (status : TimerStatus)

/--
A zero delay is refused before a full scheduler is, and otherwise the timer is started
under the least free descriptor.
-/
theorem Sound.schedule_answer (hs : s.Sound) (nowUs : Time) (delayMs : UInt32) (repeats : Bool) :
    let outcome := s.schedule status nowUs delayMs repeats
    (outcome.answer = .error .zeroDelay ↔ delayMs = 0) ∧
      (outcome.answer = .error .timersFull ↔ delayMs ≠ 0 ∧ s.active = descriptorLimit) ∧
      (delayMs ≠ 0 → s.active ≠ descriptorLimit → ∃ d,
        IsLeast {j | j < descriptorLimit ∧ s.request? j = none} d ∧ outcome.answer = .ok d ∧
          outcome.scheduler.request? d = some (.started nowUs delayMs repeats)) := by
  intro outcome
  rw [Ne, Ne, hs.active_eq_limit_iff]
  rcases schedule_cases hs.consistent status nowUs delayMs repeats with
    ⟨fault, hrefused, hzero | hfull⟩ | ⟨d, s', hstarted, hdelay, hfree, -, hwrites⟩
  · obtain ⟨rfl, rfl⟩ := hzero
    simp [outcome, hrefused]
  · obtain ⟨hdelay, hfree, rfl⟩ := hfull
    simp [outcome, hrefused, hdelay, hfree]
  · have hleast := (hs.consistent.isLeast_iff d).mp hfree
    simp only [outcome, hstarted, hdelay, hfree]
    simp [hleast, hwrites.request?_self]

/-- An expiry is taken exactly if the timer runs, and then the timer runs on. -/
theorem Consistent.expire_answer (hs : s.Consistent) (d : Nat) :
    let outcome := s.expire status d
    (outcome.answer = true ↔ (s.request? d).isSome = true) ∧
      (outcome.answer = true →
        (outcome.scheduler.request? d).isSome = true ∧ outcome.status.isRaised d = true) := by
  intro outcome
  rcases expire_cases hs status d with ⟨hrefused, hnone⟩ | ⟨timer, s', hrung, hsome, hwrites⟩
  · simp [outcome, hrefused, hnone]
  · have hlt := hs.lt_of_request? hsome
    simp [outcome, hrung, hsome, hwrites.request?_self, status.isRaised_raise_bit hlt]

/--
A descriptor out of range is told from one that no timer runs under, and otherwise the
timer is stopped and its bit dropped.
-/
theorem Consistent.cancel_answer (hs : s.Consistent) (d : Nat) :
    let outcome := s.cancel status d
    (outcome.answer = .error .descriptorOutOfRange ↔ descriptorLimit ≤ d) ∧
      (outcome.answer = .error .descriptorUnused ↔ d < descriptorLimit ∧ s.request? d = none) ∧
      ((s.request? d).isSome = true →
        outcome.answer = .ok () ∧ outcome.scheduler.request? d = none ∧
          outcome.status.isRaised d = false) := by
  intro outcome
  rcases cancel_cases hs status d with ⟨hrefused, hnone⟩ | ⟨timer, s', hstopped, hsome, hwrites⟩
  · by_cases hlt : d < descriptorLimit
    · simp [outcome, hrefused, hnone, hlt]
    · simp [outcome, hrefused, hnone, hlt, Nat.le_of_not_lt hlt]
  · have hlt := hs.lt_of_request? hsome
    simp [outcome, hstopped, hsome, hlt, hwrites.request?_self, status.isRaised_drop_bit hlt]

/-! ## Effects -/

/-- An outcome that leaves everything as it was, or touches one timer only. -/
inductive Outcome.Touches {ρ : Type} (outcome : Outcome ρ) (s : Scheduler) (status : TimerStatus) :
    Option Nat → Prop
  /-- The ticker is told nothing, and timers and status word stay. -/
  | nothing (untold : outcome.command = none) (sameTimers : outcome.scheduler = s)
      (sameStatus : outcome.status = status) : outcome.Touches s status none
  /-- The word has a bit for the timer, and the others keep their entries and their bits. -/
  | only (d : Nat) (hasBit : d < 32)
      (others : ∀ j ≠ d, outcome.scheduler.request? j = s.request? j ∧
        outcome.status.isRaised j = status.isRaised j) : outcome.Touches s status (some d)

/-- Starting a timer touches the timer that it starts. -/
theorem Consistent.touches_schedule (hs : s.Consistent) (nowUs : Time) (delayMs : UInt32)
    (repeats : Bool) :
    let outcome := s.schedule status nowUs delayMs repeats
    outcome.Touches s status outcome.answer.toOption := by
  intro outcome
  rcases schedule_cases hs status nowUs delayMs repeats with
    ⟨fault, hrefused, -⟩ | ⟨d, s', hstarted, -, hfree, -, hwrites⟩
  · simp only [outcome, hrefused]
    exact .nothing rfl rfl rfl
  · have hlt := ((hs.isLeast_iff d).mp hfree).1.1
    simp only [outcome, hstarted]
    exact .only d hlt fun j hne => ⟨hwrites.request?_of_ne hne.symm, rfl⟩

/-- An expiry touches the timer that expires. -/
theorem Consistent.touches_expire (hs : s.Consistent) (d : Nat) :
    let outcome := s.expire status d
    outcome.Touches s status (if outcome.answer then some d else none) := by
  intro outcome
  rcases expire_cases hs status d with ⟨hrefused, -⟩ | ⟨timer, s', hrung, hsome, hwrites⟩
  · simp only [outcome, hrefused]
    exact .nothing rfl rfl rfl
  · have hlt := hs.lt_of_request? hsome
    simp only [outcome, hrung]
    refine .only d hlt fun j hne => ⟨hwrites.request?_of_ne hne.symm, ?_⟩
    rw [status.isRaised_raise_bit hlt, decide_eq_false hne.symm, Bool.or_false]

/-- Stopping a timer touches the timer that it stops. -/
theorem Consistent.touches_cancel (hs : s.Consistent) (d : Nat) :
    let outcome := s.cancel status d
    outcome.Touches s status (outcome.answer.toOption.map fun _ => d) := by
  intro outcome
  rcases cancel_cases hs status d with ⟨hrefused, -⟩ | ⟨timer, s', hstopped, hsome, hwrites⟩
  · simp only [outcome, hrefused]
    exact .nothing rfl rfl rfl
  · have hlt := hs.lt_of_request? hsome
    simp only [outcome, hstopped]
    refine .only d hlt fun j hne => ⟨hwrites.request?_of_ne hne.symm, ?_⟩
    rw [status.isRaised_drop_bit hlt, decide_eq_false hne.symm, Bool.not_false, Bool.and_true]

end Scheduler

/-! ## Runs -/

namespace Device

variable {ι : Type}

/-- The records of all timer tables of a device agree. -/
def Sound (m : Device ι) : Prop :=
  ∀ i, (m.schedulers i).Sound

theorem sound_new : (new : Device ι).Sound :=
  fun _ => Scheduler.sound_empty

variable [DecidableEq ι] {m : Device ι}

theorem Sound.perform (hm : m.Sound) (action : Action ι) : (m.perform action).2.Sound :=
  forall_schedulers_perform (fun _ status nowUs delayMs repeats h =>
    h.schedule status nowUs delayMs repeats) (fun _ status d h => h.expire status d)
    (fun _ status d h => h.cancel status d) hm action

/-- No run breaks the records of the timer tables. -/
theorem Sound.performAll (hm : m.Sound) (actions : List (Action ι)) :
    (m.performAll actions).2.Sound :=
  performAll_induction (fun _ action _ h => h.perform action) hm

end Device

/-! ## All or nothing -/

/--
At any point of any run, and whatever bits are raised: starting a timer is refused for a
zero delay, next for a full scheduler, and otherwise starts it under the least descriptor
that no timer runs under.  An expiry is taken exactly if the timer runs, which then has
its bit raised and runs on, even if it does not repeat.  Stopping a timer is refused for a
descriptor out of range and for one that no timer runs under, and otherwise leaves neither
the timer nor its bit.  A refusal leaves the timers and the status word as they were, and
what goes through leaves every other timer and its bit alone.
-/
theorem timer_operations_all_or_nothing {ι : Type} [DecidableEq ι] (actions : List (Action ι))
    (i : ι) (status : TimerStatus) :
    let s := (Device.new.performAll actions).2.schedulers i
    (∀ nowUs delayMs repeats,
      let outcome := s.schedule status nowUs delayMs repeats
      ((outcome.answer = .error .zeroDelay ↔ delayMs = 0) ∧
        (outcome.answer = .error .timersFull ↔ delayMs ≠ 0 ∧ s.active = descriptorLimit) ∧
        (delayMs ≠ 0 → s.active ≠ descriptorLimit → ∃ d,
          IsLeast {j | j < descriptorLimit ∧ s.request? j = none} d ∧ outcome.answer = .ok d ∧
            outcome.scheduler.request? d = some (.started nowUs delayMs repeats))) ∧
        outcome.Touches s status outcome.answer.toOption) ∧
      (∀ d,
        let outcome := s.expire status d
        ((outcome.answer = true ↔ (s.request? d).isSome = true) ∧
          (outcome.answer = true →
            (outcome.scheduler.request? d).isSome = true ∧ outcome.status.isRaised d = true)) ∧
          outcome.Touches s status (if outcome.answer then some d else none)) ∧
      ∀ d,
        let outcome := s.cancel status d
        ((outcome.answer = .error .descriptorOutOfRange ↔ descriptorLimit ≤ d) ∧
          (outcome.answer = .error .descriptorUnused ↔
            d < descriptorLimit ∧ s.request? d = none) ∧
          ((s.request? d).isSome = true →
            outcome.answer = .ok () ∧ outcome.scheduler.request? d = none ∧
              outcome.status.isRaised d = false)) ∧
          outcome.Touches s status (outcome.answer.toOption.map fun _ => d) := by
  intro s
  have hs : s.Sound := Device.sound_new.performAll actions i
  refine ⟨fun nowUs delayMs repeats => ⟨?_, ?_⟩, fun d => ⟨?_, ?_⟩, fun d => ⟨?_, ?_⟩⟩
  · exact hs.schedule_answer status nowUs delayMs repeats
  · exact hs.consistent.touches_schedule status nowUs delayMs repeats
  · exact hs.consistent.expire_answer status d
  · exact hs.consistent.touches_expire status d
  · exact hs.consistent.cancel_answer status d
  · exact hs.consistent.touches_cancel status d

/-- As many timers as there are descriptors, the last of which has expired. -/
def allTimersRunning : List (Action Unit) :=
  List.replicate descriptorLimit (.schedule () 0 5 false) ++ [.raise 5, .expire () 31]

/-- No timer can be added, the last one can be stopped, and there is none beyond it. -/
theorem last_of_all_timers_is_stopped :
    let m := (Device.new.performAll allTimersRunning).2
    let s := m.schedulers ()
    let full := s.schedule m.board.timers 1000 7 true
    let stopped := s.cancel m.board.timers 31
    (s.schedule m.board.timers 1000 0 true).answer = .error .zeroDelay ∧
      (full.answer = .error .timersFull ∧ full.scheduler = s ∧ full.status = m.board.timers) ∧
      (s.expire m.board.timers 31).answer = true ∧
      (stopped.answer = .ok () ∧ stopped.scheduler.request? 31 = none ∧
        stopped.status.isRaised 31 = false ∧ stopped.status.isRaised 2 = true) ∧
      (s.cancel m.board.timers 32).answer = .error .descriptorOutOfRange := by
  intro m s full stopped
  obtain ⟨hschedule, hexpire, hcancel⟩ :=
    timer_operations_all_or_nothing allTimersRunning () m.board.timers
  have hactive : s.active = descriptorLimit := by decide +kernel
  have hlast : (s.request? 31).isSome = true := by decide +kernel
  have hraised : m.board.timers.isRaised 2 = true := by decide +kernel
  have hfull : full.answer = .error .timersFull :=
    (hschedule 1000 7 true).1.2.1.mpr ⟨by decide, hactive⟩
  have hstopped : stopped.answer = .ok () := ((hcancel 31).1.2.2 hlast).1
  have hnothing := (hschedule 1000 7 true).2
  have honly := (hcancel 31).2
  rw [hfull] at hnothing
  rw [hstopped] at honly
  cases hnothing with
  | nothing _ hsame hstatus =>
  cases honly with
  | only _ _ hothers =>
  exact ⟨(hschedule 1000 0 true).1.1.mpr rfl, ⟨hfull, hsame, hstatus⟩, (hexpire 31).1.1.mpr hlast,
    ⟨hstopped, ((hcancel 31).1.2.2 hlast).2.1, ((hcancel 31).1.2.2 hlast).2.2,
      (hothers 2 (by decide)).2.trans hraised⟩, (hcancel 32).1.1.mpr (by decide)⟩

end DeviceLayer
