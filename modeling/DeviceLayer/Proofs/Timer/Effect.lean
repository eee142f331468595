import DeviceLayer.Descriptor.Lemmas
import DeviceLayer.Proofs.Board.Run

/-!
# What an operation of a scheduler does

An operation is refused and then leaves everything as it was, or it concerns one
timer: it starts it, rings its bell or stops it.  Each case fixes the answer, the
command to the ticker, the timers and the status word at once.  The other timers
are never touched.

Main results:

- Theorems {lit}`Scheduler.schedule_cases`, {lit}`Scheduler.expire_cases` and
  {lit}`Scheduler.cancel_cases`: all that each operation can do, and when.
- Theorem {lit}`Device.forall_schedulers_perform`: what every operation keeps, every action
  keeps for all schedulers of a device.
- Theorem {lit}`Device.Consistent.perform`: no action breaks the timer tables of a
  device.
-/

namespace DeviceLayer

namespace Timer

/-- A timer as it is started. -/
def started (nowUs : Time) (delayMs : UInt32) (repeats : Bool) : Timer where
  delayUs := Scheduler.microseconds delayMs
  deadlineUs := nowUs.after (Scheduler.microseconds delayMs)
  repeats

/-- A timer after its expiry: if it repeats, its deadline is one delay later. -/
def rung (timer : Timer) : Timer :=
  if timer.repeats then { timer with deadlineUs := timer.deadlineUs.after timer.delayUs }
  else timer

theorem rung_of_not_repeats {timer : Timer} (h : timer.repeats = false) : timer.rung = timer := by
  simp [rung, h]

/-- What the ticker is told of an expiry of timer {lit}`d`. -/
def rearm? (timer : Timer) (d : Nat) : Option TickerCommand :=
  if timer.repeats then some (.arm d timer.rung.deadlineUs) else none

end Timer

namespace Scheduler

/-! ## Timers as a map -/

/-- Bitmap, slots and cursor of the timer table agree. -/
def Consistent (s : Scheduler) : Prop :=
  s.timers.Consistent

/-- One entry is written and the others stay. -/
structure Writes (s : Scheduler) (d : Nat) (entry : Option Timer) (s' : Scheduler) : Prop where
  consistent : s'.Consistent
  request?_eq : ∀ j, s'.request? j = if d = j then entry else s.request? j

theorem consistent_empty : empty.Consistent :=
  Table.consistent_empty

@[simp]
theorem request?_empty (d : Nat) : empty.request? d = none :=
  Table.get?_empty d

variable {s s' : Scheduler} {status : TimerStatus} {d : Nat}

/-- A descriptor is in use exactly if it has a timer. -/
theorem Consistent.isSome_request? (hs : s.Consistent) (d : Nat) :
    (s.request? d).isSome = s.timers.isAllocated d :=
  Table.Consistent.isSome_get? hs d

/-- Every running timer has a bit in the status word. -/
theorem Consistent.lt_of_request? (hs : s.Consistent) {timer : Timer}
    (h : s.request? d = some timer) : d < descriptorLimit := by
  apply Table.Consistent.lt_of_isAllocated hs
  rw [← hs.isSome_request?, h]
  rfl

theorem Writes.request?_self {entry : Option Timer} (h : s.Writes d entry s') :
    s'.request? d = entry := by
  rw [h.request?_eq, if_pos rfl]

theorem Writes.request?_of_ne {entry : Option Timer} (h : s.Writes d entry s') {j : Nat}
    (hne : d ≠ j) : s'.request? j = s.request? j := by
  rw [h.request?_eq, if_neg hne]

/-- Every timer runs on when the entry that is written is a timer. -/
theorem Writes.isSome_request? {timer : Timer} (h : s.Writes d (some timer) s') {j : Nat}
    (hrun : (s.request? j).isSome = true) : (s'.request? j).isSome = true := by
  rw [h.request?_eq]
  split
  · rfl
  · exact hrun

/-- Writing what stands there already is writing nothing. -/
theorem Consistent.writes_self (hs : s.Consistent) {entry : Option Timer}
    (h : s.request? d = entry) : s.Writes d entry s where
  consistent := hs
  request?_eq j := by
    split
    · rename_i heq
      rw [← heq, h]
    · rfl

/-! ## The operations -/

/--
A zero delay is refused first and a full table next.  Otherwise a timer is started
under the lowest free descriptor, and the ticker is armed for its deadline.
-/
theorem schedule_cases (hs : s.Consistent) (status : TimerStatus) (nowUs : Time)
    (delayMs : UInt32) (repeats : Bool) :
    (∃ fault, s.schedule status nowUs delayMs repeats = ⟨.error fault, none, s, status⟩ ∧
        (delayMs = 0 ∧ fault = .zeroDelay ∨
          delayMs ≠ 0 ∧ s.timers.lowestFree = none ∧ fault = .timersFull)) ∨
      ∃ d s', s.schedule status nowUs delayMs repeats =
          ⟨.ok d, some (.arm d (Timer.started nowUs delayMs repeats).deadlineUs), s', status⟩ ∧
        delayMs ≠ 0 ∧ s.timers.lowestFree = some d ∧ s.request? d = none ∧
        s.Writes d (some (.started nowUs delayMs repeats)) s' := by
  by_cases hzero : delayMs = 0
  · subst hzero
    exact .inl ⟨.zeroDelay, s.schedule_zero status nowUs repeats, .inl ⟨rfl, rfl⟩⟩
  · unfold schedule
    rw [if_neg hzero]
    cases hfree : s.timers.lowestFree with
    | none =>
        simp only [Table.allocate_of_full hfree]
        exact .inl ⟨.timersFull, rfl, .inr ⟨hzero, trivial, rfl⟩⟩
    | some d =>
        have hanswer := Table.allocate_fst hfree (Timer.started nowUs delayMs repeats)
        have hunused := ((Table.Consistent.lowestFree_eq_some_iff hs d).mp hfree).2.1
        have hnone : s.request? d = none := by
          rw [← Option.not_isSome_iff_eq_none, hs.isSome_request?, hunused]
          exact Bool.false_ne_true
        have hwrites : s.Writes d (some (.started nowUs delayMs repeats))
            ⟨(s.timers.allocate (.started nowUs delayMs repeats)).2⟩ :=
          ⟨Table.Consistent.allocate hs _, Table.get?_allocate hs hfree _⟩
        rcases hallocate : s.timers.allocate (.started nowUs delayMs repeats) with ⟨answer, timers⟩
        rw [hallocate] at hanswer hwrites
        obtain rfl : answer = .ok d := hanswer
        rw [Timer.started] at hallocate
        simp only [hallocate]
        exact .inr ⟨d, ⟨timers⟩, rfl, hzero, rfl, hnone, hwrites⟩

/--
An expiry of a timer that does not run is refused.  Otherwise the bit of the timer
is raised, and a timer that repeats is armed for its next deadline.
-/
theorem expire_cases (hs : s.Consistent) (status : TimerStatus) (d : Nat) :
    (s.expire status d = ⟨false, none, s, status⟩ ∧ s.request? d = none) ∨
      ∃ timer s', s.expire status d =
          ⟨true, timer.rearm? d, s', status.raise (TimerStatus.bit d)⟩ ∧
        s.request? d = some timer ∧ s.Writes d (some timer.rung) s' := by
  cases hrequest : s.request? d with
  | none => exact .inl ⟨expire_of_request_eq_none hrequest status, rfl⟩
  | some timer =>
      refine .inr ⟨timer, ?_⟩
      cases hrepeats : timer.repeats with
      | false =>
          simp only [expire, hrequest, Timer.rearm?, Timer.rung, hrepeats, Bool.false_eq_true,
            ↓reduceIte]
          exact ⟨s, rfl, trivial, hs.writes_self hrequest⟩
      | true =>
          have hused : s.timers.isAllocated d = true := by
            rw [← hs.isSome_request?, hrequest]
            rfl
          have hwrites : s.Writes d (some timer.rung) ⟨(s.timers.replace? d timer.rung).2⟩ := by
            refine ⟨Table.Consistent.replace? hs d _, fun j => ?_⟩
            have hget := Table.get?_replace? hs d timer.rung j
            simp only [hused, and_true] at hget
            exact hget
          simp only [expire, hrequest, Timer.rearm?, Timer.rung, hrepeats, ↓reduceIte] at hwrites ⊢
          exact ⟨_, rfl, trivial, hwrites⟩

/--
Stopping a timer that does not run is refused.  Otherwise the timer is gone, the
ticker is disarmed, and the bit of the timer is dropped.
-/
theorem cancel_cases (hs : s.Consistent) (status : TimerStatus) (d : Nat) :
    (s.cancel status d = ⟨.error (if d < descriptorLimit then .descriptorUnused
          else .descriptorOutOfRange), none, s, status⟩ ∧ s.request? d = none) ∨
      ∃ timer s', s.cancel status d =
          ⟨.ok (), some (.disarm d), s', status.drop (TimerStatus.bit d)⟩ ∧
        s.request? d = some timer ∧ s.Writes d none s' := by
  unfold cancel
  cases hrequest : s.request? d with
  | none =>
      rw [Table.Consistent.release_of_get?_eq_none hs hrequest]
      exact .inl ⟨rfl, rfl⟩
  | some timer =>
      rw [Table.Consistent.release_of_get?_eq_some hs hrequest]
      exact .inr ⟨timer, _, rfl, rfl, Table.Consistent.release? hs d, Table.get?_release? hs d⟩

/-! ## Timer tables stay consistent -/

theorem Consistent.schedule (hs : s.Consistent) (status : TimerStatus) (nowUs : Time)
    (delayMs : UInt32) (repeats : Bool) :
    (s.schedule status nowUs delayMs repeats).scheduler.Consistent := by
  rcases schedule_cases hs status nowUs delayMs repeats with
    ⟨fault, hrefused, -⟩ | ⟨d, s', hstarted, -, -, -, hwrites⟩
  · rw [hrefused]
    exact hs
  · rw [hstarted]
    exact hwrites.consistent

theorem Consistent.expire (hs : s.Consistent) (status : TimerStatus) (d : Nat) :
    (s.expire status d).scheduler.Consistent := by
  rcases expire_cases hs status d with ⟨hrefused, -⟩ | ⟨timer, s', hrung, -, hwrites⟩
  · rw [hrefused]
    exact hs
  · rw [hrung]
    exact hwrites.consistent

theorem Consistent.cancel (hs : s.Consistent) (status : TimerStatus) (d : Nat) :
    (s.cancel status d).scheduler.Consistent := by
  rcases cancel_cases hs status d with ⟨hrefused, -⟩ | ⟨timer, s', hstopped, -, hwrites⟩
  · rw [hrefused]
    exact hs
  · rw [hstopped]
    exact hwrites.consistent

end Scheduler

namespace Device

variable {ι : Type}

/-- The timer tables of all schedulers of a device are consistent. -/
def Consistent (m : Device ι) : Prop :=
  ∀ i, (m.schedulers i).Consistent

theorem consistent_new : (new : Device ι).Consistent :=
  fun _ => Scheduler.consistent_empty

variable [DecidableEq ι] {m : Device ι}

/-- An operation of one scheduler leaves the others alone. -/
theorem schedulers_settle (m : Device ι) (i j : ι) {ρ : Type} (outcome : Scheduler.Outcome ρ) :
    (m.settle i outcome).schedulers j = if j = i then outcome.scheduler else m.schedulers j :=
  Function.update_apply ..

/-- What holds of the outcome of one scheduler and of all others holds of each afterwards. -/
theorem settle_cases {P : Scheduler → Prop} {i j : ι} {ρ : Type} {outcome : Scheduler.Outcome ρ}
    (hself : j = i → P outcome.scheduler) (hother : j ≠ i → P (m.schedulers i)) :
    P ((m.settle j outcome).schedulers i) := by
  rw [schedulers_settle]
  split
  · rename_i heq
    exact hself heq.symm
  · rename_i hne
    exact hother (Ne.symm hne)

/-- What every operation of a scheduler keeps, every action keeps for all of them. -/
theorem forall_schedulers_perform {P : Scheduler → Prop}
    (hschedule : ∀ s status nowUs delayMs repeats, P s →
      P (s.schedule status nowUs delayMs repeats).scheduler)
    (hexpire : ∀ s status d, P s → P (s.expire status d).scheduler)
    (hcancel : ∀ s status d, P s → P (s.cancel status d).scheduler)
    (hm : ∀ i, P (m.schedulers i)) (action : Action ι) (i : ι) :
    P ((m.perform action).2.schedulers i) := by
  cases action with
  | schedule j nowUs delayMs repeats =>
      exact settle_cases (fun _ => hschedule _ _ _ _ _ (hm j)) fun _ => hm i
  | expire j d => exact settle_cases (fun _ => hexpire _ _ d (hm j)) fun _ => hm i
  | stop j d => exact settle_cases (fun _ => hcancel _ _ d (hm j)) fun _ => hm i
  | _ => exact hm i

/-- No action breaks the timer tables of a device. -/
theorem Consistent.perform (hm : m.Consistent) (action : Action ι) :
    (m.perform action).2.Consistent :=
  forall_schedulers_perform (fun _ status nowUs delayMs repeats h =>
    h.schedule status nowUs delayMs repeats) (fun _ status d h => h.expire status d)
    (fun _ status d h => h.cancel status d) hm action

theorem Consistent.performAll (hm : m.Consistent) (actions : List (Action ι)) :
    (m.performAll actions).2.Consistent :=
  performAll_induction (fun _ action _ h => h.perform action) hm

end Device
end DeviceLayer
