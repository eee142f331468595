import DeviceLayer.Proofs.Timer.Effect
import Mathlib.Logic.Function.Iterate

/-!
# Deadlines of repeating timers

Each expiry of a repeating timer moves its deadline on by one delay, counted from the
last deadline and not from the time at which the expiry was served.  So nothing adds
up: the deadline is the start plus a multiple of the delay, or the end of time if that
comes first.  Adding up cut sums comes to the same as cutting the full sum, because a
deadline that has reached the end of time stays there.

Main results:

- Theorem {lit}`Timer.iterate_rung_started`: the deadline after any number of expiries.
- Theorem {lit}`Device.Consistent.request?_performAll`: a timer that is not stopped
  rings once for each of its expiries, whatever else happens.
- Theorem {lit}`periodic_deadlines_do_not_drift`: the deadline of a running timer and
  what its expiries have told the ticker.
-/

namespace DeviceLayer

/-- A delay in microseconds fits into the width of a clock. -/
theorem Scheduler.toNat_microseconds (delayMs : UInt32) :
    1000 * delayMs.toNat < UInt64.size ∧
      (microseconds delayMs).toNat = 1000 * delayMs.toNat := by
  have hlt : delayMs.toNat < 2 ^ 32 := delayMs.toNat_lt
  have hfits : 1000 * delayMs.toNat < UInt64.size := by
    simp only [UInt64.size]
    omega
  refine ⟨hfits, ?_⟩
  rw [microseconds, UInt64.toNat_mul, UInt32.toNat_toUInt64, Nat.mul_comm]
  exact Nat.mod_eq_of_lt hfits

namespace Timer

/-- After so many expiries a repeating timer has its deadline so many delays later. -/
theorem iterate_rung_started (nowUs : Time) (delayMs : UInt32) (k : Nat) :
    rung^[k] (started nowUs delayMs true) =
      ⟨Scheduler.microseconds delayMs,
        nowUs.afterTimes (k + 1) (Scheduler.microseconds delayMs), true⟩ := by
  induction k with
  | zero => simp [started]
  | succ k ih =>
      rw [Function.iterate_succ_apply', ih]
      simp only [rung, ↓reduceIte, Time.after_afterTimes]

end Timer

/-! ## A timer among others -/

/-- A descriptor without a timer is not that of a running one. -/
theorem Scheduler.ne_of_request? {s : Scheduler} {d d' : Nat} {timer : Timer}
    (hunused : s.request? d' = none) (hrun : s.request? d = some timer) : d' ≠ d := by
  rintro rfl
  rw [hunused] at hrun
  contradiction

/-- Whether an action reports an expiry of timer {lit}`d` to scheduler {lit}`i`. -/
def Action.isExpiry {ι : Type} [DecidableEq ι] (i : ι) (d : Nat) : Action ι → Bool
  | .expire j e => j = i && e = d
  | _ => false

theorem Action.eq_expire_of_isExpiry {ι : Type} [DecidableEq ι] {i : ι} {d : Nat}
    {action : Action ι} (h : action.isExpiry i d = true) : action = .expire i d := by
  unfold isExpiry at h
  split at h
  · rcases Bool.and_eq_true_iff.mp h with ⟨hi, hd⟩
    rw [of_decide_eq_true hi, of_decide_eq_true hd]
  · contradiction

namespace Device

variable {ι : Type} [DecidableEq ι] {m : Device ι} {i : ι} {d : Nat} {timer : Timer}

theorem request?_settle {j : ι} {ρ : Type} {outcome : Scheduler.Outcome ρ}
    {entry : Option Timer} (hself : j = i → outcome.scheduler.request? d = entry)
    (hother : j ≠ i → (m.schedulers i).request? d = entry) :
    ((m.settle j outcome).schedulers i).request? d = entry :=
  settle_cases (P := fun s => s.request? d = entry) hself hother

/-- An action that does not stop a timer makes it ring if it is its expiry, and else leaves it. -/
theorem Consistent.request?_perform (hm : m.Consistent)
    (hrun : (m.schedulers i).request? d = some timer) {action : Action ι}
    (hstop : action ≠ .stop i d) :
    ((m.perform action).2.schedulers i).request? d =
      some (if action.isExpiry i d then timer.rung else timer) := by
  cases action with
  | schedule j nowUs delayMs repeats =>
      refine request?_settle ?_ fun _ => hrun
      rintro rfl
      rcases Scheduler.schedule_cases (hm j) m.board.timers nowUs delayMs repeats with
        ⟨fault, hrefused, -⟩ | ⟨d', s', hstarted, -, -, hunused, hwrites⟩
      · rw [hrefused]
        exact hrun
      · have hne : d' ≠ d := Scheduler.ne_of_request? hunused hrun
        rw [hstarted]
        exact (hwrites.request?_of_ne hne).trans hrun
  | expire j d' =>
      refine request?_settle ?_ ?_
      · rintro rfl
        rcases Scheduler.expire_cases (hm j) m.board.timers d' with
          ⟨hrefused, hunused⟩ | ⟨timer', s', hrung, hrequest, hwrites⟩
        · have hne : d' ≠ d := Scheduler.ne_of_request? hunused hrun
          rw [hrefused]
          simpa [Action.isExpiry, hne] using hrun
        · rw [hrung]
          by_cases heq : d' = d
          · subst heq
            obtain rfl : timer' = timer := Option.some.inj (hrequest.symm.trans hrun)
            simpa [Action.isExpiry] using hwrites.request?_self
          · simpa [Action.isExpiry, heq] using (hwrites.request?_of_ne heq).trans hrun
      · intro hne
        simpa [Action.isExpiry, hne] using hrun
  | stop j d' =>
      refine request?_settle ?_ fun _ => hrun
      rintro rfl
      have hne : d' ≠ d := fun heq => hstop (heq ▸ rfl)
      rcases Scheduler.cancel_cases (hm j) m.board.timers d' with
        ⟨hrefused, -⟩ | ⟨timer', s', hstopped, -, hwrites⟩
      · rw [hrefused]
        exact hrun
      · rw [hstopped]
        exact (hwrites.request?_of_ne hne).trans hrun
  | _ => exact hrun

/-- The expiry of a running timer is accepted, and the ticker is armed if the timer repeats. -/
theorem Consistent.perform_expire_fst (hm : m.Consistent)
    (hrun : (m.schedulers i).request? d = some timer) :
    (m.perform (.expire i d)).1 = .expired true (timer.rearm? d) := by
  rcases Scheduler.expire_cases (hm i) m.board.timers d with
    ⟨-, hunused⟩ | ⟨timer', s', hrung, hrequest, -⟩
  · exact absurd rfl (Scheduler.ne_of_request? hunused hrun)
  · obtain rfl : timer' = timer := Option.some.inj (hrequest.symm.trans hrun)
    rw [Device.perform, hrung]

/-- A timer that was just started runs. -/
theorem Consistent.request?_of_scheduled (hm : m.Consistent) {nowUs : Time} {delayMs : UInt32}
    {repeats : Bool} {command : Option TickerCommand}
    (h : (m.perform (.schedule i nowUs delayMs repeats)).1 = .scheduled (.ok d) command) :
    ((m.perform (.schedule i nowUs delayMs repeats)).2.schedulers i).request? d =
      some (.started nowUs delayMs repeats) := by
  rcases Scheduler.schedule_cases (hm i) m.board.timers nowUs delayMs repeats with
    ⟨fault, hrefused, -⟩ | ⟨d', s', hstarted, -, -, -, hwrites⟩
  · simp [Device.perform, hrefused] at h
  · simp only [Device.perform, hstarted, Reply.scheduled.injEq, Except.ok.injEq] at h
    obtain ⟨rfl, -⟩ := h
    refine request?_settle (fun _ => ?_) fun hne => absurd rfl hne
    rw [hstarted]
    exact hwrites.request?_self

/--
A timer that is not stopped rings once for each of its expiries, and each of them is
accepted, whatever else happens.
-/
theorem Consistent.request?_performAll (hm : m.Consistent)
    (hrun : (m.schedulers i).request? d = some timer) {actions : List (Action ι)}
    (hstop : .stop i d ∉ actions) :
    let expiries := (m.performAll actions).1.filter (·.action.isExpiry i d)
    ((m.performAll actions).2.schedulers i).request? d =
        some (Timer.rung^[expiries.length] timer) ∧
      ∀ k (deed : Deed ι), expiries[k]? = some deed →
        deed.reply = .expired true ((Timer.rung^[k] timer).rearm? d) := by
  induction actions generalizing m timer with
  | nil => exact ⟨hrun, by simp⟩
  | cons action rest ih =>
      rw [List.mem_cons, not_or] at hstop
      rcases hstop with ⟨hfirst, hrest⟩
      have hnext := hm.request?_perform hrun (Ne.symm hfirst)
      rcases ih (hm.perform action) hnext hrest with ⟨hrequest, hreplies⟩
      rw [performAll_cons]
      cases hexpiry : action.isExpiry i d with
      | false =>
          simp only [hexpiry, Bool.false_eq_true, ↓reduceIte] at hrequest hreplies
          simp only [List.filter_cons, hexpiry, Bool.false_eq_true, ↓reduceIte]
          exact ⟨hrequest, hreplies⟩
      | true =>
          simp only [hexpiry, ↓reduceIte] at hrequest hreplies
          simp only [List.filter_cons, hexpiry, ↓reduceIte, List.length_cons,
            Function.iterate_succ_apply]
          refine ⟨hrequest, fun k deed hdeed => ?_⟩
          cases k with
          | zero =>
              obtain rfl := Option.some.inj hdeed
              rw [Action.eq_expire_of_isExpiry hexpiry]
              exact hm.perform_expire_fst hrun
          | succ k => exact hreplies k deed hdeed

end Device

/--
A timer that was started under a descriptor at some time of its ticker runs on until it
is stopped, with the delay in microseconds, which never overflows, and the flag that it
was started with.  After {lit}`k` expiries its deadline is {lit}`k + 1` delays after the
start if it repeats, and one delay if not, or else the end of time, whatever is done to
other timers and whenever the expiries were served.  Each expiry is accepted, and if the
timer repeats it arms the ticker for the deadline that it sets.
-/
theorem periodic_deadlines_do_not_drift {ι : Type} [DecidableEq ι] (before : List (Action ι))
    (i : ι) (nowUs : Time) (delayMs : UInt32) (repeats : Bool) :
    let m := (Device.new.performAll before).2
    let m' := (m.perform (.schedule i nowUs delayMs repeats)).2
    let delayUs := 1000 * delayMs.toNat
    let due := fun n : Nat => min Time.last (nowUs.toNat + n * delayUs)
    delayUs < UInt64.size ∧
      ∀ d command,
        (m.perform (.schedule i nowUs delayMs repeats)).1 = .scheduled (.ok d) command →
          ∀ after, .stop i d ∉ after →
            let expiries := (m'.performAll after).1.filter (·.action.isExpiry i d)
            (∃ timer, ((m'.performAll after).2.schedulers i).request? d = some timer ∧
              timer.delayUs.toNat = delayUs ∧ timer.repeats = repeats ∧
              timer.deadlineUs.toNat = if repeats then due (expiries.length + 1) else due 1) ∧
            ∀ k deed, expiries[k]? = some deed →
              ∃ command', deed.reply = .expired true command' ∧
                if repeats then ∃ atUs, command' = some (.arm d atUs) ∧ atUs.toNat = due (k + 2)
                else command' = none := by
  intro m m' delayUs due
  have hm : m.Consistent := Device.consistent_new.performAll before
  rcases Scheduler.toNat_microseconds delayMs with ⟨hfits, hdelay⟩
  have hdue : ∀ n, (nowUs.afterTimes n (Scheduler.microseconds delayMs)).toNat = due n := by
    intro n
    rw [Time.toNat_afterTimes, hdelay]
  refine ⟨hfits, fun d command hstarted after hstop => ?_⟩
  intro expiries
  have hrun : (m'.schedulers i).request? d = some (.started nowUs delayMs repeats) :=
    hm.request?_of_scheduled hstarted
  rcases (hm.perform (.schedule i nowUs delayMs repeats)).request?_performAll hrun hstop with
    ⟨hrequest, hreply⟩
  cases repeats with
  | true =>
      rw [Timer.iterate_rung_started] at hrequest
      refine ⟨⟨_, hrequest, hdelay, rfl, hdue _⟩, fun k deed hdeed => ?_⟩
      refine ⟨_, hreply k deed hdeed, ?_⟩
      rw [Timer.iterate_rung_started]
      refine ⟨_, rfl, ?_⟩
      change ((nowUs.afterTimes (k + 1) _).after (Scheduler.microseconds delayMs)).toNat = _
      rw [Time.after_afterTimes, hdue]
  | false =>
      have hstill : Timer.rung (.started nowUs delayMs false) = .started nowUs delayMs false :=
        Timer.rung_of_not_repeats rfl
      simp only [Function.iterate_fixed hstill] at hrequest hreply
      refine ⟨⟨_, hrequest, hdelay, rfl, ?_⟩, fun k deed hdeed => ⟨_, hreply k deed hdeed, rfl⟩⟩
      change (nowUs.after (Scheduler.microseconds delayMs)).toNat = due 1
      rw [← Time.afterTimes_one, hdue]

/--
The second timer expires three times, and in between another one is started, expires and
is stopped.
-/
def amongOthers : List (Action Unit) :=
  [.expire () 1, .schedule () 5 7 false, .expire () 0, .expire () 1, .expire () 2, .stop () 2,
    .expire () 2, .expire () 1]

/-- A deadline that has reached the end of time stays there. -/
theorem deadline_stays_at_end_of_time :
    let m := (Device.new.performAll [.schedule () 0 4 false]).2
    let m' := (m.perform (.schedule () 18446744073709549000 2 true)).2
    let later := m'.performAll amongOthers
    let expiries := later.1.filter (·.action.isExpiry () 1)
    (m.perform (.schedule () 18446744073709549000 2 true)).1 =
        .scheduled (.ok 1) (some (.arm 1 18446744073709551000)) ∧
      .stop () 1 ∉ amongOthers ∧ expiries.length = 3 ∧
      (∃ timer, (later.2.schedulers ()).request? 1 = some timer ∧
        timer.delayUs.toNat = 2000 ∧ timer.deadlineUs.toNat = Time.last) ∧
      ∀ deed, expiries[0]? = some deed →
        ∃ atUs, deed.reply = .expired true (some (.arm 1 atUs)) ∧ atUs.toNat = Time.last := by
  intro m m' later expiries
  have hstarted : (m.perform (.schedule () 18446744073709549000 2 true)).1 =
      .scheduled (.ok 1) (some (.arm 1 18446744073709551000)) := rfl
  have hstop : .stop () 1 ∉ amongOthers := by simp [amongOthers]
  have hlength : expiries.length = 3 := rfl
  obtain ⟨⟨timer, hrequest, hdelay, -, hdeadline⟩, hreplies⟩ :=
    (periodic_deadlines_do_not_drift [.schedule () 0 4 false] () 18446744073709549000 2 true).2
      1 _ hstarted amongOthers hstop
  refine ⟨hstarted, hstop, hlength, ⟨timer, hrequest, hdelay, ?_⟩, fun deed hdeed => ?_⟩
  · exact hdeadline.trans (by decide)
  · obtain ⟨command, hreply, atUs, rfl, hat⟩ := hreplies 0 deed hdeed
    exact ⟨atUs, hreply, hat.trans (by decide)⟩

end DeviceLayer
