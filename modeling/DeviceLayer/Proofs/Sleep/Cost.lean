import DeviceLayer.Proofs.Sleep.Rounds
import Mathlib.Algebra.Order.Floor.Div

/-!
# What a sleep costs

Nothing in a sleep counts its rounds; it ends because the clock does not stand still.
Each idling moves the readings on by at least one, so the target is reached after as many
idlings as lie between it and the first reading, even where both are cut at the end of
time.  To count what a sleep does, it is run on a host that keeps a tally.

Main results:

- Theorem {lit}`Clock.EndsAfter.sleepUntil_eq`: it does not matter how many rounds are
  allowed if they suffice.
- Theorem {lit}`Tallied.endsAfter`: the tally of a sleep that ends after some rounds.
- Theorem {lit}`Clock.Advances.exists_endsAfter`: a sleep ends when its time is over, if not
  before.
- Theorem {lit}`Clock.Ticks.rounds_eq`: how many rounds it takes on a clock that ticks evenly.
- Theorem {lit}`sleep_ends_within_its_time`: termination and cost of every sleep.
-/

namespace DeviceLayer

/-- The first multiple at or past a number is the one rounded up. -/
theorem eq_ceilDiv {a step n : Nat} (hstep : 0 < step) (hearlier : ∀ j < n, j * step < a)
    (hreached : a ≤ n * step) : n = a ⌈/⌉ step := by
  apply Nat.le_antisymm
  · refine Nat.le_of_not_lt fun hlt => ?_
    have hbelow := hearlier _ hlt
    have hle : a ≤ step * (a ⌈/⌉ step) := le_smul_ceilDiv hstep
    rw [Nat.mul_comm] at hle
    exact absurd hbelow (Nat.not_lt.mpr hle)
  · rw [ceilDiv_le_iff_le_smul hstep, smul_eq_mul, Nat.mul_comm]
    exact hreached

variable {Ω S κ : Type} [Host Ω S] [Sources S κ]

namespace Clock

/-! ## The round that ends a sleep -/

/-- What the clock reads right after a poll. -/
def reading (clock : Clock Ω) (hook : Ω → Ω) (host : Ω) : Time :=
  (clock.now (poll hook host .peek).2).1

/-- A round ends a sleep, which reports this and leaves this. -/
inductive Ends (clock : Clock Ω) (hook : Ω → Ω) (target : Time) (host : Ω) : Awakening × Ω → Prop
  | byEvent (event : Event) (found : (poll hook host .peek).1 = some event) :
    clock.Ends hook target host (.byEvent event, (poll hook host .peek).2)
  | byDeadline (vain : (poll hook host .peek).1 = none)
      (late : target ≤ clock.reading hook host) :
    clock.Ends hook target host (.byDeadline, (clock.now (poll hook host .peek).2).2)

/-- So many rounds pass, and the next one ends the sleep. -/
structure EndsAfter (clock : Clock Ω) (hook : Ω → Ω) (target : Time) (n : Nat) (host : Ω)
    (result : Awakening × Ω) : Prop where
  passes : ∀ j < n, clock.Passes hook target ((clock.round hook)^[j] host)
  ends : clock.Ends hook target ((clock.round hook)^[n] host) result

variable {clock : Clock Ω} {hook : Ω → Ω} {target : Time} {n rounds : Nat} {host : Ω}
  {result : Awakening × Ω}

theorem Passes.reading_lt (h : clock.Passes hook target host) :
    clock.reading hook host < target :=
  h.2

theorem EndsAfter.finished (h : clock.EndsAfter hook target n host result) :
    result.1 ≠ .unfinished := by
  cases h.ends <;> exact Awakening.noConfusion

/-- The rounds after the first one end as the whole sleep does. -/
theorem EndsAfter.tail (h : clock.EndsAfter hook target (n + 1) host result) :
    clock.EndsAfter hook target n (clock.round hook host) result where
  passes j hj := h.passes (j + 1) (Nat.succ_lt_succ hj)
  ends := h.ends

/-- For a sleep that ends after so many rounds, any larger number of them suffices. -/
theorem EndsAfter.sleepUntil_eq (h : clock.EndsAfter hook target n host result)
    (hlt : n < rounds) : sleepUntil clock hook target rounds host = result := by
  obtain ⟨k, rfl⟩ := Nat.exists_eq_add_of_lt hlt
  clear hlt
  induction n generalizing host with
  | zero =>
      rw [Nat.zero_add]
      cases h.ends with
      | byEvent event found => exact sleepUntil_of_ready (Prod.ext found rfl) clock target k
      | byDeadline vain late => exact sleepUntil_of_elapsed (Prod.ext vain rfl) late k
  | succ n ih =>
      have hpasses : clock.Passes hook target host := h.passes 0 (Nat.succ_pos n)
      rw [Nat.add_right_comm n 1 k]
      calc
        sleepUntil clock hook target (n + k + 1 + 1) host
          = sleepUntil clock hook target (n + k + 1) (clock.round hook host) :=
            sleepUntil_of_early (Prod.ext hpasses.1 rfl) (UInt64.not_le.mpr hpasses.2) (n + k + 1)
        _ = result := ih h.tail

/-- One of the rounds that are allowed ends the sleep, or all of them pass. -/
theorem exists_endsAfter_or (clock : Clock Ω) (hook : Ω → Ω) (target : Time) (rounds : Nat)
    (host : Ω) :
    (∃ n < rounds, ∃ result, clock.EndsAfter hook target n host result) ∨
      ∀ j < rounds, clock.Passes hook target ((clock.round hook)^[j] host) := by
  rcases sleepUntil_cases clock hook target rounds host with
    ⟨n, hn, hall, ⟨event, hfound, -⟩ | ⟨hvain, hlate, -⟩⟩ | ⟨hall, -⟩
  · exact .inl ⟨n, hn, _, hall, .byEvent event hfound⟩
  · exact .inl ⟨n, hn, _, hall, .byDeadline hvain hlate⟩
  · exact .inr hall

/-! ## Clocks that move on -/

/--
Two readings with a poll between them do not go back, and with an idling between them as
well they are at least one apart, except at the end of time.
-/
structure Advances (clock : Clock Ω) (hook : Ω → Ω) : Prop where
  le_of_poll : ∀ host, (clock.now host).1 ≤ clock.reading hook (clock.now host).2
  le_of_idle : ∀ host,
    (clock.now host).1.after 1 ≤ clock.reading hook (clock.idle (clock.now host).2)

/-- Only an idling moves the readings on, always by the same step. -/
structure Ticks (clock : Clock Ω) (hook : Ω → Ω) (step : Time) : Prop where
  reading_of_poll : ∀ host, clock.reading hook (clock.now host).2 = (clock.now host).1
  reading_of_idle : ∀ host,
    clock.reading hook (clock.idle (clock.now host).2) = (clock.now host).1.after step

/--
A clock advances if it shows a time of the host that never goes back and that idling moves
on by at least one.
-/
theorem advances_of_time (time : Ω → Time)
    (hnow : ∀ host, time host ≤ (clock.now host).1 ∧ (clock.now host).1 ≤ time (clock.now host).2)
    (hpoll : ∀ host, time host ≤ time (poll hook host .peek).2)
    (hidle : ∀ host, (time host).after 1 ≤ time (clock.idle host)) : clock.Advances hook := by
  have hreading : ∀ host, time host ≤ clock.reading hook host := fun host =>
    UInt64.le_trans (hpoll host) (hnow _).1
  refine ⟨fun host => UInt64.le_trans (hnow host).2 (hreading _), fun host => ?_⟩
  calc
    (clock.now host).1.after 1 ≤ (time (clock.now host).2).after 1 :=
      Time.after_le_after (hnow host).2 (UInt64.le_refl 1)
    _ ≤ time (clock.idle (clock.now host).2) := hidle _
    _ ≤ clock.reading hook (clock.idle (clock.now host).2) := hreading _

/-- After so many rounds, the reading is at least so much later than the first one. -/
theorem Advances.afterTimes_le_reading (h : clock.Advances hook) (host : Ω) (n : Nat) :
    let first := clock.now host
    first.1.afterTimes n 1 ≤ clock.reading hook ((clock.round hook)^[n] first.2) := by
  intro first
  induction n with
  | zero =>
      rw [Time.afterTimes_zero]
      exact h.le_of_poll host
  | succ n ih =>
      rw [← Time.after_afterTimes, Function.iterate_succ_apply']
      exact UInt64.le_trans (Time.after_le_after ih (UInt64.le_refl 1)) (h.le_of_idle _)

/-- On a clock that ticks evenly, the readings are equally far apart. -/
theorem Ticks.reading_eq {step : Time} (h : clock.Ticks hook step) (host : Ω) (n : Nat) :
    let first := clock.now host
    clock.reading hook ((clock.round hook)^[n] first.2) = first.1.afterTimes n step := by
  intro first
  induction n with
  | zero =>
      rw [Time.afterTimes_zero]
      exact h.reading_of_poll host
  | succ n ih =>
      rw [← Time.after_afterTimes, Function.iterate_succ_apply', ← ih]
      exact h.reading_of_idle _

/-- Only rounds with a number below the distance to the target can pass. -/
theorem Advances.lt_of_passes (h : clock.Advances hook) {host : Ω} {millis : Time}
    (hpasses : clock.Passes hook ((clock.now host).1.after millis)
      ((clock.round hook)^[n] (clock.now host).2)) :
    n < min millis.toNat (Time.last - (clock.now host).1.toNat) := by
  have hlt := UInt64.lt_of_le_of_lt (h.afterTimes_le_reading host n) hpasses.reading_lt
  rw [UInt64.lt_iff_toNat_lt, Time.toNat_afterTimes, Time.toNat_after, UInt64.toNat_one,
    Nat.mul_one] at hlt
  omega

/-- A sleep ends after no more rounds than lie between the first reading and the target. -/
theorem Advances.exists_endsAfter (h : clock.Advances hook) (millis : Time) (host : Ω) :
    let first := clock.now host
    ∃ n ≤ min millis.toNat (Time.last - first.1.toNat), ∃ result,
      clock.EndsAfter hook (first.1.after millis) n first.2 result := by
  intro first
  rcases exists_endsAfter_or clock hook (first.1.after millis)
      (min millis.toNat (Time.last - first.1.toNat) + 1) first.2 with ⟨n, hn, hends⟩ | hall
  · exact ⟨n, Nat.le_of_lt_succ hn, hends⟩
  · exact absurd (h.lt_of_passes (hall _ (Nat.lt_succ_self _))) (Nat.lt_irrefl _)

/--
On a clock that ticks evenly, a sleep up to its deadline takes the distance to the target
divided by the step, rounded up.
-/
theorem Ticks.rounds_eq {step millis : Time} (h : clock.Ticks hook step) (hstep : step ≠ 0)
    {host host' : Ω}
    (hends : clock.EndsAfter hook ((clock.now host).1.after millis) n (clock.now host).2
      (.byDeadline, host')) :
    n = (min Time.last ((clock.now host).1.toNat + millis.toNat) - (clock.now host).1.toNat) ⌈/⌉
      step.toNat := by
  have hpos : 0 < step.toNat := Nat.pos_of_ne_zero fun hzero => hstep (UInt64.toNat_inj.mp hzero)
  refine eq_ceilDiv hpos (fun j hj => ?_) ?_
  · have hearly := (hends.passes j hj).reading_lt
    rw [h.reading_eq, UInt64.lt_iff_toNat_lt, Time.toNat_afterTimes, Time.toNat_after] at hearly
    omega
  · cases hends.ends with
    | byDeadline vain late =>
        rw [h.reading_eq, UInt64.le_iff_toNat_le, Time.toNat_afterTimes, Time.toNat_after] at late
        omega

end Clock

/-! ## Counting what a sleep does -/

/-- A host with a tally of the polls, the readings of the clock and the idlings. -/
structure Tallied (Ω : Type) where
  host : Ω
  polls : Nat
  readings : Nat
  idlings : Nat

namespace Tallied

/-- Nothing has been done yet. -/
def start (host : Ω) : Tallied Ω where
  host
  polls := 0
  readings := 0
  idlings := 0

instance : Host (Tallied Ω) S where
  queue w := Host.queue w.host
  withQueue w q := { w with host := Host.withQueue w.host q }
  queue_withQueue w q := Host.queue_withQueue w.host q
  withQueue_queue w := congrArg (Tallied.mk · _ _ _) (Host.withQueue_queue w.host)
  withQueue_withQueue w q q' := congrArg (Tallied.mk · _ _ _) (Host.withQueue_withQueue w.host q q')

/-- The clock, with its readings and idlings counted. -/
def clock (c : Clock Ω) : Clock (Tallied Ω) where
  now w := ((c.now w.host).1, { w with host := (c.now w.host).2, readings := w.readings + 1 })
  idle w := { w with host := c.idle w.host, idlings := w.idlings + 1 }

/-- The hook, with its runs counted.  Each poll runs it once. -/
def hook (f : Ω → Ω) (w : Tallied Ω) : Tallied Ω :=
  { w with host := f w.host, polls := w.polls + 1 }

variable {c : Clock Ω} {f : Ω → Ω} {target : Time} {n : Nat} {result : Awakening × Ω}

/-- A round that passes polls, reads the clock and idles once. -/
theorem iterate_round (c : Clock Ω) (f : Ω → Ω) (n : Nat) (w : Tallied Ω) :
    ((clock c).round (hook f))^[n] w =
      ⟨(c.round f)^[n] w.host, w.polls + n, w.readings + n, w.idlings + n⟩ := by
  induction n with
  | zero => rfl
  | succ n ih =>
      rw [Function.iterate_succ_apply', ih, Function.iterate_succ_apply']
      rfl

/-- How often the clock is read in the last round. -/
def lastReadings : Awakening → Nat
  | .byDeadline => 1
  | .byEvent _ | .unfinished => 0

/-- The tally of a sleep that ends after some rounds. -/
theorem endsAfter {w : Tallied Ω} (h : c.EndsAfter f target n w.host result) :
    (clock c).EndsAfter (hook f) target n w (result.1, ⟨result.2, w.polls + (n + 1),
      w.readings + n + lastReadings result.1, w.idlings + n⟩) := by
  refine ⟨fun j hj => ?_, ?_⟩
  · rw [iterate_round]
    exact h.passes j hj
  · rw [iterate_round]
    cases h.ends with
    | byEvent event found => exact .byEvent event found
    | byDeadline vain late => exact .byDeadline vain late

/-- The tally of a sleep, which counts its first reading as well. -/
theorem sleep_eq {millis : Time} {host : Ω}
    (h : c.EndsAfter f ((c.now host).1.after millis) n (c.now host).2 result)
    (hlt : n < enoughRounds) :
    sleep (clock c) (hook f) millis (start host) =
      (result.1, ⟨result.2, n + 1, n + 1 + lastReadings result.1, n⟩) := by
  have hends := endsAfter (w := ⟨(c.now host).2, 0, 1, 0⟩) h
  rw [Nat.zero_add, Nat.zero_add, Nat.add_comm 1 n] at hends
  exact hends.sleepUntil_eq hlt

end Tallied

/-! ## Termination and cost -/

/--
On a clock that advances, whatever the hook and the idling do to the queue: a sleep ends,
and does so within any number of rounds beyond {lit}`bound`, the distance from the first
reading to the target.  It idles at most {lit}`bound` times and polls once more than it
idles.  Besides the first reading, there is one for each idling and one for the deadline if
that ends the sleep.  If no poll finds anything, the deadline ends it.  On a clock that
ticks evenly, it then idles for the distance divided by the step, rounded up.
-/
theorem sleep_ends_within_its_time {clock : Clock Ω} {hook : Ω → Ω} (h : clock.Advances hook)
    (millis : Time) (host : Ω) :
    let first := clock.now host
    let target := min Time.last (first.1.toNat + millis.toNat)
    let bound := min millis.toNat (Time.last - first.1.toNat)
    let slept := sleep clock hook millis host
    let tallied := sleep (Tallied.clock clock) (Tallied.hook hook) millis (Tallied.start host)
    let tally := tallied.2
    let ready := fun n => Host.queue (hook ((clock.round hook)^[n] first.2))
    (slept.1 ≠ .unfinished ∧ ∀ rounds, bound < rounds →
        sleepUntil clock hook (first.1.after millis) rounds first.2 = slept) ∧
      (tallied.1 = slept.1 ∧ tally.host = slept.2) ∧
      tally.idlings ≤ bound ∧
      tally.polls = tally.idlings + 1 ∧
      (slept.1 = .byDeadline → tally.readings = tally.idlings + 2) ∧
      (∀ event, slept.1 = .byEvent event → tally.readings = tally.idlings + 1) ∧
      ((∀ n, Roster.NothingReady .peek (ready n).sources (ready n).waits.waits) →
        slept.1 = .byDeadline) ∧
      ∀ step, step ≠ 0 → clock.Ticks hook step → slept.1 = .byDeadline →
        tally.idlings = (target - first.1.toNat) ⌈/⌉ step.toNat := by
  intro first target bound slept tallied tally ready
  obtain ⟨n, hn, result, hends⟩ := h.exists_endsAfter millis host
  have hbound : bound < enoughRounds :=
    Nat.lt_of_le_of_lt (Nat.le_trans (Nat.min_le_right ..) (Nat.sub_le ..)) (by decide)
  have hslept : slept = result := hends.sleepUntil_eq (Nat.lt_of_le_of_lt hn hbound)
  have htallied : tallied =
      (result.1, ⟨result.2, n + 1, n + 1 + Tallied.lastReadings result.1, n⟩) :=
    Tallied.sleep_eq hends (Nat.lt_of_le_of_lt hn hbound)
  simp only [tally, htallied, hslept]
  refine ⟨⟨hends.finished, fun rounds hlt => hends.sleepUntil_eq (Nat.lt_of_le_of_lt hn hlt)⟩,
    ⟨trivial, trivial⟩, hn, trivial, fun hdeadline => ?_, fun event hevent => ?_, fun hvain => ?_,
    fun step hstep hticks hdeadline => ?_⟩
  · rw [hdeadline, Tallied.lastReadings]
  · rw [hevent, Tallied.lastReadings]
  · cases hends.ends with
    | byEvent event found =>
        have hnone := (poll_fst_eq_none_iff hook _ .peek).mpr (hvain n)
        rw [hnone] at found
        contradiction
    | byDeadline vain late => rfl
  · have hresult : result = (.byDeadline, result.2) := Prod.ext hdeadline rfl
    rw [hresult] at hends
    exact hticks.rounds_eq hstep hends

/-- Each idling takes four milliseconds, and time stands still at its end. -/
def coarseClock : Clock (Queue PostedOnly × Time) where
  now host := (host.2, host)
  idle host := (host.1, host.2.after 4)

/-- Shortly before the end of time, the longest sleep takes three idlings and not more. -/
theorem longest_sleep_near_the_end_of_time :
    let host : Queue PostedOnly × Time := (.new PostedOnly.mk, 18446744073709551606)
    let millis : Time := 18446744073709551615
    let tallied := sleep (Tallied.clock coarseClock) (Tallied.hook id) millis (Tallied.start host)
    coarseClock.Advances id ∧ coarseClock.Ticks id 4 ∧
      (sleep coarseClock id millis host).1 = .byDeadline ∧
      tallied.2.idlings = 3 ∧ tallied.2.polls = 4 ∧ tallied.2.readings = 5 := by
  intro host millis
  have hticks : coarseClock.Ticks id 4 := ⟨fun _ => rfl, fun _ => rfl⟩
  have hadvances : coarseClock.Advances id :=
    Clock.advances_of_time Prod.snd (fun _ => ⟨UInt64.le_refl _, UInt64.le_refl _⟩)
      (fun _ => UInt64.le_refl _) (fun _ => Time.after_le_after (UInt64.le_refl _) (by decide))
  have hempty : ∀ n, ((coarseClock.round id)^[n] host).1 = host.1 := by
    intro n
    induction n with
    | zero => rfl
    | succ n ih =>
        rw [Function.iterate_succ_apply', ← ih, Clock.round, poll_peek_snd]
        rfl
  obtain ⟨-, -, -, hpolls, hreadings, -, hdeadline, hidlings⟩ :=
    sleep_ends_within_its_time hadvances millis host
  have hslept : (sleep coarseClock id millis host).1 = .byDeadline := by
    refine hdeadline fun n => ?_
    change Roster.NothingReady .peek ((coarseClock.round id)^[n] host).1.sources
      ((coarseClock.round id)^[n] host).1.waits.waits
    rw [hempty]
    trivial
  have hfirst : (coarseClock.now host).1 = 18446744073709551606 := rfl
  have hdistance : (min Time.last ((18446744073709551606 : Time).toNat + millis.toNat) -
      (18446744073709551606 : Time).toNat) ⌈/⌉ (4 : Time).toNat = 3 := by decide
  have hthree := hidlings 4 (by decide) hticks hslept
  rw [hfirst, hdistance] at hthree
  rw [hthree] at hpolls hreadings
  exact ⟨hadvances, hticks, hslept, hthree, hpolls, hreadings hslept⟩

end DeviceLayer
