import DeviceLayer.Event.Poll
import DeviceLayer.Time

/-!
# Sleeping until an event

When no thread can run, the scheduler sleeps: it polls until a wait is satisfied
or a deadline has passed, and lets the processor idle in between.  The poll only
peeks; the scheduler takes the event afterwards.

Main results:

- Theorem {lit}`sleepUntil_of_ready`: an event that is ready ends the sleep before
  the clock is read.
- Theorem {lit}`sleepUntil_of_elapsed`: a reading at or past the target ends the
  sleep.
- Theorem {lit}`sleepUntil_of_early`: an earlier reading makes the processor idle.
-/

namespace DeviceLayer

/-- The clock and the idle instruction of a platform.  Both may act on the host. -/
structure Clock (Ω : Type) where
  /-- Milliseconds since some fixed moment. -/
  now : Ω → Time × Ω
  /-- Wait for the next interrupt, or return at once. -/
  idle : Ω → Ω

/-- How a sleep ended. -/
inductive Awakening where
  /-- A wait was satisfied. -/
  | byEvent (event : Event)
  /-- The deadline passed. -/
  | byDeadline
  /-- The rounds that were allowed did not suffice. -/
  | unfinished
deriving DecidableEq, Repr

/-- The event that ended a sleep. -/
def Awakening.event? : Awakening → Option Event
  | .byEvent event => some event
  | .byDeadline | .unfinished => none

variable {Ω S κ : Type} [Host Ω S] [Sources S κ]

/-- Poll, look at the clock and idle, for at most {lit}`rounds` rounds. -/
def sleepUntil (clock : Clock Ω) (hook : Ω → Ω) (target : Time) (rounds : Nat) (host : Ω) :
    Awakening × Ω :=
  match rounds with
  | 0 => (.unfinished, host)
  | rounds + 1 =>
    match poll hook host .peek with
    | (some event, host) => (.byEvent event, host)
    | (none, host) =>
      let (reading, host) := clock.now host
      if target ≤ reading then (.byDeadline, host)
      else sleepUntil clock hook target rounds (clock.idle host)

/--
Enough rounds for every sleep on a clock that each idling moves on by at least
one: there are no more readings than this.
-/
def enoughRounds : Nat :=
  UInt64.size

/--
Sleep for up to {lit}`millis` milliseconds.  The deadline counts from the first
reading of the clock and is cut at the end of time.
-/
def sleep (clock : Clock Ω) (hook : Ω → Ω) (millis : Time) (host : Ω) : Awakening × Ω :=
  let (start, host) := clock.now host
  sleepUntil clock hook (start.after millis) enoughRounds host

/-! ## One round -/

/-- An event that is ready ends the sleep before the clock is read. -/
theorem sleepUntil_of_ready {hook : Ω → Ω} {host host' : Ω} {event : Event}
    (h : poll hook host .peek = (some event, host')) (clock : Clock Ω) (target : Time)
    (rounds : Nat) :
    sleepUntil clock hook target (rounds + 1) host = (.byEvent event, host') := by
  simp [sleepUntil, h]

/-- A reading at or past the target ends the sleep. -/
theorem sleepUntil_of_elapsed {clock : Clock Ω} {hook : Ω → Ω} {host host' : Ω} {target : Time}
    (h : poll hook host .peek = (none, host')) (hle : target ≤ (clock.now host').1)
    (rounds : Nat) :
    sleepUntil clock hook target (rounds + 1) host = (.byDeadline, (clock.now host').2) := by
  simp [sleepUntil, h, hle]

/-- An earlier reading makes the processor idle, and the sleep goes on. -/
theorem sleepUntil_of_early {clock : Clock Ω} {hook : Ω → Ω} {host host' : Ω} {target : Time}
    (h : poll hook host .peek = (none, host')) (hlt : ¬ target ≤ (clock.now host').1)
    (rounds : Nat) :
    sleepUntil clock hook target (rounds + 1) host =
      sleepUntil clock hook target rounds (clock.idle (clock.now host').2) := by
  simp [sleepUntil, h, hlt]

end DeviceLayer
