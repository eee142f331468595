import DeviceLayer.Descriptor.Table
import DeviceLayer.Time
import DeviceLayer.Timer.Status

/-!
# Timers

A scheduler keeps its timers in a descriptor table.  It tells the hardware
ticker when to expire a timer; the ticker's interrupt then reports the expiry,
which raises the timer's status bit.  A repeating timer is armed again one delay
after its last deadline, whenever the interrupt was served, so it does not drift.

Main results:

- Theorem {lit}`Scheduler.schedule_zero`: a zero delay is refused before all else.
- Theorem {lit}`Scheduler.expire_of_request_eq_none`: an expiry of a timer that
  does not run has no effect.
-/

namespace DeviceLayer

/-- A running timer. -/
structure Timer where
  delayUs : Time
  deadlineUs : Time
  repeats : Bool
deriving DecidableEq, Repr

/-- What a scheduler tells the ticker. -/
inductive TickerCommand where
  /-- Expire timer {lit}`d` at the given time. -/
  | arm (d : Nat) (atUs : Time)
  /-- Forget any expiry of timer {lit}`d`. -/
  | disarm (d : Nat)
deriving DecidableEq, Repr

/-- The timers of one ticker. -/
structure Scheduler where
  timers : Table Timer
deriving DecidableEq

namespace Scheduler

/-- What an operation answers, what it tells the ticker, and what it leaves behind. -/
structure Outcome (ρ : Type) where
  answer : ρ
  command : Option TickerCommand
  scheduler : Scheduler
  status : TimerStatus

/-- No timer runs. -/
def empty : Scheduler where
  timers := .empty

/-- Number of running timers. -/
def active (s : Scheduler) : Nat :=
  s.timers.size

/-- The running timer behind a descriptor. -/
def request? (s : Scheduler) (d : Nat) : Option Timer :=
  s.timers.get? d

/-- A delay in microseconds. -/
def microseconds (delayMs : UInt32) : Time :=
  delayMs.toUInt64 * 1000

/-- Start a timer that expires after {lit}`delayMs`, and again and again if it repeats. -/
def schedule (s : Scheduler) (status : TimerStatus) (nowUs : Time) (delayMs : UInt32)
    (repeats : Bool) : Outcome (Except Fault Nat) :=
  if delayMs = 0 then ⟨.error .zeroDelay, none, s, status⟩
  else
    let delayUs := microseconds delayMs
    let deadlineUs := nowUs.after delayUs
    match s.timers.allocate { delayUs, deadlineUs, repeats } with
    | (.ok d, timers) => ⟨.ok d, some (.arm d deadlineUs), { timers }, status⟩
    | (.error _, timers) => ⟨.error .timersFull, none, { timers }, status⟩

/--
The ticker reports that timer {lit}`d` expired: its bit is raised, and a
repeating timer is armed for its next deadline.  A timer that was cancelled in
the meantime is not known any more.
-/
def expire (s : Scheduler) (status : TimerStatus) (d : Nat) : Outcome Bool :=
  match s.request? d with
  | none => ⟨false, none, s, status⟩
  | some timer =>
    let raised := status.raise (TimerStatus.bit d)
    if timer.repeats then
      let deadlineUs := timer.deadlineUs.after timer.delayUs
      let timers := (s.timers.replace? d { timer with deadlineUs }).2
      ⟨true, some (.arm d deadlineUs), { timers }, raised⟩
    else ⟨true, none, s, raised⟩

/-- Stop a timer and free its descriptor; a bit raised for it is dropped as well. -/
def cancel (s : Scheduler) (status : TimerStatus) (d : Nat) :
    Outcome (Except Fault Unit) :=
  match s.timers.release d with
  | (.ok _, timers) => ⟨.ok (), some (.disarm d), { timers }, status.drop (TimerStatus.bit d)⟩
  | (.error fault, timers) => ⟨.error fault, none, { timers }, status⟩

/-- A zero delay is refused before all else. -/
theorem schedule_zero (s : Scheduler) (status : TimerStatus) (nowUs : Time) (repeats : Bool) :
    s.schedule status nowUs 0 repeats = ⟨.error .zeroDelay, none, s, status⟩ :=
  rfl

/-- An expiry of a timer that does not run has no effect. -/
theorem expire_of_request_eq_none {s : Scheduler} {d : Nat} (h : s.request? d = none)
    (status : TimerStatus) : s.expire status d = ⟨false, none, s, status⟩ := by
  simp [expire, h]

end Scheduler
end DeviceLayer
