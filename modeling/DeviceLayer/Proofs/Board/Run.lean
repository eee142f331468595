import DeviceLayer.Board
import DeviceLayer.Proofs.Event.Run
import DeviceLayer.Timer.Scheduler
import Mathlib.Logic.Function.Basic

/-!
# Runs of a board

A device is the queue of a board together with the schedulers that raise bits of
its timer status word.  Threads call the queue, the drivers read and write the
sources behind its back, and the interrupts of pins and tickers report what
happened.  An action is any of these; it is logged with its reply.

Main results:

- Theorem {lit}`Device.performAll_cons`: a run is its first action and then the
  others.
- Theorem {lit}`Device.view_performAll`: what deeds set one after the other is in
  the end what the last of them set.
-/

namespace DeviceLayer

/-! ## Devices -/

/-- The queue of a board and the schedulers that share its timer status word. -/
structure Device (ι : Type) where
  queue : Queue Board
  schedulers : ι → Scheduler

/-- What happens to a device. -/
inductive Action (ι : Type) where
  | call (call : Call)
  | watch (e : PinEdge)
  | unwatch (e : PinEdge)
  /-- The pin interrupt reports an edge. -/
  | report (e : PinEdge)
  | readPins (mode : ReadMode)
  | raise (bits : UInt32)
  | drop (bits : UInt32)
  | readTimers (mode : ReadMode)
  | schedule (i : ι) (nowUs : Time) (delayMs : UInt32) (repeats : Bool)
  /-- The ticker of a scheduler reports an expiry. -/
  | expire (i : ι) (d : Nat)
  | stop (i : ι) (d : Nat)

/-- What an action answers, with what a scheduler told its ticker. -/
inductive Reply where
  | answer (answer : Answer)
  | done (result : Except Fault Unit)
  | stored (isStored : Bool)
  | value (value : Option EventValue)
  | nothing
  | scheduled (result : Except Fault Nat) (command : Option TickerCommand)
  | expired (isRunning : Bool) (command : Option TickerCommand)
  | stopped (result : Except Fault Unit) (command : Option TickerCommand)

/-- An action with its reply. -/
structure Deed (ι : Type) where
  action : Action ι
  reply : Reply

namespace Device

variable {ι : Type}

/-- A device that was just switched on. -/
def new : Device ι where
  queue := .new .empty
  schedulers _ := .empty

def board (m : Device ι) : Board :=
  m.queue.sources

def withPins (m : Device ι) (pins : PinWatch) : Device ι :=
  { m with queue := { m.queue with sources := { m.board with pins } } }

def withTimers (m : Device ι) (timers : TimerStatus) : Device ι :=
  { m with queue := { m.queue with sources := { m.board with timers } } }

@[simp]
theorem board_withPins (m : Device ι) (pins : PinWatch) :
    (m.withPins pins).board = { m.board with pins } :=
  rfl

@[simp]
theorem board_withTimers (m : Device ι) (timers : TimerStatus) :
    (m.withTimers timers).board = { m.board with timers } :=
  rfl

@[simp]
theorem withPins_pins (m : Device ι) : m.withPins m.board.pins = m :=
  rfl

@[simp]
theorem withTimers_timers (m : Device ι) : m.withTimers m.board.timers = m :=
  rfl

/-! ## Actions -/

variable [DecidableEq ι]

/-- Put the outcome of an operation of one scheduler in place. -/
def settle (m : Device ι) (i : ι) {ρ : Type} (outcome : Scheduler.Outcome ρ) : Device ι :=
  { m.withTimers outcome.status with
    schedulers := Function.update m.schedulers i outcome.scheduler }

/-- Do one action. -/
def perform (m : Device ι) : Action ι → Reply × Device ι
  | .call call =>
    (.answer (m.queue.perform call).1, { m with queue := (m.queue.perform call).2 })
  | .watch e => (.done (m.board.pins.watch e).1, m.withPins (m.board.pins.watch e).2)
  | .unwatch e => (.done (m.board.pins.unwatch e).1, m.withPins (m.board.pins.unwatch e).2)
  | .report e => (.stored (m.board.pins.post e).1, m.withPins (m.board.pins.post e).2)
  | .readPins mode => (.value (m.board.pins.read mode).1, m.withPins (m.board.pins.read mode).2)
  | .raise bits => (.nothing, m.withTimers (m.board.timers.raise bits))
  | .drop bits => (.nothing, m.withTimers (m.board.timers.drop bits))
  | .readTimers mode =>
    (.value (m.board.timers.read mode).1, m.withTimers (m.board.timers.read mode).2)
  | .schedule i nowUs delayMs repeats =>
    let outcome := (m.schedulers i).schedule m.board.timers nowUs delayMs repeats
    (.scheduled outcome.answer outcome.command, m.settle i outcome)
  | .expire i d =>
    let outcome := (m.schedulers i).expire m.board.timers d
    (.expired outcome.answer outcome.command, m.settle i outcome)
  | .stop i d =>
    let outcome := (m.schedulers i).cancel m.board.timers d
    (.stopped outcome.answer outcome.command, m.settle i outcome)

/-- Do actions one after the other, and log them with their replies. -/
def performAll (m : Device ι) : List (Action ι) → List (Deed ι) × Device ι
  | [] => ([], m)
  | action :: rest =>
    let (reply, m') := m.perform action
    let (log, m'') := m'.performAll rest
    (⟨action, reply⟩ :: log, m'')

@[simp]
theorem board_settle (m : Device ι) (i : ι) {ρ : Type} (outcome : Scheduler.Outcome ρ) :
    (m.settle i outcome).board = { m.board with timers := outcome.status } :=
  rfl

@[simp]
theorem performAll_nil (m : Device ι) : m.performAll [] = ([], m) :=
  rfl

theorem performAll_cons (m : Device ι) (action : Action ι) (rest : List (Action ι)) :
    m.performAll (action :: rest) =
      (⟨action, (m.perform action).1⟩ :: ((m.perform action).2.performAll rest).1,
        ((m.perform action).2.performAll rest).2) :=
  rfl

/-- The log lists the actions in the order in which they were done. -/
theorem map_action_performAll (m : Device ι) (actions : List (Action ι)) :
    (m.performAll actions).1.map Deed.action = actions := by
  induction actions generalizing m with
  | nil => rfl
  | cons action rest ih => rw [performAll_cons, List.map_cons, ih]

/-! ## What runs keep and set -/

variable {p : Device ι → Prop}

/-- What every action of a run keeps holds after the run. -/
theorem performAll_induction {actions : List (Action ι)}
    (hstep : ∀ m, ∀ action ∈ actions, p m → p (m.perform action).2) {m : Device ι} (h : p m) :
    p (m.performAll actions).2 := by
  induction actions generalizing m with
  | nil => exact h
  | cons action rest ih =>
      have hfirst := hstep m action List.mem_cons_self h
      exact ih (fun m' action' hmem => hstep m' action' (List.mem_cons_of_mem _ hmem)) hfirst

/-- Each deed of a run was done in a state that has what every action keeps. -/
theorem exists_perform_of_mem (hstep : ∀ m action, p m → p (m.perform action).2) {m : Device ι}
    (h : p m) {actions : List (Action ι)} {deed : Deed ι}
    (hdeed : deed ∈ (m.performAll actions).1) :
    ∃ m', p m' ∧ deed = ⟨deed.action, (m'.perform deed.action).1⟩ := by
  induction actions generalizing m with
  | nil => contradiction
  | cons action rest ih =>
      rw [performAll_cons] at hdeed
      rcases List.mem_cons.mp hdeed with rfl | hlater
      · exact ⟨m, h, rfl⟩
      · exact ih (hstep m action h) hlater

/--
A view of the device is set by some deeds and left alone by the others.  Then a
run leaves in view what the last deed to set it has set.
-/
theorem view_performAll {β : Type} (view : Device ι → β) (set? : Deed ι → Option β)
    (hstep : ∀ m action, p m → p (m.perform action).2)
    (hset : ∀ m action, p m →
      view (m.perform action).2 = (set? ⟨action, (m.perform action).1⟩).getD (view m))
    {m : Device ι} (h : p m) (actions : List (Action ι)) :
    view (m.performAll actions).2 =
      (((m.performAll actions).1.filterMap set?).getLast?).getD (view m) := by
  induction actions generalizing m with
  | nil => rfl
  | cons action rest ih =>
      have hrest := ih (hstep m action h)
      rw [performAll_cons, List.filterMap_cons]
      rw [hset m action h] at hrest
      cases hfirst : set? ⟨action, (m.perform action).1⟩ with
      | none =>
          rw [hfirst] at hrest
          exact hrest
      | some value =>
          rw [hfirst] at hrest
          rw [List.getLast?_cons, Option.getD_some]
          exact hrest

end Device
end DeviceLayer
