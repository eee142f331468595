import DeviceLayer.Event.Poll

/-!
# Runs of the event queue

A run is what threads, interrupts and the platform do to one queue from its
creation on.  Each call is kept with its answer in a log.  A poll first runs the
platform's hook, and the hook may itself call the queue, poll included, so the
commands of a run form a tree.  A poll's own work begins after its hook is done;
hence the tree can be read off as a plain list of operations.

Main results:

- Theorem {lit}`Command.runAll_eq_performAll`: a run does the operations of its
  tree one after the other, those of hooks in their place.
- Theorem {lit}`moment_of_length_le`: the last moment of a run is its end.
-/

namespace DeviceLayer

/-! ## Calls and answers -/

/-- What is asked of a queue.  A scan is a poll without the hook before it. -/
inductive Call where
  | register (type : EventType)
  | registerFor (requestor : UInt32) (type : EventType)
  | post (recipient : Recipient) (type : EventType) (value : EventValue)
  | cancel (number : EventNumber) (type : EventType)
  | scan (mode : ReadMode)
  | readType (type : EventType) (mode : ReadMode)
  | reset
  /-- Overwrite the number last given out in sequence. -/
  | renumber (number : EventNumber)

/-- What a queue answers. -/
inductive Answer where
  | number (result : Except Fault EventNumber)
  | done (result : Except Fault Unit)
  | event (result : Option Event)
  | value (result : Option EventValue)
  | nothing

/-- A call with its answer. -/
structure Entry where
  call : Call
  answer : Answer

variable {S κ : Type} [Sources S κ]

/-- Make a call. -/
def Queue.perform (q : Queue S) : Call → Answer × Queue S
  | .register type => (.number (q.register type).1, (q.register type).2)
  | .registerFor requestor type =>
    (.number (q.registerFor requestor type).1, (q.registerFor requestor type).2)
  | .post recipient type value => (.nothing, q.post recipient type value)
  | .cancel number type => (.done (q.cancel number type).1, (q.cancel number type).2)
  | .scan mode => (.event (q.scan mode).1, (q.scan mode).2)
  | .readType type mode => (.value (q.readType type mode).1, (q.readType type mode).2)
  | .reset => (.nothing, q.reset)
  | .renumber number => (.nothing, q.withLastNumber number)

/-! ## Recorded queues -/

/-- A queue with the log of the calls made so far, earliest first. -/
structure Recorded (S : Type) where
  queue : Queue S
  log : List Entry

/-- A step of a run: a call, or a change that the platform makes to its sources. -/
inductive Operation (S : Type) where
  | call (call : Call)
  | change (f : S → S)

namespace Recorded

/-- A new queue. -/
def new (sources : S) : Recorded S where
  queue := .new sources
  log := []

/-- Do one operation; a call is logged with its answer. -/
def perform (r : Recorded S) : Operation S → Recorded S
  | .call call =>
    { queue := (r.queue.perform call).2
      log := r.log ++ [⟨call, (r.queue.perform call).1⟩] }
  | .change f => { r with queue := { r.queue with sources := f r.queue.sources } }

/-- Do operations one after the other. -/
def performAll (r : Recorded S) (ops : List (Operation S)) : Recorded S :=
  ops.foldl perform r

instance : Host (Recorded S) S where
  queue := Recorded.queue
  withQueue r q := { r with queue := q }
  queue_withQueue _ _ := rfl
  withQueue_queue _ := rfl
  withQueue_withQueue _ _ _ := rfl

@[simp]
theorem performAll_nil (r : Recorded S) : r.performAll [] = r :=
  rfl

@[simp]
theorem performAll_cons (r : Recorded S) (op : Operation S) (ops : List (Operation S)) :
    r.performAll (op :: ops) = (r.perform op).performAll ops :=
  rfl

theorem performAll_append (r : Recorded S) (ops ops' : List (Operation S)) :
    r.performAll (ops ++ ops') = (r.performAll ops).performAll ops' :=
  List.foldl_append

/-- What every operation keeps holds after any number of them. -/
theorem performAll_induction {p : Recorded S → Prop}
    (step : ∀ r op, p r → p (r.perform op)) {r : Recorded S} (h : p r)
    (ops : List (Operation S)) : p (r.performAll ops) := by
  induction ops generalizing r with
  | nil => exact h
  | cons op ops ih => exact ih (step r op h)

end Recorded

/-! ## Commands with hooks -/

/--
A command of a run.  The hook of a poll is whatever the platform does before the
scan, given as the commands that it comes to.
-/
inductive Command (S : Type) where
  | operation (op : Operation S)
  | poll (mode : ReadMode) (hook : List (Command S))

namespace Command

mutual

/-- Carry out a command. -/
def run : Command S → Recorded S → Recorded S
  | .operation op, r => r.perform op
  | .poll mode hook, r =>
    let (event, r') := DeviceLayer.poll (fun r => runAll hook r) r mode
    { r' with log := r'.log ++ [⟨.scan mode, .event event⟩] }

/-- Carry out commands one after the other. -/
def runAll : List (Command S) → Recorded S → Recorded S
  | [], r => r
  | command :: rest, r => runAll rest (run command r)

end

mutual

/-- The operations that a command comes to, in the order in which they are done. -/
def flatten : Command S → List (Operation S)
  | .operation op => [op]
  | .poll mode hook => flattenAll hook ++ [.call (.scan mode)]

/-- The operations that commands come to. -/
def flattenAll : List (Command S) → List (Operation S)
  | [] => []
  | command :: rest => flatten command ++ flattenAll rest

end

/-- A poll is its hook and then a scan. -/
theorem run_poll (mode : ReadMode) (hook : List (Command S)) (r : Recorded S) :
    run (.poll mode hook) r = (runAll hook r).perform (.call (.scan mode)) := by
  simp only [run]
  rfl

mutual

theorem run_eq_performAll (command : Command S) (r : Recorded S) :
    run command r = r.performAll (flatten command) := by
  cases command with
  | operation op => simp [run, flatten]
  | poll mode hook =>
    rw [run_poll, runAll_eq_performAll hook r, flatten, Recorded.performAll_append]
    rfl

/-- A run does the operations of its tree one after the other. -/
theorem runAll_eq_performAll (commands : List (Command S)) (r : Recorded S) :
    runAll commands r = r.performAll (flattenAll commands) := by
  cases commands with
  | nil => simp [runAll, flattenAll]
  | cons command rest =>
    rw [runAll, flattenAll, Recorded.performAll_append, run_eq_performAll command r]
    exact runAll_eq_performAll rest _

end

end Command

/-! ## Moments of a run -/

/--
The state after the first {lit}`n` operations of a run on a new queue.  The
operations of hooks count, so a moment may lie in the middle of a poll.
-/
def moment (sources : S) (commands : List (Command S)) (n : Nat) : Recorded S :=
  (Recorded.new sources).performAll ((Command.flattenAll commands).take n)

/-- The last moment of a run is its end. -/
theorem moment_of_length_le {commands : List (Command S)} {n : Nat}
    (h : (Command.flattenAll commands).length ≤ n) (sources : S) :
    moment sources commands n = Command.runAll commands (.new sources) := by
  rw [moment, List.take_of_length_le h, Command.runAll_eq_performAll]

/-- What holds of a new queue and is kept by every operation holds at every moment. -/
theorem moment_induction {p : Recorded S → Prop} {sources : S} (start : p (.new sources))
    (step : ∀ r op, p r → p (r.perform op)) (commands : List (Command S)) (n : Nat) :
    p (moment sources commands n) :=
  Recorded.performAll_induction step start _

end DeviceLayer
