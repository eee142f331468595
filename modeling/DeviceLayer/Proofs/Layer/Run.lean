import DeviceLayer.Layer
import DeviceLayer.Proofs.Descriptor.Run
import DeviceLayer.Proofs.Event.Run

/-!
# Runs of a layer

A run uses the queue and the resources of one layer in any order.  A poll belongs
to the layer, so its hook may use both.  As in the runs of a queue, the commands
of a run form a tree that can be read off as a plain list of calls.

Main results:

- Theorem {lit}`Layer.Command.runAll_eq_respond`: a run makes the calls of its
  tree one after the other, those of hooks in their place.
- Theorem {lit}`Layer.consistent_moment`: throughout a run the table of resources
  is consistent.
-/

namespace DeviceLayer
namespace Layer

/-! ## Calls and answers -/

/-- What is asked of a layer, its queue and its sources. -/
inductive Call (S : Type) where
  | queue (op : Operation S)
  | allocate (resource : Handle)
  | resource? (d : Nat)
  | release? (d : Nat)
  | inUse
  | reset

/-- What a layer answers. -/
inductive Answer where
  | queue (answer : DeviceLayer.Answer)
  | descriptor (result : Except Fault Nat)
  | resource? (result : Option Handle)
  | count (result : Nat)
  | nothing

variable {S κ : Type} [Sources S κ]

/-- Make a call; a change that the platform makes to its sources is not answered. -/
def perform (l : Layer S) : Call S → Answer × Layer S
  | .queue (.call call) =>
    (.queue (l.queue.perform call).1, { l with queue := (l.queue.perform call).2 })
  | .queue (.change f) =>
    (.nothing, { l with queue := { l.queue with sources := f l.queue.sources } })
  | .allocate resource => (.descriptor (l.allocate resource).1, (l.allocate resource).2)
  | .resource? d => (.resource? (l.resource? d), l)
  | .release? d => (.resource? (l.release? d).1, (l.release? d).2)
  | .inUse => (.count l.inUse, l)
  | .reset => (.nothing, l.reset)

/-! ## Commands with hooks -/

/-- A command of a run; the hook of a poll is given as the commands that it comes to. -/
inductive Command (S : Type) where
  | plain (call : Call S)
  | poll (mode : ReadMode) (hook : List (Command S))

namespace Command

mutual

/-- Carry out a command; what a hook is answered comes before the answer to its poll. -/
def run : Command S → Layer S → List Answer × Layer S
  | .plain call, l => ([(l.perform call).1], (l.perform call).2)
  | .poll mode hook, l =>
    let (event, l') := DeviceLayer.poll (fun l => (runAll hook l).2) l mode
    ((runAll hook l).1 ++ [.queue (.event event)], l')

/-- Carry out commands one after the other. -/
def runAll : List (Command S) → Layer S → List Answer × Layer S
  | [], l => ([], l)
  | command :: rest, l =>
    let first := run command l
    let later := runAll rest first.2
    (first.1 ++ later.1, later.2)

end

mutual

/-- The calls that a command comes to, in the order in which they are made. -/
def flatten : Command S → List (Call S)
  | .plain call => [call]
  | .poll mode hook => flattenAll hook ++ [.queue (.call (.scan mode))]

/-- The calls that commands come to. -/
def flattenAll : List (Command S) → List (Call S)
  | [] => []
  | command :: rest => flatten command ++ flattenAll rest

end

/-- A poll is its hook and then a scan. -/
theorem run_poll (mode : ReadMode) (hook : List (Command S)) (l : Layer S) :
    run (.poll mode hook) l =
      ((runAll hook l).1 ++ [((runAll hook l).2.perform (.queue (.call (.scan mode)))).1],
        ((runAll hook l).2.perform (.queue (.call (.scan mode)))).2) := by
  simp only [run]
  rfl

mutual

theorem run_eq_respond (command : Command S) (l : Layer S) :
    run command l = respond perform l (flatten command) := by
  cases command with
  | plain call => simp only [run, flatten, respond]
  | poll mode hook =>
    rw [run_poll, runAll_eq_respond hook l, flatten, respond_append]
    rfl

/-- A run makes the calls of its tree one after the other. -/
theorem runAll_eq_respond (commands : List (Command S)) (l : Layer S) :
    runAll commands l = respond perform l (flattenAll commands) := by
  cases commands with
  | nil => simp only [runAll, flattenAll, respond]
  | cons command rest =>
    rw [runAll, flattenAll, respond_append, run_eq_respond command l]
    simp only [runAll_eq_respond rest]

end

end Command

/-! ## Moments of a run -/

/--
The layer after the first {lit}`n` calls of a run on a new one.  The calls of
hooks count, so a moment may lie in the middle of a poll.
-/
def moment (sources : S) (commands : List (Command S)) (n : Nat) : Layer S :=
  (respond perform (.new sources) ((Command.flattenAll commands).take n)).2

theorem consistent_perform {l : Layer S} (h : l.resources.Consistent) (call : Call S) :
    (l.perform call).2.resources.Consistent := by
  cases call with
  | queue op =>
      cases op with
      | call call => exact h
      | change f => exact h
  | allocate resource => exact h.allocate resource
  | resource? d => exact h
  | release? d => exact h.release? d
  | inUse => exact h
  | reset => exact h.clear

/-- Throughout a run the table of resources is consistent. -/
theorem consistent_moment (sources : S) (commands : List (Command S)) (n : Nat) :
    (moment sources commands n).resources.Consistent :=
  respond_induction (p := fun l : Layer S => l.resources.Consistent)
    (fun _ call h => consistent_perform h call) Table.consistent_empty _

end Layer
end DeviceLayer
