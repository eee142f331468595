import DeviceLayer.Event.Queue

/-!
# Polling

A platform may have work to do before its queue is scanned, such as running the
callbacks of a network stack, and that work may itself use the queue.  So a poll
acts on the whole system that holds the queue, called its host: first the
platform's hook runs on the host, then the queue is scanned.

Main results:

- Theorem {lit}`poll_id`: without a hook a poll is a scan.
- Theorem {lit}`queue_poll`: after a poll the host's queue is the scanned queue
  that the hook left.
-/

namespace DeviceLayer

/-- A system {lit}`Ω` that holds one event queue and can have it replaced. -/
class Host (Ω : Type) (S : outParam Type) where
  queue : Ω → Queue S
  withQueue : Ω → Queue S → Ω
  /-- The queue put in is the queue held. -/
  queue_withQueue : ∀ host q, queue (withQueue host q) = q
  /-- Putting the held queue back changes nothing. -/
  withQueue_queue : ∀ host, withQueue host (queue host) = host
  /-- Of two queues put in the later one is held. -/
  withQueue_withQueue : ∀ host q q', withQueue (withQueue host q) q' = withQueue host q'

/-- A queue is its own host. -/
instance (S : Type) : Host (Queue S) S where
  queue := id
  withQueue _ q := q
  queue_withQueue _ _ := rfl
  withQueue_queue _ := rfl
  withQueue_withQueue _ _ _ := rfl

variable {Ω S κ : Type} [Host Ω S] [Sources S κ]

/-- Run the platform's hook, then look for the oldest satisfied wait. -/
def poll (hook : Ω → Ω) (host : Ω) (mode : ReadMode) : Option Event × Ω :=
  let ready := hook host
  let (event, q) := (Host.queue ready).scan mode
  (event, Host.withQueue ready q)

/-- Without a hook a poll is a scan. -/
theorem poll_id (q : Queue S) (mode : ReadMode) : poll id q mode = q.scan mode :=
  rfl

/-- A poll reports what a scan of the queue that the hook left reports. -/
theorem poll_fst (hook : Ω → Ω) (host : Ω) (mode : ReadMode) :
    (poll hook host mode).1 = ((Host.queue (hook host)).scan mode).1 :=
  rfl

/-- After a poll the host's queue is the scanned queue that the hook left. -/
theorem queue_poll (hook : Ω → Ω) (host : Ω) (mode : ReadMode) :
    Host.queue (poll hook host mode).2 = ((Host.queue (hook host)).scan mode).2 :=
  Host.queue_withQueue ..

end DeviceLayer
