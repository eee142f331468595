import DeviceLayer.Descriptor.Handle
import DeviceLayer.Descriptor.Table
import DeviceLayer.Event.Poll

/-!
# One instance of the layer

What the drivers of one virtual machine share: the event queue and the table of
the resources that the machine holds descriptors of.

Main results:

- Theorem {lit}`Layer.queue_reset`: a reset leaves a new queue over the same
  sources.
-/

namespace DeviceLayer

/-- The event queue and the resources of one virtual machine. -/
structure Layer (S : Type) where
  queue : Queue S
  resources : Table Handle

namespace Layer

variable {S : Type}

/-- A layer without waits and resources. -/
def new (sources : S) : Layer S where
  queue := .new sources
  resources := .empty

/-- Hand out a descriptor for a resource; on failure the driver keeps the resource. -/
def allocate (l : Layer S) (resource : Handle) : Except Fault Nat × Layer S :=
  let (answer, resources) := l.resources.allocate resource
  (answer, { l with resources })

/-- The resource behind a descriptor. -/
def resource? (l : Layer S) (d : Nat) : Option Handle :=
  l.resources.get? d

/-- Free a descriptor and hand the resource back to its driver. -/
def release? (l : Layer S) (d : Nat) : Option Handle × Layer S :=
  let (answer, resources) := l.resources.release? d
  (answer, { l with resources })

/-- Number of descriptors in use. -/
def inUse (l : Layer S) : Nat :=
  l.resources.size

/-- Drop every wait and every descriptor; sources and resources themselves are not touched. -/
def reset (l : Layer S) : Layer S where
  queue := l.queue.reset
  resources := l.resources.clear

instance : Host (Layer S) S where
  queue := Layer.queue
  withQueue l q := { l with queue := q }
  queue_withQueue _ _ := rfl
  withQueue_queue _ := rfl
  withQueue_withQueue _ _ _ := rfl

/-- A reset leaves a new queue over the same sources. -/
@[simp]
theorem queue_reset (l : Layer S) : l.reset.queue = .new l.queue.sources :=
  rfl

end Layer
end DeviceLayer
