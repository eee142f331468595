import DeviceLayer.Event.Queue

/-!
# Wireless events

A change of the wireless station concerns every thread that waits for it, so it
is posted to everyone.  Socket and resolver events have one waiting thread and
are not forwarded this way.

Main results:

- Theorem {lit}`Queue.forwardWifi_of_not_isWifi`: any other type is ignored.
-/

namespace DeviceLayer
namespace Queue

variable {S κ : Type} [Sources S κ]

/-- Post a wireless event to everyone; any other type is ignored. -/
def forwardWifi (q : Queue S) (type : EventType) (value : EventValue) : Queue S :=
  if EventType.isWifi type then q.post everyone type value else q

/-- Any other type is ignored. -/
theorem forwardWifi_of_not_isWifi {type : EventType} (h : EventType.isWifi type = false)
    (q : Queue S) (value : EventValue) : q.forwardWifi type value = q := by
  simp [forwardWifi, h]

end Queue
end DeviceLayer
