import DeviceLayer.Event.Source

/-!
# Channels

A set of sources made of first-in first-out channels.  Routes say which channel
an event type is read from; taking a value removes it from its channel.

Main results:

- Theorem {lit}`Channels.channel_push`: a push appends to one channel.
- Theorem {lit}`Channels.read_fst`: reading shows the oldest value of a channel.
- Theorem {lit}`Channels.channel_read_take`: taking removes it from that channel.
-/

namespace DeviceLayer

/-- Channels of values with routes from event types. -/
structure Channels where
  /-- Event types with their channel; the first route of a type counts. -/
  routes : List (EventType × Nat)
  /-- The values in each channel, oldest first. -/
  contents : List (List EventValue)
deriving DecidableEq

namespace Channels

/-- The number of channels that routes need. -/
def channelsFor (routes : List (EventType × Nat)) : Nat :=
  routes.foldl (fun count route => max count (route.2 + 1)) 0

/-- Add empty channels until there are at least {lit}`count`. -/
def widen (contents : List (List EventValue)) (count : Nat) : List (List EventValue) :=
  contents ++ List.replicate (count - contents.length) []

/-- Empty channels for the given routes. -/
def ofRoutes (routes : List (EventType × Nat)) : Channels where
  routes
  contents := widen [] (channelsFor routes)

/-- The values in a channel, oldest first. -/
def channel (c : Channels) (index : Nat) : List EventValue :=
  c.contents[index]?.getD []

/-- Append a value to a channel. -/
def push (c : Channels) (index : Nat) (value : EventValue) : Channels :=
  { c with contents := c.contents.modify index fun values => values ++ [value] }

/-- Replace the routes.  Channels keep their values; missing channels are added empty. -/
def reroute (c : Channels) (routes : List (EventType × Nat)) : Channels where
  routes
  contents := widen c.contents (channelsFor routes)

/-- The channel of an event type. -/
def channelOf? (c : Channels) (type : EventType) : Option Nat :=
  c.routes.lookup type

/-- The oldest value of a channel; taking removes it. -/
def read (c : Channels) (index : Nat) (mode : ReadMode) : Option EventValue × Channels :=
  let oldest := (c.channel index).head?
  match mode with
  | .peek => (oldest, c)
  | .take => (oldest, { c with contents := c.contents.modify index List.tail })

instance : Sources Channels Nat where
  kindOf := channelOf?
  read := read

/-! ## The values in a channel -/

/-- A push appends to one channel and leaves the others as they were. -/
theorem channel_push (c : Channels) {index : Nat} (h : index < c.contents.length)
    (value : EventValue) (other : Nat) :
    (c.push index value).channel other =
      if index = other then c.channel other ++ [value] else c.channel other := by
  unfold push channel
  rw [List.getElem?_modify]
  by_cases heq : index = other
  · subst heq
    simp [h]
  · simp [heq]

/-- Reading shows the oldest value of a channel. -/
theorem read_fst (c : Channels) (index : Nat) (mode : ReadMode) :
    (c.read index mode).1 = (c.channel index).head? := by
  cases mode <;> rfl

/-- Peeking leaves every channel as it is. -/
@[simp]
theorem read_peek_snd (c : Channels) (index : Nat) : (c.read index .peek).2 = c :=
  rfl

/-- Taking removes the oldest value of one channel and leaves the others as they were. -/
theorem channel_read_take (c : Channels) (index other : Nat) :
    (c.read index .take).2.channel other =
      if index = other then (c.channel other).tail else c.channel other := by
  unfold read channel
  simp only
  rw [List.getElem?_modify]
  by_cases heq : index = other
  · subst heq
    cases c.contents[index]? <;> simp
  · simp [heq]

/-- Taking from an empty channel leaves every channel as it is. -/
theorem read_take_snd_of_none {c : Channels} {index : Nat}
    (h : (c.channel index).head? = none) : (c.read index .take).2 = c := by
  have hempty : c.channel index = [] := List.head?_eq_none_iff.mp h
  have hcontents : c.contents.modify index List.tail = c.contents := by
    apply List.ext_getElem?
    intro other
    rw [List.getElem?_modify]
    split
    · rename_i heq
      subst heq
      cases hchannel : c.contents[index]? with
      | none => rfl
      | some values =>
        rw [channel, hchannel, Option.getD_some] at hempty
        rw [hempty]
        rfl
    · exact id_map' _
  change { c with contents := c.contents.modify index List.tail } = c
  rw [hcontents]

/-- Rerouting keeps the values of every channel. -/
theorem channel_reroute (c : Channels) (routes : List (EventType × Nat)) (index : Nat) :
    (c.reroute routes).channel index = c.channel index := by
  unfold reroute widen channel
  simp only [List.getElem?_append, List.getElem?_replicate]
  split
  · rfl
  · rename_i h
    have hnone : c.contents[index]? = none := List.getElem?_eq_none (Nat.le_of_not_lt h)
    rw [hnone]
    split <;> rfl

end Channels
end DeviceLayer
