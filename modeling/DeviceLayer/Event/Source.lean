import DeviceLayer.Event.Wait

/-!
# Sampled sources

Some event types are never posted.  Their events are read from a source, such
as a buffer or a status word, whenever the scheduler polls.  A platform says
which types these are and how its sources are read.

Main results:

- Theorem {lit}`Sources.sample_of_kindOf_eq_none`: a wait of a posted type is
  decided by its posts alone.
-/

namespace DeviceLayer

/-- Sources with state {lit}`S`, told apart by kinds in {lit}`κ`. -/
class Sources (S : Type) (κ : outParam Type) where
  /-- The source of a sampled type, none for a posted type. -/
  kindOf : S → EventType → Option κ
  /-- Read a source; taking consumes what was observed. -/
  read : S → κ → ReadMode → Option EventValue × S

namespace Sources

variable {S κ : Type} [Sources S κ]

/-- How events of a type reach the scheduler. -/
def delivery (sources : S) (type : EventType) : Delivery :=
  match kindOf sources type with
  | some _ => .sampled
  | none => .posted

/-- Read the source of a type directly; a posted type has none. -/
def readType (sources : S) (type : EventType) (mode : ReadMode) : Option EventValue × S :=
  match kindOf sources type with
  | some kind => read sources kind mode
  | none => (none, sources)

/--
The value that satisfies a wait, if there is one: read from its source if its
type is sampled, else the value last posted to it.
-/
def sample (sources : S) (wait : Wait) (mode : ReadMode) : Option EventValue × S :=
  match kindOf sources wait.type with
  | some kind => read sources kind mode
  | none => (wait.posted?, sources)

/-- A wait of a posted type is decided by its posts alone. -/
theorem sample_of_kindOf_eq_none {sources : S} {wait : Wait}
    (h : kindOf sources wait.type = none) (mode : ReadMode) :
    sample sources wait mode = (wait.posted?, sources) := by
  simp [sample, h]

/-- A wait of a sampled type is decided by its source alone. -/
theorem sample_of_kindOf_eq_some {sources : S} {wait : Wait} {kind : κ}
    (h : kindOf sources wait.type = some kind) (mode : ReadMode) :
    sample sources wait mode = read sources kind mode := by
  simp [sample, h]

end Sources

/-! ## No sources -/

/-- A platform on which every event type is posted. -/
structure PostedOnly where
deriving DecidableEq

instance : Sources PostedOnly Empty where
  kindOf _ _ := none
  read sources _ _ := (none, sources)

@[simp]
theorem kindOf_postedOnly (sources : PostedOnly) (type : EventType) :
    Sources.kindOf sources type = none :=
  rfl

end DeviceLayer
