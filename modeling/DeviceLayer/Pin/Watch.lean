import DeviceLayer.Bitmap.Word
import DeviceLayer.Fault
import DeviceLayer.Pin.Edge
import DeviceLayer.Pin.EdgeBuffer

/-!
# Watched pins

A mask says which edges of which pins are of interest: two bits for each pin.
The pin interrupt reports every edge; only watched ones enter the buffer.

Main results:

- Theorem {lit}`PinWatch.isWatched_of_le`: no pin out of range is watched.
- Theorems {lit}`PinWatch.isWatched_watch` and {lit}`PinWatch.isWatched_unwatch`:
  an edge is switched on and off alone.
- Theorem {lit}`PinWatch.post_of_not_isWatched`: an edge that is not watched
  changes nothing.
-/

namespace DeviceLayer

/-- The watched edges and the buffer of those that occurred. -/
structure PinWatch where
  mask : UInt64
  buffer : EdgeBuffer
deriving DecidableEq

namespace PinWatch

/-- No edge watched, none buffered. -/
def empty : PinWatch where
  mask := 0
  buffer := .empty

/-- Position of an edge in the mask. -/
def maskIndex (e : PinEdge) : Nat :=
  2 * e.pin.toNat + e.edge.offset

/-- Start watching an edge. -/
def watch (w : PinWatch) (e : PinEdge) : Except Fault Unit × PinWatch :=
  if e.pin < pinLimit then (.ok (), { w with mask := w.mask ||| Word.bit (maskIndex e) })
  else (.error .pinOutOfRange, w)

/-- Stop watching an edge; what is buffered stays. -/
def unwatch (w : PinWatch) (e : PinEdge) : Except Fault Unit × PinWatch :=
  if e.pin < pinLimit then (.ok (), { w with mask := w.mask &&& ~~~Word.bit (maskIndex e) })
  else (.error .pinOutOfRange, w)

/-- Whether an edge is watched. -/
def isWatched (w : PinWatch) (e : PinEdge) : Bool :=
  e.pin < pinLimit && Word.hasBit w.mask (maskIndex e)

/-- Report an edge.  The answer is whether it was buffered: watched, and room left. -/
def post (w : PinWatch) (e : PinEdge) : Bool × PinWatch :=
  if w.isWatched e then
    let (stored, buffer) := w.buffer.push e.encode
    (stored, { w with buffer })
  else (false, w)

/-- The oldest buffered edge; taking removes it. -/
def read (w : PinWatch) (mode : ReadMode) : Option EventValue × PinWatch :=
  let (value, buffer) := w.buffer.read mode
  (value, { w with buffer })

/-- Number of buffered edges. -/
def size (w : PinWatch) : Nat :=
  w.buffer.size

/-- Whether no edge is buffered. -/
def isEmpty (w : PinWatch) : Bool :=
  w.size == 0

/-! ## Independence of the edges -/

/-- The mask index of a pin in range lies in the word. -/
theorem maskIndex_lt {e : PinEdge} (h : e.pin < pinLimit) : maskIndex e < 64 := by
  have hpin : e.pin.toNat < 32 := h
  unfold maskIndex Edge.offset
  split <;> omega

/-- Two edges never share a mask index. -/
theorem maskIndex_injective {e e' : PinEdge} (h : maskIndex e = maskIndex e') : e = e' := by
  obtain ⟨pin, edge⟩ := e
  obtain ⟨pin', edge'⟩ := e'
  simp only [maskIndex] at h
  have hpin : pin.toNat = pin'.toNat := by
    cases edge <;> cases edge' <;> simp only [Edge.offset] at h <;> omega
  have hedge : edge = edge' := by
    cases edge <;> cases edge' <;> simp [Edge.offset] at h ⊢ <;> omega
  rw [UInt32.toNat_inj.mp hpin, hedge]

/-- No pin out of range is watched. -/
theorem isWatched_of_le (w : PinWatch) {e : PinEdge} (h : ¬ e.pin < pinLimit) :
    w.isWatched e = false := by
  simp [isWatched, h]

/-- A pin out of range can be neither watched nor left. -/
theorem watch_of_le (w : PinWatch) {e : PinEdge} (h : ¬ e.pin < pinLimit) :
    w.watch e = (.error .pinOutOfRange, w) ∧ w.unwatch e = (.error .pinOutOfRange, w) := by
  simp [watch, unwatch, h]

/-- Watching switches one edge on and leaves the others as they were. -/
theorem isWatched_watch (w : PinWatch) {e : PinEdge} (h : e.pin < pinLimit) (e' : PinEdge) :
    (w.watch e).2.isWatched e' = (w.isWatched e' || decide (e = e')) := by
  by_cases h' : e'.pin < pinLimit
  · have hindex : maskIndex e = maskIndex e' ↔ e = e' :=
      ⟨maskIndex_injective, congrArg maskIndex⟩
    simp [watch, isWatched, h, h', Word.hasBit_or_bit _ (maskIndex_lt h) (maskIndex_lt h'), hindex]
  · have hne : e ≠ e' := fun heq => h' (heq ▸ h)
    simp [isWatched_of_le _ h', hne]

/-- Leaving switches one edge off and leaves the others as they were. -/
theorem isWatched_unwatch (w : PinWatch) {e : PinEdge} (h : e.pin < pinLimit) (e' : PinEdge) :
    (w.unwatch e).2.isWatched e' = (w.isWatched e' && !decide (e = e')) := by
  by_cases h' : e'.pin < pinLimit
  · have hindex : maskIndex e = maskIndex e' ↔ e = e' :=
      ⟨maskIndex_injective, congrArg maskIndex⟩
    simp [unwatch, isWatched, h, h', Word.hasBit_and_not_bit _ (maskIndex_lt h) (maskIndex_lt h'),
      hindex]
  · simp [isWatched_of_le _ h']

/-- An edge that is not watched changes nothing. -/
theorem post_of_not_isWatched {w : PinWatch} {e : PinEdge} (h : w.isWatched e = false) :
    w.post e = (false, w) := by
  simp [post, h]

/-- Posting and reading leave the mask alone. -/
@[simp]
theorem mask_post (w : PinWatch) (e : PinEdge) : (w.post e).2.mask = w.mask := by
  unfold post
  split <;> rfl

@[simp]
theorem mask_read (w : PinWatch) (mode : ReadMode) : (w.read mode).2.mask = w.mask :=
  rfl

/-- Peeking leaves the pins as they are. -/
@[simp]
theorem read_peek_snd (w : PinWatch) : (w.read .peek).2 = w := by
  simp only [read, EdgeBuffer.read_peek_snd]

end PinWatch
end DeviceLayer
