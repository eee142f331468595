import DeviceLayer.Proofs.Board.Run
import DeviceLayer.Proofs.Event.Peek

/-!
# Watched edges are independent

The mask holds two bits for each pin, and an edge is watched if its bit is set.  A call
that switches an edge on or off shifts a bit to the place of that edge, so it depends on
the places whether other edges are touched, and on the check of the pin whether the
shift stays within the word.  Reports and reads leave the mask alone.

Main results:

- Theorem {lit}`Device.isWatched_perform`: what one action does to one edge.
- Theorem {lit}`Device.isWatched_performAll`: the last call about an edge decides it.
- Theorem {lit}`PinWatch.shiftsWithin`: each operation on the mask comes to the same if its
  shift is checked.
- Theorem {lit}`watched_edges_are_independent`: a whole run, from a device without watched
  edges.
-/

namespace DeviceLayer

namespace PinWatch

/-! ## Shifts into the mask -/

/-- The bits of an edge moved up two places for each pin below its own, within the mask. -/
def maskBits? (e : PinEdge) : Option UInt64 :=
  let distance := 2 * e.pin.toNat
  if distance < 64 then some (e.edge.code.toUInt64 <<< UInt64.ofNat distance) else none

/--
What is done with the bits of an edge, or with a pin out of range.  There is no result if
the bits would be moved beyond the mask.
-/
def withMaskBits? {α : Type} (e : PinEdge) (inRange : UInt64 → α) (outOfRange : α) : Option α :=
  if e.pin < pinLimit then (maskBits? e).map inRange else some outOfRange

/-- The operations on the mask come to the same if their shifts are checked. -/
structure ShiftsWithin (w : PinWatch) (e : PinEdge) : Prop where
  watch : withMaskBits? e (fun bits => (.ok (), { w with mask := w.mask ||| bits }))
    (.error .pinOutOfRange, w) = some (w.watch e)
  unwatch : withMaskBits? e (fun bits => (.ok (), { w with mask := w.mask &&& ~~~bits }))
    (.error .pinOutOfRange, w) = some (w.unwatch e)
  isWatched : withMaskBits? e (fun bits => w.mask &&& bits != 0) false = some (w.isWatched e)

/-- The code of an edge has the bit at the position of the edge. -/
theorem toNat_code (edge : Edge) : edge.code.toUInt64.toNat = 1 <<< edge.offset := by
  cases edge <;> rfl

/-- The bits of an edge in range are the one bit at its place in the mask. -/
theorem maskBits?_eq {e : PinEdge} (h : e.pin < pinLimit) :
    maskBits? e = some (Word.bit (maskIndex e)) := by
  have hpin : e.pin.toNat < 32 := h
  have hdistance : 2 * e.pin.toNat < 64 := by omega
  have hindex : e.edge.offset + 2 * e.pin.toNat = maskIndex e := Nat.add_comm ..
  have hlt : 1 <<< maskIndex e < 2 ^ 64 := by
    rw [Nat.one_shiftLeft]
    exact Nat.pow_lt_pow_right (by decide) (maskIndex_lt h)
  rw [maskBits?, if_pos hdistance]
  congr 1
  rw [← UInt64.toNat_inj, Word.toNat_bit (maskIndex_lt h), UInt64.toNat_shiftLeft, toNat_code,
    UInt64.toNat_ofNat_of_lt' (Nat.lt_trans hdistance (by decide)), Nat.mod_eq_of_lt hdistance,
    ← Nat.shiftLeft_add, hindex, Nat.mod_eq_of_lt hlt]

theorem withMaskBits?_eq {α : Type} (e : PinEdge) (inRange : UInt64 → α) (outOfRange : α) :
    withMaskBits? e inRange outOfRange =
      some (if e.pin < pinLimit then inRange (Word.bit (maskIndex e)) else outOfRange) := by
  unfold withMaskBits?
  split
  · rename_i hrange
    rw [maskBits?_eq hrange, Option.map_some]
  · rfl

theorem shiftsWithin (w : PinWatch) (e : PinEdge) : w.ShiftsWithin e where
  watch := withMaskBits?_eq ..
  unwatch := withMaskBits?_eq ..
  isWatched := by
    rw [withMaskBits?_eq, PinWatch.isWatched, Word.hasBit]
    split
    · rename_i hrange
      rw [decide_eq_true hrange, Bool.true_and]
    · rename_i hrange
      rw [decide_eq_false hrange, Bool.false_and]

/-! ## One edge and another -/

/-- Whether an edge is watched is read off the mask. -/
theorem isWatched_congr {w w' : PinWatch} (h : w'.mask = w.mask) (e : PinEdge) :
    w'.isWatched e = w.isWatched e := by
  rw [isWatched, isWatched, h]

theorem isWatched_empty (e : PinEdge) : empty.isWatched e = false := by
  rw [isWatched, empty, Word.hasBit_zero, Bool.and_false]

variable {e e' : PinEdge}

theorem isWatched_watch_of_ne (w : PinWatch) (hne : e' ≠ e) :
    (w.watch e').2.isWatched e = w.isWatched e := by
  by_cases hrange : e'.pin < pinLimit
  · rw [isWatched_watch w hrange, decide_eq_false hne, Bool.or_false]
  · rw [(w.watch_of_le hrange).1]

theorem isWatched_unwatch_of_ne (w : PinWatch) (hne : e' ≠ e) :
    (w.unwatch e').2.isWatched e = w.isWatched e := by
  by_cases hrange : e'.pin < pinLimit
  · rw [isWatched_unwatch w hrange, decide_eq_false hne, Bool.not_false, Bool.and_true]
  · rw [(w.watch_of_le hrange).2]

end PinWatch

/-! ## Runs -/

/-- What an action makes of an edge: switched on, switched off, or not touched. -/
def Action.switch? {ι : Type} (e : PinEdge) : Action ι → Option Bool
  | .watch e' => if e' = e then some true else none
  | .unwatch e' => if e' = e then some false else none
  | _ => none

/-- What the last call about an edge made of it. -/
def lastSwitch? {ι : Type} (e : PinEdge) (actions : List (Action ι)) : Option Bool :=
  (actions.filterMap (Action.switch? e)).getLast?

namespace Device

variable {ι : Type} [DecidableEq ι] {e : PinEdge}

/-- No read of a source touches the mask, so no call of the queue does. -/
theorem mask_call (m : Device ι) (call : Call) :
    (m.perform (.call call)).2.board.pins.mask = m.board.pins.mask := by
  refine Queue.view_perform (fun b : Board => b.pins.mask) (fun b source mode => ?_) m.queue call
  cases source with
  | pins => rfl
  | timers => cases mode <;> rfl

/-- What an action does to an edge in range can be read off the action. -/
theorem isWatched_perform (h : e.pin < pinLimit) (m : Device ι) (action : Action ι) :
    (m.perform action).2.board.pins.isWatched e =
      (action.switch? e).getD (m.board.pins.isWatched e) := by
  cases action with
  | call call => exact PinWatch.isWatched_congr (m.mask_call call) e
  | watch e' =>
      by_cases heq : e' = e
      · subst heq
        simp [perform, Action.switch?, PinWatch.isWatched_watch _ h]
      · simp only [perform, board_withPins, Action.switch?, if_neg heq, Option.getD_none]
        exact m.board.pins.isWatched_watch_of_ne heq
  | unwatch e' =>
      by_cases heq : e' = e
      · subst heq
        simp [perform, Action.switch?, PinWatch.isWatched_unwatch _ h]
      · simp only [perform, board_withPins, Action.switch?, if_neg heq, Option.getD_none]
        exact m.board.pins.isWatched_unwatch_of_ne heq
  | report e' => exact PinWatch.isWatched_congr (m.board.pins.mask_post e') e
  | readPins mode => exact PinWatch.isWatched_congr (m.board.pins.mask_read mode) e
  | _ => rfl

/-- After a run, the last call about an edge in range has decided it. -/
theorem isWatched_performAll (h : e.pin < pinLimit) (m : Device ι) (actions : List (Action ι)) :
    (m.performAll actions).2.board.pins.isWatched e =
      (lastSwitch? e actions).getD (m.board.pins.isWatched e) := by
  have hview := view_performAll (p := fun _ => True)
    (fun m : Device ι => m.board.pins.isWatched e) (fun deed => deed.action.switch? e)
    (fun _ _ _ => trivial) (fun m action _ => isWatched_perform h m action) (m := m) trivial actions
  have hlog : (m.performAll actions).1.filterMap (fun deed => deed.action.switch? e) =
      actions.filterMap (Action.switch? e) := by
    calc
      (m.performAll actions).1.filterMap (fun deed => deed.action.switch? e)
        = ((m.performAll actions).1.map Deed.action).filterMap (Action.switch? e) := by
          rw [List.filterMap_map]
          rfl
      _ = actions.filterMap (Action.switch? e) := by rw [map_action_performAll]
  rw [hview, hlog, lastSwitch?]

/-- A pin out of range can be neither switched on nor off. -/
theorem perform_watch_of_le (m : Device ι) (h : ¬ e.pin < pinLimit) :
    m.perform (.watch e) = (.done (.error .pinOutOfRange), m) ∧
      m.perform (.unwatch e) = (.done (.error .pinOutOfRange), m) := by
  obtain ⟨hwatch, hunwatch⟩ := m.board.pins.watch_of_le h
  simp only [perform, hwatch, hunwatch, withPins_pins, and_self]

/-- A report of an edge that is not watched is refused and changes nothing. -/
theorem perform_report_of_not_isWatched {m : Device ι} (h : m.board.pins.isWatched e = false) :
    m.perform (.report e) = (.stored false, m) := by
  simp only [perform, PinWatch.post_of_not_isWatched h, withPins_pins]

end Device

/-! ## Independence -/

/--
On a device without watched edges at the start, at every point of every run, for every pin
and edge: the edge is watched exactly if its pin is in range and the last call about just
this edge switched it on, whatever else was called, reported or read.  A call about a pin
out of range is refused and changes nothing, and a call about one edge leaves every other
one as it is.  A report of an edge that is not watched is refused and changes nothing.  No
operation on the mask shifts the bits of an edge beyond the word.
-/
theorem watched_edges_are_independent {ι : Type} [DecidableEq ι] (actions : List (Action ι))
    (e : PinEdge) :
    let m := (Device.new.performAll actions).2
    let pins := m.board.pins
    (pins.isWatched e = true ↔ e.pin < pinLimit ∧ lastSwitch? e actions = some true) ∧
      (¬ e.pin < pinLimit →
        m.perform (.watch e) = (.done (.error .pinOutOfRange), m) ∧
          m.perform (.unwatch e) = (.done (.error .pinOutOfRange), m)) ∧
      (∀ e' ≠ e, (pins.watch e').2.isWatched e = pins.isWatched e ∧
        (pins.unwatch e').2.isWatched e = pins.isWatched e) ∧
      (pins.isWatched e = false → m.perform (.report e) = (.stored false, m)) ∧
      pins.ShiftsWithin e := by
  intro m pins
  refine ⟨?_, m.perform_watch_of_le, fun e' hne => ?_, Device.perform_report_of_not_isWatched,
    pins.shiftsWithin e⟩
  · by_cases hrange : e.pin < pinLimit
    · have hstart : (Device.new : Device ι).board.pins.isWatched e = false :=
        PinWatch.isWatched_empty e
      have hlast : pins.isWatched e = (lastSwitch? e actions).getD false := by
        rw [← hstart]
        exact Device.isWatched_performAll hrange Device.new actions
      rw [hlast, Option.getD_eq_iff]
      simp [hrange]
    · simp [pins.isWatched_of_le hrange, hrange]
  · exact ⟨pins.isWatched_watch_of_ne hne, pins.isWatched_unwatch_of_ne hne⟩

/--
Both edges of the last pin and one of the first are switched on, and one of the last off
again.  The pins out of range would have their bits in the places of these, as shifts wrap
around the word, if they were not refused.
-/
def lastPinWatched : List (Action Unit) :=
  [.watch ⟨31, .fall⟩, .watch ⟨31, .rise⟩, .watch ⟨0, .rise⟩, .report ⟨31, .rise⟩,
    .unwatch ⟨31, .rise⟩, .readPins .take, .unwatch ⟨32, .rise⟩, .watch ⟨4294967295, .fall⟩]

/-- The falling edge of the last pin is still watched, and the rising one is refused. -/
theorem last_pin_keeps_its_other_edge :
    let m := (Device.new.performAll lastPinWatched).2
    m.board.pins.isWatched ⟨31, .fall⟩ = true ∧
      m.board.pins.isWatched ⟨31, .rise⟩ = false ∧
      m.perform (.report ⟨31, .rise⟩) = (.stored false, m) ∧
      (m.board.pins.unwatch ⟨31, .rise⟩).2.isWatched ⟨31, .fall⟩ =
        m.board.pins.isWatched ⟨31, .fall⟩ ∧
      m.perform (.watch ⟨32, .fall⟩) = (.done (.error .pinOutOfRange), m) := by
  intro m
  have hfall := watched_edges_are_independent lastPinWatched ⟨31, .fall⟩
  have hrise := watched_edges_are_independent lastPinWatched ⟨31, .rise⟩
  have hbeyond := watched_edges_are_independent lastPinWatched ⟨32, .fall⟩
  have hoff : m.board.pins.isWatched ⟨31, .rise⟩ = false :=
    Bool.eq_false_iff.mpr (mt hrise.1.mp (by decide))
  exact ⟨hfall.1.mpr (by decide), hoff, hrise.2.2.2.1 hoff,
    (hfall.2.2.1 ⟨31, .rise⟩ (by decide)).2, (hbeyond.2.1 (by decide)).1⟩

end DeviceLayer
