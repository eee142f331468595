import DeviceLayer.Proofs.Board.Run
import DeviceLayer.Proofs.Event.Peek

/-!
# The way of the pin edges

An edge that the pin interrupt reports is refused or enters the buffer, and it
leaves the buffer when it is taken: from the pins directly, by a read of its
type or by a scan.  What entered is therefore what left and what is still there,
in the same order.

Main results:

- Theorem {lit}`EdgeBuffer.flow_read` and {lit}`EdgeBuffer.flow_push`: one step of
  the ring.
- Theorem {lit}`Queue.flow_firstHit`: a scan takes an edge only for the event that
  it reports.
- Theorem {lit}`Device.flow_perform`: one action of a device.
- Theorem {lit}`edges_conserved`: a whole run, from a device without edges.
-/

namespace DeviceLayer

/-! ## The ring -/

/-- What a read has taken out, given what it returned. -/
def ReadMode.taken : ReadMode → Option EventValue → List EventValue
  | .peek, _ => []
  | .take, value => value.toList

namespace EdgeBuffer

/-- What was held is what a read took and what it left. -/
theorem flow_read (b : EdgeBuffer) (mode : ReadMode) :
    b.toList = mode.taken (b.read mode).1 ++ (b.read mode).2.toList := by
  cases mode with
  | peek => rw [read_peek_snd, ReadMode.taken, List.nil_append]
  | take =>
      rw [read_fst, toList_read_take, ReadMode.taken]
      cases b.toList with
      | nil => rfl
      | cons first rest => rfl

/-- What is held is what was held and the value if it was stored. -/
theorem flow_push (b : EdgeBuffer) (value : EventValue) :
    (b.push value).2.toList = b.toList ++ if (b.push value).1 then [value] else [] := by
  rw [toList_push, push_fst]
  by_cases hroom : b.size < edgeLimit
  · simp only [hroom, ↓reduceIte, decide_true]
  · simp only [hroom, ↓reduceIte, decide_false, Bool.false_eq_true, List.append_nil]

end EdgeBuffer

/-! ## The pins -/

namespace PinWatch

/-- The answer to a report: the edge is watched, and room is left. -/
theorem post_fst (w : PinWatch) (e : PinEdge) :
    (w.post e).1 = (w.isWatched e && decide (w.buffer.size < edgeLimit)) := by
  unfold post
  cases hwatched : w.isWatched e with
  | false => rfl
  | true =>
      simp only [↓reduceIte, Bool.true_and]
      exact w.buffer.push_fst e.encode

theorem buffer_watch (w : PinWatch) (e : PinEdge) : (w.watch e).2.buffer = w.buffer := by
  unfold watch
  split
  · rfl
  · rfl

theorem buffer_unwatch (w : PinWatch) (e : PinEdge) : (w.unwatch e).2.buffer = w.buffer := by
  unfold unwatch
  split
  · rfl
  · rfl

/-- A refused edge changes nothing. -/
theorem post_snd_of_refused {w : PinWatch} {e : PinEdge} (h : (w.post e).1 = false) :
    (w.post e).2 = w := by
  cases hwatched : w.isWatched e with
  | false => rw [post_of_not_isWatched hwatched]
  | true =>
      have hfull : edgeLimit ≤ w.buffer.size := by
        rw [post_fst, hwatched, Bool.true_and, decide_eq_false_iff_not] at h
        exact Nat.le_of_not_lt h
      simp only [post, hwatched, ↓reduceIte, EdgeBuffer.push_of_full hfull]

theorem flow_post (w : PinWatch) (e : PinEdge) :
    (w.post e).2.buffer.toList =
      w.buffer.toList ++ if (w.post e).1 then [e.encode] else [] := by
  unfold post
  cases hwatched : w.isWatched e with
  | false => simp only [Bool.false_eq_true, ↓reduceIte, List.append_nil]
  | true =>
      simp only [↓reduceIte]
      exact w.buffer.flow_push e.encode

/-- Only edges of pins in range are accepted, and these can be unpacked again. -/
theorem decode_encode_of_accepted {w : PinWatch} {e : PinEdge} (h : (w.post e).1 = true) :
    PinEdge.decode e.encode = e := by
  apply PinEdge.decode_encode
  rw [post_fst, Bool.and_eq_true] at h
  have hrange : e.pin < pinLimit := by
    by_contra hout
    rw [isWatched_of_le w hout] at h
    exact Bool.false_ne_true h.1
  have hlt : e.pin.toNat < 32 := hrange
  simp only [UInt32.size]
  omega

end PinWatch

/-! ## Scans of a board -/

namespace Board

/-- What a read of a type has taken out of the pins, given what it returned. -/
def takenOf (type : EventType) (mode : ReadMode) (value : Option EventValue) : List EventValue :=
  if type = pinEventType then mode.taken value else []

@[simp]
theorem takenOf_none (type : EventType) (mode : ReadMode) : takenOf type mode none = [] := by
  unfold takenOf
  cases mode with
  | peek => exact ite_self []
  | take => exact ite_self []

/-- What a scan has taken out of the pins, given the event that it reported. -/
def takenBy (mode : ReadMode) : Option Event → List EventValue
  | some event => takenOf event.type mode (some event.value)
  | none => []

/-- A read of a type takes an edge only if the type is that of the pins. -/
theorem flow_kind (b : Board) (type : EventType) {source : Source}
    (h : sourceOf? type = some source) (mode : ReadMode) :
    b.pins.buffer.toList =
      takenOf type mode (b.read source mode).1 ++ (b.read source mode).2.pins.buffer.toList := by
  unfold sourceOf? at h
  split at h
  · rename_i htype
    obtain rfl : .pins = source := Option.some.inj h
    rw [takenOf, if_pos htype]
    exact b.pins.buffer.flow_read mode
  · rename_i htype
    rw [takenOf, if_neg htype]
    split at h
    · obtain rfl : .timers = source := Option.some.inj h
      rfl
    · contradiction

theorem flow_sample (b : Board) (wait : Wait) (mode : ReadMode) :
    b.pins.buffer.toList =
      takenOf wait.type mode (Sources.sample b wait mode).1 ++
        (Sources.sample b wait mode).2.pins.buffer.toList := by
  cases hkind : Sources.kindOf b wait.type with
  | some source =>
      rw [Sources.sample_of_kindOf_eq_some hkind]
      exact b.flow_kind wait.type hkind mode
  | none =>
      have hposted : firstPostedType ≤ wait.type := (b.kindOf_eq_none_iff wait.type).mp hkind
      have hne : wait.type ≠ pinEventType := by
        intro htype
        rw [htype] at hposted
        exact absurd hposted (by decide)
      rw [Sources.sample_of_kindOf_eq_none hkind, takenOf, if_neg hne]
      rfl

theorem flow_readType (b : Board) (type : EventType) (mode : ReadMode) :
    b.pins.buffer.toList =
      takenOf type mode (Sources.readType b type mode).1 ++
        (Sources.readType b type mode).2.pins.buffer.toList := by
  unfold Sources.readType
  split
  · rename_i source hkind
    exact b.flow_kind type hkind mode
  · rw [takenOf_none]
    rfl

end Board

namespace Queue

/-- A scan takes an edge only for the wait that it stops at. -/
theorem flow_firstHit (l : WaitList) (mode : ReadMode) (b : Board) (before : Option Slot)
    (slots : List Slot) :
    let result := firstHit l mode b before slots
    b.pins.buffer.toList =
      Board.takenBy mode (result.1.map fun hit => (l.wait hit.slot).toEvent hit.value) ++
        result.2.pins.buffer.toList := by
  induction slots generalizing b before with
  | nil => rfl
  | cons first rest ih =>
      have hflow := b.flow_sample (l.wait first) mode
      rcases hsample : Sources.sample b (l.wait first) mode with ⟨value?, b'⟩
      rw [hsample] at hflow
      cases value? with
      | some value =>
          simp only [firstHit, hsample]
          exact hflow
      | none =>
          simp only [firstHit, hsample]
          rw [hflow, Board.takenOf_none, List.nil_append]
          exact ih b' (some first)

theorem flow_scan (q : Queue Board) (mode : ReadMode) :
    q.sources.pins.buffer.toList =
      Board.takenBy mode (q.scan mode).1 ++ (q.scan mode).2.sources.pins.buffer.toList := by
  have hflow := flow_firstHit q.waits mode q.sources none q.waits.live
  unfold scan
  split
  · rename_i hhit
    rw [hhit] at hflow
    exact hflow
  · rename_i hhit
    rw [hhit] at hflow
    exact hflow

end Queue

/-- The edges that a call of a queue has taken. -/
def Entry.takenEdges : Entry → List EventValue
  | ⟨.scan mode, .event event⟩ => Board.takenBy mode event
  | ⟨.readType type mode, .value value⟩ => Board.takenOf type mode value
  | _ => []

theorem Entry.takenEdges_of_not_samples {call : Call} (h : call.samples = false)
    (answer : Answer) : Entry.takenEdges ⟨call, answer⟩ = [] := by
  cases call with
  | scan mode => simp [Call.samples] at h
  | readType type mode => simp [Call.samples] at h
  | _ => rfl

theorem Queue.flow_perform (q : Queue Board) (call : Call) :
    q.sources.pins.buffer.toList =
      Entry.takenEdges ⟨call, (q.perform call).1⟩ ++
        (q.perform call).2.sources.pins.buffer.toList := by
  cases hsamples : call.samples with
  | false => rw [Entry.takenEdges_of_not_samples hsamples, q.sources_perform hsamples]; rfl
  | true =>
      cases call with
      | scan mode => exact q.flow_scan mode
      | readType type mode => exact q.sources.flow_readType type mode
      | _ => simp [Call.samples] at hsamples

/-! ## Actions of a device -/

namespace Deed

variable {ι : Type}

/-- The edge that a report got into the buffer. -/
def acceptedEdges : Deed ι → List PinEdge
  | ⟨.report e, .stored true⟩ => [e]
  | _ => []

/-- The edges that were taken, as the values they were packed into. -/
def takenEdges : Deed ι → List EventValue
  | ⟨.call call, .answer answer⟩ => Entry.takenEdges ⟨call, answer⟩
  | ⟨.readPins mode, .value value⟩ => mode.taken value
  | _ => []

end Deed

/-- Whether an action only looks. -/
def Action.isPeek {ι : Type} : Action ι → Bool
  | .call (.scan mode) | .call (.readType _ mode) | .readPins mode | .readTimers mode =>
    mode == .peek
  | _ => false

namespace Device

variable {ι : Type} [DecidableEq ι]

/-- The values in the edge buffer, oldest first. -/
def edges (m : Device ι) : List EventValue :=
  m.board.pins.buffer.toList

/-- A report is accepted exactly if the edge is watched and room is left. -/
theorem perform_report_fst (m : Device ι) (e : PinEdge) :
    (m.perform (.report e)).1 =
      .stored (m.board.pins.isWatched e && decide (m.edges.length < edgeLimit)) := by
  simp only [perform, PinWatch.post_fst, edges, EdgeBuffer.length_toList]

theorem perform_report_snd_of_refused {m : Device ι} {e : PinEdge}
    (h : (m.perform (.report e)).1 = .stored false) : (m.perform (.report e)).2 = m := by
  have hrefused : (m.board.pins.post e).1 = false := Reply.stored.inj h
  simp only [perform, PinWatch.post_snd_of_refused hrefused, withPins_pins]

theorem perform_peek_snd (m : Device ι) {action : Action ι} (h : action.isPeek = true) :
    (m.perform action).2 = m := by
  cases action with
  | call call =>
      have hqueue : (m.queue.perform call).2 = m.queue := by
        cases call with
        | scan mode =>
            obtain rfl : mode = .peek := eq_of_beq h
            exact m.queue.scan_peek_snd
        | readType type mode =>
            obtain rfl : mode = .peek := eq_of_beq h
            exact m.queue.readType_peek_snd type
        | _ => contradiction
      simp only [perform, hqueue]
  | readPins mode =>
      obtain rfl : mode = .peek := eq_of_beq h
      simp only [perform, PinWatch.read_peek_snd, withPins_pins]
  | readTimers mode =>
      obtain rfl : mode = .peek := eq_of_beq h
      simp only [perform, TimerStatus.read_peek_snd, withTimers_timers]
  | _ => contradiction

/-- What one action accepts enters behind the edges, and what it takes leaves in front. -/
theorem flow_perform (m : Device ι) (action : Action ι) :
    let deed : Deed ι := ⟨action, (m.perform action).1⟩
    m.edges ++ deed.acceptedEdges.map PinEdge.encode =
      deed.takenEdges ++ (m.perform action).2.edges := by
  cases action with
  | call call =>
      simp only [Deed.acceptedEdges, List.map_nil, List.append_nil]
      exact m.queue.flow_perform call
  | report e =>
      have hflow := m.board.pins.flow_post e
      simp only [perform, edges, board_withPins, Deed.takenEdges, List.nil_append, hflow]
      cases (m.board.pins.post e).1 with
      | false => rfl
      | true => rfl
  | readPins mode =>
      simp only [Deed.acceptedEdges, List.map_nil, List.append_nil]
      exact m.board.pins.buffer.flow_read mode
  | watch e =>
      simp only [Deed.acceptedEdges, Deed.takenEdges, List.map_nil, List.append_nil,
        List.nil_append, edges, perform, board_withPins, PinWatch.buffer_watch]
  | unwatch e =>
      simp only [Deed.acceptedEdges, Deed.takenEdges, List.map_nil, List.append_nil,
        List.nil_append, edges, perform, board_withPins, PinWatch.buffer_unwatch]
  | _ =>
      simp only [Deed.acceptedEdges, Deed.takenEdges, List.map_nil, List.append_nil,
        List.nil_append, edges, perform, board_withTimers, board_settle]

/-- An edge that was accepted can be unpacked again. -/
theorem decode_encode_of_mem (m : Device ι) (action : Action ι) :
    ∀ e ∈ Deed.acceptedEdges ⟨action, (m.perform action).1⟩,
      PinEdge.decode e.encode = e := by
  cases action with
  | report e =>
      intro e' he'
      cases hpost : (m.board.pins.post e).1 with
      | false => simp [perform, hpost, Deed.acceptedEdges] at he'
      | true =>
          obtain rfl : e' = e := by simpa [perform, hpost, Deed.acceptedEdges] using he'
          exact PinWatch.decode_encode_of_accepted hpost
  | _ => simp [Deed.acceptedEdges]

/-- What a run accepts enters behind the edges, and what it takes leaves in front. -/
theorem flow_performAll (m : Device ι) (actions : List (Action ι)) :
    m.edges ++ ((m.performAll actions).1.flatMap Deed.acceptedEdges).map PinEdge.encode =
      (m.performAll actions).1.flatMap Deed.takenEdges ++ (m.performAll actions).2.edges := by
  induction actions generalizing m with
  | nil => simp
  | cons action rest ih =>
      have hstep := m.flow_perform action
      simp only [performAll_cons, List.flatMap_cons, List.map_append]
      rw [← List.append_assoc, hstep, List.append_assoc, ih, List.append_assoc]

/-- Unpacking undoes packing for every edge that a run accepts. -/
theorem map_decode_encode (m : Device ι) (actions : List (Action ι)) :
    (((m.performAll actions).1.flatMap Deed.acceptedEdges).map PinEdge.encode).map
      PinEdge.decode = (m.performAll actions).1.flatMap Deed.acceptedEdges := by
  induction actions generalizing m with
  | nil => rfl
  | cons action rest ih =>
      simp only [performAll_cons, List.flatMap_cons, List.map_append, ih]
      congr 1
      rw [List.map_map]
      calc
        (Deed.acceptedEdges ⟨action, (m.perform action).1⟩).map (PinEdge.decode ∘ PinEdge.encode)
          = (Deed.acceptedEdges ⟨action, (m.perform action).1⟩).map id :=
            List.map_congr_left (m.decode_encode_of_mem action)
        _ = Deed.acceptedEdges ⟨action, (m.perform action).1⟩ := List.map_id _

end Device

/-! ## Conservation -/

/--
On a device without edges at the start, at every point of every run: the edges
accepted so far are those taken so far and those still buffered, in order.  A
report is accepted exactly if its edge is watched and the buffer has room.  A
refused report and an action that only looks change nothing, and neither leaving
an edge nor cancelling a wait nor a reset touches the buffer.
-/
theorem edges_conserved {ι : Type} [DecidableEq ι] (actions : List (Action ι)) :
    let log := (Device.new.performAll actions).1
    let m := (Device.new.performAll actions).2
    log.flatMap Deed.acceptedEdges =
        (log.flatMap Deed.takenEdges).map PinEdge.decode ++ m.edges.map PinEdge.decode ∧
      (∀ e, (m.perform (.report e)).1 =
          .stored (m.board.pins.isWatched e && decide (m.edges.length < edgeLimit)) ∧
        ((m.perform (.report e)).1 = .stored false → (m.perform (.report e)).2 = m)) ∧
      (∀ action, action.isPeek = true → (m.perform action).2 = m) ∧
      (∀ e, (m.perform (.unwatch e)).2.edges = m.edges) ∧
      (∀ number type, (m.perform (.call (.cancel number type))).2.edges = m.edges) ∧
      (m.perform (.call .reset)).2.edges = m.edges := by
  intro log m
  refine ⟨?_, ?_, ?_, ?_, ?_, rfl⟩
  · have hflow : (log.flatMap Deed.acceptedEdges).map PinEdge.encode =
        log.flatMap Deed.takenEdges ++ m.edges := Device.new.flow_performAll actions
    rw [← Device.map_decode_encode, hflow, List.map_append]
  · intro e
    exact ⟨m.perform_report_fst e, Device.perform_report_snd_of_refused⟩
  · intro action hpeek
    exact m.perform_peek_snd hpeek
  · intro e
    exact congrArg EdgeBuffer.toList (m.board.pins.buffer_unwatch e)
  · intro number type
    exact congrArg (fun b : Board => b.pins.buffer.toList) (m.queue.sources_cancel number type)

/-- Four edges fill the ring; two are taken, and two more stand around its end. -/
def wrappedRing : List (Action Unit) :=
  let rise : PinEdge := ⟨5, .rise⟩
  let fall : PinEdge := ⟨3, .fall⟩
  [.watch rise, .watch fall, .report rise, .report fall, .report rise, .report rise,
    .readPins .take, .readPins .take, .report fall, .report fall]

/--
The last edge of the run is accepted, and all accepted edges have been taken or are still
held, in order.  Then the full ring refuses one more edge, and looking at it changes
nothing.
-/
theorem wrapped_ring_refuses :
    let before := (Device.new.performAll (wrappedRing.take 9)).2
    let log := (Device.new.performAll wrappedRing).1
    let m := (Device.new.performAll wrappedRing).2
    (before.perform (.report ⟨3, .fall⟩)).1 = .stored true ∧
      (log.flatMap Deed.takenEdges).map PinEdge.decode = [⟨5, .rise⟩, ⟨3, .fall⟩] ∧
      m.edges.map PinEdge.decode = [⟨5, .rise⟩, ⟨5, .rise⟩, ⟨3, .fall⟩, ⟨3, .fall⟩] ∧
      log.flatMap Deed.acceptedEdges =
        [⟨5, .rise⟩, ⟨3, .fall⟩, ⟨5, .rise⟩, ⟨5, .rise⟩, ⟨3, .fall⟩, ⟨3, .fall⟩] ∧
      (m.perform (.report ⟨5, .rise⟩)).1 = .stored false ∧
      (m.perform (.report ⟨5, .rise⟩)).2 = m ∧
      Action.isPeek (.readPins .peek : Action Unit) = true ∧
      (m.perform (.readPins .peek)).2 = m := by
  intro before log m
  have hbefore := edges_conserved (wrappedRing.take 9)
  have hrun := edges_conserved wrappedRing
  have hroom : (before.board.pins.isWatched ⟨3, .fall⟩ &&
      decide (before.edges.length < edgeLimit)) = true := by decide
  have hfull : (m.board.pins.isWatched ⟨5, .rise⟩ &&
      decide (m.edges.length < edgeLimit)) = false := by decide
  have htaken : (log.flatMap Deed.takenEdges).map PinEdge.decode = [⟨5, .rise⟩, ⟨3, .fall⟩] := by
    decide
  have hheld : m.edges.map PinEdge.decode =
      [⟨5, .rise⟩, ⟨5, .rise⟩, ⟨3, .fall⟩, ⟨3, .fall⟩] := by decide
  have hrefused : (m.perform (.report ⟨5, .rise⟩)).1 = .stored false :=
    (hrun.2.1 _).1.trans (congrArg Reply.stored hfull)
  refine ⟨(hbefore.2.1 _).1.trans (congrArg Reply.stored hroom), htaken, hheld, ?_, hrefused,
    (hrun.2.1 _).2 hrefused, rfl, hrun.2.2.1 (.readPins .peek) rfl⟩
  exact hrun.1.trans (congrArg₂ (· ++ ·) htaken hheld)

end DeviceLayer
