import DeviceLayer.Board
import DeviceLayer.Event.Channels
import DeviceLayer.Proofs.Event.Run

/-!
# Looking without taking

Sources can be peeked at if a peek leaves them as they are and a take returns
what a peek shows, and changes them only if it returns something.  Over such
sources a scan in peek mode changes nothing at all, and it shows the event that a
scan in take mode would return.

Main results:

- Theorem {lit}`Queue.scan_peek_snd`: a scan that peeks leaves the queue as it is.
- Theorem {lit}`Queue.scan_take_fst`: a scan that takes reports what a scan that
  peeks reports.
- Theorem {lit}`Queue.sources_perform`: only scans and direct reads touch the
  sources.
- Theorem {lit}`Queue.view_perform`: what no read changes, no call changes.
- Theorem {lit}`peeks_foretell_take`: polls that peek, however many, change nothing
  and report what the next poll takes.
-/

namespace DeviceLayer

/-- Sources that can be looked at without taking anything. -/
class Sources.Peekable (S : Type) {κ : outParam Type} [Sources S κ] : Prop where
  read_peek_snd : ∀ (s : S) (kind : κ), (read s kind .peek).2 = s
  read_take_fst : ∀ (s : S) (kind : κ), (read s kind .take).1 = (read s kind .peek).1
  read_take_snd : ∀ (s : S) (kind : κ), (read s kind .take).1 = none → (read s kind .take).2 = s

instance : Sources.Peekable PostedOnly where
  read_peek_snd _ _ := rfl
  read_take_fst _ _ := rfl
  read_take_snd _ _ _ := rfl

instance : Sources.Peekable Channels where
  read_peek_snd _ _ := rfl
  read_take_fst c index := by
    change (c.read index .take).1 = (c.read index .peek).1
    rw [Channels.read_fst, Channels.read_fst]
  read_take_snd _ _ h := Channels.read_take_snd_of_none h

instance : Sources.Peekable Board where
  read_peek_snd b kind := by
    cases kind with
    | pins =>
        change { b with pins := (b.pins.read .peek).2 } = b
        rw [PinWatch.read_peek_snd]
    | timers => rfl
  read_take_fst b kind := by
    cases kind with
    | pins =>
        change (b.pins.buffer.read .take).1 = (b.pins.buffer.read .peek).1
        rw [EdgeBuffer.read_fst, EdgeBuffer.read_fst]
    | timers => rfl
  read_take_snd b kind h := by
    cases kind with
    | pins =>
        have hnone : (b.pins.buffer.read .take).1 = none := h
        change { b with pins := { b.pins with buffer := (b.pins.buffer.read .take).2 } } = b
        rw [EdgeBuffer.read_snd_of_none hnone]
    | timers =>
        have hempty := (b.timers.read_fst_eq_none_iff .take).mp h
        change { b with timers := .empty } = b
        rw [← hempty]

variable {S κ : Type} [Sources S κ]

namespace Queue

/-- A scan reports the wait that it stops at with the value found there. -/
theorem scan_fst_eq_map (q : Queue S) (mode : ReadMode) :
    (q.scan mode).1 = (firstHit q.waits mode q.sources none q.waits.live).1.map fun hit =>
      (q.waits.wait hit.slot).toEvent hit.value := by
  unfold scan
  split
  · rename_i hhit
    rw [hhit]
    rfl
  · rename_i hhit
    rw [hhit]
    rfl

/-! ## What reads leave alone -/

section View

variable {β : Type} (view : S → β) {mode : ReadMode}

/-- A view of the sources that no read changes is not changed by looking at a wait. -/
theorem view_sample (hread : ∀ (s : S) (kind : κ), view (Sources.read s kind mode).2 = view s)
    (s : S) (wait : Wait) : view (Sources.sample s wait mode).2 = view s := by
  unfold Sources.sample
  split
  · exact hread s _
  · rfl

theorem view_firstHit (hread : ∀ (s : S) (kind : κ), view (Sources.read s kind mode).2 = view s)
    (l : WaitList) (s : S) (before : Option Slot) (slots : List Slot) :
    view (firstHit l mode s before slots).2 = view s := by
  induction slots generalizing s before with
  | nil => rfl
  | cons first rest ih =>
      have hsample := view_sample view hread s (l.wait first)
      rcases hresult : Sources.sample s (l.wait first) mode with ⟨value?, s'⟩
      rw [hresult] at hsample
      cases value? with
      | some value =>
          simp only [firstHit, hresult]
          exact hsample
      | none =>
          simp only [firstHit, hresult]
          exact (ih s' (some first)).trans hsample

theorem view_scan (hread : ∀ (s : S) (kind : κ), view (Sources.read s kind mode).2 = view s)
    (q : Queue S) : view (q.scan mode).2.sources = view q.sources := by
  have hsnd := view_firstHit view hread q.waits q.sources none q.waits.live
  unfold scan
  split
  · rename_i hhit
    rwa [hhit] at hsnd
  · rename_i hhit
    rwa [hhit] at hsnd

theorem view_readType (hread : ∀ (s : S) (kind : κ), view (Sources.read s kind mode).2 = view s)
    (q : Queue S) (type : EventType) : view (q.readType type mode).2.sources = view q.sources := by
  change view (Sources.readType q.sources type mode).2 = view q.sources
  unfold Sources.readType
  split
  · exact hread q.sources _
  · rfl

end View

section Peek

variable [Sources.Peekable S]

theorem sample_peek_snd (s : S) (wait : Wait) : (Sources.sample s wait .peek).2 = s :=
  view_sample id Sources.Peekable.read_peek_snd s wait

/-- A scan that peeks leaves the queue as it is. -/
theorem scan_peek_snd (q : Queue S) : (q.scan .peek).2 = q := by
  have hwaits := q.scan_peek_waits
  have hsources : (q.scan .peek).2.sources = q.sources :=
    view_scan id Sources.Peekable.read_peek_snd q
  calc
    (q.scan .peek).2 = ⟨(q.scan .peek).2.waits, (q.scan .peek).2.sources⟩ := rfl
    _ = q := by rw [hwaits, hsources]

theorem sample_take_fst (s : S) (wait : Wait) :
    (Sources.sample s wait .take).1 = (Sources.sample s wait .peek).1 := by
  unfold Sources.sample
  split
  · exact Sources.Peekable.read_take_fst s _
  · rfl

theorem sample_take_snd (s : S) (wait : Wait)
    (h : (Sources.sample s wait .take).1 = none) :
    (Sources.sample s wait .take).2 = s := by
  unfold Sources.sample at h ⊢
  split
  · rename_i kind hkind
    simp only [hkind] at h
    exact Sources.Peekable.read_take_snd s kind h
  · rfl

/-- Taking stops at the wait that peeking stops at, and finds the same value. -/
theorem firstHit_take_fst (l : WaitList) (s : S) (before : Option Slot) (slots : List Slot) :
    (firstHit l .take s before slots).1 = (firstHit l .peek s before slots).1 := by
  induction slots generalizing before with
  | nil => rfl
  | cons first rest ih =>
      have hvalue := sample_take_fst s (l.wait first)
      have hpeek := sample_peek_snd s (l.wait first)
      have htake := sample_take_snd s (l.wait first)
      rcases hlook : Sources.sample s (l.wait first) .peek with ⟨value?, s₁⟩
      rcases hget : Sources.sample s (l.wait first) .take with ⟨value?', s₂⟩
      rw [hlook, hget] at hvalue
      rw [hlook] at hpeek
      rw [hget] at htake
      obtain rfl : value?' = value? := hvalue
      obtain rfl : s₁ = s := hpeek
      cases value?' with
      | some value => simp only [firstHit, hlook, hget]
      | none =>
          -- a source that has nothing to take is the source that was looked at
          obtain rfl : s₂ = s₁ := htake rfl
          simp only [firstHit, hlook, hget]
          exact ih (some first)

/-- A scan that takes reports what a scan that peeks reports. -/
theorem scan_take_fst (q : Queue S) : (q.scan .take).1 = (q.scan .peek).1 := by
  rw [scan_fst_eq_map, scan_fst_eq_map, firstHit_take_fst]

theorem readType_peek_snd (q : Queue S) (type : EventType) : (q.readType type .peek).2 = q := by
  have hsources : (q.readType type .peek).2.sources = q.sources :=
    view_readType id Sources.Peekable.read_peek_snd q type
  calc
    (q.readType type .peek).2 = ⟨q.waits, (q.readType type .peek).2.sources⟩ := rfl
    _ = q := by rw [hsources]

end Peek

/-! ## What touches the sources -/

theorem sources_append (q : Queue S) (number : EventNumber) (type : EventType) :
    (q.append number type).2.sources = q.sources := by
  unfold append
  split
  · rfl
  · rfl

theorem sources_register (q : Queue S) (type : EventType) :
    (q.register type).2.sources = q.sources := by
  have happend := q.sources_append q.waits.nextNumber type
  simp only [register, inInterrupt, Bool.false_eq_true, ↓reduceIte]
  split
  · rename_i hresult
    rw [hresult] at happend
    exact happend
  · rename_i hresult
    rw [hresult] at happend
    exact happend

theorem sources_registerFor (q : Queue S) (requestor : UInt32) (type : EventType) :
    (q.registerFor requestor type).2.sources = q.sources := by
  simp only [registerFor, inInterrupt, Bool.false_eq_true, ↓reduceIte]
  split
  · rfl
  · split
    · rfl
    · exact q.sources_append _ type

theorem sources_cancel (q : Queue S) (number : EventNumber) (type : EventType) :
    (q.cancel number type).2.sources = q.sources := by
  unfold cancel
  split
  · rfl
  · rfl

theorem sources_post (q : Queue S) (recipient : Recipient) (type : EventType)
    (value : EventValue) : (q.post recipient type value).sources = q.sources := by
  unfold post
  split
  · rfl
  · rfl

end Queue

/-- Whether a call reads sources. -/
def Call.samples : Call → Bool
  | .scan _ | .readType _ _ => true
  | _ => false

/-- Only scans and direct reads touch the sources. -/
theorem Queue.sources_perform (q : Queue S) {call : Call} (h : call.samples = false) :
    (q.perform call).2.sources = q.sources := by
  cases call with
  | register type => exact q.sources_register type
  | registerFor requestor type => exact q.sources_registerFor requestor type
  | post recipient type value => exact q.sources_post recipient type value
  | cancel number type => exact q.sources_cancel number type
  | scan mode => simp [Call.samples] at h
  | readType type mode => simp [Call.samples] at h
  | reset => rfl
  | renumber number => rfl

/-- A view of the sources that no read changes is not changed by any call. -/
theorem Queue.view_perform {β : Type} (view : S → β)
    (hread : ∀ (s : S) (kind : κ) (mode : ReadMode), view (Sources.read s kind mode).2 = view s)
    (q : Queue S) (call : Call) : view (q.perform call).2.sources = view q.sources := by
  cases hsamples : call.samples with
  | false => rw [q.sources_perform hsamples]
  | true =>
      cases call with
      | scan mode => exact view_scan view (fun s kind => hread s kind mode) q
      | readType type mode => exact view_readType view (fun s kind => hread s kind mode) q type
      | _ => contradiction

/-! ## Polls that peek -/

section Peek

variable [Sources.Peekable S]

/-- A scan that peeks leaves a trace in the log and nowhere else. -/
theorem Recorded.perform_peek (r : Recorded S) :
    r.perform (.call (.scan .peek)) =
      { r with log := r.log ++ [⟨.scan .peek, .event (r.queue.scan .peek).1⟩] } := by
  simp only [perform, Queue.perform, Queue.scan_peek_snd]

/-- Any number of polls that peek report one and the same event. -/
theorem Command.runAll_peeks (k : Nat) (r : Recorded S) :
    runAll (List.replicate k (.poll .peek [])) r =
      { r with
        log := r.log ++ List.replicate k ⟨.scan .peek, .event (r.queue.scan .peek).1⟩ } := by
  induction k generalizing r with
  | zero => simp [runAll]
  | succ k ih =>
      rw [List.replicate_succ, runAll, run_poll, runAll, Recorded.perform_peek, ih,
        List.replicate_succ, List.append_assoc, List.singleton_append]

/--
At every moment of every run, over sources that can be peeked at and without a
hook: polls that peek, however many of them, leave the queue and its sources as
they are and all report the same, and a poll that takes reports it once more.
-/
theorem peeks_foretell_take (sources : S) (commands : List (Command S)) (n k : Nat) :
    let r := moment sources commands n
    let event := (poll id r.queue .peek).1
    let r' := Command.runAll (List.replicate k (.poll .peek [])) r
    r'.queue = r.queue ∧
      r'.log = r.log ++ List.replicate k ⟨.scan .peek, .event event⟩ ∧
      (poll id r'.queue .take).1 = event ∧
      (Command.run (.poll .take []) r').log = r'.log ++ [⟨.scan .take, .event event⟩] := by
  intro r event r'
  have hpeeks : r' = { r with log := r.log ++ List.replicate k ⟨.scan .peek, .event event⟩ } :=
    Command.runAll_peeks k r
  have hqueue : r'.queue = r.queue := by rw [hpeeks]
  have htake : (r'.queue.scan .take).1 = event := by
    rw [hqueue, Queue.scan_take_fst]
    rfl
  refine ⟨hqueue, by rw [hpeeks], htake, ?_⟩
  rw [Command.run_poll, Command.runAll]
  simp only [Recorded.perform, Queue.perform, htake]

end Peek

/-- The pins have nothing, the word has its first and its last bit, and a post came last. -/
def waitsOfEveryKind : List (Command Board) :=
  [.operation (.call (.register Board.pinEventType)),
    .operation (.call (.register Board.timerEventType)),
    .operation (.call (.register 7)),
    .operation (.change fun b => { b with timers := b.timers.raise 2147483649 }),
    .operation (.call (.post everyone 7 5))]

/-- Three polls show the timer word and leave it, and the next one takes it. -/
theorem peeks_foretell_timer_word :
    let r := moment Board.empty waitsOfEveryKind 5
    let r' := Command.runAll (List.replicate 3 (.poll .peek [])) r
    (poll id r.queue .peek).1 = some ⟨2, Board.timerEventType, -2147483647⟩ ∧
      r'.queue = r.queue ∧ r'.queue.sources.timers.word = 2147483649 ∧
      (poll id r'.queue .take).1 = some ⟨2, Board.timerEventType, -2147483647⟩ := by
  intro r r'
  have hpeek : (poll id r.queue .peek).1 = some ⟨2, Board.timerEventType, -2147483647⟩ := by decide
  have hword : r.queue.sources.timers.word = 2147483649 := by decide
  rcases peeks_foretell_take Board.empty waitsOfEveryKind 5 3 with ⟨hqueue, -, htake, -⟩
  exact ⟨hpeek, hqueue, hqueue ▸ hword, htake.trans hpeek⟩

end DeviceLayer
