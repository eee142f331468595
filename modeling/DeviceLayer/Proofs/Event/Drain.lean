import DeviceLayer.Proofs.Event.Delivery
import DeviceLayer.Proofs.Event.Oldest

/-!
# Draining a queue

Polls that take, with nothing in between, empty a queue of all that is ready.  Each
of them starts anew at the oldest wait, while earlier ones have taken waits out and
values away.  Still they come to one pass over the waits: each wait in its turn
draws a value from its source, and a wait that once went without goes without for
good.

Main results:

- Theorem {lit}`Roster.draw_scanFrom`: a scan reports the first event of the pass
  and leaves the rest of it to be done.
- Theorem {lit}`Roster.filter_events_draw`: the waits of a source are paired in order
  with the values that it holds.
- Theorem {lit}`Recorded.drainsTo_draw`: polls that take report the events of the pass
  and then nothing.
- Theorem {lit}`draining_serves_in_order`: what draining comes to without sources and
  on a board.
-/

namespace DeviceLayer

/-- The number and the type of the wait that an event reports. -/
def Event.key (event : Event) : WaitKey :=
  (event.number, event.type)

@[simp]
theorem key_toEvent (wait : Wait) (value : EventValue) : (wait.toEvent value).key = wait.key :=
  rfl

@[simp]
theorem type_toEvent (wait : Wait) (value : EventValue) : (wait.toEvent value).type = wait.type :=
  rfl

/-! ## Sources that hand out what they hold -/

/--
Sources that can be peeked at and hold a list of values for each kind.  They show
its first value, and taking removes that value alone.
-/
class Sources.Supplied (S : Type) {κ : outParam Type} [Sources S κ] extends
    Sources.Peekable S, Sources.Static S where
  supply : S → κ → List EventValue
  read_peek_fst : ∀ s kind, (read s kind .peek).1 = (supply s kind).head?
  supply_read_self : ∀ s kind, supply (read s kind .take).2 kind = (supply s kind).tail
  supply_read_of_ne : ∀ s {kind other}, other ≠ kind →
    supply (read s kind .take).2 other = supply s other

instance : Sources.Supplied PostedOnly where
  supply _ _ := []
  read_peek_fst _ _ := rfl
  supply_read_self _ _ := rfl
  supply_read_of_ne _ _ _ _ := rfl

/-- The buffered edges, or the status word if a bit is raised. -/
def Board.supply (b : Board) : Board.Source → List EventValue
  | .pins => b.pins.buffer.toList
  | .timers => if b.timers.word = 0 then [] else [b.timers.word.toInt32]

instance : Sources.Supplied Board where
  supply := Board.supply
  read_peek_fst b kind := by
    cases kind with
    | pins => exact b.pins.buffer.read_fst .peek
    | timers =>
        change (b.timers.read .peek).1 = _
        simp only [TimerStatus.read, Board.supply]
        split <;> rfl
  supply_read_self b kind := by
    cases kind with
    | pins => exact b.pins.buffer.toList_read_take
    | timers =>
        change [] = (b.supply .timers).tail
        simp only [Board.supply]
        split <;> rfl
  supply_read_of_ne b kind other hne := by
    cases kind <;> cases other
    case pins.pins => contradiction
    case timers.timers => contradiction
    all_goals rfl

variable {S κ : Type} [Sources S κ]

namespace Sources

variable {s : S} {wait : Wait} {type : EventType} {kind : κ}

variable [Supplied S]

theorem supply_readType_of_eq (h : kindOf s type = some kind) :
    Supplied.supply (readType s type .take).2 kind = (Supplied.supply s kind).tail := by
  simp only [readType, h]
  exact Supplied.supply_read_self s kind

theorem supply_readType_of_ne (h : kindOf s type ≠ some kind) :
    Supplied.supply (readType s type .take).2 kind = Supplied.supply s kind := by
  unfold readType
  split
  · rename_i other hother
    refine Supplied.supply_read_of_ne s ?_
    rintro rfl
    exact h hother
  · rfl

theorem offer?_of_sampled (h : kindOf s wait.type = some kind) :
    offer? s wait = (Supplied.supply s kind).head? := by
  simp only [offer?, h]
  exact Supplied.read_peek_fst s kind

/-- A wait that goes without cannot be satisfied by what another one takes away. -/
theorem offer?_readType_of_none (h : offer? s wait = none) (type : EventType) :
    offer? (readType s type .take).2 wait = none := by
  have hkeep : kindOf (readType s type .take).2 wait.type = kindOf s wait.type :=
    Static.kindOf_eq ..
  cases hkind : kindOf s wait.type with
  | none =>
      rw [offer?_eq_none_iff_of_posted hkind] at h
      rwa [offer?_eq_none_iff_of_posted (hkeep.trans hkind)]
  | some kind =>
      rw [offer?_of_sampled hkind, List.head?_eq_none_iff] at h
      rw [offer?_of_sampled (hkeep.trans hkind), List.head?_eq_none_iff]
      by_cases heq : kindOf s type = some kind
      · rw [supply_readType_of_eq heq, h, List.tail_nil]
      · rw [supply_readType_of_ne heq, h]

end Sources

namespace Roster

open Sources

/-! ## One pass over the waits -/

/-- What a pass over the waits comes to. -/
structure Draw (S : Type) where
  /-- The events of the waits that were served. -/
  events : List Event
  /-- The waits that went without. -/
  left : List Wait
  sources : S

/-- Each wait in its turn takes the value that satisfies it, if there is one. -/
def draw (sources : S) : List Wait → Draw S
  | [] => ⟨[], [], sources⟩
  | wait :: rest =>
    match observe .take sources wait with
    | (some value, sources') =>
      let d := draw sources' rest
      { d with events := wait.toEvent value :: d.events }
    | (none, sources') =>
      let d := draw sources' rest
      { d with left := wait :: d.left }

section Peekable

variable [Peekable S] {sources : S} {wait : Wait}

theorem draw_cons_of_none (h : offer? sources wait = none) (rest : List Wait) :
    draw sources (wait :: rest) =
      { draw sources rest with left := wait :: (draw sources rest).left } := by
  simp only [draw, observe_take_of_none h]

theorem draw_cons_of_some {value : EventValue} (h : offer? sources wait = some value)
    (rest : List Wait) :
    draw sources (wait :: rest) =
      { draw (Sources.readType sources wait.type .take).2 rest with
        events := wait.toEvent value ::
          (draw (Sources.readType sources wait.type .take).2 rest).events } := by
  simp only [draw, observe_take_of_some h]

theorem draw_append_of_none {older : List Wait} (h : ∀ wait ∈ older, offer? sources wait = none)
    (rest : List Wait) :
    draw sources (older ++ rest) =
      { draw sources rest with left := older ++ (draw sources rest).left } := by
  induction older with
  | nil => rfl
  | cons first older ih =>
      rcases List.forall_mem_cons.mp h with ⟨hfirst, hothers⟩
      rw [List.cons_append, draw_cons_of_none hfirst, ih hothers, List.cons_append]

/-- Where nothing satisfies a wait the pass changes nothing. -/
theorem draw_of_none {waits : List Wait} (h : ∀ wait ∈ waits, offer? sources wait = none) :
    draw sources waits = ⟨[], waits, sources⟩ := by
  have hdraw := draw_append_of_none h []
  simpa only [List.append_nil, draw] using hdraw

/-- A pass without an event changes nothing. -/
theorem draw_of_events_eq_nil {waits : List Wait} (h : (draw sources waits).events = []) :
    draw sources waits = ⟨[], waits, sources⟩ := by
  rcases exists_first_offer sources waits with
    hnone | ⟨older, wait, younger, value, rfl, hvain, hwait⟩
  · exact draw_of_none hnone
  · rw [draw_append_of_none hvain, draw_cons_of_some hwait] at h
    contradiction

omit [Peekable S] in
/-- A pass over the waits either leaves the first one or serves it, and goes on. -/
theorem draw_induction {motive : S → List Wait → Prop} (nil : ∀ s, motive s [])
    (left : ∀ s first rest, offer? s first = none → motive s rest → motive s (first :: rest))
    (served : ∀ s first rest value, offer? s first = some value →
      motive (Sources.readType s first.type .take).2 rest → motive s (first :: rest))
    (sources : S) (waits : List Wait) : motive sources waits := by
  induction waits generalizing sources with
  | nil => exact nil sources
  | cons first rest ih =>
      cases hoffer : offer? sources first with
      | none => exact left sources first rest hoffer (ih sources)
      | some value => exact served sources first rest value hoffer (ih _)

end Peekable

variable [Supplied S] {sources : S}

/-- A scan reports the first event of the pass and leaves the rest of it to be done. -/
theorem draw_scanFrom (sources : S) (waits : List Wait) :
    let d := draw sources waits
    let result := scanFrom .take sources waits
    result.1 = d.events.head? ∧
      draw result.2.2 result.2.1 = { d with events := d.events.tail } := by
  intro d result
  rcases exists_first_offer sources waits with
    hnone | ⟨older, wait, younger, value, rfl, hvain, hwait⟩
  · have hdraw : d = ⟨[], waits, sources⟩ := draw_of_none hnone
    have hresult : result = (none, waits, sources) := scanFrom_take_of_none hnone
    rw [hresult, hdraw]
    exact ⟨rfl, hdraw⟩
  · have hdraw : d = _ := draw_append_of_none hvain (wait :: younger)
    have hresult : result = _ := scanFrom_take_of_some hvain hwait younger
    have hvain' : ∀ w ∈ older, offer? (Sources.readType sources wait.type .take).2 w = none :=
      fun w hw => offer?_readType_of_none (hvain w hw) wait.type
    rw [draw_cons_of_some hwait] at hdraw
    rw [hresult, hdraw]
    exact ⟨rfl, draw_append_of_none hvain' younger⟩

/-! ## Who is served, and with what -/

section Values

variable {kind : κ} {p : EventType → Bool}

/-- The waits of a source are paired in order with the values that it holds. -/
theorem filter_events_draw (hp : ∀ (s : S) type, p type = true ↔ kindOf s type = some kind)
    (sources : S) (waits : List Wait) :
    (draw sources waits).events.filter (p ·.type) =
        List.zipWith Wait.toEvent (waits.filter (p ·.type)) (Supplied.supply sources kind) ∧
      Supplied.supply (draw sources waits).sources kind =
        (Supplied.supply sources kind).drop (waits.filter (p ·.type)).length := by
  induction sources, waits using draw_induction with
  | nil s => exact ⟨rfl, rfl⟩
  | left s first rest hoffer ih =>
      rcases ih with ⟨hevents, hsupply⟩
      rw [draw_cons_of_none hoffer, hevents, hsupply]
      by_cases hfirst : p first.type = true
      · -- the source is empty, so it does not matter that one more wait went without
        rw [offer?_of_sampled ((hp s _).mp hfirst), List.head?_eq_none_iff] at hoffer
        simp [hoffer]
      · simp [hfirst]
  | served s first rest value hoffer ih =>
      rcases ih with ⟨hevents, hsupply⟩
      rw [draw_cons_of_some hoffer]
      by_cases hfirst : p first.type = true
      · have hkind := (hp s _).mp hfirst
        rw [offer?_of_sampled hkind] at hoffer
        rcases List.head?_eq_some_iff.mp hoffer with ⟨later, hlater⟩
        rw [supply_readType_of_eq hkind, hlater, List.tail_cons] at hevents hsupply
        simp [hfirst, hlater, hevents, hsupply]
      · have hkind : kindOf s first.type ≠ some kind := fun h => hfirst ((hp s _).mpr h)
        rw [supply_readType_of_ne hkind] at hevents hsupply
        simp [hfirst, hevents, hsupply]

/-- Of the waits of posted types all that are signaled are served, with the value posted. -/
theorem filter_events_draw_of_posted
    (hp : ∀ (s : S) type, p type = true ↔ kindOf s type = none) (sources : S)
    (waits : List Wait) :
    (draw sources waits).events.filter (p ·.type) =
      (waits.filter fun w => p w.type && w.phase == .signaled).map fun w => w.toEvent w.value := by
  induction sources, waits using draw_induction with
  | nil s => rfl
  | left s first rest hoffer ih =>
      rw [draw_cons_of_none hoffer, ih]
      by_cases hfirst : p first.type = true
      · rw [offer?_eq_none_iff_of_posted ((hp s _).mp hfirst)] at hoffer
        simp [hoffer]
      · simp [hfirst]
  | served s first rest value hoffer ih =>
      rw [draw_cons_of_some hoffer]
      by_cases hfirst : p first.type = true
      · rw [offer?_eq_some_iff_of_posted ((hp s _).mp hfirst)] at hoffer
        rcases hoffer with ⟨hphase, rfl⟩
        simp [hfirst, hphase, ih]
      · simp [hfirst, ih]

end Values

/-! ## Who goes without -/

theorem keys_draw (sources : S) (waits : List Wait) :
    ((draw sources waits).events.map Event.key).Sublist (waits.map Wait.key) := by
  induction sources, waits using draw_induction with
  | nil s => exact List.Sublist.slnil
  | left s first rest hoffer ih =>
      rw [draw_cons_of_none hoffer]
      exact ih.cons first.key
  | served s first rest value hoffer ih =>
      rw [draw_cons_of_some hoffer]
      exact ih.cons_cons first.key

/-- Every wait is either reported by an event of the pass or left in its place. -/
theorem left_draw (sources : S) {waits : List Wait} (hnodup : (waits.map Wait.key).Nodup) :
    (draw sources waits).left =
      waits.filter fun w => (draw sources waits).events.all (·.key != w.key) := by
  induction sources, waits using draw_induction with
  | nil s => rfl
  | left s first rest hoffer ih =>
      rcases List.nodup_cons.mp hnodup with ⟨hfirst, hrest⟩
      have hunserved : (draw s rest).events.all (·.key != first.key) = true := by
        rw [List.all_eq_true]
        intro event hevent
        rw [bne_iff_ne]
        intro heq
        exact hfirst (heq ▸ (keys_draw s rest).subset (List.mem_map_of_mem hevent))
      simp only [draw_cons_of_none hoffer, List.filter_cons, hunserved, ↓reduceIte, ih hrest]
  | served s first rest value hoffer ih =>
      rcases List.nodup_cons.mp hnodup with ⟨hfirst, hrest⟩
      have hother : ∀ w ∈ rest, (first.key != w.key) = true := by
        intro w hw
        rw [bne_iff_ne]
        intro heq
        exact hfirst (heq ▸ List.mem_map_of_mem hw)
      simp only [draw_cons_of_some hoffer, List.filter_cons, List.all_cons, key_toEvent,
        bne_self_eq_false, Bool.false_and, Bool.false_eq_true, ↓reduceIte, ih hrest]
      apply List.filter_congr
      intro w hw
      rw [hother w hw, Bool.true_and]

/-- A wait that went without was sampled in vain. -/
theorem offer?_of_mem_left {waits : List Wait} {wait : Wait}
    (h : wait ∈ (draw sources waits).left) :
    wait ∈ waits ∧ ∃ sources' : S, offer? sources' wait = none := by
  induction sources, waits using draw_induction with
  | nil s => contradiction
  | left s first rest hoffer ih =>
      rw [draw_cons_of_none hoffer] at h
      rcases List.mem_cons.mp h with rfl | hrest
      · exact ⟨List.mem_cons_self, s, hoffer⟩
      · exact (ih hrest).imp_left (List.mem_cons_of_mem first)
  | served s first rest value hoffer ih =>
      rw [draw_cons_of_some hoffer] at h
      exact (ih h).imp_left (List.mem_cons_of_mem first)

/-- What every reading of a source keeps holds after the pass. -/
theorem sources_draw {P : S → Prop} (step : ∀ s kind, P s → P (Sources.read s kind .take).2)
    (h : P sources) (waits : List Wait) : P (draw sources waits).sources := by
  induction sources, waits using draw_induction with
  | nil s => exact h
  | left s first rest hoffer ih =>
      rw [draw_cons_of_none hoffer]
      exact ih h
  | served s first rest value hoffer ih =>
      have hread : P (Sources.readType s first.type .take).2 := by
        unfold Sources.readType
        split
        · exact step s _ h
        · exact h
      rw [draw_cons_of_some hoffer]
      exact ih hread

end Roster

/-! ## Polls one after the other -/

namespace Recorded

/--
Polls that take, with nothing in between, report these events and then nothing, and
leave this roster.
-/
structure DrainsTo (r : Recorded S) (events : List Event) (left : Roster S) : Prop where
  log : ∀ k, (Command.runAll (List.replicate k (.poll .take [])) r).log =
    r.log ++ (List.range k).map fun i => ⟨.scan .take, .event events[i]?⟩
  toRoster : ∀ k, events.length ≤ k →
    (Command.runAll (List.replicate k (.poll .take [])) r).queue.toRoster = left
  length_le : events.length ≤ r.queue.pending

/-- The pass over the live waits of a queue. -/
def draw (r : Recorded S) : Roster.Draw S :=
  Roster.draw r.queue.sources r.queue.waits.waits

variable [Sources.Supplied S] {r : Recorded S}

/-- A poll that takes reports the first event of the pass and leaves the rest of it to be done. -/
theorem Sound.perform_take (h : r.Sound) :
    let r' := r.perform (.call (.scan .take))
    r'.log = r.log ++ [⟨.scan .take, .event r.draw.events.head?⟩] ∧
      r'.draw = { r.draw with events := r.draw.events.tail } ∧
      r'.queue.waits.lastNumber = r.queue.waits.lastNumber := by
  intro r'
  have hscan : r.queue.toRoster.scan .take =
      ((r.queue.scan .take).1, r'.queue.toRoster) := (Queue.refines_scan h.wellFormed .take).2
  rcases Prod.mk.inj hscan with ⟨hevent, hleft⟩
  rcases Roster.draw_scanFrom r.queue.sources r.queue.waits.waits with ⟨hhead, htail⟩
  refine ⟨?_, ?_, ?_⟩
  · change r.log ++ [⟨.scan .take, .event (r.queue.scan .take).1⟩] = _
    rw [← hevent]
    exact congrArg (fun event => r.log ++ [⟨.scan .take, .event event⟩]) hhead
  · calc
      r'.draw = Roster.draw r'.queue.toRoster.sources r'.queue.toRoster.waits := rfl
      _ = _ := by rw [← hleft]; exact htail
  · exact (congrArg Roster.lastNumber hleft).symm

/-- So many polls that take report the events of the pass up to there. -/
theorem Sound.runAll_takes (h : r.Sound) (k : Nat) :
    let r' := Command.runAll (List.replicate k (.poll .take [])) r
    r'.log = r.log ++ (List.range k).map (fun i => ⟨.scan .take, .event r.draw.events[i]?⟩) ∧
      r'.draw = { r.draw with events := r.draw.events.drop k } ∧
      r'.queue.waits.lastNumber = r.queue.waits.lastNumber := by
  induction k generalizing r with
  | zero => simp [Command.runAll]
  | succ k ih =>
      rcases h.perform_take with ⟨hlog, hdraw, hlast⟩
      rcases ih (h.perform (.call (.scan .take))) with ⟨hlog', hdraw', hlast'⟩
      simp only [List.replicate_succ, Command.runAll, Command.run_poll]
      refine ⟨?_, ?_, hlast'.trans hlast⟩
      · rw [hlog', hlog, hdraw, List.range_succ_eq_map]
        simp [List.head?_eq_getElem?]
      · rw [hdraw', hdraw]
        simp

/-- Polls that take report the events of the pass and then nothing. -/
theorem Sound.drainsTo_draw (h : r.Sound) :
    r.DrainsTo r.draw.events
      { r.queue.toRoster with waits := r.draw.left, sources := r.draw.sources } where
  log k := (h.runAll_takes k).1
  toRoster k hk := by
    rcases h.runAll_takes k with ⟨-, hdraw, hlast⟩
    generalize Command.runAll (List.replicate k (.poll .take [])) r = r' at hdraw hlast ⊢
    have hevents : r'.draw.events = [] := by rw [hdraw]; exact List.drop_eq_nil_of_le hk
    have hdone : r'.draw = ⟨[], r'.queue.waits.waits, r'.queue.sources⟩ :=
      Roster.draw_of_events_eq_nil hevents
    rw [hdraw, Roster.Draw.mk.injEq] at hdone
    rcases hdone with ⟨-, hleft, hsources⟩
    simp only [Queue.toRoster, hleft, hsources, hlast]
  length_le := by
    have hlength := (Roster.keys_draw r.queue.sources r.queue.waits.waits).length_le
    rw [List.length_map, List.length_map, h.wellFormed.length_waits] at hlength
    exact hlength

end Recorded

/-! ## What draining comes to -/

/-- Without sampled types the signaled waits are served and the others go without. -/
theorem Roster.draw_of_posted {sources : S} {waits : List Wait}
    (h : ∀ wait ∈ waits, Sources.kindOf sources wait.type = none) :
    draw sources waits =
      ⟨(waits.filter (·.phase == .signaled)).map fun w => w.toEvent w.value,
        waits.filter (·.phase == .pending), sources⟩ := by
  induction waits with
  | nil => rfl
  | cons first rest ih =>
      rcases List.forall_mem_cons.mp h with ⟨hfirst, hrest⟩
      have hobserve := observe_of_posted hfirst .take
      cases hphase : first.phase <;> simp [draw, hobserve, hphase, ih hrest]

/-- At every moment the waits that a pass leaves are unsignaled. -/
theorem phase_of_mem_left [Sources.Supplied S] (sources : S) (commands : List (Command S))
    (n : Nat) :
    ∀ wait ∈ (moment sources commands n).draw.left, wait.phase = .pending := by
  intro wait hleft
  rcases Roster.offer?_of_mem_left hleft with ⟨hwait, s, hoffer⟩
  cases hkind : Sources.kindOf s wait.type with
  | none =>
      rwa [Sources.offer?_eq_none_iff_of_posted hkind] at hoffer
  | some kind =>
      have hsampled : Sources.delivery sources wait.type = .sampled := by
        rw [delivery_eq sources s, Sources.delivery, hkind]
      exact (explains_moment sources commands n wait hwait).sampled hsampled

namespace Board

theorem supply_timers (b : Board) :
    b.supply .timers = if b.timers.word = 0 then [] else [b.timers.word.toInt32] :=
  rfl

theorem supply_timers_eq_nil_iff {b : Board} : b.supply .timers = [] ↔ b.timers.word = 0 := by
  simp [supply]

/-- What the status word supplies tells the word. -/
theorem word_eq_of_supply_eq {b b' : Board} (h : b'.supply .timers = b.supply .timers) :
    b'.timers.word = b.timers.word := by
  by_cases hzero : b.timers.word = 0
  · rw [supply_timers_eq_nil_iff.mpr hzero] at h
    rw [supply_timers_eq_nil_iff.mp h, hzero]
  · have hzero' : b'.timers.word ≠ 0 := fun h' => by
      rw [supply_timers_eq_nil_iff.mpr h'] at h
      exact hzero (supply_timers_eq_nil_iff.mp h.symm)
    simp only [supply_timers, hzero, hzero', ↓reduceIte, List.cons.injEq, and_true] at h
    have hword := congrArg Int32.toUInt32 h
    rwa [UInt32.toUInt32_toInt32, UInt32.toUInt32_toInt32] at hword

/-- The first wait takes the whole word. -/
theorem word_of_supply_eq_drop {b b' : Board} {waits : List Wait}
    (h : b'.supply .timers = (b.supply .timers).drop waits.length) :
    b'.timers.word = if waits.isEmpty then b.timers.word else 0 := by
  cases waits with
  | nil => exact word_eq_of_supply_eq h
  | cons first rest =>
      have hlength : (b.supply .timers).length ≤ 1 := by
        rw [supply_timers]
        split <;> simp
      have hdrained : b'.supply .timers = [] := by
        rw [h, List.length_cons]
        exact List.drop_eq_nil_of_le (by omega)
      exact supply_timers_eq_nil_iff.mp hdrained

/-- Of the waits for timers only the oldest one has something to take. -/
theorem zipWith_supply_timers (b : Board) (waits : List Wait) :
    List.zipWith Wait.toEvent waits (b.supply .timers) =
      if b.timers.word = 0 then [] else (waits.take 1).map (·.toEvent b.timers.word.toInt32) := by
  rw [supply_timers]
  split
  · exact List.zipWith_nil_right
  · cases waits <;> simp

end Board

/--
At every moment of every run, polls that take, with nothing in between, report no more
events than there are live waits and then nothing.  If every type is posted, the events
are those of the signaled waits, in order and with the value posted, and the pending waits
stay.  On a board the events come in the order of registration too: each signaled wait of
a posted type is reported with its value, the waits for an edge are paired in order with
the buffered edges as far as both reach, and the oldest wait for timers has the status
word unless that is zero.  All other waits stay in order and pending.  The edges
that were not reported stay in the buffer, and the status word is zero if there was a
wait for it, else unchanged.
-/
theorem draining_serves_in_order :
    (∀ (commands : List (Command PostedOnly)) (n : Nat),
      let r := moment PostedOnly.mk commands n
      let waits := r.queue.waits.waits
      r.DrainsTo ((waits.filter (·.phase == .signaled)).map fun w => w.toEvent w.value)
        { r.queue.toRoster with waits := waits.filter (·.phase == .pending) }) ∧
    ∀ (board : Board) (commands : List (Command Board)) (n : Nat),
      let r := moment board commands n
      let waits := r.queue.waits.waits
      let before := r.queue.sources
      let edgeWaits := waits.filter (·.type == Board.pinEventType)
      let timerWaits := waits.filter (·.type == Board.timerEventType)
      ∃ events left after,
        r.DrainsTo events { r.queue.toRoster with waits := left, sources := after } ∧
          (events.map Event.key).Sublist (waits.map Wait.key) ∧
          left = waits.filter (fun w => events.all (·.key != w.key)) ∧
          (∀ w ∈ left, w.phase = .pending) ∧
          events.filter (Board.firstPostedType ≤ ·.type) =
            (waits.filter fun w => Board.firstPostedType ≤ w.type && w.phase == .signaled).map
              (fun w => w.toEvent w.value) ∧
          events.filter (·.type == Board.pinEventType) =
            List.zipWith Wait.toEvent edgeWaits before.pins.buffer.toList ∧
          events.filter (·.type == Board.timerEventType) =
            (if before.timers.word = 0 then []
              else (timerWaits.take 1).map (·.toEvent before.timers.word.toInt32)) ∧
          after.pins.mask = before.pins.mask ∧
          after.pins.buffer.toList = before.pins.buffer.toList.drop edgeWaits.length ∧
          after.timers.word = if timerWaits.isEmpty then before.timers.word else 0 := by
  refine ⟨fun commands n => ?_, fun board commands n => ?_⟩
  · intro r waits
    have hdraw : r.draw = _ := Roster.draw_of_posted fun _ _ => rfl
    have hdrains := (Recorded.sound_moment PostedOnly.mk commands n).drainsTo_draw
    rwa [hdraw] at hdrains
  · intro r waits before edgeWaits timerWaits
    have hsound : r.Sound := Recorded.sound_moment board commands n
    have hpin : ∀ (b : Board) type, (type == Board.pinEventType) = true ↔
        Sources.kindOf b type = some .pins := fun b type => by
      rw [beq_iff_eq, Board.kindOf_eq_pins_iff]
    have htimer : ∀ (b : Board) type, (type == Board.timerEventType) = true ↔
        Sources.kindOf b type = some .timers := fun b type => by
      rw [beq_iff_eq, Board.kindOf_eq_timers_iff]
    have hposted : ∀ (b : Board) type, decide (Board.firstPostedType ≤ type) = true ↔
        Sources.kindOf b type = none := fun b type => by
      rw [decide_eq_true_iff, Board.kindOf_eq_none_iff]
    rcases Roster.filter_events_draw hpin before waits with ⟨hedges, hbuffer⟩
    rcases Roster.filter_events_draw htimer before waits with ⟨hwords, hword⟩
    have hmask : r.draw.sources.pins.mask = before.pins.mask := by
      refine Roster.sources_draw (P := fun b : Board => b.pins.mask = before.pins.mask) ?_ rfl waits
      intro b kind h
      cases kind <;> exact h
    refine ⟨r.draw.events, r.draw.left, r.draw.sources, hsound.drainsTo_draw,
      Roster.keys_draw before waits, Roster.left_draw before hsound.keyed.nodup,
      phase_of_mem_left board commands n, Roster.filter_events_draw_of_posted hposted before waits,
      hedges, hwords.trans (before.zipWith_supply_timers timerWaits), hmask, hbuffer,
      Board.word_of_supply_eq_drop hword⟩

/--
Two waits for an edge, and between them one for posts and one for timers.  There is one
edge, and the word has its first and its third bit.
-/
def waitsToDrain : List (Command Board) :=
  [.operation (.call (.register Board.pinEventType)),
    .operation (.call (.register 7)),
    .operation (.call (.register Board.timerEventType)),
    .operation (.call (.register Board.pinEventType)),
    .operation (.change fun b =>
      { pins := ((b.pins.watch ⟨3, .rise⟩).2.post ⟨3, .rise⟩).2, timers := b.timers.raise 5 }),
    .operation (.call (.post everyone 7 42))]

theorem one_edge_for_two_waits :
    let r := moment Board.empty waitsToDrain 6
    let r' := Command.runAll (List.replicate 4 (.poll .take [])) r
    ∃ events, r.DrainsTo events r'.queue.toRoster ∧
      events.filter (·.type == Board.pinEventType) = [⟨1, 0, 14⟩] ∧
      events.filter (Board.firstPostedType ≤ ·.type) = [⟨2, 7, 42⟩] ∧
      events.filter (·.type == Board.timerEventType) = [⟨3, 1, 5⟩] ∧
      r'.queue.waits.waits.map Wait.key = [(4, 0)] ∧
      r'.queue.sources.timers.word = 0 ∧ r'.queue.sources.pins.buffer.toList = [] := by
  intro r r'
  rcases draining_serves_in_order.2 Board.empty waitsToDrain 6 with
    ⟨events, left, after, hdrains, -, -, -, hposted, hedges, hwords, -, hbuffer, hword⟩
  have hpending : r.queue.pending = 4 := by decide
  have hleft : r'.queue.toRoster = _ := hdrains.toRoster 4 (hpending ▸ hdrains.length_le)
  have hkeys : r'.queue.waits.waits.map Wait.key = [(4, 0)] := by decide
  clear_value r'
  have hafter : r'.queue.sources = after := congrArg Roster.sources hleft
  rw [← hleft] at hdrains
  refine ⟨events, hdrains, ?_, ?_, ?_, hkeys, ?_, ?_⟩
  · rw [hedges]
    decide
  · rw [hposted]
    decide
  · rw [hwords]
    decide
  · rw [hafter, hword]
    decide
  · rw [hafter, hbuffer]
    decide

end DeviceLayer
