import DeviceLayer.Proofs.Event.Peek
import DeviceLayer.Proofs.Event.Refinement

/-!
# The oldest satisfied wait wins

A scan that takes reads the source of every wait that it meets, also of those that
it does not report.  Over sources that can be peeked at this does no harm: a source
with nothing to take is left as it is, so the only reading that counts is the one
for the wait that is reported.

Main results:

- Theorem {lit}`Roster.scanFrom_take_append`: waits that nothing satisfies are passed
  without a trace.
- Theorem {lit}`Roster.scanFrom_take_of_some`: the first satisfied wait is reported
  and taken out, and its source alone is read.
- Theorem {lit}`oldest_satisfied_wins`: at every moment of every run a poll that takes
  does to the queue exactly this.
-/

namespace DeviceLayer

variable {S κ : Type} [Sources S κ]

/-! ## What satisfies a wait -/

namespace Sources

/--
The value that satisfies a wait, if there is one: what its source shows if its type
is sampled, else the value that it holds once it is signaled.
-/
def offer? (sources : S) (wait : Wait) : Option EventValue :=
  match kindOf sources wait.type with
  | some kind => (read sources kind .peek).1
  | none => if wait.phase = .signaled then some wait.value else none

variable {sources : S} {wait : Wait}

theorem offer?_eq_none_iff_of_posted (h : kindOf sources wait.type = none) :
    offer? sources wait = none ↔ wait.phase = .pending := by
  simp only [offer?, h]
  cases wait.phase <;> simp

theorem offer?_eq_some_iff_of_posted (h : kindOf sources wait.type = none)
    {value : EventValue} :
    offer? sources wait = some value ↔ wait.phase = .signaled ∧ wait.value = value := by
  simp only [offer?, h]
  cases wait.phase <;> simp

end Sources

/-! ## Scanning the plain list -/

namespace Roster

open Sources

/-- Either nothing satisfies any wait, or there is a first wait that something satisfies. -/
theorem exists_first_offer (sources : S) (waits : List Wait) :
    (∀ wait ∈ waits, offer? sources wait = none) ∨
      ∃ older wait younger value, waits = older ++ wait :: younger ∧
        (∀ w ∈ older, offer? sources w = none) ∧ offer? sources wait = some value := by
  induction waits with
  | nil => exact Or.inl fun _ h => absurd h List.not_mem_nil
  | cons first rest ih =>
      cases hfirst : offer? sources first with
      | some value => exact Or.inr ⟨[], first, rest, value, rfl, by simp, hfirst⟩
      | none =>
          rcases ih with hnone | ⟨older, wait, younger, value, rfl, hvain, hwait⟩
          · exact Or.inl (List.forall_mem_cons.mpr ⟨hfirst, hnone⟩)
          · exact Or.inr ⟨first :: older, wait, younger, value, rfl,
              List.forall_mem_cons.mpr ⟨hfirst, hvain⟩, hwait⟩

/-- What there is for a wait is observed like a direct reading of its type. -/
theorem observe_snd_eq_readType (mode : ReadMode) (sources : S) (wait : Wait) :
    (observe mode sources wait).2 = (Sources.readType sources wait.type mode).2 := by
  unfold observe Sources.readType
  cases kindOf sources wait.type <;> rfl

variable [Peekable S] {sources : S} {older younger : List Wait}

theorem observe_take_fst_eq_offer? (sources : S) (wait : Wait) :
    (observe .take sources wait).1 = offer? sources wait := by
  unfold observe offer?
  cases kindOf sources wait.type with
  | some kind => exact Peekable.read_take_fst sources kind
  | none => rfl

/-- Observing in vain changes no source. -/
theorem observe_take_of_none {wait : Wait} (h : offer? sources wait = none) :
    observe .take sources wait = (none, sources) := by
  have hvalue : (observe .take sources wait).1 = none := by rw [observe_take_fst_eq_offer?, h]
  rw [← sample_eq_observe] at hvalue ⊢
  exact Prod.ext hvalue (Queue.sample_take_snd sources wait hvalue)

theorem observe_take_of_some {wait : Wait} {value : EventValue}
    (h : offer? sources wait = some value) :
    observe .take sources wait =
      (some value, (Sources.readType sources wait.type .take).2) :=
  Prod.ext ((observe_take_fst_eq_offer? sources wait).trans h)
    (observe_snd_eq_readType .take sources wait)

/-- Waits that nothing satisfies are passed without a trace. -/
theorem scanFrom_take_append (h : ∀ wait ∈ older, offer? sources wait = none)
    (rest : List Wait) :
    scanFrom .take sources (older ++ rest) =
      ((scanFrom .take sources rest).1, older ++ (scanFrom .take sources rest).2.1,
        (scanFrom .take sources rest).2.2) := by
  induction older with
  | nil => rfl
  | cons first older ih =>
      rcases List.forall_mem_cons.mp h with ⟨hfirst, hothers⟩
      simp only [List.cons_append, scanFrom, observe_take_of_none hfirst, ih hothers]

theorem scanFrom_take_of_none {waits : List Wait}
    (h : ∀ wait ∈ waits, offer? sources wait = none) :
    scanFrom .take sources waits = (none, waits, sources) := by
  have hscan := scanFrom_take_append h []
  simpa only [List.append_nil, scanFrom] using hscan

/-- The first satisfied wait is reported and taken out, and its source alone is read. -/
theorem scanFrom_take_of_some (h : ∀ wait ∈ older, offer? sources wait = none) {wait : Wait}
    {value : EventValue} (hwait : offer? sources wait = some value) (younger : List Wait) :
    scanFrom .take sources (older ++ wait :: younger) =
      (some ⟨wait.number, wait.type, value⟩, older ++ younger,
        (Sources.readType sources wait.type .take).2) := by
  rw [scanFrom_take_append h]
  simp only [scanFrom, observe_take_of_some hwait]

end Roster

/-! ## Polling the queue -/

/-- A scan that reports nothing leaves the waits on their nodes. -/
theorem Queue.scan_waits_of_none {q : Queue S} {mode : ReadMode} (h : (q.scan mode).1 = none) :
    (q.scan mode).2.waits = q.waits := by
  unfold scan at h ⊢
  split
  · rfl
  · rename_i hhit
    rw [hhit] at h
    contradiction

namespace Recorded

variable {r : Recorded S}

theorem Sound.runAll (h : r.Sound) (commands : List (Command S)) :
    (Command.runAll commands r).Sound := by
  rw [Command.runAll_eq_performAll]
  exact performAll_induction (fun _ op h => h.perform op) h _

end Recorded

/--
At every moment of every run, over sources that can be peeked at, a poll that takes
first runs its hook.  In the queue that the hook leaves it then finds nothing exactly
if nothing satisfies any live wait, and then leaves that queue as it is.  Otherwise
it reports the first wait in order of registration that something satisfies, with
the value that does.  That wait is taken out, the others stay in order as they are,
and the sources are left as one direct reading of the wait's type leaves them: the
source of a sampled type is taken from once, and for a posted type none is touched.
-/
theorem oldest_satisfied_wins [Sources.Peekable S] (sources : S)
    (commands : List (Command S)) (n : Nat) (hook : List (Command S)) :
    let r := moment sources commands n
    let ready := (Command.runAll hook r).queue
    let event? := (poll (Command.runAll hook) r .take).1
    let left := (poll (Command.runAll hook) r .take).2.queue
    (event? = none ↔ ∀ wait ∈ ready.waits.waits, Sources.offer? ready.sources wait = none) ∧
      (event? = none → left = ready) ∧
      ∀ event, event? = some event →
        ∃ older wait younger, ready.waits.waits = older ++ wait :: younger ∧
          (∀ w ∈ older, Sources.offer? ready.sources w = none) ∧
          Sources.offer? ready.sources wait = some event.value ∧
          event.number = wait.number ∧ event.type = wait.type ∧
          left.toRoster =
            { ready.toRoster with
              waits := older ++ younger
              sources := (Sources.readType ready.sources wait.type .take).2 } := by
  intro r ready event? left
  have hwf : ready.waits.WellFormed :=
    ((Recorded.sound_moment sources commands n).runAll hook).wellFormed
  have hscan : ready.toRoster.scan .take = (event?, left.toRoster) :=
    (Queue.refines_scan hwf .take).2
  rcases Roster.exists_first_offer ready.sources ready.waits.waits with
    hnone | ⟨older, wait, younger, value, hsplit, hvain, hwait⟩
  · have hplain : ready.toRoster.scan .take = (none, ready.toRoster) := by
      have hfrom := Roster.scanFrom_take_of_none hnone
      simp only [Roster.scan, Queue.toRoster, hfrom]
    rw [hplain, Prod.mk.injEq] at hscan
    rcases hscan with ⟨hevent, hleft⟩
    have hwaits : left.waits = ready.waits := Queue.scan_waits_of_none hevent.symm
    have hsources : ready.sources = left.sources := congrArg Roster.sources hleft
    have hsame : left = ready :=
      calc
        left = ⟨left.waits, left.sources⟩ := rfl
        _ = ready := by rw [hwaits, ← hsources]
    refine ⟨iff_of_true hevent.symm hnone, fun _ => hsame, fun event hsome => ?_⟩
    rw [← hevent] at hsome
    contradiction
  · have hplain : ready.toRoster.scan .take = (some ⟨wait.number, wait.type, value⟩,
        { ready.toRoster with
          waits := older ++ younger
          sources := (Sources.readType ready.sources wait.type .take).2 }) := by
      have hfrom := Roster.scanFrom_take_of_some hvain hwait younger
      simp only [Roster.scan, Queue.toRoster, hsplit, hfrom]
    rw [hplain, Prod.mk.injEq] at hscan
    rcases hscan with ⟨hevent, hleft⟩
    have hfound : event? ≠ none := by
      rw [← hevent]
      exact Option.some_ne_none _
    have hoffered : ¬ ∀ w ∈ ready.waits.waits, Sources.offer? ready.sources w = none := by
      intro hnone
      rw [hnone wait (by simp [hsplit])] at hwait
      contradiction
    refine ⟨iff_of_false hfound hoffered, fun h => absurd h hfound, fun event hsome => ?_⟩
    obtain rfl : ⟨wait.number, wait.type, value⟩ = event :=
      Option.some_inj.mp (hevent.trans hsome)
    exact ⟨older, wait, younger, hsplit, hvain, hwait, rfl, rfl, hleft.symm⟩

/-- The first wait has an empty channel, the second no post, and two share a channel. -/
def waitsOnChannels : List (Command Channels) :=
  [.operation (.call (.register 5)),
    .operation (.call (.register 9)),
    .operation (.call (.register 6)),
    .operation (.call (.register 6))]

/-- The values arrive only when the hook of the poll runs. -/
def arrivals : List (Command Channels) :=
  [.operation (.change fun c => (c.push 1 7).push 1 8)]

/-- With the values comes a post for the second wait. -/
def arrivalsAndPost : List (Command Channels) :=
  arrivals ++ [.operation (.call (.post 2 9 4))]

/--
Without a post the first value of the channel goes to the older one of its two waits.
With it the second wait is signaled, is reported with the value posted, and the channel
keeps both values.
-/
theorem one_value_leaves_its_channel :
    let r := moment (Channels.ofRoutes [(5, 0), (6, 1)]) waitsOnChannels 4
    let result := poll (Command.runAll arrivals) r .take
    let result' := poll (Command.runAll arrivalsAndPost) r .take
    (r.queue.sources.contents = [[], []] ∧ result.1 = some ⟨3, 6, 7⟩ ∧
        result.2.queue.waits.waits.map Wait.key = [(1, 5), (2, 9), (4, 6)] ∧
        result.2.queue.sources.contents = [[], [8]]) ∧
      ⟨2, 9, .signaled, 4⟩ ∈ (Command.runAll arrivalsAndPost r).queue.waits.waits ∧
      result'.1 = some ⟨2, 9, 4⟩ ∧
      result'.2.queue.waits.waits.map Wait.key = [(1, 5), (3, 6), (4, 6)] ∧
      result'.2.queue.sources.contents = [[], [7, 8]] := by
  intro r result result'
  have hevent : result.1 = some ⟨3, 6, 7⟩ := by decide
  have hevent' : result'.1 = some ⟨2, 9, 4⟩ := by decide
  rcases oldest_satisfied_wins (Channels.ofRoutes [(5, 0), (6, 1)]) waitsOnChannels 4 arrivals with
    ⟨-, -, hfound⟩
  rcases oldest_satisfied_wins (Channels.ofRoutes [(5, 0), (6, 1)]) waitsOnChannels 4
    arrivalsAndPost with ⟨-, -, hfound'⟩
  rcases hfound _ hevent with ⟨older, wait, younger, -, -, -, -, htype, hleft⟩
  rcases hfound' _ hevent' with
    ⟨older', wait', younger', hsplit', -, hoffer', hnumber', htype', hleft'⟩
  have hsix : wait.type = 6 := htype.symm
  have hnine : wait'.type = 9 := htype'.symm
  have hsources : result.2.queue.sources =
      (Sources.readType (Command.runAll arrivals r).queue.sources 6 .take).2 := by
    rw [← hsix]
    exact congrArg Roster.sources hleft
  have hsources' : result'.2.queue.sources =
      (Sources.readType (Command.runAll arrivalsAndPost r).queue.sources 9 .take).2 := by
    rw [← hnine]
    exact congrArg Roster.sources hleft'
  have hkind : Sources.kindOf (Command.runAll arrivalsAndPost r).queue.sources wait'.type =
      none := by
    rw [hnine]
    decide
  rcases (Sources.offer?_eq_some_iff_of_posted hkind).mp hoffer' with ⟨hphase, hvalue⟩
  have hwait : wait' = ⟨2, 9, .signaled, 4⟩ :=
    calc
      wait' = ⟨wait'.number, wait'.type, wait'.phase, wait'.value⟩ := rfl
      _ = ⟨2, 9, .signaled, 4⟩ := by rw [← hnumber', ← htype', hphase, hvalue]
  refine ⟨⟨by decide, hevent, by decide, ?_⟩, ?_, hevent', by decide, ?_⟩
  · rw [hsources]
    decide
  · rw [hsplit', hwait]
    exact List.mem_append_right _ List.mem_cons_self
  · rw [hsources']
    decide

end DeviceLayer
