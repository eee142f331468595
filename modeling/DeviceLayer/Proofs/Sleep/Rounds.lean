import DeviceLayer.Sleep
import DeviceLayer.Proofs.Event.Numbers
import DeviceLayer.Proofs.Event.Peek
import Mathlib.Logic.Function.Iterate

/-!
# How a sleep ends

A sleep is a sequence of rounds: poll, look at the clock, idle.  The hook of the poll,
the clock and the idling may all act on the host, so each round begins with whatever
the round before has left.  The first poll that finds something ends the sleep, and so
does the first reading at or past the target.  Polls only peek, so the event is still
there to be taken.

Main results:

- Theorem {lit}`Roster.scanFrom_fst_eq_some_iff`: a scan reports the first wait that is
  satisfied when its turn comes.
- Theorem {lit}`Roster.oldestReady_iff_of_posted`: where every type is posted, that is the
  first signaled wait, with the value it holds.
- Theorem {lit}`sleepUntil_cases`: all earlier rounds pass, and the last one decides.
- Theorem {lit}`sleep_ends_at_first_cause`: what a sleep reports, when, and what it
  leaves.
-/

namespace DeviceLayer

variable {S κ : Type} [Sources S κ]

/-! ## What a poll that peeks reports -/

namespace Roster

/-- The sources after waits have been observed one after the other. -/
def observedFrom (mode : ReadMode) (sources : S) (waits : List Wait) : S :=
  waits.foldl (fun s wait => (observe mode s wait).2) sources

/-- This event reports the first wait for which there is something when its turn comes. -/
def OldestReady (mode : ReadMode) (sources : S) (waits : List Wait) (event : Event) : Prop :=
  ∃ older wait younger, waits = older ++ wait :: younger ∧ NothingReady mode sources older ∧
    event.number = wait.number ∧ event.type = wait.type ∧
    (observe mode (observedFrom mode sources older) wait).1 = some event.value

variable {mode : ReadMode} {sources : S} {first : Wait} {event : Event}

/-- The event reports the first wait, or there is nothing for that one and it reports another. -/
theorem oldestReady_cons_iff (rest : List Wait) :
    OldestReady mode sources (first :: rest) event ↔
      event.number = first.number ∧ event.type = first.type ∧
          (observe mode sources first).1 = some event.value ∨
        (observe mode sources first).1 = none ∧
          OldestReady mode (observe mode sources first).2 rest event := by
  constructor
  · rintro ⟨older, wait, younger, hsplit, hvain, hevent⟩
    cases older with
    | nil =>
        obtain ⟨rfl, -⟩ := List.cons.inj hsplit
        exact Or.inl hevent
    | cons w older =>
        obtain ⟨rfl, rfl⟩ := List.cons.inj hsplit
        rcases hvain with ⟨hnone, hothers⟩
        exact Or.inr ⟨hnone, older, wait, younger, rfl, hothers, hevent⟩
  · rintro (hevent | ⟨hnone, older, wait, younger, rfl, hvain, hevent⟩)
    · exact ⟨[], first, rest, rfl, trivial, hevent⟩
    · exact ⟨first :: older, wait, younger, rfl, ⟨hnone, hvain⟩, hevent⟩

/-- A wait of a posted type is reported with its value if it is signaled, else passed. -/
theorem oldestReady_cons_of_posted (h : Sources.kindOf sources first.type = none)
    (rest : List Wait) :
    OldestReady mode sources (first :: rest) event ↔
      first.phase = .signaled ∧ event = ⟨first.number, first.type, first.value⟩ ∨
        first.phase = .pending ∧ OldestReady mode sources rest event := by
  rw [oldestReady_cons_iff, observe_of_posted h]
  cases event
  cases first.phase <;> simp [eq_comm]

/--
Where every type is posted, the event reports the first signaled wait with its value, and
all older waits are pending.
-/
theorem oldestReady_iff_of_posted {waits : List Wait}
    (h : ∀ wait ∈ waits, Sources.kindOf sources wait.type = none) :
    OldestReady mode sources waits event ↔
      ∃ older wait younger, waits = older ++ wait :: younger ∧
        (∀ w ∈ older, w.phase = .pending) ∧ wait.phase = .signaled ∧
        event = ⟨wait.number, wait.type, wait.value⟩ := by
  induction waits with
  | nil => simp [OldestReady]
  | cons first rest ih =>
      rcases List.forall_mem_cons.mp h with ⟨hfirst, hrest⟩
      rw [oldestReady_cons_of_posted hfirst, ih hrest]
      constructor
      · rintro (⟨hphase, hevent⟩ | ⟨hphase, older, wait, younger, rfl, holder, hwait⟩)
        · exact ⟨[], first, rest, rfl, by simp, hphase, hevent⟩
        · exact ⟨first :: older, wait, younger, rfl,
            List.forall_mem_cons.mpr ⟨hphase, holder⟩, hwait⟩
      · rintro ⟨older, wait, younger, hsplit, holder, hphase, hevent⟩
        cases older with
        | nil =>
            obtain ⟨rfl, -⟩ := List.cons.inj hsplit
            exact Or.inl ⟨hphase, hevent⟩
        | cons w older =>
            obtain ⟨rfl, rfl⟩ := List.cons.inj hsplit
            rcases List.forall_mem_cons.mp holder with ⟨hw, hothers⟩
            exact Or.inr ⟨hw, older, wait, younger, rfl, hothers, hphase, hevent⟩

/-- A scan reports the first wait that is satisfied when its turn comes. -/
theorem scanFrom_fst_eq_some_iff (mode : ReadMode) (sources : S) (waits : List Wait) :
    (scanFrom mode sources waits).1 = some event ↔ OldestReady mode sources waits event := by
  induction waits generalizing sources with
  | nil => simp [scanFrom, OldestReady]
  | cons first rest ih =>
      rw [oldestReady_cons_iff]
      rcases hobserve : observe mode sources first with ⟨value?, sources'⟩
      cases value? with
      | some value =>
          cases event
          cases mode <;> simp [scanFrom, hobserve, eq_comm]
      | none => simp [scanFrom, hobserve, ih]

end Roster

/-- Well formed or not, the nodes report what a scan of the waits on them reports. -/
theorem Queue.scan_fst_eq_scanFrom (q : Queue S) (mode : ReadMode) :
    (q.scan mode).1 = (Roster.scanFrom mode q.sources q.waits.waits).1 := by
  rw [scan_fst_eq_map, WaitList.waits]
  rcases hhit : firstHit q.waits mode q.sources none q.waits.live with ⟨hit?, sources⟩
  cases hit? with
  | none =>
      rw [scanFrom_of_firstHit_eq_none hhit]
      rfl
  | some hit =>
      rcases scanFrom_of_firstHit_eq_some hhit with ⟨older, younger, -, -, hscan⟩
      rw [hscan]
      rfl

variable {Ω : Type} [Host Ω S]

/-- A poll finds nothing exactly if no wait is satisfied in the queue that the hook leaves. -/
theorem poll_fst_eq_none_iff (hook : Ω → Ω) (host : Ω) (mode : ReadMode) :
    let ready := Host.queue (hook host)
    (poll hook host mode).1 = none ↔
      Roster.NothingReady mode ready.sources ready.waits.waits := by
  intro ready
  rw [poll_fst, Queue.scan_fst_eq_scanFrom, Roster.scanFrom_fst_eq_none_iff]

/-- A poll reports the oldest satisfied wait in the queue that the hook leaves. -/
theorem poll_fst_eq_some_iff (hook : Ω → Ω) (host : Ω) (mode : ReadMode) {event : Event} :
    let ready := Host.queue (hook host)
    (poll hook host mode).1 = some event ↔
      Roster.OldestReady mode ready.sources ready.waits.waits event := by
  intro ready
  rw [poll_fst, Queue.scan_fst_eq_scanFrom, Roster.scanFrom_fst_eq_some_iff]

/-- A poll that peeks is its hook and nothing else. -/
theorem poll_peek_snd [Sources.Peekable S] (hook : Ω → Ω) (host : Ω) :
    (poll hook host .peek).2 = hook host := by
  change Host.withQueue (hook host) ((Host.queue (hook host)).scan .peek).2 = hook host
  rw [Queue.scan_peek_snd, Host.withQueue_queue]

/-- What a poll that peeks finds, a poll that takes reports. -/
theorem poll_id_take_fst [Sources.Peekable S] {host host' : Ω}
    (h : Host.queue host' = Host.queue host) :
    (poll id host' .take).1 = (poll id host .peek).1 := by
  rw [poll_fst, poll_fst, id, id, h, Queue.scan_take_fst]

/-! ## Rounds -/

/-- The host after a round in which the poll finds nothing and the clock is too early. -/
def Clock.round (clock : Clock Ω) (hook : Ω → Ω) (host : Ω) : Ω :=
  clock.idle (clock.now (poll hook host .peek).2).2

/-- The poll of a round finds nothing, and the reading after it is before the target. -/
def Clock.Passes (clock : Clock Ω) (hook : Ω → Ω) (target : Time) (host : Ω) : Prop :=
  (poll hook host .peek).1 = none ∧ (clock.now (poll hook host .peek).2).1 < target

/-- A round that passes stands before the rounds that pass after it. -/
theorem Clock.passes_lt_succ {clock : Clock Ω} {hook : Ω → Ω} {target : Time} {host : Ω} {n : Nat}
    (hfirst : clock.Passes hook target host)
    (hlater : ∀ j < n, clock.Passes hook target ((clock.round hook)^[j] (clock.round hook host))) :
    ∀ j < n + 1, clock.Passes hook target ((clock.round hook)^[j] host) := by
  intro j hj
  cases j with
  | zero => exact hfirst
  | succ j => exact hlater j (Nat.lt_of_succ_lt_succ hj)

/-- All earlier rounds pass, and the last one decides. -/
theorem sleepUntil_cases (clock : Clock Ω) (hook : Ω → Ω) (target : Time) (rounds : Nat)
    (host : Ω) :
    let start := fun n => (clock.round hook)^[n] host
    let polled := fun n => poll hook (start n) .peek
    let result := sleepUntil clock hook target rounds host
    (∃ n < rounds, (∀ j < n, clock.Passes hook target (start j)) ∧
        ((∃ event, (polled n).1 = some event ∧ result = (.byEvent event, (polled n).2)) ∨
          (polled n).1 = none ∧ target ≤ (clock.now (polled n).2).1 ∧
            result = (.byDeadline, (clock.now (polled n).2).2))) ∨
      (∀ j < rounds, clock.Passes hook target (start j)) ∧
        result = (.unfinished, start rounds) := by
  induction rounds generalizing host with
  | zero => exact .inr ⟨fun j hj => absurd hj (Nat.not_lt_zero j), rfl⟩
  | succ rounds ih =>
      intro start polled result
      cases hevent : (polled 0).1 with
      | some event =>
          have hpoll : polled 0 = (some event, (polled 0).2) := Prod.ext hevent rfl
          exact .inl ⟨0, Nat.succ_pos rounds, by simp, .inl ⟨event, hevent,
            sleepUntil_of_ready hpoll clock target rounds⟩⟩
      | none =>
          have hpoll : polled 0 = (none, (polled 0).2) := Prod.ext hevent rfl
          by_cases hle : target ≤ (clock.now (polled 0).2).1
          · exact .inl ⟨0, Nat.succ_pos rounds, by simp, .inr ⟨hevent, hle,
              sleepUntil_of_elapsed hpoll hle rounds⟩⟩
          · have hpasses : clock.Passes hook target host := ⟨hevent, UInt64.not_le.mp hle⟩
            have hresult : result = sleepUntil clock hook target rounds (clock.round hook host) :=
              sleepUntil_of_early hpoll hle rounds
            rw [hresult]
            rcases ih (clock.round hook host) with ⟨n, hn, hall, hend⟩ | ⟨hall, hend⟩
            · exact .inl ⟨n + 1, Nat.succ_lt_succ hn, Clock.passes_lt_succ hpasses hall, hend⟩
            · exact .inr ⟨Clock.passes_lt_succ hpasses hall, hend⟩

section Ends

variable {clock : Clock Ω} {hook : Ω → Ω} {target : Time} {rounds : Nat} {host host' : Ω}

theorem sleepUntil_eq_byDeadline
    (h : sleepUntil clock hook target rounds host = (.byDeadline, host')) :
    ∃ n < rounds, (∀ j < n, clock.Passes hook target ((clock.round hook)^[j] host)) ∧
      let polled := poll hook ((clock.round hook)^[n] host) .peek
      polled.1 = none ∧ target ≤ (clock.now polled.2).1 ∧ host' = (clock.now polled.2).2 := by
  rcases sleepUntil_cases clock hook target rounds host with
    ⟨n, hn, hall, ⟨event, -, hresult⟩ | ⟨hnone, hle, hresult⟩⟩ | ⟨-, hresult⟩
  · simp [h] at hresult
  · exact ⟨n, hn, hall, hnone, hle, congrArg Prod.snd (h.symm.trans hresult)⟩
  · simp [h] at hresult

theorem sleepUntil_eq_byEvent {event : Event}
    (h : sleepUntil clock hook target rounds host = (.byEvent event, host')) :
    ∃ n < rounds, (∀ j < n, clock.Passes hook target ((clock.round hook)^[j] host)) ∧
      poll hook ((clock.round hook)^[n] host) .peek = (some event, host') := by
  rcases sleepUntil_cases clock hook target rounds host with
    ⟨n, hn, hall, ⟨found, hfound, hresult⟩ | ⟨-, -, hresult⟩⟩ | ⟨-, hresult⟩
  · obtain ⟨hevent, hhost⟩ := Prod.mk.inj (h.symm.trans hresult)
    rw [Awakening.byEvent.inj hevent]
    exact ⟨n, hn, hall, Prod.ext hfound hhost.symm⟩
  · simp [h] at hresult
  · simp [h] at hresult

theorem sleepUntil_eq_unfinished
    (h : sleepUntil clock hook target rounds host = (.unfinished, host')) :
    ∀ j < rounds, clock.Passes hook target ((clock.round hook)^[j] host) := by
  rcases sleepUntil_cases clock hook target rounds host with
    ⟨n, -, -, ⟨event, -, hresult⟩ | ⟨-, -, hresult⟩⟩ | ⟨hall, -⟩
  · simp [h] at hresult
  · simp [h] at hresult
  · exact hall

/-- Without a hook, and on a clock that leaves the queue alone, the event is still there. -/
theorem poll_take_of_sleepUntil [Sources.Peekable S]
    (hnow : ∀ host : Ω, Host.queue (clock.now host).2 = Host.queue host) {awakening : Awakening}
    (h : sleepUntil clock id target rounds host = (awakening, host'))
    (hfinished : awakening ≠ .unfinished) :
    (poll id host' .take).1 = awakening.event? := by
  cases awakening with
  | byEvent event =>
      obtain ⟨n, -, -, hpolled⟩ := sleepUntil_eq_byEvent h
      have hhost : host' = (clock.round id)^[n] host :=
        (congrArg Prod.snd hpolled).symm.trans (poll_peek_snd id _)
      rw [hhost, poll_id_take_fst rfl, hpolled]
      rfl
  | byDeadline =>
      obtain ⟨n, -, -, hnone, -, rfl⟩ := sleepUntil_eq_byDeadline h
      have hqueue := hnow (poll id ((clock.round id)^[n] host) .peek).2
      rw [poll_peek_snd, id] at hqueue
      rw [poll_peek_snd, id, poll_id_take_fst hqueue, hnone]
      rfl
  | unfinished => contradiction

end Ends

/--
A sleep is rounds of polling, looking at the clock and idling towards the first reading
plus the given time, cut at the end of time.  Whatever hook, clock and idling do to the
host, and however many rounds are allowed: if the deadline ends the sleep, the last poll
found nothing, the reading right after it was at or past the target, and in all earlier
rounds the poll found nothing and the reading was before the target.  If an event ends it,
that is the oldest satisfied wait at the last poll, whatever the clock says by then, and all
earlier rounds passed like this too.  At least one poll is made, so an event that is ready
at the start ends the sleep without idling.  The polls change no wait.  Over sources that
can be peeked at, a poll is its hook and nothing else; and without a hook, on a clock that
leaves the queue alone, a poll that takes reports the same right after the sleep.
-/
theorem sleep_ends_at_first_cause (clock : Clock Ω) (hook : Ω → Ω) (millis : Time) (host : Ω) :
    let first := clock.now host
    let target := min Time.last (first.1.toNat + millis.toNat)
    let run := fun rounds => sleepUntil clock hook (first.1.after millis) rounds first.2
    let start := fun n => (clock.round hook)^[n] first.2
    let ready := fun n => Host.queue (hook (start n))
    let polled := fun n => (poll hook (start n) .peek).2
    let reading := fun n => clock.now (polled n)
    let IsVain := fun n => Roster.NothingReady .peek (ready n).sources (ready n).waits.waits
    let Finds := fun n => Roster.OldestReady .peek (ready n).sources (ready n).waits.waits
    let Passes := fun n => IsVain n ∧ (reading n).1.toNat < target
    sleep clock hook millis host = run enoughRounds ∧
      (∀ rounds host',
        (run rounds = (.byDeadline, host') →
          ∃ n < rounds, (∀ j < n, Passes j) ∧ IsVain n ∧ target ≤ (reading n).1.toNat ∧
            host' = (reading n).2) ∧
        (∀ event, run rounds = (.byEvent event, host') →
          ∃ n < rounds, (∀ j < n, Passes j) ∧ Finds n event ∧ host' = polled n) ∧
        (run rounds = (.unfinished, host') → ∀ j < rounds, Passes j)) ∧
      (∀ event, Finds 0 event → sleep clock hook millis host = (.byEvent event, polled 0)) ∧
      (∀ n, (Host.queue (polled n)).waits = (ready n).waits) ∧
      (Sources.Peekable S → (∀ n, polled n = hook (start n)) ∧
        (hook = id → (∀ host', Host.queue (clock.now host').2 = Host.queue host') →
          ∀ rounds awakening host', run rounds = (awakening, host') → awakening ≠ .unfinished →
            (poll id host' .take).1 = awakening.event?)) := by
  intro first target run start ready polled reading IsVain Finds Passes
  have htarget : (first.1.after millis).toNat = target := Time.toNat_after first.1 millis
  have hpasses : ∀ n, clock.Passes hook (first.1.after millis) (start n) → Passes n := by
    rintro n ⟨hnone, hlt⟩
    refine ⟨(poll_fst_eq_none_iff hook (start n) .peek).mp hnone, ?_⟩
    rw [← htarget]
    exact UInt64.lt_iff_toNat_lt.mp hlt
  refine ⟨rfl, fun rounds host' => ⟨fun hend => ?_, fun event hend => ?_, fun hend j hj => ?_⟩,
    fun event hfinds => ?_, fun n => ?_, fun hpeek => ⟨fun n => poll_peek_snd hook (start n), ?_⟩⟩
  · obtain ⟨n, hn, hall, hnone, hle, hhost⟩ := sleepUntil_eq_byDeadline hend
    refine ⟨n, hn, fun j hj => hpasses j (hall j hj),
      (poll_fst_eq_none_iff hook (start n) .peek).mp hnone, ?_, hhost⟩
    rw [← htarget]
    exact UInt64.le_iff_toNat_le.mp hle
  · obtain ⟨n, hn, hall, hpolled⟩ := sleepUntil_eq_byEvent hend
    exact ⟨n, hn, fun j hj => hpasses j (hall j hj),
      (poll_fst_eq_some_iff hook (start n) .peek).mp (congrArg Prod.fst hpolled),
      (congrArg Prod.snd hpolled).symm⟩
  · exact hpasses j (sleepUntil_eq_unfinished hend j hj)
  · have hevent := (poll_fst_eq_some_iff hook (start 0) .peek).mpr hfinds
    exact sleepUntil_of_ready (Prod.ext hevent rfl) clock _ _
  · change (Host.queue (poll hook (start n) .peek).2).waits = _
    rw [queue_poll, Queue.scan_peek_waits]
  · rintro rfl hnow rounds awakening host' hend hfinished
    exact poll_take_of_sleepUntil hnow hend hfinished

/-- A queue is held together with whatever else is there. -/
instance (S α : Type) : Host (Queue S × α) S where
  queue := Prod.fst
  withQueue host q := (q, host.2)
  queue_withQueue _ _ := rfl
  withQueue_queue _ := rfl
  withQueue_withQueue _ _ _ := rfl

/-- Each idling takes a millisecond, and during the third one an event is posted. -/
def postingClock : Clock (Queue PostedOnly × Time) where
  now host := (host.2, host)
  idle host := (if host.2 = 2 then host.1.post everyone 7 5 else host.1, host.2 + 1)

/-- The event comes with the deadline, is reported all the same, and can then be taken. -/
theorem event_at_deadline_is_reported :
    let q := (moment PostedOnly.mk [.operation (.call (.register 7))] 1).queue
    let start := fun n => (postingClock.round id)^[n] (q, 0)
    let slept := sleepUntil postingClock id 3 10 (start 0)
    slept = (.byEvent ⟨1, 7, 5⟩, start 3) ∧ (postingClock.now slept.2).1 = 3 ∧
      (∃ n < 10, Roster.OldestReady .peek PostedOnly.mk (start n).1.waits.waits ⟨1, 7, 5⟩ ∧
        ∃ wait ∈ (start n).1.waits.waits, wait.phase = .signaled ∧ wait.value = 5) ∧
      (poll id slept.2 .take).1 = some ⟨1, 7, 5⟩ := by
  intro q start slept
  have hslept : slept = (.byEvent ⟨1, 7, 5⟩, start 3) := by decide
  obtain ⟨-, hends, -, -, hpeek⟩ := sleep_ends_at_first_cause postingClock id 3 (start 0)
  obtain ⟨n, hn, -, holdest, -⟩ := (hends 10 (start 3)).2.1 _ hslept
  have htake := (hpeek inferInstance).2 rfl (fun _ => rfl) 10 _ _ hslept Awakening.noConfusion
  have hoffered : ∀ wait ∈ (start n).1.waits.waits,
      Sources.kindOf PostedOnly.mk wait.type = none := fun _ _ => rfl
  obtain ⟨older, wait, younger, hsplit, -, hphase, hevent⟩ :=
    (Roster.oldestReady_iff_of_posted hoffered).mp holdest
  have hwait : wait ∈ (start n).1.waits.waits :=
    hsplit ▸ List.mem_append_right _ List.mem_cons_self
  have hvalue : wait.value = 5 := (congrArg Event.value hevent).symm
  refine ⟨hslept, by decide, ⟨n, hn, holdest, wait, hwait, hphase, hvalue⟩, ?_⟩
  rw [hslept]
  exact htake

end DeviceLayer
