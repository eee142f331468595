import DeviceLayer.Proofs.Event.Refinement
import DeviceLayer.Sleep
import Mathlib.Data.List.DropRight

/-!
# The account of registrations

The log tells which registrations are still open: those whose key no later entry
ends.  A taken event and a successful cancel each end one of them, a reset ends
them all, and nothing else does.

Main results:

- Theorem {lit}`unended_concat`: one more entry ends the registrations of its key
  and may open one.
- Theorem {lit}`sleep_keeps`: the polls of a sleep end no registration.
- Theorem {lit}`registrations_end_once`: the live waits are the open
  registrations, each is ended at most once, and their number is what was
  registered less what was taken and cancelled.
-/

namespace DeviceLayer

/-! ## What the log says of a registration -/

namespace Change

def opened? : Change → Option WaitKey
  | .opens key => some key
  | _ => none

/-- Whether a change ends the wait with this key. -/
def endsKey (key : WaitKey) : Change → Bool
  | .ends key' => key' == key
  | .clears => true
  | _ => false

end Change

namespace Entry

/-- A registration that was accepted. -/
def isStored : Entry → Bool
  | ⟨.register _, .number (.ok _)⟩ => true
  | ⟨.registerFor _ _, .number (.ok _)⟩ => true
  | _ => false

/-- An event that was taken. -/
def isTaken : Entry → Bool
  | ⟨.scan .take, .event (some _)⟩ => true
  | _ => false

/-- A cancel that succeeded. -/
def isCancelled : Entry → Bool
  | ⟨.cancel _ _, .done (.ok _)⟩ => true
  | _ => false

def isReset : Entry → Bool
  | ⟨.reset, _⟩ => true
  | _ => false

end Entry

/-- The keys of the registrations in a log that no later entry ends, earliest first. -/
def unended : List Entry → List WaitKey
  | [] => []
  | entry :: later =>
    (entry.change.opened?.toList.filter fun key => !later.any fun e => e.change.endsKey key) ++
      unended later

/-- How many entries after the last reset satisfy {lit}`p`. -/
def countSince (p : Entry → Bool) (log : List Entry) : Nat :=
  (log.rtakeWhile fun entry => !entry.isReset).countP p

/-- One more entry ends the registrations of its key and may open one. -/
theorem unended_concat (log : List Entry) (entry : Entry) :
    unended (log ++ [entry]) =
      ((unended log).filter fun key => !entry.change.endsKey key) ++
        entry.change.opened?.toList := by
  induction log with
  | nil => simp [unended]
  | cons first rest ih =>
      simp only [List.cons_append, unended, ih, List.filter_append, List.filter_filter,
        List.append_assoc]
      congr 1
      apply List.filter_congr
      intro key _
      simp [Bool.and_comm]

/-- Among distinct keys an end removes one. -/
theorem filter_key_ne {older younger : List Wait} {wait : Wait}
    (hnodup : ((older ++ wait :: younger).map Wait.key).Nodup) :
    (((older ++ wait :: younger).map Wait.key).filter fun key => !(wait.key == key)) =
      (older ++ younger).map Wait.key := by
  have hnot := key_notMem_of_nodup hnodup
  have hkeep : ∀ w ∈ older ++ younger, (!(wait.key == w.key)) = true := by
    intro w hw
    rw [Bool.not_eq_true', beq_eq_false_iff_ne]
    exact fun heq => hnot (heq ▸ List.mem_map_of_mem hw)
  rw [List.map_append, List.map_cons, List.filter_append, List.filter_cons]
  simp only [beq_self_eq_true, Bool.not_true, Bool.false_eq_true, ↓reduceIte]
  rw [← List.filter_append, ← List.map_append, List.filter_eq_self]
  intro key hkey
  rcases List.mem_map.mp hkey with ⟨w, hw, rfl⟩
  exact hkeep w hw

/-- The keys of the waits after a change are those that the new entry leaves unended. -/
theorem Change.Effect.map_key {S κ : Type} [Sources S κ] {sources : S}
    {before after : List Wait} {change : Change} (h : change.Effect sources before after)
    (hkeyed : Keyed before) :
    after.map Wait.key =
      ((before.map Wait.key).filter fun key => !change.endsKey key) ++ change.opened?.toList := by
  cases change with
  | opens key =>
      rcases h with ⟨rfl, -, -, -⟩
      simp [Change.endsKey, Change.opened?]
  | ends key =>
      rcases h with ⟨older, wait, younger, rfl, rfl, rfl⟩
      simp only [Change.endsKey, Change.opened?, Option.toList_none, List.append_nil]
      exact (filter_key_ne hkeyed.nodup).symm
  | posts recipient type value =>
      have hkeys : after.map Wait.key = before.map Wait.key := by
        simp only [Change.Effect] at h
        subst h
        cases Sources.delivery sources type <;> simp
      simp [Change.endsKey, Change.opened?, hkeys]
  | clears =>
      obtain rfl : after = [] := h
      simp [Change.endsKey, Change.opened?]
  | keeps =>
      obtain rfl : after = before := h
      simp [Change.endsKey, Change.opened?]

/-! ## Opening and ending in turn -/

/--
In the log every registration opens a key that is not open, and every end finds
its key open.
-/
def Alternates (log : List Entry) : Prop :=
  ∀ earlier entry later, log = earlier ++ entry :: later →
    (∀ key, entry.change = .opens key → key ∉ unended earlier) ∧
      ∀ key, entry.change = .ends key → key ∈ unended earlier

theorem Alternates.concat {log : List Entry} (h : Alternates log) {entry : Entry}
    (hopens : ∀ key, entry.change = .opens key → key ∉ unended log)
    (hends : ∀ key, entry.change = .ends key → key ∈ unended log) :
    Alternates (log ++ [entry]) := by
  intro earlier e later heq
  rcases List.eq_nil_or_concat later with rfl | ⟨later', last, rfl⟩
  · rcases List.append_inj' heq rfl with ⟨rfl, hlast⟩
    obtain rfl : entry = e := List.singleton_inj.mp hlast
    exact ⟨hopens, hends⟩
  · have hassoc : log ++ [entry] = (earlier ++ e :: later') ++ [last] := by
      rw [heq, List.concat_eq_append, List.append_assoc, List.cons_append]
    exact h earlier e later' (List.append_inj' hassoc rfl).1

/-- At every moment the live waits are the registrations that the log leaves open. -/
theorem keys_moment {S κ : Type} [Sources S κ] (sources : S) (commands : List (Command S))
    (n : Nat) :
    (moment sources commands n).queue.waits.waits.map Wait.key =
        unended (moment sources commands n).log ∧
      Alternates (moment sources commands n).log := by
  refine moment_change_induction
    (p := fun log waits => waits.map Wait.key = unended log ∧ Alternates log) ?_ ?_
    sources commands n
  · refine ⟨rfl, ?_⟩
    intro earlier entry later heq
    simp at heq
  · rintro sources log entry before after hkeyed heffect ⟨hkeys, halternates⟩
    refine ⟨?_, halternates.concat ?_ ?_⟩
    · rw [unended_concat, ← hkeys]
      exact heffect.map_key hkeyed
    · intro key hopens
      rw [hopens] at heffect
      rw [← hkeys]
      exact heffect.2.2.1
    · intro key hends
      rw [hends] at heffect
      rcases heffect with ⟨older, wait, younger, rfl, rfl, -⟩
      rw [← hkeys]
      exact List.mem_map_of_mem (by simp)

/-! ## Counting -/

/-- How an entry counts, told by the change that it stands for. -/
theorem Entry.counts (entry : Entry) :
    match entry.change with
    | .opens _ =>
      entry.isStored = true ∧ entry.isTaken = false ∧ entry.isCancelled = false ∧
        entry.isReset = false
    | .ends _ =>
      entry.isStored = false ∧ entry.isTaken = !entry.isCancelled ∧ entry.isReset = false
    | .clears => entry.isReset = true
    | .posts .. | .keeps =>
      entry.isStored = false ∧ entry.isTaken = false ∧ entry.isCancelled = false ∧
        entry.isReset = false := by
  rcases entry with ⟨call, answer⟩
  cases call with
  | register type =>
      rcases answer with ⟨_ | _⟩ | _ | _ | _ | _ <;> exact ⟨rfl, rfl, rfl, rfl⟩
  | registerFor requestor type =>
      rcases answer with ⟨_ | _⟩ | _ | _ | _ | _ <;> exact ⟨rfl, rfl, rfl, rfl⟩
  | cancel number type =>
      rcases answer with _ | ⟨_ | _⟩ | _ | _ | _
      all_goals first | exact ⟨rfl, rfl, rfl⟩ | exact ⟨rfl, rfl, rfl, rfl⟩
  | scan mode =>
      rcases mode with _ | _
      · exact ⟨rfl, rfl, rfl, rfl⟩
      · rcases answer with _ | _ | ⟨_ | _⟩ | _ | _
        all_goals first | exact ⟨rfl, rfl, rfl⟩ | exact ⟨rfl, rfl, rfl, rfl⟩
  | post recipient type value => exact ⟨rfl, rfl, rfl, rfl⟩
  | readType type mode => exact ⟨rfl, rfl, rfl, rfl⟩
  | reset => rfl
  | renumber number => exact ⟨rfl, rfl, rfl, rfl⟩

theorem countSince_concat (p : Entry → Bool) (log : List Entry) {entry : Entry}
    (h : entry.isReset = false) :
    countSince p (log ++ [entry]) = countSince p log + if p entry then 1 else 0 := by
  rw [countSince, List.rtakeWhile_concat_pos _ _ _ (by simp [h]), List.countP_append,
    List.countP_singleton]
  rfl

theorem countSince_concat_reset (p : Entry → Bool) (log : List Entry) {entry : Entry}
    (h : entry.isReset = true) : countSince p (log ++ [entry]) = 0 := by
  rw [countSince, List.rtakeWhile_concat_neg _ _ _ (by simp [h]), List.countP_nil]

/-- What is live, taken or cancelled since the last reset is what was registered since. -/
theorem length_moment {S κ : Type} [Sources S κ] (sources : S) (commands : List (Command S))
    (n : Nat) :
    let r := moment sources commands n
    r.queue.waits.waits.length + countSince Entry.isTaken r.log +
        countSince Entry.isCancelled r.log =
      countSince Entry.isStored r.log := by
  refine moment_change_induction
    (p := fun log waits =>
      waits.length + countSince Entry.isTaken log + countSince Entry.isCancelled log =
        countSince Entry.isStored log) rfl ?_ sources commands n
  intro sources log entry before after hkeyed heffect hcount
  have hentry := entry.counts
  cases hchange : entry.change with
  | opens key =>
      rw [hchange] at heffect hentry
      rcases heffect with ⟨rfl, -⟩
      rcases hentry with ⟨hstored, htaken, hcancelled, hreset⟩
      simp only [countSince_concat _ _ hreset, hstored, htaken, hcancelled, List.length_append,
        List.length_singleton, ↓reduceIte, Bool.false_eq_true]
      omega
  | ends key =>
      rw [hchange] at heffect hentry
      rcases heffect with ⟨older, wait, younger, -, rfl, rfl⟩
      rcases hentry with ⟨hstored, htaken, hreset⟩
      simp only [countSince_concat _ _ hreset, hstored, htaken, List.length_append,
        List.length_cons, ↓reduceIte, Bool.false_eq_true] at hcount ⊢
      cases entry.isCancelled
      all_goals
        simp only [Bool.not_true, Bool.not_false, ↓reduceIte, Bool.false_eq_true]
        omega
  | posts recipient type value =>
      rw [hchange] at heffect hentry
      rcases hentry with ⟨hstored, htaken, hcancelled, hreset⟩
      have hlength : after.length = before.length := by
        simp only [Change.Effect] at heffect
        subst heffect
        cases Sources.delivery sources type <;> simp
      simpa only [countSince_concat _ _ hreset, hstored, htaken, hcancelled, hlength,
        ↓reduceIte, Bool.false_eq_true, Nat.add_zero] using hcount
  | clears =>
      rw [hchange] at heffect hentry
      obtain rfl : after = [] := heffect
      have hreset : entry.isReset = true := hentry
      simp only [countSince_concat_reset _ _ hreset, List.length_nil]
  | keeps =>
      rw [hchange] at heffect hentry
      obtain rfl : after = before := heffect
      rcases hentry with ⟨hstored, htaken, hcancelled, hreset⟩
      simpa only [countSince_concat _ _ hreset, hstored, htaken, hcancelled,
        ↓reduceIte, Bool.false_eq_true, Nat.add_zero] using hcount

/-! ## Sleeping -/

section Sleep

variable {Ω S κ : Type} [Host Ω S] [Sources S κ] {clock : Clock Ω} {hook : Ω → Ω}
  {p : WaitList → Prop}

theorem sleepUntil_keeps (hhook : ∀ host : Ω, p (Host.queue host).waits →
      p (Host.queue (hook host)).waits)
    (hnow : ∀ host : Ω, p (Host.queue host).waits → p (Host.queue (clock.now host).2).waits)
    (hidle : ∀ host : Ω, p (Host.queue host).waits → p (Host.queue (clock.idle host)).waits)
    (target : Time) (rounds : Nat) {host : Ω} (h : p (Host.queue host).waits) :
    p (Host.queue (sleepUntil clock hook target rounds host).2).waits := by
  induction rounds generalizing host with
  | zero => exact h
  | succ rounds ih =>
      have hpoll : p (Host.queue (poll hook host .peek).2).waits := by
        rw [queue_poll, Queue.scan_peek_waits]
        exact hhook host h
      rcases hresult : poll hook host .peek with ⟨event?, host'⟩
      rw [hresult] at hpoll
      cases event? with
      | some event =>
          rw [sleepUntil_of_ready hresult]
          exact hpoll
      | none =>
          by_cases hle : target ≤ (clock.now host').1
          · rw [sleepUntil_of_elapsed hresult hle]
            exact hnow host' hpoll
          · rw [sleepUntil_of_early hresult hle]
            exact ih (hidle _ (hnow host' hpoll))

/-- A sleep does nothing to the waits beyond what hook, clock and idling do. -/
theorem sleep_keeps (hhook : ∀ host : Ω, p (Host.queue host).waits →
      p (Host.queue (hook host)).waits)
    (hnow : ∀ host : Ω, p (Host.queue host).waits → p (Host.queue (clock.now host).2).waits)
    (hidle : ∀ host : Ω, p (Host.queue host).waits → p (Host.queue (clock.idle host)).waits)
    (millis : Time) {host : Ω} (h : p (Host.queue host).waits) :
    p (Host.queue (sleep clock hook millis host).2).waits :=
  sleepUntil_keeps hhook hnow hidle _ _ (hnow host h)

end Sleep

/-! ## The account -/

/--
At every moment of every run the live waits are the registrations that no later
entry of the log ends, in order.  An end in the log always ended one of them, as
their keys are distinct and no key is opened while it is open.  So they are as
many as were registered since the last reset, less those taken and cancelled.
The polls of a sleep end none.
-/
theorem registrations_end_once {S κ : Type} [Sources S κ] (sources : S)
    (commands : List (Command S)) (n : Nat) :
    let r := moment sources commands n
    (r.queue.waits.waits.map Wait.key = unended r.log ∧ (unended r.log).Nodup ∧
        Alternates r.log) ∧
      (r.queue.pending = (unended r.log).length ∧
        r.queue.pending + countSince Entry.isTaken r.log + countSince Entry.isCancelled r.log =
          countSince Entry.isStored r.log ∧
        r.queue.pending ≤ waitLimit) ∧
      ∀ (Ω : Type) [Host Ω S] (clock : Clock Ω) (hook : Ω → Ω) (millis : Time) (key : WaitKey),
        let IsLive := fun host : Ω => key ∈ (Host.queue host).waits.waits.map Wait.key
        (∀ host, IsLive host → IsLive (hook host)) →
          (∀ host, IsLive host → IsLive (clock.now host).2) →
          (∀ host, IsLive host → IsLive (clock.idle host)) →
          ∀ host, IsLive host → IsLive (sleep clock hook millis host).2 := by
  have hsound := Recorded.sound_moment sources commands n
  rcases keys_moment sources commands n with ⟨hkeys, halternates⟩
  have hpending : (moment sources commands n).queue.waits.waits.length =
      (moment sources commands n).queue.pending := hsound.wellFormed.length_waits
  refine ⟨⟨hkeys, hkeys ▸ hsound.keyed.nodup, halternates⟩, ⟨?_, ?_, ?_⟩, ?_⟩
  · rw [← hkeys, List.length_map, hpending]
  · rw [← hpending]
    exact length_moment sources commands n
  · exact hsound.wellFormed.size_le
  · intro Ω _ clock hook millis key IsLive hhook hnow hidle host h
    exact sleep_keeps (p := fun l => key ∈ l.waits.map Wait.key) hhook hnow hidle millis h

/-- A registration outlives a sleep that ends at its deadline. -/
theorem registration_outlives_sleep :
    let commands : List (Command PostedOnly) := [.operation (.call (.register 7))]
    let q := (moment PostedOnly.mk commands 1).queue
    let clock : Clock (Queue PostedOnly) := ⟨fun q => (0, q), id⟩
    (1, 7) ∈ q.waits.waits.map Wait.key ∧
      (1, 7) ∈ (sleep clock id 0 q).2.waits.waits.map Wait.key := by
  intro commands q clock
  have hlive : (1, 7) ∈ q.waits.waits.map Wait.key := by decide
  have hrun := registrations_end_once PostedOnly.mk commands 1
  exact ⟨hlive, hrun.2.2 (Queue PostedOnly) clock id 0 (1, 7) (fun _ h => h) (fun _ h => h)
    (fun _ h => h) q hlive⟩

end DeviceLayer
