import DeviceLayer.Board
import DeviceLayer.Proofs.Event.Account

/-!
# What a wait hears of the posts

A live wait of a posted type is satisfied by the posts that were made since its
registration and address its key, and it reports the last of them.  Numbers and
nodes are given out again and again, so this says that nothing of an earlier
wait is left in a new one.

The sources must classify the types once and for all.

Main results:

- Theorem {lit}`lastPost?_concat_of_ne`: a later post takes the place of an
  earlier one.
- Theorem {lit}`explains_moment`: at every moment the log explains each live wait.
- Theorem {lit}`posts_decide_waits`: the log since the registration decides
  whether a wait is satisfied and what a scan reports of it.
-/

namespace DeviceLayer

/-! ## Sources that classify types once -/

/-- Sources that never change which types they sample. -/
class Sources.Static (S : Type) {κ : outParam Type} [Sources S κ] : Prop where
  kindOf_eq : ∀ (s s' : S) (type : EventType), kindOf s type = kindOf s' type

instance : Sources.Static PostedOnly where
  kindOf_eq _ _ _ := rfl

instance : Sources.Static Board where
  kindOf_eq _ _ _ := rfl

section Static

variable {S κ : Type} [Sources S κ]

theorem delivery_eq [Sources.Static S] (s s' : S) (type : EventType) :
    Sources.delivery s type = Sources.delivery s' type := by
  rw [Sources.delivery, Sources.delivery, Sources.Static.kindOf_eq s s']

theorem kindOf_eq_none_of_posted {s : S} {type : EventType}
    (h : Sources.delivery s type = .posted) : Sources.kindOf s type = none := by
  cases hkind : Sources.kindOf s type with
  | none => rfl
  | some kind => simp [Sources.delivery, hkind] at h

end Static

/-! ## The last post since a registration -/

/-- The value that a change posts to the wait with this key. -/
def Change.value? (key : WaitKey) : Change → Option EventValue
  | .posts recipient type value => if key.isAddressed recipient type then some value else none
  | _ => none

/-- The entries after the last one that registered this key. -/
def sinceOpened (key : WaitKey) (log : List Entry) : List Entry :=
  log.rtakeWhile fun entry => entry.change.opened? != some key

/-- The value last posted to a key since it was registered. -/
def lastPost? (key : WaitKey) (log : List Entry) : Option EventValue :=
  ((sinceOpened key log).filterMap fun entry => entry.change.value? key).getLast?

section Log

variable {key : WaitKey} {log : List Entry} {entry : Entry}

theorem sinceOpened_concat_of_eq (log : List Entry) (h : entry.change.opened? = some key) :
    sinceOpened key (log ++ [entry]) = [] :=
  List.rtakeWhile_concat_neg _ _ _ (by simp [h])

theorem sinceOpened_concat_of_ne (log : List Entry) (h : entry.change.opened? ≠ some key) :
    sinceOpened key (log ++ [entry]) = sinceOpened key log ++ [entry] :=
  List.rtakeWhile_concat_pos _ _ _ (by simpa using h)

/-- A later post takes the place of an earlier one. -/
theorem lastPost?_concat_of_ne (log : List Entry) (h : entry.change.opened? ≠ some key) :
    lastPost? key (log ++ [entry]) = (entry.change.value? key).or (lastPost? key log) := by
  rw [lastPost?, sinceOpened_concat_of_ne log h, List.filterMap_append, List.getLast?_append]
  congr 1
  cases hvalue : entry.change.value? key <;> simp [hvalue]

theorem Entry.change_eq_posts_iff {recipient : Recipient} {type : EventType}
    {value : EventValue} :
    entry.change = .posts recipient type value ↔
      entry.call = .post recipient type value := by
  constructor
  · intro h
    unfold change at h
    split at h
    case h_5 =>
      rcases Change.posts.inj h with ⟨rfl, rfl, rfl⟩
      rfl
    all_goals simp at h
  · intro h
    rcases entry with ⟨call, answer⟩
    obtain rfl : call = .post recipient type value := h
    rfl

/-- A key is posted to when its type is, at its number or at everyone. -/
theorem value?_eq_some_iff {value : EventValue} :
    entry.change.value? key = some value ↔
      ∃ recipient, entry.call = .post recipient key.2 value ∧
        (recipient = everyone ∨ recipient = key.1) := by
  constructor
  · intro h
    cases hchange : entry.change with
    | posts recipient type value' =>
        simp only [hchange, Change.value?, WaitKey.isAddressed, Option.ite_none_right_eq_some,
          Option.some.injEq, Bool.and_eq_true, Bool.or_eq_true, beq_iff_eq] at h
        rcases h with ⟨⟨rfl, hrecipient⟩, rfl⟩
        exact ⟨recipient, Entry.change_eq_posts_iff.mp hchange, hrecipient⟩
    | _ => simp [hchange, Change.value?] at h
  · rintro ⟨recipient, hcall, hrecipient⟩
    rw [Entry.change_eq_posts_iff.mpr hcall]
    simp [Change.value?, WaitKey.isAddressed, hrecipient]

/-- There is a last post exactly when there is a post. -/
theorem isSome_lastPost?_iff :
    (lastPost? key log).isSome = true ↔
      ∃ entry ∈ sinceOpened key log, ∃ recipient value,
        entry.call = .post recipient key.2 value ∧
          (recipient = everyone ∨ recipient = key.1) := by
  constructor
  · intro h
    rcases Option.isSome_iff_exists.mp h with ⟨value, hlast⟩
    rcases List.mem_filterMap.mp (List.mem_of_getLast? hlast) with ⟨entry, hentry, hvalue⟩
    rcases value?_eq_some_iff.mp hvalue with ⟨recipient, hpost⟩
    exact ⟨entry, hentry, recipient, value, hpost⟩
  · rintro ⟨entry, hentry, recipient, value, hpost⟩
    have hvalue := value?_eq_some_iff.mpr ⟨recipient, hpost⟩
    rw [lastPost?, Option.isSome_iff_ne_none, Ne, List.getLast?_eq_none_iff]
    exact List.ne_nil_of_mem (List.mem_filterMap.mpr ⟨entry, hentry, hvalue⟩)

end Log

/-! ## What the log says of a live wait -/

section Explains

variable {S κ : Type} [Sources S κ]

/-- The log holds the registration of a wait, and the posts since then decide the wait. -/
structure Explains (sources : S) (log : List Entry) (wait : Wait) : Prop where
  opened : ∃ earlier opening, log = earlier ++ opening :: sinceOpened wait.key log ∧
    opening.change = .opens wait.key
  unended : ∀ entry ∈ sinceOpened wait.key log, entry.change.endsKey wait.key = false
  posted : Sources.delivery sources wait.type = .posted →
    wait.posted? = lastPost? wait.key log
  sampled : Sources.delivery sources wait.type = .sampled → wait.phase = .pending

variable {sources : S} {log : List Entry} {entry : Entry} {wait : Wait}

/-- A wait that has just been opened is explained by the entry that opened it. -/
theorem explains_opened {key : WaitKey} (h : entry.change = .opens key) {wait : Wait}
    (hkey : wait.key = key) (hphase : wait.phase = .pending) :
    Explains sources (log ++ [entry]) wait := by
  subst hkey
  have hopened : entry.change.opened? = some wait.key := by rw [h]; rfl
  have hsince : sinceOpened wait.key (log ++ [entry]) = [] := sinceOpened_concat_of_eq log hopened
  refine ⟨⟨log, entry, ?_, h⟩, ?_, ?_, fun _ => hphase⟩
  · rw [hsince]
  · rw [hsince]
    simp
  · intro _
    rw [Wait.posted?_eq_none_iff.mpr hphase, lastPost?, hsince]
    rfl

/-- An entry that neither opens nor ends the key of a wait adds its post, if it has one. -/
theorem Explains.concat (h : Explains sources log wait)
    (hopened : entry.change.opened? ≠ some wait.key)
    (hends : entry.change.endsKey wait.key = false) {wait' : Wait} (hkey : wait'.key = wait.key)
    (hposted : Sources.delivery sources wait.type = .posted →
      wait'.posted? = (entry.change.value? wait.key).or wait.posted?)
    (hsampled : Sources.delivery sources wait.type = .sampled → wait'.phase = wait.phase) :
    Explains sources (log ++ [entry]) wait' := by
  have htype : wait'.type = wait.type := congrArg Prod.snd hkey
  have hsince := sinceOpened_concat_of_ne log hopened
  rcases h with ⟨⟨earlier, opening, hlog, hopening⟩, hunended, hold, hpending⟩
  refine ⟨⟨earlier, opening, ?_, ?_⟩, ?_, ?_, ?_⟩
  · rw [hkey, hsince]
    conv_lhs => rw [hlog]
    rw [List.append_assoc, List.cons_append]
  · rw [hkey]
    exact hopening
  · rw [hkey, hsince]
    intro e he
    rcases List.mem_append.mp he with hearlier | hlast
    · exact hunended e hearlier
    · rw [List.mem_singleton.mp hlast]
      exact hends
  · intro hdelivery
    rw [htype] at hdelivery
    rw [hkey, hposted hdelivery, hold hdelivery, lastPost?_concat_of_ne log hopened]
  · intro hdelivery
    rw [htype] at hdelivery
    rw [hsampled hdelivery, hpending hdelivery]

/-- The same wait stays explained by an entry that does not concern it. -/
theorem Explains.concat_of_other (h : Explains sources log wait)
    (hopened : entry.change.opened? ≠ some wait.key)
    (hends : entry.change.endsKey wait.key = false)
    (hvalue : entry.change.value? wait.key = none) : Explains sources (log ++ [entry]) wait := by
  refine h.concat hopened hends rfl ?_ (fun _ => rfl)
  intro _
  rw [hvalue, Option.none_or]

/-- A wait that a post reaches has its value from then on. -/
theorem posted?_receive (wait : Wait) (recipient : Recipient) (type : EventType)
    (value : EventValue) :
    (wait.receive recipient type value).posted? =
      ((Change.posts recipient type value).value? wait.key).or wait.posted? := by
  simp only [Wait.receive, Change.value?]
  split
  · rfl
  · rfl

/-- A post does not address the waits of a type that is delivered in another way. -/
theorem isAddressed_of_delivery_ne {type : EventType}
    (hne : Sources.delivery sources wait.type ≠ Sources.delivery sources type)
    (recipient : Recipient) : wait.key.isAddressed recipient type = false := by
  have htype : (wait.type == type) = false := by
    rw [beq_eq_false_iff_ne]
    rintro rfl
    exact hne rfl
  rw [WaitKey.isAddressed, Wait.key, htype, Bool.false_and]

/-- A post to a sampled type leaves every wait explained as it is. -/
theorem Explains.concat_ignored (h : Explains sources log wait) {recipient : Recipient}
    {type : EventType} {value : EventValue} (hchange : entry.change = .posts recipient type value)
    (hdelivery : Sources.delivery sources type = .sampled) :
    Explains sources (log ++ [entry]) wait := by
  refine h.concat (by simp [hchange, Change.opened?]) (by rw [hchange]; rfl) rfl ?_ (fun _ => rfl)
  intro hposted
  have hne : Sources.delivery sources wait.type ≠ Sources.delivery sources type := by
    rw [hposted, hdelivery]
    exact Delivery.noConfusion
  simp only [hchange, Change.value?, isAddressed_of_delivery_ne hne, Bool.false_eq_true,
    ↓reduceIte, Option.none_or]

/-- A post to a posted type leaves every wait explained as it receives the post. -/
theorem Explains.concat_received (h : Explains sources log wait) {recipient : Recipient}
    {type : EventType} {value : EventValue} (hchange : entry.change = .posts recipient type value)
    (hdelivery : Sources.delivery sources type = .posted) :
    Explains sources (log ++ [entry]) (wait.receive recipient type value) := by
  refine h.concat (by simp [hchange, Change.opened?]) (by rw [hchange]; rfl)
    (wait.key_receive recipient type value) ?_ ?_
  · intro _
    rw [hchange]
    exact posted?_receive wait recipient type value
  · intro hsampled
    have hne : Sources.delivery sources wait.type ≠ Sources.delivery sources type := by
      rw [hsampled, hdelivery]
      exact Delivery.noConfusion
    simp only [Wait.receive, isAddressed_of_delivery_ne hne, Bool.false_eq_true, ↓reduceIte]

/-- A change of the waits and its entry in the log keep every live wait explained. -/
theorem Change.Effect.explains [Sources.Static S] {sources' : S} {before after : List Wait}
    (heffect : entry.change.Effect sources' before after) (hkeyed : Keyed before)
    (h : ∀ wait ∈ before, Explains sources log wait) :
    ∀ wait ∈ after, Explains sources (log ++ [entry]) wait := by
  cases hchange : entry.change with
  | opens key =>
      rw [hchange] at heffect
      rcases heffect with ⟨rfl, -, hfresh, -⟩
      intro wait hwait
      rcases List.mem_append.mp hwait with hold | hnew
      · refine (h wait hold).concat_of_other ?_ (by rw [hchange]; rfl) (by rw [hchange]; rfl)
        intro heq
        rw [hchange] at heq
        exact hfresh (Option.some.inj heq ▸ List.mem_map_of_mem hold)
      · rw [List.mem_singleton.mp hnew]
        exact explains_opened hchange rfl rfl
  | ends key =>
      rw [hchange] at heffect
      rcases heffect with ⟨older, ended, younger, rfl, rfl, rfl⟩
      intro wait hwait
      have hbefore : wait ∈ older ++ ended :: younger := by
        rcases List.mem_append.mp hwait with hold | hyoung
        · exact List.mem_append_left _ hold
        · exact List.mem_append_right _ (List.mem_cons_of_mem _ hyoung)
      have hne : ended.key ≠ wait.key := fun heq =>
        key_notMem_of_nodup hkeyed.nodup (heq ▸ List.mem_map_of_mem hwait)
      refine (h wait hbefore).concat_of_other (by simp [hchange, opened?]) ?_
        (by rw [hchange]; rfl)
      rw [hchange]
      exact beq_eq_false_iff_ne.mpr hne
  | posts recipient type value =>
      rw [hchange] at heffect
      simp only [Effect, delivery_eq sources' sources] at heffect
      cases hdelivery : Sources.delivery sources type with
      | sampled =>
          simp only [hdelivery] at heffect
          subst heffect
          intro wait hwait
          exact (h wait hwait).concat_ignored hchange hdelivery
      | posted =>
          simp only [hdelivery] at heffect
          subst heffect
          intro wait hwait
          rcases List.mem_map.mp hwait with ⟨old, hold, rfl⟩
          exact (h old hold).concat_received hchange hdelivery
  | clears =>
      rw [hchange] at heffect
      obtain rfl : after = [] := heffect
      simp
  | keeps =>
      rw [hchange] at heffect
      obtain rfl : after = before := heffect
      intro wait hwait
      exact (h wait hwait).concat_of_other (by simp [hchange, opened?]) (by rw [hchange]; rfl)
        (by rw [hchange]; rfl)

/-- At every moment the log explains each live wait. -/
theorem explains_moment [Sources.Static S] (sources : S) (commands : List (Command S))
    (n : Nat) :
    ∀ wait ∈ (moment sources commands n).queue.waits.waits,
      Explains sources (moment sources commands n).log wait := by
  refine moment_change_induction
    (p := fun log waits => ∀ wait ∈ waits, Explains sources log wait) ?_ ?_ sources commands n
  · simp
  · intro sources' log entry before after hkeyed heffect h
    exact heffect.explains hkeyed h

/-- The log alone decides what a scan samples of a wait of a posted type. -/
theorem Explains.sample [Sources.Static S] (h : Explains sources log wait)
    (hposted : Sources.delivery sources wait.type = .posted) (s : S) (mode : ReadMode) :
    Sources.sample s wait mode = (lastPost? wait.key log, s) := by
  have hkind := kindOf_eq_none_of_posted ((delivery_eq s sources wait.type).trans hposted)
  rw [Sources.sample_of_kindOf_eq_none hkind, h.posted hposted]

/-- A wait of a posted type that was sampled in vain was not posted to. -/
theorem Explains.lastPost?_eq_none [Sources.Static S] (h : Explains sources log wait)
    {mode : ReadMode} (hvain : ∃ s : S, (Roster.observe mode s wait).1 = none)
    (hposted : Sources.delivery sources wait.type = .posted) : lastPost? wait.key log = none := by
  rcases hvain with ⟨s, hnone⟩
  rwa [← Roster.sample_eq_observe, h.sample hposted] at hnone

end Explains

/-! ## Delivery -/

section Delivery

variable {S κ : Type} [Sources S κ] [Sources.Static S]

/--
At every moment of every run, which may lie between the hook and the scan of a
poll, the log reaches back to the registration of each live wait and holds no
end of it since.  If its type is posted, the wait is satisfied exactly if a post
since then addressed it, by the last such post; if its type is sampled, no post
has signaled it.  A scan passes over waits that were not posted to and reports
the last post of the wait that it finds.
-/
theorem posts_decide_waits (sources : S) (commands : List (Command S)) (n : Nat) :
    let r := moment sources commands n
    let waits := r.queue.waits.waits
    let IsPosted := fun wait : Wait => Sources.delivery sources wait.type = .posted
    (∀ wait ∈ waits,
        (∃ earlier opening, r.log = earlier ++ opening :: sinceOpened wait.key r.log ∧
          opening.change = .opens wait.key ∧
          ∀ entry ∈ sinceOpened wait.key r.log, entry.change.endsKey wait.key = false) ∧
        (IsPosted wait →
          (∀ (s : S) mode, Sources.sample s wait mode = (lastPost? wait.key r.log, s)) ∧
          ((lastPost? wait.key r.log).isSome = true ↔
            ∃ entry ∈ sinceOpened wait.key r.log, ∃ recipient value,
              entry.call = .post recipient wait.type value ∧
                (recipient = everyone ∨ recipient = wait.number))) ∧
        (¬ IsPosted wait → wait.phase = .pending)) ∧
      ∀ mode,
        match (r.queue.scan mode).1 with
        | none => ∀ wait ∈ waits, IsPosted wait → lastPost? wait.key r.log = none
        | some event =>
          ∃ older wait younger, waits = older ++ wait :: younger ∧
            (∀ w ∈ older, IsPosted w → lastPost? w.key r.log = none) ∧
            wait.key = (event.number, event.type) ∧
            (IsPosted wait → lastPost? wait.key r.log = some event.value) := by
  intro r waits IsPosted
  have hexplains : ∀ wait ∈ waits, Explains sources r.log wait :=
    explains_moment sources commands n
  have hwf : r.queue.waits.WellFormed := (Recorded.sound_moment sources commands n).wellFormed
  refine ⟨?_, ?_⟩
  · intro wait hwait
    have h := hexplains wait hwait
    rcases h.opened with ⟨earlier, opening, hlog, hopening⟩
    refine ⟨⟨earlier, opening, hlog, hopening, h.unended⟩, ?_, ?_⟩
    · intro hposted
      exact ⟨h.sample hposted, isSome_lastPost?_iff⟩
    · intro hnot
      apply h.sampled
      cases hdelivery : Sources.delivery sources wait.type with
      | sampled => rfl
      | posted => exact absurd hdelivery hnot
  · intro mode
    rw [Queue.scan_fst hwf]
    cases hevent : (Roster.scanFrom mode r.queue.sources waits).1 with
    | none =>
        intro wait hwait
        exact (hexplains wait hwait).lastPost?_eq_none
          (Roster.observe_of_scanFrom_eq_none hevent wait hwait)
    | some event =>
        obtain ⟨older, wait, younger, s, value, hsplit, hvain, hvalue, rfl, -⟩ :=
          Roster.scanFrom_of_some hevent
        refine ⟨older, wait, younger, hsplit, ?_, rfl, ?_⟩
        · intro w hw
          have hmem : w ∈ waits := hsplit ▸ List.mem_append_left _ hw
          exact (hexplains w hmem).lastPost?_eq_none (hvain w hw)
        · intro hposted
          have hmem : wait ∈ waits := hsplit ▸ List.mem_append_right _ List.mem_cons_self
          rwa [← Roster.sample_eq_observe, (hexplains wait hmem).sample hposted] at hvalue

end Delivery

/-- A wait is satisfied by a post of a hook and taken; then its number is given out again. -/
def reusedNumber : List (Command PostedOnly) :=
  [.operation (.call (.register 7)),
    .poll .take [.operation (.call (.post everyone 7 5))],
    .operation (.call (.renumber noEvent)),
    .operation (.call (.register 7)),
    .poll .peek [.operation (.call (.post 1 7 9))]]

/-- The new wait does not hear of the post to the old one. -/
theorem reused_number_hears_later_post :
    let before := moment PostedOnly.mk reusedNumber 5
    let after := moment PostedOnly.mk reusedNumber 6
    let wait : Wait := ⟨1, 7, .signaled, 9⟩
    ⟨1, 7, .pending, 0⟩ ∈ before.queue.waits.waits ∧ lastPost? (1, 7) before.log = none ∧
      wait ∈ after.queue.waits.waits ∧
      Sources.sample PostedOnly.mk wait .take = (lastPost? (1, 7) after.log, PostedOnly.mk) ∧
      lastPost? (1, 7) after.log = some 9 := by
  intro before after wait
  have hlive : wait ∈ after.queue.waits.waits := by decide
  have hlater := (posts_decide_waits PostedOnly.mk reusedNumber 6).1 wait hlive
  exact ⟨by decide, by decide, hlive, (hlater.2.1 rfl).1 PostedOnly.mk .take, by decide⟩

end DeviceLayer
