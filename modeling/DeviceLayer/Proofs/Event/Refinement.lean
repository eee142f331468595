import DeviceLayer.Event.WellFormed
import DeviceLayer.Proofs.Event.Effect

/-!
# The pool of nodes simulates a plain list

In a well-formed queue every call has the answer and the effect that it has on
the roster of the queue, and leaves the queue well formed.  So whatever is done
to a new queue, the nodes can be forgotten.

Main results:

- Theorem {lit}`Queue.refines_perform`: one call on the nodes is one call on the
  plain list.
- Theorem {lit}`moment_change_induction`: what every change of the waits keeps
  holds throughout a run.
- Theorem {lit}`pool_refines_list`: at every moment the nodes are two chains, and
  the live one is the plain list.
-/

namespace DeviceLayer

namespace WaitList

variable {l : WaitList} {p : Wait → Bool}

/-- Every node is live or unused, and met once. -/
theorem WellFormed.count_eq_one (hl : l.WellFormed) (slot : Slot) :
    (l.live ++ l.spare).count slot = 1 := by
  apply List.count_eq_one_of_mem hl.nodup
  by_contra hnot
  have hsub : slot :: (l.live ++ l.spare) ⊆ List.finRange waitLimit :=
    fun s _ => List.mem_finRange s
  have hle := (List.nodup_cons.mpr ⟨hnot, hl.nodup⟩).length_le_of_subset hsub
  rw [List.length_cons, hl.length_eq, List.length_finRange] at hle
  omega

/-! ## Looking for a wait -/

theorem locateAmong_eq_none {before : Option Slot} {slots : List Slot}
    (h : l.locateAmong p before slots = none) : ∀ slot ∈ slots, p (l.wait slot) = false := by
  induction slots generalizing before with
  | nil => simp
  | cons first rest ih =>
      simp only [locateAmong] at h
      split at h
      · contradiction
      · rename_i hfirst
        intro slot hslot
        rcases List.mem_cons.mp hslot with rfl | hrest
        · simpa using hfirst
        · exact ih h slot hrest

/-- The search stops at the first match and knows the node before it. -/
theorem locateAmong_eq_some {before b : Option Slot} {slots : List Slot} {slot : Slot}
    (h : l.locateAmong p before slots = some (b, slot)) :
    ∃ older younger, slots = older ++ slot :: younger ∧ b = older.getLast?.or before ∧
      (∀ s ∈ older, p (l.wait s) = false) ∧ p (l.wait slot) = true := by
  induction slots generalizing before with
  | nil => simp [locateAmong] at h
  | cons first rest ih =>
      simp only [locateAmong] at h
      split at h
      · rename_i hfirst
        rcases Prod.mk.inj (Option.some.inj h) with ⟨rfl, rfl⟩
        exact ⟨[], rest, rfl, by simp, by simp, hfirst⟩
      · rename_i hfirst
        rcases ih h with ⟨older, younger, rfl, rfl, holder, hslot⟩
        refine ⟨first :: older, younger, rfl, ?_, ?_, hslot⟩
        · cases hlast : older.getLast? <;> simp [List.getLast?_cons, hlast]
        · intro s hs
          rcases List.mem_cons.mp hs with rfl | hrest
          · simpa using hfirst
          · exact holder s hrest

/-- A located wait splits the live ones, and nothing older matches. -/
theorem locate_eq_some {before : Option Slot} {slot : Slot}
    (h : l.locate p = some (before, slot)) :
    ∃ older younger, l.live = older ++ slot :: younger ∧ before = older.getLast? ∧
      (∀ s ∈ older, p (l.wait s) = false) ∧ p (l.wait slot) = true := by
  rcases locateAmong_eq_some h with ⟨older, younger, hlive, hbefore, holder, hslot⟩
  exact ⟨older, younger, hlive, by simpa using hbefore, holder, hslot⟩

/-! ## Posting to several nodes -/

/-- Signaling several nodes rewrites their waits and keeps every link. -/
theorem WellFormed.signalAll (hl : l.WellFormed) (targets : List Slot) (value : EventValue) :
    let l' := targets.foldl (fun l slot => l.signal slot value) l
    l'.WellFormed ∧ l'.live = l.live ∧ l'.spare = l.spare ∧ l'.lastNumber = l.lastNumber ∧
      (∀ s ∈ targets, l'.wait s = ⟨(l.wait s).number, (l.wait s).type, .signaled, value⟩) ∧
      ∀ s ∉ targets, l'.wait s = l.wait s := by
  induction targets generalizing l with
  | nil => exact ⟨hl, rfl, rfl, rfl, by simp, fun s _ => rfl⟩
  | cons slot rest ih =>
      rcases hl.signal slot value with ⟨hwf, hlive, hspare, hwait⟩
      rcases ih hwf with ⟨hwf', hlive', hspare', hlast', hmem, hnot⟩
      refine ⟨hwf', hlive'.trans hlive, hspare'.trans hspare, hlast', fun s hs => ?_,
        fun s hs => ?_⟩
      · rw [List.foldl_cons]
        by_cases hrest : s ∈ rest
        · -- a node that is named twice is signaled twice, which once would do
          rw [hmem s hrest, hwait]
          by_cases heq : slot = s <;> simp [heq]
        · have heq : slot = s := by simpa [hrest, eq_comm] using hs
          rw [hnot s hrest, hwait, if_pos heq]
      · have hne : slot ≠ s := (List.ne_of_not_mem_cons hs).symm
        rw [List.foldl_cons, hnot s (List.not_mem_of_not_mem_cons hs), hwait, if_neg hne]

/-- A post delivers to the plain list of waits. -/
theorem WellFormed.post (hl : l.WellFormed) (recipient : Recipient) (type : EventType)
    (value : EventValue) :
    (l.post recipient type value).WellFormed ∧
      (l.post recipient type value).lastNumber = l.lastNumber ∧
      (l.post recipient type value).waits = Roster.deliver l.waits recipient type value := by
  rcases hl.signalAll (l.targets recipient type) value with ⟨hwf, hlive, -, hlast, hmem, hnot⟩
  refine ⟨hwf, hlast, ?_⟩
  have hnodup : l.live.Nodup := (List.nodup_append.mp hl.nodup).1
  have hwaits : (l.post recipient type value).waits =
      l.live.map fun s =>
        if s ∈ l.targets recipient type then
          ⟨(l.wait s).number, (l.wait s).type, .signaled, value⟩
        else l.wait s := by
    rw [waits, WaitList.post, hlive]
    apply List.map_congr_left
    intro s _
    split
    · exact hmem s ‹_›
    · exact hnot s ‹_›
  rw [hwaits]
  unfold Roster.deliver targets
  split
  · rw [waits, List.map_map]
    apply List.map_congr_left
    intro s hs
    simp [hs]
  · rw [waits, Roster.signalFirst_map _ _ _ hnodup]

/-! ## Numbering -/

/-- The search stops at a candidate exactly if it can be given out. -/
theorem isUnused_waits_iff (l : WaitList) (number : EventNumber) :
    Roster.isUnused l.waits number = true ↔ number ≠ noEvent ∧ l.carries number = false := by
  simp [Roster.isUnused_iff, carries]

/-- Counting from the next candidate shifts the count by one. -/
theorem candidate_add_one (candidate : EventNumber) (i : Nat) :
    candidate + 1 + UInt32.ofNat i = candidate + UInt32.ofNat (i + 1) := by
  rw [Nat.add_comm i 1, UInt32.ofNat_add, ← UInt32.add_assoc]
  rfl

theorem firstUnused_eq (l : WaitList) (fuel : Nat) (candidate : EventNumber) :
    l.firstUnused fuel candidate =
      (((List.range fuel).map fun i => candidate + UInt32.ofNat i).find?
        (Roster.isUnused l.waits)).getD (candidate + UInt32.ofNat fuel) := by
  induction fuel generalizing candidate with
  | zero => simp [firstUnused]
  | succ fuel ih =>
      simp only [firstUnused, ← isUnused_waits_iff, List.range_succ_eq_map, List.map_cons,
        List.map_map]
      have hzero : candidate + UInt32.ofNat 0 = candidate := by simp
      rw [hzero]
      by_cases h : Roster.isUnused l.waits candidate = true
      · simp [h]
      · rw [if_neg h, List.find?_cons_of_neg h, ih]
        simp only [candidate_add_one]
        rfl

/-- The bounded search finds the first number that can be given out. -/
theorem WellFormed.nextNumber_eq {S : Type} (hl : l.WellFormed) (sources : S) :
    l.nextNumber = (Roster.mk l.waits l.lastNumber sources).nextNumber := by
  have hlength : l.waits.length ≤ waitLimit := by
    rw [hl.length_waits]
    exact hl.size_le
  have hsplit : Roster.candidates l.lastNumber =
      ((List.range (waitLimit + 1)).map fun i => l.lastNumber + 1 + UInt32.ofNat i) ++
        [l.lastNumber + 1 + UInt32.ofNat (waitLimit + 1)] := by
    rw [Roster.candidates, List.range_succ, List.map_append]
    rfl
  rw [WaitList.nextNumber, firstUnused_eq, Roster.nextNumber, hsplit, List.find?_append]
  cases hfind : ((List.range (waitLimit + 1)).map fun i =>
      l.lastNumber + 1 + UInt32.ofNat i).find? (Roster.isUnused l.waits) with
  | some number => rfl
  | none =>
      -- the earlier candidates are blocked, so the last one is the number that exists
      rcases Roster.exists_unused hlength l.lastNumber with ⟨number, hmem, hunused⟩
      rw [hsplit, List.mem_append, List.mem_singleton] at hmem
      rcases hmem with hmem | rfl
      · exact absurd hunused (List.find?_eq_none.mp hfind number hmem)
      · rw [List.find?_cons_of_pos hunused]
        rfl

/-- The counter plays no part in the chains of the list. -/
theorem WellFormed.withLastNumber_chains (hl : l.WellFormed) (number : EventNumber) :
    let l' := { l with lastNumber := number }
    l'.WellFormed ∧ l'.live = l.live ∧ l'.spare = l.spare :=
  wellFormed_of_paths { l with lastNumber := number } l.live l.spare hl.live_path hl.spare_path
    hl.nodup hl.length_eq hl.size_eq hl.tail_eq

/-- The counter plays no part in the waits of the list. -/
theorem WellFormed.withLastNumber (hl : l.WellFormed) (number : EventNumber) :
    let l' := { l with lastNumber := number }
    l'.WellFormed ∧ l'.waits = l.waits := by
  rcases hl.withLastNumber_chains number with ⟨hwf, hlive, -⟩
  refine ⟨hwf, ?_⟩
  rw [waits, hlive]
  rfl

end WaitList

/-! ## Calls -/

variable {S κ : Type}

/-- The plain list that a queue stands for. -/
def Queue.toRoster (q : Queue S) : Roster S where
  waits := q.waits.waits
  lastNumber := q.waits.lastNumber
  sources := q.sources

namespace Queue

/--
A call on the nodes has the answer and the effect of a call on the plain list,
and leaves the nodes well formed.
-/
def Refines {α : Type} (result : α × Queue S) (plain : α × Roster S) : Prop :=
  result.2.waits.WellFormed ∧ plain = (result.1, result.2.toRoster)

variable {q : Queue S}

theorem refines_append (hq : q.waits.WellFormed) (number : EventNumber) (type : EventType) :
    Refines (q.append number type) (q.toRoster.append number type) := by
  have hlength : q.toRoster.waits.length = q.waits.size := hq.length_waits
  cases hpush : q.waits.push? number type with
  | none =>
      have hfree := (WaitList.push?_eq_none_iff _ _ _).mp hpush
      have hfull : ¬ q.toRoster.waits.length < waitLimit := by
        rw [hlength, hq.free_eq_none_iff.mp hfree]
        exact Nat.lt_irrefl _
      simp only [append, hpush, Roster.append, hfull, ↓reduceIte]
      exact ⟨hq, rfl⟩
  | some l' =>
      rcases hq.push? hpush with ⟨hwf, hwaits, hlast⟩
      have hroom : q.toRoster.waits.length < waitLimit := by
        rw [hlength]
        refine Nat.lt_of_le_of_ne hq.size_le fun hfull => ?_
        have hnone := hq.free_eq_none_iff.mpr hfull
        rw [(WaitList.push?_eq_none_iff _ number type).mpr hnone] at hpush
        contradiction
      simp only [append, hpush, Roster.append, hroom, ↓reduceIte]
      refine ⟨hwf, ?_⟩
      simp only [toRoster, hwaits, hlast]

theorem refines_register (hq : q.waits.WellFormed) (type : EventType) :
    Refines (q.register type) (q.toRoster.register type) := by
  rcases refines_append hq q.waits.nextNumber type with ⟨hwf, heq⟩
  have hnumber : q.toRoster.nextNumber = q.waits.nextNumber := (hq.nextNumber_eq _).symm
  simp only [register, inInterrupt, Bool.false_eq_true, ↓reduceIte, Roster.register, hnumber, heq]
  generalize q.append q.waits.nextNumber type = result at hwf ⊢
  rcases result with ⟨fault | number, q'⟩
  · exact ⟨hwf, rfl⟩
  · rcases WaitList.WellFormed.withLastNumber hwf number with ⟨hwf', hwaits⟩
    refine ⟨hwf', ?_⟩
    simp only [toRoster, withLastNumber, hwaits]

theorem refines_registerFor (hq : q.waits.WellFormed) (requestor : UInt32) (type : EventType) :
    Refines (q.registerFor requestor type) (q.toRoster.registerFor requestor type) := by
  simp only [registerFor, inInterrupt, Bool.false_eq_true, ↓reduceIte, Roster.registerFor]
  split
  · exact ⟨hq, rfl⟩
  · change Refines (if q.toRoster.waits.any _ then _ else _) _
    split
    · exact ⟨hq, rfl⟩
    · exact refines_append hq _ _

theorem refines_cancel (hq : q.waits.WellFormed) (number : EventNumber) (type : EventType) :
    Refines (q.cancel number type) (q.toRoster.cancel number type) := by
  unfold cancel Roster.cancel
  cases hlocate : q.waits.locate fun wait => wait.isFor number type with
  | none =>
      have hno : q.toRoster.waits.any (·.isFor number type) = false := by
        rw [List.any_eq_false]
        intro w hw
        rcases List.mem_map.mp hw with ⟨s, hs, rfl⟩
        simpa using WaitList.locateAmong_eq_none hlocate s hs
      simp only [hno, Bool.false_eq_true, ↓reduceIte]
      exact ⟨hq, rfl⟩
  | some found =>
      rcases found with ⟨before, slot⟩
      rcases WaitList.locate_eq_some hlocate with ⟨older, younger, hlive, rfl, holder, hslot⟩
      rcases hq.remove hlive with ⟨hwf, hwaits, hlast⟩
      have hsplit : q.toRoster.waits =
          older.map q.waits.wait ++ q.waits.wait slot :: younger.map q.waits.wait := by
        simp only [toRoster, WaitList.waits, hlive, List.map_append, List.map_cons]
      have hyes : q.toRoster.waits.any (·.isFor number type) = true := by
        rw [List.any_eq_true]
        exact ⟨_, by rw [hsplit]; simp, hslot⟩
      have herase : q.toRoster.waits.eraseP (·.isFor number type) =
          older.map q.waits.wait ++ younger.map q.waits.wait := by
        rw [hsplit, List.eraseP_append_right, List.eraseP_cons_of_pos]
        · exact hslot
        · intro w hw
          rcases List.mem_map.mp hw with ⟨s, hs, rfl⟩
          simpa using holder s hs
      simp only [hyes, ↓reduceIte, herase]
      refine ⟨hwf, ?_⟩
      simp only [toRoster, hwaits, hlast]

/-! ## Sampling -/

variable [Sources S κ]

theorem scanFrom_of_firstHit_eq_none {l : WaitList} {mode : ReadMode} {sources sources' : S}
    {before : Option Slot} {slots : List Slot}
    (h : firstHit l mode sources before slots = (none, sources')) :
    Roster.scanFrom mode sources (slots.map l.wait) = (none, slots.map l.wait, sources') := by
  induction slots generalizing sources before with
  | nil =>
      rcases Prod.mk.inj h with ⟨-, rfl⟩
      rfl
  | cons first rest ih =>
      simp only [firstHit] at h
      split at h
      · simp at h
      · rename_i sources₁ hsample
        rw [Roster.sample_eq_observe] at hsample
        simp only [List.map_cons, Roster.scanFrom, hsample, ih h]

/-- The winner splits the live waits, and taking it leaves the two parts. -/
theorem scanFrom_of_firstHit_eq_some {l : WaitList} {mode : ReadMode} {sources sources' : S}
    {before : Option Slot} {slots : List Slot} {hit : Hit}
    (h : firstHit l mode sources before slots = (some hit, sources')) :
    ∃ older younger, slots = older ++ hit.slot :: younger ∧
      hit.before = older.getLast?.or before ∧
      Roster.scanFrom mode sources (slots.map l.wait) =
        (some ⟨(l.wait hit.slot).number, (l.wait hit.slot).type, hit.value⟩,
          match mode with
            | .peek => slots.map l.wait
            | .take => older.map l.wait ++ younger.map l.wait,
          sources') := by
  induction slots generalizing sources before with
  | nil => simp [firstHit] at h
  | cons first rest ih =>
      simp only [firstHit] at h
      split at h
      · rename_i value sources₁ hsample
        rcases Prod.mk.inj h with ⟨hhit, rfl⟩
        obtain rfl := Option.some.inj hhit
        rw [Roster.sample_eq_observe] at hsample
        refine ⟨[], rest, rfl, by simp, ?_⟩
        cases mode <;> simp [Roster.scanFrom, hsample]
      · rename_i sources₁ hsample
        rcases ih h with ⟨older, younger, rfl, hbefore, hscan⟩
        refine ⟨first :: older, younger, rfl, ?_, ?_⟩
        · cases hlast : older.getLast? <;> simp [hbefore, List.getLast?_cons, hlast]
        · rw [Roster.sample_eq_observe] at hsample
          simp only [List.map_cons, Roster.scanFrom, hsample, hscan]
          cases mode <;> rfl

theorem refines_scan (hq : q.waits.WellFormed) (mode : ReadMode) :
    Refines (q.scan mode) (q.toRoster.scan mode) := by
  rcases hhit : firstHit q.waits mode q.sources none q.waits.live with ⟨hit?, sources⟩
  cases hit? with
  | none =>
      have hscan : Roster.scanFrom mode q.toRoster.sources q.toRoster.waits = _ :=
        scanFrom_of_firstHit_eq_none hhit
      simp only [scan, hhit, Roster.scan, hscan]
      exact ⟨hq, rfl⟩
  | some hit =>
      rcases scanFrom_of_firstHit_eq_some hhit with ⟨older, younger, hlive, hbefore, hscan'⟩
      have hscan : Roster.scanFrom mode q.toRoster.sources q.toRoster.waits = _ := hscan'
      simp only [scan, hhit, Roster.scan, hscan]
      cases mode with
      | peek => exact ⟨hq, rfl⟩
      | take =>
          rcases hq.remove hlive with ⟨hwf, hwaits, hlast⟩
          have hprev : hit.before = older.getLast? := by simpa using hbefore
          rw [← hprev] at hwf hwaits hlast
          refine ⟨hwf, ?_⟩
          simp only [toRoster, hwaits, hlast]
          rfl

/-- A scan of the nodes reports what a scan of the plain list reports. -/
theorem scan_fst (hq : q.waits.WellFormed) (mode : ReadMode) :
    (q.scan mode).1 = (Roster.scanFrom mode q.sources q.waits.waits).1 :=
  (congrArg Prod.fst (refines_scan hq mode).2).symm

theorem refines_post (hq : q.waits.WellFormed) (recipient : Recipient) (type : EventType)
    (value : EventValue) :
    (q.post recipient type value).waits.WellFormed ∧
      q.toRoster.post recipient type value = (q.post recipient type value).toRoster := by
  rcases hq.post recipient type value with ⟨hwf, hlast, hwaits⟩
  have hsources : q.toRoster.sources = q.sources := rfl
  unfold Queue.post Queue.delivery Roster.post
  rw [hsources]
  cases Sources.delivery q.sources type with
  | sampled => exact ⟨hq, rfl⟩
  | posted =>
      refine ⟨hwf, ?_⟩
      simp only [toRoster, hwaits, hlast]

/-- One call on the nodes is one call on the plain list. -/
theorem refines_perform (hq : q.waits.WellFormed) (call : Call) :
    Refines (q.perform call) (q.toRoster.perform call) := by
  cases call with
  | register type =>
      rcases refines_register hq type with ⟨hwf, heq⟩
      exact ⟨hwf, by simp only [Roster.perform, heq, perform]⟩
  | registerFor requestor type =>
      rcases refines_registerFor hq requestor type with ⟨hwf, heq⟩
      exact ⟨hwf, by simp only [Roster.perform, heq, perform]⟩
  | post recipient type value =>
      rcases refines_post hq recipient type value with ⟨hwf, heq⟩
      exact ⟨hwf, by simp only [Roster.perform, heq, perform]⟩
  | cancel number type =>
      rcases refines_cancel hq number type with ⟨hwf, heq⟩
      exact ⟨hwf, by simp only [Roster.perform, heq, perform]⟩
  | scan mode =>
      rcases refines_scan hq mode with ⟨hwf, heq⟩
      exact ⟨hwf, by simp only [Roster.perform, heq, perform]⟩
  | readType type mode => exact ⟨hq, rfl⟩
  | reset => exact ⟨WaitList.wellFormed_empty, rfl⟩
  | renumber number =>
      rcases hq.withLastNumber number with ⟨hwf, hwaits⟩
      refine ⟨hwf, ?_⟩
      simp only [Roster.perform, perform, toRoster, withLastNumber, hwaits]

end Queue

/-! ## Runs -/

variable [Sources S κ]

namespace Recorded

/-- The nodes are well formed, and the waits on them have distinct keys. -/
structure Sound (r : Recorded S) : Prop where
  wellFormed : r.queue.waits.WellFormed
  keyed : Keyed r.queue.waits.waits

variable {r : Recorded S}

theorem sound_new (sources : S) : (new sources).Sound :=
  ⟨WaitList.wellFormed_empty, keyed_nil⟩

/-- A call changes the live waits as its entry in the log says. -/
theorem Sound.effect (h : r.Sound) (call : Call) :
    (Entry.change ⟨call, (r.queue.perform call).1⟩).Effect r.queue.sources r.queue.waits.waits
      (r.queue.perform call).2.waits.waits := by
  rcases Queue.refines_perform h.wellFormed call with ⟨-, heq⟩
  have heffect := Roster.effect_perform (r := r.queue.toRoster) h.keyed call
  rw [heq] at heffect
  exact heffect

theorem Sound.perform (h : r.Sound) (op : Operation S) : (r.perform op).Sound := by
  cases op with
  | call call =>
      exact ⟨(Queue.refines_perform h.wellFormed call).1, (h.effect call).keyed h.keyed⟩
  | change f => exact ⟨h.wellFormed, h.keyed⟩

theorem sound_moment (sources : S) (commands : List (Command S)) (n : Nat) :
    (moment sources commands n).Sound :=
  moment_induction (sound_new sources) (fun _ op h => h.perform op) commands n

/-- Operations on well-formed nodes are operations on the plain list. -/
theorem refines_performAll (h : r.queue.waits.WellFormed) (ops : List (Operation S)) :
    (r.performAll ops).log = r.log ++ (r.queue.toRoster.performAll ops).1 ∧
      (r.performAll ops).queue.toRoster = (r.queue.toRoster.performAll ops).2 := by
  induction ops generalizing r with
  | nil => exact ⟨by simp [Roster.performAll], rfl⟩
  | cons op ops ih =>
      cases op with
      | call call =>
          rcases Queue.refines_perform h call with ⟨hwf, heq⟩
          rcases ih (r := r.perform (.call call)) hwf with ⟨hlog, hroster⟩
          refine ⟨?_, ?_⟩
          · simp only [performAll_cons, hlog, Roster.performAll, heq]
            simp [perform]
          · simp only [performAll_cons, hroster, Roster.performAll, heq]
            rfl
      | change f => exact ih (r := r.perform (.change f)) h

end Recorded

/--
What every change keeps, given the entry that it leaves in the log, holds at
every moment of a run.
-/
theorem moment_change_induction {p : List Entry → List Wait → Prop} (start : p [] [])
    (step : ∀ (sources : S) (log : List Entry) (entry : Entry) (before after : List Wait),
      Keyed before → entry.change.Effect sources before after → p log before →
        p (log ++ [entry]) after)
    (sources : S) (commands : List (Command S)) (n : Nat) :
    p (moment sources commands n).log (moment sources commands n).queue.waits.waits := by
  suffices h : (moment sources commands n).Sound ∧
      p (moment sources commands n).log (moment sources commands n).queue.waits.waits from h.2
  refine moment_induction (p := fun r => r.Sound ∧ p r.log r.queue.waits.waits)
    ⟨Recorded.sound_new sources, start⟩ ?_ commands n
  rintro r op ⟨hsound, hp⟩
  refine ⟨hsound.perform op, ?_⟩
  cases op with
  | call call => exact step _ _ _ _ _ hsound.keyed (hsound.effect call) hp
  | change f => exact hp

/-! ## The refinement -/

/--
At every moment of every run the pool holds two disjoint chains that use up its
nodes, and the chain of the live waits is a plain list: it has answered and
evolved as the roster, and the next call will change it as its entry says.
-/
theorem pool_refines_list (sources : S) (commands : List (Command S)) :
    moment sources commands (Command.flattenAll commands).length =
        Command.runAll commands (.new sources) ∧
      ∀ n,
        let r := moment sources commands n
        let l := r.queue.waits
        let plain := (Roster.new sources).performAll ((Command.flattenAll commands).take n)
        (WaitList.IsPath l.nodes l.head l.live none ∧
            WaitList.IsPath l.nodes l.free l.spare none ∧
            (∀ slot, (l.live ++ l.spare).count slot = 1) ∧
            l.size = l.live.length ∧ l.tail = l.live.getLast? ∧
            (l.tail = none ↔ l.live = [])) ∧
          (r.log = plain.1 ∧ r.queue.toRoster = plain.2) ∧
          ∀ call, (Entry.change ⟨call, (r.queue.perform call).1⟩).Effect r.queue.sources l.waits
            (r.queue.perform call).2.waits.waits := by
  refine ⟨moment_of_length_le (Nat.le_refl _) sources, fun n => ?_⟩
  have hsound := Recorded.sound_moment sources commands n
  have hwf := hsound.wellFormed
  refine ⟨⟨hwf.live_path, hwf.spare_path, hwf.count_eq_one, hwf.size_eq, hwf.tail_eq, ?_⟩,
    Recorded.refines_performAll WaitList.wellFormed_empty _, hsound.effect⟩
  rw [hwf.tail_eq, List.getLast?_eq_none_iff]

end DeviceLayer
