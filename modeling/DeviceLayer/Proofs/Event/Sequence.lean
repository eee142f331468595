import DeviceLayer.Proofs.Event.Account
import DeviceLayer.Proofs.Event.Numbers
import Mathlib.Data.List.Chain

/-!
# Numbers given out in sequence

A new wait skips the numbers that are live at that moment.  Zero and those
numbers are all that the search can meet in vain, so it ends also without a bound
on its steps, wherever it starts.  Short of the wrap the counter moves on by one
more than there are live waits at most.  Until it could have wrapped around, the
numbers given out in sequence ascend, and none is given out twice.

Main results:

- Theorem {lit}`Roster.nextNumber_bounds`: short of the wrap the next number lies
  closely above the last one.
- Theorem {lit}`WaitList.Settles.firstUnused_eq`: with steps enough the bounded
  search settles where the unbounded one does.
- Theorem {lit}`sequence_takes_first_unused`: wherever the counter stands, the next
  wait takes the first number after it that can be given out, or nothing changes.
- Theorem {lit}`Roster.counter_cases`: the counter moves exactly when a number is
  given out in sequence.
- Theorem {lit}`Recorded.ascending_perform`: one call keeps the numbers ascending.
- Theorem {lit}`sequence_never_reuses`: a post to a number whose wait has ended
  reaches no other wait that was registered in sequence.
-/

namespace DeviceLayer

/-! ## The search for a number -/

namespace Roster

variable {S : Type}

/-- The candidate at an index, before the numbers wrap around. -/
theorem toNat_candidate {last : EventNumber} {i : Nat}
    (h : last.toNat + 1 + i < UInt32.size) :
    (last + 1 + UInt32.ofNat i).toNat = last.toNat + 1 + i := by
  have hsize : UInt32.size = 4294967296 := rfl
  simp only [UInt32.toNat_add, UInt32.toNat_one, UInt32.toNat_ofNat']
  omega

/-- Short of the wrap only the live waits are in the way. -/
theorem exists_unused_of_lt (waits : List Wait) {last : EventNumber}
    (h : last.toNat + 1 + waits.length < UInt32.size) :
    ∃ i < waits.length + 1, isUnused waits (last + 1 + UInt32.ofNat i) = true := by
  have hvalue : ∀ i < waits.length + 1,
      (last + 1 + UInt32.ofNat i).toNat = last.toNat + 1 + i :=
    fun i hi => toNat_candidate (by omega)
  have hzero : noEvent ∉ (List.range (waits.length + 1)).map fun i =>
      last + 1 + UInt32.ofNat i := by
    intro hmem
    rcases List.mem_map.mp hmem with ⟨i, hi, heq⟩
    have hval := congrArg UInt32.toNat heq
    rw [hvalue i (List.mem_range.mp hi), noEvent, UInt32.toNat_zero] at hval
    omega
  have hnodup : ((List.range (waits.length + 1)).map
      fun i => last + 1 + UInt32.ofNat i).Nodup := by
    apply List.Nodup.map_on _ List.nodup_range
    intro i hi j hj heq
    have hval := congrArg UInt32.toNat heq
    rw [hvalue i (List.mem_range.mp hi), hvalue j (List.mem_range.mp hj)] at hval
    omega
  rcases exists_unused_among waits (List.nodup_cons.mpr ⟨hzero, hnodup⟩) (by simp) with
    ⟨number, hmem, hunused⟩
  rcases List.mem_map.mp hmem with ⟨i, hi, rfl⟩
  exact ⟨i, List.mem_range.mp hi, hunused⟩

/-- The next number is the first candidate that can be given out. -/
theorem nextNumber_eq_first {r : Roster S} (h : r.waits.length ≤ waitLimit) :
    ∃ i < waitLimit + 2, r.nextNumber = r.lastNumber + 1 + UInt32.ofNat i ∧
      isUnused r.waits (r.lastNumber + 1 + UInt32.ofNat i) = true ∧
      ∀ j < i, isUnused r.waits (r.lastNumber + 1 + UInt32.ofNat j) = false := by
  have hnumber := isUnused_nextNumber h
  rw [nextNumber, candidates, List.find?_map] at hnumber ⊢
  cases hfind : (List.range (waitLimit + 2)).find?
      (isUnused r.waits ∘ fun i => r.lastNumber + 1 + UInt32.ofNat i) with
  | none =>
      rw [hfind] at hnumber
      exact absurd rfl ((isUnused_iff _ _).mp hnumber).1
  | some i =>
      rcases List.find?_range_eq_some.mp hfind with ⟨hunused, hi, hfirst⟩
      exact ⟨i, List.mem_range.mp hi, rfl, hunused, fun j hj => by simpa using hfirst j hj⟩

/-- With room left the next wait comes after the others, and the counter stands at its number. -/
theorem register_of_room {r : Roster S} (h : r.waits.length < waitLimit) (type : EventType) :
    r.register type = (.ok r.nextNumber,
      { r with
        waits := r.waits ++ [{ number := r.nextNumber, type, phase := .pending, value := 0 }]
        lastNumber := r.nextNumber }) := by
  simp only [register, append, h, ↓reduceIte]

theorem register_of_full {r : Roster S} (h : ¬ r.waits.length < waitLimit) (type : EventType) :
    r.register type = (.error .waitPoolEmpty, r) := by
  simp only [register, append, h, ↓reduceIte]

/-- Short of the wrap the next number lies closely above the last one. -/
theorem nextNumber_bounds {r : Roster S} (hroom : r.waits.length < waitLimit)
    (hspace : r.lastNumber.toNat + waitLimit < UInt32.size) :
    r.lastNumber.toNat < r.nextNumber.toNat ∧
      r.nextNumber.toNat ≤ r.lastNumber.toNat + waitLimit := by
  rcases nextNumber_eq_first (Nat.le_of_lt hroom) with ⟨i, -, hnumber, -, hfirst⟩
  have hlt : r.lastNumber.toNat + 1 + r.waits.length < UInt32.size := by omega
  rcases exists_unused_of_lt r.waits hlt with ⟨k, hk, hunused⟩
  have hik : i ≤ k := by
    by_contra hgt
    rw [hfirst k (by omega)] at hunused
    contradiction
  rw [hnumber, toNat_candidate (by omega)]
  omega

end Roster

/-! ## The search without a bound -/

namespace WaitList

/--
The search without a bound on its steps: from {lit}`candidate` on it settles on
{lit}`number` after it has tested this many candidates.
-/
inductive Settles (l : WaitList) : (candidate : EventNumber) → (tested : Nat) →
    (number : EventNumber) → Prop where
  | found {candidate : EventNumber} (h : candidate ≠ noEvent ∧ l.carries candidate = false) :
      Settles l candidate 1 candidate
  | skip {candidate number : EventNumber} {tested : Nat}
      (h : ¬ (candidate ≠ noEvent ∧ l.carries candidate = false))
      (rest : Settles l (candidate + 1) tested number) : Settles l candidate (tested + 1) number

variable {l : WaitList}

theorem Settles.tested_pos {candidate number : EventNumber} {tested : Nat}
    (h : l.Settles candidate tested number) : 0 < tested := by
  cases h <;> exact Nat.succ_pos _

/--
With steps enough the bounded search settles where the unbounded one does.  The
last candidate is not tested, so one step less is enough.
-/
theorem Settles.firstUnused_eq {candidate number : EventNumber} {tested fuel : Nat}
    (h : l.Settles candidate tested number) (hfuel : tested ≤ fuel + 1) :
    l.firstUnused fuel candidate = number := by
  induction h generalizing fuel with
  | found hfree =>
      cases fuel with
      | zero => rfl
      | succ fuel => rw [firstUnused, if_pos hfree]
  | skip hblocked rest ih =>
      cases fuel with
      | zero =>
          have hpos := rest.tested_pos
          omega
      | succ fuel =>
          rw [firstUnused, if_neg hblocked]
          exact ih (Nat.le_of_succ_le_succ hfuel)

/-- The search settles on the first candidate that can be given out. -/
theorem settles_of_first {candidate : EventNumber} {i : Nat}
    (hunused : Roster.isUnused l.waits (candidate + UInt32.ofNat i) = true)
    (hfirst : ∀ j < i, Roster.isUnused l.waits (candidate + UInt32.ofNat j) = false) :
    l.Settles candidate (i + 1) (candidate + UInt32.ofNat i) := by
  induction i generalizing candidate with
  | zero =>
      have hzero : candidate + UInt32.ofNat 0 = candidate := by simp
      rw [hzero] at hunused ⊢
      exact .found ((l.isUnused_waits_iff candidate).mp hunused)
  | succ i ih =>
      have hblocked : Roster.isUnused l.waits candidate ≠ true := by
        have hzero := hfirst 0 (Nat.succ_pos i)
        simpa using hzero
      refine .skip (mt (l.isUnused_waits_iff candidate).mpr hblocked) ?_
      rw [← candidate_add_one] at hunused ⊢
      refine ih hunused fun j hj => ?_
      rw [candidate_add_one]
      exact hfirst (j + 1) (Nat.succ_lt_succ hj)

end WaitList

/-! ## Registering in sequence -/

/-- Without an unused node a registration in sequence is refused, and nothing changes. -/
theorem Queue.register_of_free_eq_none {S : Type} {q : Queue S} (h : q.waits.free = none)
    (type : EventType) : q.register type = (.error .waitPoolEmpty, q) := by
  have hpush := (q.waits.push?_eq_none_iff q.waits.nextNumber type).mpr h
  simp only [register, inInterrupt, Bool.false_eq_true, ↓reduceIte, append, hpush]

/--
At every moment of every run, and wherever the counter is set to: the search
without a bound settles after it has tested two candidates more than there are
nodes at most, and further steps would not change what the bounded one finds.
What it settles on is the first number after the counter, wrapping around, that
is not zero and that no live wait carries.  If a node is unused, the registration
returns that number, its pending wait comes after the live ones, and the counter
stands at it.  Otherwise it is refused, and nothing changes, the counter included.
-/
theorem sequence_takes_first_unused {S κ : Type} [Sources S κ] (sources : S)
    (commands : List (Command S)) (n : Nat) (last : EventNumber) (type : EventType) :
    let q := (moment sources commands n).queue.withLastNumber last
    let waits := q.waits.waits
    let candidate := fun i => last + 1 + UInt32.ofNat i
    ∃ i < waitLimit + 2,
      (q.waits.Settles (last + 1) (i + 1) (candidate i) ∧
        ∀ fuel ≥ waitLimit + 1, q.waits.firstUnused fuel (last + 1) = candidate i) ∧
      (candidate i ≠ noEvent ∧ ∀ wait ∈ waits, wait.number ≠ candidate i) ∧
      (∀ j < i, candidate j = noEvent ∨ ∃ wait ∈ waits, wait.number = candidate j) ∧
      (q.waits.free ≠ none → (q.register type).1 = .ok (candidate i) ∧
        (q.register type).2.toRoster =
          { q.toRoster with
            waits := waits ++ [{ number := candidate i, type, phase := .pending, value := 0 }]
            lastNumber := candidate i }) ∧
      (q.waits.free = none → q.register type = (.error .waitPoolEmpty, q)) := by
  intro q waits candidate
  have hwf : q.waits.WellFormed :=
    ((Recorded.sound_moment sources commands n).perform (.call (.renumber last))).wellFormed
  have hlength : waits.length = q.waits.size := hwf.length_waits
  have hle : waits.length ≤ waitLimit := hlength ▸ hwf.size_le
  rcases Roster.nextNumber_eq_first (r := q.toRoster) hle with ⟨i, hi, hnext, hunused, hfirst⟩
  have hsettles : q.waits.Settles (last + 1) (i + 1) (candidate i) :=
    WaitList.settles_of_first hunused hfirst
  refine ⟨i, hi, ⟨hsettles, fun fuel hfuel => hsettles.firstUnused_eq (by omega)⟩,
    (Roster.isUnused_iff _ _).mp hunused,
    fun j hj => (Roster.isUnused_eq_false_iff _ _).mp (hfirst j hj), fun hfree => ?_,
    fun hfull => q.register_of_free_eq_none hfull type⟩
  have hroom : q.toRoster.waits.length < waitLimit := by
    refine Nat.lt_of_le_of_ne hle fun hfull => hfree ?_
    exact hwf.free_eq_none_iff.mpr (hlength ▸ hfull)
  have hplain := (Queue.refines_register hwf type).2
  rw [Roster.register_of_room hroom type, hnext, Prod.mk.injEq] at hplain
  exact ⟨hplain.1.symm, hplain.2.symm⟩

/-- Three requestors hold the numbers around the wrap, and a fourth one fills the pool. -/
def numbersAroundTheWrap : List (Command PostedOnly) :=
  [.operation (.call (.registerFor 4294967294 8)),
    .operation (.call (.registerFor 0 8)),
    .operation (.call (.registerFor 1 8)),
    .operation (.call (.registerFor 2 8))]

/-- With one node left the search passes four blocked candidates, with none left five. -/
theorem search_passes_the_wrap :
    let q := (moment PostedOnly.mk numbersAroundTheWrap 3).queue.withLastNumber 4294967294
    let full := (moment PostedOnly.mk numbersAroundTheWrap 4).queue.withLastNumber 4294967294
    q.waits.waits.map Wait.number = [4294967295, 1, 2] ∧
      (q.register 7).1 = .ok 3 ∧
      (q.register 7).2.waits.waits = q.waits.waits ++ [⟨3, 7, .pending, 0⟩] ∧
      (q.register 7).2.waits.lastNumber = 3 ∧
      full.waits.waits.map Wait.number = [4294967295, 1, 2, 3] ∧
      full.waits.Settles 4294967295 6 4 ∧
      full.register 7 = (.error .waitPoolEmpty, full) := by
  intro q full
  have hnumber : (q.register 7).1 = .ok 3 := by decide
  have hfound : full.waits.firstUnused 5 4294967295 = 4 := by decide
  have hindex : ∀ i < 6, (4 : EventNumber) = 4294967295 + UInt32.ofNat i → i = 5 := by decide
  rcases sequence_takes_first_unused PostedOnly.mk numbersAroundTheWrap 3 4294967294 7 with
    ⟨i, -, -, -, -, hstored, -⟩
  rcases hstored (by decide) with ⟨hok, hleft⟩
  rw [← Except.ok.inj (hnumber.symm.trans hok)] at hleft
  have hlast : (q.register 7).2.toRoster.lastNumber = 3 := by rw [hleft]
  rcases sequence_takes_first_unused PostedOnly.mk numbersAroundTheWrap 4 4294967294 7 with
    ⟨i', hi', ⟨hsettles, hbounded⟩, -, -, -, hrefused⟩
  have hfour : (4 : EventNumber) = 4294967295 + UInt32.ofNat i' :=
    hfound.symm.trans (hbounded 5 (Nat.le_refl 5))
  obtain rfl : i' = 5 := hindex i' hi' hfour
  exact ⟨by decide, hnumber, congrArg Roster.waits hleft, hlast, by decide, hsettles,
    hrefused (by decide)⟩

/-! ## Numbers in the log -/

namespace Entry

/-- The number that was given out in sequence. -/
def sequential? : Entry → Option EventNumber
  | ⟨.register _, .number (.ok number)⟩ => some number
  | _ => none

/-- Whether the call sets the counter: a reset, or an overwriting. -/
def renumbers : Entry → Bool
  | ⟨.reset, _⟩ => true
  | ⟨.renumber _, _⟩ => true
  | _ => false

end Entry

/-- The numbers given out in sequence, earliest first. -/
def sequentialNumbers (log : List Entry) : List EventNumber :=
  log.filterMap Entry.sequential?

/-- The entry of a wait registered in sequence. -/
def registeredInSequence (key : WaitKey) : Entry :=
  ⟨.register key.2, .number (.ok key.1)⟩

/-- A wait with this key was registered in sequence, and no later entry ends it. -/
def OpenInSequence (log : List Entry) (key : WaitKey) : Prop :=
  ∃ earlier later, log = earlier ++ registeredInSequence key :: later ∧
    ∀ entry ∈ later, entry.change.endsKey key = false

/-- A wait with this key was registered in sequence, and a later entry ends it. -/
def EndedInSequence (log : List Entry) (key : WaitKey) : Prop :=
  ∃ earlier later, log = earlier ++ registeredInSequence key :: later ∧
    ∃ entry ∈ later, entry.change.endsKey key = true

theorem mem_sequentialNumbers_of_split {earlier later : List Entry} (key : WaitKey) :
    key.1 ∈ sequentialNumbers (earlier ++ registeredInSequence key :: later) :=
  List.mem_filterMap.mpr ⟨registeredInSequence key, by simp, rfl⟩

/-- A number that is given out once tells its entry and what came after it. -/
theorem later_eq_of_nodup {key key' : WaitKey} {earlier earlier' later later' : List Entry}
    (hnodup : (sequentialNumbers (earlier ++ registeredInSequence key :: later)).Nodup)
    (hsplit : earlier ++ registeredInSequence key :: later =
      earlier' ++ registeredInSequence key' :: later')
    (hnumber : key.1 = key'.1) : key = key' ∧ later = later' := by
  induction earlier generalizing earlier' with
  | nil =>
      cases earlier' with
      | nil =>
          rcases List.cons.inj hsplit with ⟨hentry, hlater⟩
          injection hentry with hcall
          exact ⟨Prod.ext hnumber (Call.register.inj hcall), hlater⟩
      | cons first rest =>
          rcases List.cons.inj hsplit with ⟨-, rfl⟩
          have hnot : key.1 ∉ _ := (List.nodup_cons.mp hnodup).1
          exact absurd (hnumber ▸ mem_sequentialNumbers_of_split key') hnot
  | cons first rest ih =>
      cases earlier' with
      | nil =>
          rcases List.cons.inj hsplit with ⟨rfl, rfl⟩
          have hnot : key'.1 ∉ _ := (List.nodup_cons.mp hnodup).1
          exact absurd (hnumber ▸ mem_sequentialNumbers_of_split key) hnot
      | cons first' rest' =>
          rcases List.cons.inj hsplit with ⟨rfl, hrest⟩
          refine ih ?_ hrest
          exact hnodup.sublist ((List.sublist_cons_self first _).filterMap _)

/-! ## The counter -/

variable {S κ : Type} [Sources S κ]

/-- The counter moves exactly when a number is given out in sequence. -/
theorem Roster.counter_cases (r : Roster S) (call : Call)
    (h : Entry.renumbers ⟨call, (r.perform call).1⟩ = false) :
    (Entry.sequential? ⟨call, (r.perform call).1⟩ = none ∧
        (r.perform call).2.lastNumber = r.lastNumber) ∨
      (Entry.sequential? ⟨call, (r.perform call).1⟩ = some r.nextNumber ∧
        (r.perform call).2.lastNumber = r.nextNumber ∧ r.waits.length < waitLimit) := by
  cases call with
  | register type =>
      by_cases hroom : r.waits.length < waitLimit
      · exact Or.inr (by simp [perform, register_of_room hroom, hroom, Entry.sequential?])
      · exact Or.inl (by simp [perform, register, append, hroom, Entry.sequential?])
  | registerFor requestor type =>
      refine Or.inl ⟨rfl, ?_⟩
      simp only [perform, registerFor, append]
      split_ifs <;> rfl
  | post recipient type value =>
      refine Or.inl ⟨rfl, ?_⟩
      simp only [perform, post]
      cases Sources.delivery r.sources type <;> rfl
  | cancel number type =>
      refine Or.inl ⟨rfl, ?_⟩
      simp only [perform, cancel]
      split_ifs <;> rfl
  | scan mode => exact Or.inl ⟨rfl, rfl⟩
  | readType type mode => exact Or.inl ⟨rfl, rfl⟩
  | reset => simp [Entry.renumbers] at h
  | renumber number => simp [Entry.renumbers] at h

/-! ## Ascending numbers -/

/-- A number that comes after another one, and by at most as much as there are nodes. -/
def FollowsClosely (number next : Nat) : Prop :=
  number < next ∧ next ≤ number + waitLimit

/-- Numbers ascend from zero by small steps, and the counter is the last of them. -/
structure Ascending (numbers : List EventNumber) (last : EventNumber) : Prop where
  chain : (0 :: numbers.map UInt32.toNat).IsChain FollowsClosely
  getLast?_eq : (0 :: numbers.map UInt32.toNat).getLast? = some last.toNat
  last_le : last.toNat ≤ waitLimit * numbers.length

namespace Ascending

variable {numbers : List EventNumber} {last : EventNumber}

theorem nil : Ascending [] noEvent :=
  ⟨List.isChain_singleton 0, rfl, Nat.le_refl 0⟩

theorem concat (h : Ascending numbers last) {next : EventNumber}
    (hnext : FollowsClosely last.toNat next.toNat) : Ascending (numbers ++ [next]) next := by
  rcases h with ⟨hchain, hlast, hle⟩
  refine ⟨?_, ?_, ?_⟩
  · rw [List.map_append, ← List.cons_append, List.isChain_append]
    refine ⟨hchain, List.isChain_singleton _, ?_⟩
    intro number hnumber number' hnumber'
    rw [hlast, Option.mem_some_iff] at hnumber
    rw [List.map_singleton, List.head?_cons, Option.mem_some_iff] at hnumber'
    subst hnumber hnumber'
    exact hnext
  · rw [List.map_append, ← List.cons_append, List.map_singleton, List.getLast?_concat]
  · rw [List.length_append, List.length_singleton, Nat.mul_succ]
    exact Nat.le_trans hnext.2 (Nat.add_le_add_right hle _)

/-- Ascending numbers are distinct, and none of them is zero. -/
theorem nodup (h : Ascending numbers last) : (noEvent :: numbers).Nodup := by
  have hlt : (0 :: numbers.map UInt32.toNat).IsChain (· < ·) :=
    h.chain.imp fun _ _ hfollows => hfollows.1
  have hmap : ((noEvent :: numbers).map UInt32.toNat).Nodup :=
    (List.isChain_iff_pairwise.mp hlt).imp Nat.ne_of_lt
  exact hmap.of_map _

end Ascending

/-- One call keeps the numbers ascending, as long as the counter cannot wrap around. -/
theorem Recorded.ascending_perform {r : Recorded S} (hsound : r.Sound)
    (h : Ascending (sequentialNumbers r.log) r.queue.waits.lastNumber) {op : Operation S}
    (hkeep : ∀ entry ∈ (r.perform op).log, entry.renumbers = false)
    (hfew : (sequentialNumbers (r.perform op).log).length < 1073741824) :
    Ascending (sequentialNumbers (r.perform op).log) (r.perform op).queue.waits.lastNumber := by
  cases op with
  | change f => exact h
  | call call =>
      rcases Queue.refines_perform hsound.wellFormed call with ⟨-, hplain⟩
      have hentry := hkeep ⟨call, (r.queue.perform call).1⟩ (by simp [Recorded.perform])
      have hcounter := r.queue.toRoster.counter_cases call
      rw [hplain] at hcounter
      have hlog : sequentialNumbers (r.perform (.call call)).log = sequentialNumbers r.log ++
          (Entry.sequential? ⟨call, (r.queue.perform call).1⟩).toList := by
        simp only [Recorded.perform, sequentialNumbers, List.filterMap_append, List.filterMap_cons,
          List.filterMap_nil]
        cases Entry.sequential? ⟨call, (r.queue.perform call).1⟩ <;> rfl
      rw [hlog] at hfew ⊢
      rcases hcounter hentry with ⟨hnone, hlast⟩ | ⟨hsome, hlast, hroom⟩
      · have hlast' : (r.perform (.call call)).queue.waits.lastNumber =
            r.queue.waits.lastNumber := hlast
        rw [hnone, Option.toList_none, List.append_nil, hlast']
        exact h
      · have hlast' : (r.perform (.call call)).queue.waits.lastNumber =
            r.queue.toRoster.nextNumber := hlast
        rw [hsome, Option.toList_some] at hfew ⊢
        rw [List.length_append, List.length_singleton] at hfew
        rw [hlast']
        refine h.concat (Roster.nextNumber_bounds hroom ?_)
        have hle : r.queue.waits.lastNumber.toNat ≤ 4 * (sequentialNumbers r.log).length :=
          h.last_le
        change r.queue.waits.lastNumber.toNat + 4 < 4294967296
        omega

theorem ascending_moment (sources : S) (commands : List (Command S)) (n : Nat)
    (hkeep : ∀ entry ∈ (moment sources commands n).log, entry.renumbers = false)
    (hfew : (sequentialNumbers (moment sources commands n).log).length < 1073741824) :
    Ascending (sequentialNumbers (moment sources commands n).log)
      (moment sources commands n).queue.waits.lastNumber := by
  -- the bounds hold of a log only if they hold of the logs before it, so they stand inside
  let p : Recorded S → Prop := fun r => (∀ entry ∈ r.log, entry.renumbers = false) →
    (sequentialNumbers r.log).length < 1073741824 →
      Ascending (sequentialNumbers r.log) r.queue.waits.lastNumber
  suffices h : (moment sources commands n).Sound ∧ p (moment sources commands n) from
    h.2 hkeep hfew
  refine moment_induction (p := fun r => r.Sound ∧ p r)
    ⟨Recorded.sound_new sources, fun _ _ => Ascending.nil⟩ ?_ commands n
  rintro r op ⟨hsound, hascending⟩
  refine ⟨hsound.perform op, fun hkeep' hfew' => ?_⟩
  have hstart : r.log <+: (r.perform op).log := by
    cases op with
    | call call => exact List.prefix_append _ _
    | change f => exact List.prefix_refl _
  have hshorter := (hstart.sublist.filterMap Entry.sequential?).length_le
  have hbefore := hascending (fun entry hentry => hkeep' entry (hstart.subset hentry))
    (Nat.lt_of_le_of_lt hshorter hfew')
  exact Recorded.ascending_perform hsound hbefore hkeep' hfew'

/-! ## No number is reused -/

/-- A wait that a post does not address stays as it is. -/
theorem Recorded.Sound.getElem?_post {r : Recorded S} (h : r.Sound) {recipient : Recipient}
    {type : EventType} {wait : Wait} {i : Nat} (hwait : r.queue.waits.waits[i]? = some wait)
    (hother : wait.key.isAddressed recipient type = false) (value : EventValue) :
    (r.queue.post recipient type value).waits.waits[i]? = some wait := by
  have heffect := h.effect (.post recipient type value)
  simp only [Entry.change, Change.Effect] at heffect
  have hpost : (r.queue.post recipient type value).waits.waits = _ := heffect
  rw [hpost]
  cases Sources.delivery r.queue.sources type with
  | sampled => exact hwait
  | posted => simp [hwait, Wait.receive, hother]

/--
At every moment of a run that never sets the counter and in which fewer than
1073741824 numbers were given out in sequence, those numbers ascend from zero by
at most as many as there are nodes.  So once a wait that was registered in
sequence has ended, a post to its number leaves every other wait that was
registered in sequence as it is.
-/
theorem sequence_never_reuses (sources : S) (commands : List (Command S)) (n : Nat)
    (hkeep : ∀ entry ∈ (moment sources commands n).log, entry.renumbers = false)
    (hfew : (sequentialNumbers (moment sources commands n).log).length < 1073741824) :
    let r := moment sources commands n
    (0 :: (sequentialNumbers r.log).map UInt32.toNat).IsChain FollowsClosely ∧
      ∀ key, EndedInSequence r.log key →
        ∀ (type : EventType) (value : EventValue) (i : Nat) (wait : Wait),
          r.queue.waits.waits[i]? = some wait →
          OpenInSequence r.log wait.key →
            (r.queue.post key.1 type value).waits.waits[i]? = some wait := by
  intro r
  have hascending := ascending_moment sources commands n hkeep hfew
  rcases List.nodup_cons.mp hascending.nodup with ⟨hzero, hnodup⟩
  refine ⟨hascending.chain, ?_⟩
  rintro key ⟨earlier, later, hlog, entry, hentry, hends⟩ type value i wait hwait
    ⟨earlier', later', hlog', hopen⟩
  have hsound := Recorded.sound_moment sources commands n
  refine hsound.getElem?_post hwait ?_ value
  have hdirected : key.1 ≠ everyone := by
    intro hall
    have hmem : key.1 ∈ sequentialNumbers r.log := hlog ▸ mem_sequentialNumbers_of_split key
    rw [hall] at hmem
    exact hzero hmem
  have hother : key.1 ≠ wait.key.1 := by
    intro hsame
    rcases later_eq_of_nodup (hlog ▸ hnodup) (hlog.symm.trans hlog') hsame with ⟨rfl, rfl⟩
    rw [hopen entry hentry] at hends
    contradiction
  simp [WaitKey.isAddressed, hdirected, hother]

/-- A requestor holds number two, and the wait with number one is cancelled. -/
def cancelledFirst : List (Command PostedOnly) :=
  [.operation (.call (.registerFor 1 8)),
    .operation (.call (.register 7)),
    .operation (.call (.register 7)),
    .operation (.call (.cancel 1 7))]

theorem cancelled_number_reaches_nobody :
    let r := moment PostedOnly.mk cancelledFirst 4
    sequentialNumbers r.log = [1, 3] ∧
      (∀ entry ∈ r.log, entry.renumbers = false) ∧
      (0 :: (sequentialNumbers r.log).map UInt32.toNat).IsChain FollowsClosely ∧
      r.queue.waits.waits[1]? = some ⟨3, 7, .pending, 0⟩ ∧
      (r.queue.post 1 7 5).waits.waits[1]? = some ⟨3, 7, .pending, 0⟩ := by
  intro r
  have hnumbers : sequentialNumbers r.log = [1, 3] := by decide
  have hkeep : ∀ entry ∈ r.log, entry.renumbers = false := by decide
  have hwait : r.queue.waits.waits[1]? = some ⟨3, 7, .pending, 0⟩ := by decide
  have hfew : (sequentialNumbers r.log).length < 1073741824 := by
    rw [hnumbers]
    decide
  rcases sequence_never_reuses PostedOnly.mk cancelledFirst 4 hkeep hfew with ⟨hchain, hpost⟩
  have hended : EndedInSequence r.log (1, 7) :=
    ⟨r.log.take 1, r.log.drop 2, rfl, ⟨.cancel 1 7, .done (.ok ())⟩, .tail _ (.head _), rfl⟩
  have hopen : OpenInSequence r.log (3, 7) :=
    ⟨r.log.take 2, r.log.drop 3, rfl, by decide⟩
  exact ⟨hnumbers, hkeep, hchain, hwait, hpost (1, 7) hended 7 5 1 _ hwait hopen⟩

end DeviceLayer
