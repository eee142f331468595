import DeviceLayer.Proofs.Event.Roster

/-!
# What a call does to the live waits

A call with its answer does one of five things to the list of live waits: it
opens a wait at the end, ends one, posts to some, clears them all or keeps them
as they are.  Which of these it is can be read off the log alone.

The number of a wait and its type are its key.  As no two live waits have the
same key, a post that is directed at a number reaches at most one wait.

Main results:

- Theorem {lit}`Change.Effect.keyed`: no change breaks the uniqueness of keys.
- Theorem {lit}`Roster.effect_perform`: a call changes the waits as its entry in
  the log says.
-/

namespace DeviceLayer

/-! ## Keys -/

/-- The number and the type of a wait. -/
abbrev WaitKey := EventNumber × EventType

/-- Whether a post to a recipient concerns the wait with this key. -/
def WaitKey.isAddressed (key : WaitKey) (recipient : Recipient) (type : EventType) : Bool :=
  key.2 == type && (recipient == everyone || recipient == key.1)

namespace Wait

def key (wait : Wait) : WaitKey :=
  (wait.number, wait.type)

/-- What becomes of a wait when an event is posted. -/
def receive (wait : Wait) (recipient : Recipient) (type : EventType) (value : EventValue) :
    Wait :=
  if wait.key.isAddressed recipient type then { wait with phase := .signaled, value } else wait

theorem isFor_iff (wait : Wait) (number : EventNumber) (type : EventType) :
    wait.isFor number type = true ↔ wait.key = (number, type) := by
  simp [isFor, key]

@[simp]
theorem key_mk (number : EventNumber) (type : EventType) (phase : Phase) (value : EventValue) :
    key ⟨number, type, phase, value⟩ = (number, type) :=
  rfl

@[simp]
theorem key_receive (wait : Wait) (recipient : Recipient) (type : EventType)
    (value : EventValue) : (wait.receive recipient type value).key = wait.key := by
  unfold receive
  split <;> rfl

end Wait

/-- Live waits have distinct keys, their numbers are not zero, and they fit into the pool. -/
structure Keyed (waits : List Wait) : Prop where
  nodup : (waits.map Wait.key).Nodup
  number_ne : ∀ wait ∈ waits, wait.number ≠ noEvent
  length_le : waits.length ≤ waitLimit

/-- Among distinct keys the key of a wait that is left out is gone. -/
theorem key_notMem_of_nodup {older younger : List Wait} {wait : Wait}
    (hnodup : ((older ++ wait :: younger).map Wait.key).Nodup) :
    wait.key ∉ (older ++ younger).map Wait.key := by
  have hperm : ((older ++ wait :: younger).map Wait.key).Perm
      (wait.key :: (older ++ younger).map Wait.key) := List.perm_middle.map _
  exact (List.nodup_cons.mp (hperm.nodup_iff.mp hnodup)).1

namespace Keyed

variable {waits : List Wait}

/-- A wait with a new key may be added while there is room. -/
theorem concat (h : Keyed waits) {number : EventNumber} {type : EventType}
    (hne : number ≠ noEvent) (hfresh : (number, type) ∉ waits.map Wait.key)
    (hroom : waits.length < waitLimit) :
    Keyed (waits ++ [{ number, type, phase := .pending, value := 0 }]) := by
  rcases h with ⟨hnodup, hnumber, -⟩
  refine ⟨?_, ?_, ?_⟩
  · rw [List.map_append, List.nodup_append]
    refine ⟨hnodup, List.nodup_singleton _, ?_⟩
    intro key hkey new hnew heq
    have hnew' : new = (number, type) := List.mem_singleton.mp hnew
    exact hfresh (hnew' ▸ heq ▸ hkey)
  · intro wait hwait
    rcases List.mem_append.mp hwait with hold | hnew
    · exact hnumber wait hold
    · rw [List.mem_singleton.mp hnew]
      exact hne
  · rw [List.length_append]
    exact hroom

/-- Waits may be left out. -/
theorem sublist (h : Keyed waits) {waits' : List Wait} (hsub : waits'.Sublist waits) :
    Keyed waits' := by
  refine ⟨h.nodup.sublist (hsub.map _), ?_, Nat.le_trans hsub.length_le h.length_le⟩
  intro wait hwait
  exact h.number_ne wait (hsub.subset hwait)

/-- Posts change no key. -/
theorem map_receive (h : Keyed waits) (recipient : Recipient) (type : EventType)
    (value : EventValue) : Keyed (waits.map fun wait => wait.receive recipient type value) := by
  refine ⟨?_, ?_, ?_⟩
  · rw [List.map_map]
    have hkeys : Wait.key ∘ (fun wait => wait.receive recipient type value) = Wait.key :=
      funext fun wait => wait.key_receive recipient type value
    rw [hkeys]
    exact h.nodup
  · intro wait hwait
    rcases List.mem_map.mp hwait with ⟨old, hold, rfl⟩
    have hkey := congrArg Prod.fst (old.key_receive recipient type value)
    exact fun hzero => h.number_ne old hold (hkey.symm.trans hzero)
  · rw [List.length_map]
    exact h.length_le

end Keyed

theorem keyed_nil : Keyed [] :=
  ⟨List.nodup_nil, by simp, Nat.zero_le _⟩

/-! ## Changes -/

/-- What a call with its answer does to the live waits. -/
inductive Change where
  | opens (key : WaitKey)
  | ends (key : WaitKey)
  | posts (recipient : Recipient) (type : EventType) (value : EventValue)
  | clears
  | keeps

def Entry.change : Entry → Change
  | ⟨.register type, .number (.ok number)⟩ => .opens (number, type)
  | ⟨.registerFor _ type, .number (.ok number)⟩ => .opens (number, type)
  | ⟨.cancel number type, .done (.ok ())⟩ => .ends (number, type)
  | ⟨.scan .take, .event (some event)⟩ => .ends (event.number, event.type)
  | ⟨.post recipient type value, _⟩ => .posts recipient type value
  | ⟨.reset, _⟩ => .clears
  | _ => .keeps

variable {S κ : Type} [Sources S κ]

/--
How a change leads from one list of waits to the next.  The sources say which
types are posted at all.
-/
def Change.Effect (sources : S) (before after : List Wait) : Change → Prop
  | .opens key =>
    after = before ++ [{ number := key.1, type := key.2, phase := .pending, value := 0 }] ∧
      key.1 ≠ noEvent ∧ key ∉ before.map Wait.key ∧ before.length < waitLimit
  | .ends key =>
    ∃ older wait younger, wait.key = key ∧ before = older ++ wait :: younger ∧
      after = older ++ younger
  | .posts recipient type value =>
    after = match Sources.delivery sources type with
      | .sampled => before
      | .posted => before.map fun wait => wait.receive recipient type value
  | .clears => after = []
  | .keeps => after = before

namespace Change.Effect

variable {sources : S} {before after : List Wait} {change : Change}

/-- No change breaks the uniqueness of keys. -/
theorem keyed (h : change.Effect sources before after) (hbefore : Keyed before) :
    Keyed after := by
  cases change with
  | opens key =>
      rcases h with ⟨rfl, hne, hfresh, hroom⟩
      exact hbefore.concat hne hfresh hroom
  | ends key =>
      rcases h with ⟨older, wait, younger, -, rfl, rfl⟩
      have hsub : (older ++ younger).Sublist (older ++ wait :: younger) :=
        List.Sublist.append_left (List.sublist_cons_self wait younger) older
      exact hbefore.sublist hsub
  | posts recipient type value =>
      simp only [Effect] at h
      cases hdelivery : Sources.delivery sources type with
      | sampled =>
          simp only [hdelivery] at h
          exact h ▸ hbefore
      | posted =>
          simp only [hdelivery] at h
          exact h ▸ hbefore.map_receive recipient type value
  | clears =>
      obtain rfl : after = [] := h
      exact keyed_nil
  | keeps =>
      obtain rfl : after = before := h
      exact hbefore

end Change.Effect

/-! ## Calls -/

namespace Roster

variable {r : Roster S}

/-- Among distinct keys the first match is the only one. -/
theorem signalFirst_eq_map {waits : List Wait} (hnodup : (waits.map Wait.key).Nodup)
    (number : EventNumber) (type : EventType) (value : EventValue) :
    signalFirst (·.isFor number type) value waits =
      waits.map fun wait =>
        if wait.isFor number type then { wait with phase := .signaled, value } else wait := by
  induction waits with
  | nil => rfl
  | cons first rest ih =>
      rw [List.map_cons, List.nodup_cons] at hnodup
      rcases hnodup with ⟨hnot, hrest⟩
      by_cases hfirst : first.isFor number type = true
      · have hno : ∀ wait ∈ rest, wait.isFor number type = false := by
          intro wait hwait
          rw [Bool.eq_false_iff]
          intro hmatch
          have hkey := (first.isFor_iff _ _).mp hfirst
          rw [← (wait.isFor_iff _ _).mp hmatch] at hkey
          exact hnot (List.mem_map.mpr ⟨wait, hwait, hkey.symm⟩)
        have hkeep : rest.map (fun wait =>
            if wait.isFor number type then { wait with phase := .signaled, value }
            else wait) = rest := by
          conv_rhs => rw [← List.map_id rest]
          apply List.map_congr_left
          intro wait hwait
          simp [hno wait hwait]
        simp only [signalFirst, hfirst, ↓reduceIte, List.map_cons, hkeep]
      · simp only [signalFirst, hfirst, Bool.false_eq_true, ↓reduceIte, List.map_cons, ih hrest]

/-- A post reaches exactly the waits that it addresses. -/
theorem deliver_eq_map {waits : List Wait} (h : Keyed waits) (recipient : Recipient)
    (type : EventType) (value : EventValue) :
    deliver waits recipient type value =
      waits.map fun wait => wait.receive recipient type value := by
  unfold deliver
  split
  · rename_i hall
    apply List.map_congr_left
    intro wait _
    simp [Wait.receive, WaitKey.isAddressed, Wait.key, hall]
  · rename_i hone
    rw [signalFirst_eq_map h.nodup]
    apply List.map_congr_left
    intro wait hwait
    have hiff : wait.isFor recipient type = wait.key.isAddressed recipient type := by
      rw [Bool.eq_iff_iff, Wait.isFor_iff]
      simp only [WaitKey.isAddressed, Wait.key, Prod.mk.injEq, Bool.and_eq_true, Bool.or_eq_true,
        beq_iff_eq, hone, false_or]
      constructor
      · rintro ⟨hnumber, htype⟩
        exact ⟨htype, hnumber.symm⟩
      · rintro ⟨htype, hnumber⟩
        exact ⟨hnumber.symm, htype⟩
    simp only [Wait.receive, hiff]

/-- Adding a wait opens its key if there is room and is refused otherwise. -/
theorem effect_append (hkeyed : Keyed r.waits) {number : EventNumber} {type : EventType}
    (hne : number ≠ noEvent) (hfresh : (number, type) ∉ r.waits.map Wait.key) :
    (∃ r', r.append number type = (.ok number, r') ∧
        (Change.opens (number, type)).Effect r.sources r.waits r'.waits) ∨
      r.append number type = (.error .waitPoolEmpty, r) ∧ r.waits.length = waitLimit := by
  unfold append
  split
  · rename_i hroom
    exact Or.inl ⟨_, rfl, rfl, hne, hfresh, hroom⟩
  · rename_i hfull
    exact Or.inr ⟨rfl, Nat.le_antisymm hkeyed.length_le (Nat.le_of_not_lt hfull)⟩

theorem effect_register (h : Keyed r.waits) (type : EventType) :
    (Entry.change ⟨.register type, .number (r.register type).1⟩).Effect r.sources r.waits
      (r.register type).2.waits := by
  have hunused := isUnused_nextNumber h.length_le
  rcases (isUnused_iff _ _).mp hunused with ⟨hne, hother⟩
  have hfresh : (r.nextNumber, type) ∉ r.waits.map Wait.key := by
    intro hmem
    rcases List.mem_map.mp hmem with ⟨wait, hwait, hkey⟩
    exact hother wait hwait (congrArg Prod.fst hkey)
  rcases effect_append h hne hfresh with ⟨r', happend, heffect⟩ | ⟨happend, -⟩
  · simpa only [register, happend, Entry.change] using heffect
  · simp only [register, happend, Entry.change, Change.Effect]

theorem effect_registerFor (h : Keyed r.waits) (requestor : UInt32) (type : EventType) :
    (Entry.change ⟨.registerFor requestor type, .number (r.registerFor requestor type).1⟩).Effect
      r.sources r.waits (r.registerFor requestor type).2.waits := by
  simp only [registerFor]
  split
  · simp only [Entry.change, Change.Effect]
  · rename_i hne
    split
    · simp only [Entry.change, Change.Effect]
    · rename_i hlive
      have hfresh : (requestor + 1, type) ∉ r.waits.map Wait.key := by
        intro hmem
        rcases List.mem_map.mp hmem with ⟨wait, hwait, hkey⟩
        exact hlive (List.any_eq_true.mpr ⟨wait, hwait, (wait.isFor_iff _ _).mpr hkey⟩)
      rcases effect_append h hne hfresh with ⟨r', happend, heffect⟩ | ⟨happend, -⟩
      · simpa only [happend, Entry.change] using heffect
      · simp only [happend, Entry.change, Change.Effect]

theorem effect_cancel (r : Roster S) (number : EventNumber) (type : EventType) :
    (Entry.change ⟨.cancel number type, .done (r.cancel number type).1⟩).Effect r.sources r.waits
      (r.cancel number type).2.waits := by
  unfold cancel
  split
  · rename_i hany
    rcases List.any_eq_true.mp hany with ⟨w, hw, hmatch⟩
    rcases List.exists_of_eraseP (p := fun w => w.isFor number type) hw hmatch with
      ⟨wait, older, younger, -, hwait, hsplit, herase⟩
    exact ⟨older, wait, younger, (wait.isFor_iff _ _).mp hwait, hsplit, herase⟩
  · simp only [Entry.change, Change.Effect]

theorem effect_scan (r : Roster S) (mode : ReadMode) :
    (Entry.change ⟨.scan mode, .event (r.scan mode).1⟩).Effect r.sources r.waits
      (r.scan mode).2.waits := by
  cases mode with
  | peek => exact scanFrom_peek_waits r.sources r.waits
  | take =>
      cases hevent : (scanFrom .take r.sources r.waits).1 with
      | none =>
          simp only [scan, hevent, Entry.change, Change.Effect]
          exact scanFrom_waits_of_none hevent
      | some event =>
          simp only [scan, hevent, Entry.change, Change.Effect]
          rcases scanFrom_of_some hevent with
            ⟨older, wait, younger, -, value, hsplit, -, -, rfl, htake⟩
          exact ⟨older, wait, younger, rfl, hsplit, htake rfl⟩

/-- A call changes the waits as its entry in the log says. -/
theorem effect_perform (h : Keyed r.waits) (call : Call) :
    (Entry.change ⟨call, (r.perform call).1⟩).Effect r.sources r.waits
      (r.perform call).2.waits := by
  cases call with
  | register type => exact effect_register h type
  | registerFor requestor type => exact effect_registerFor h requestor type
  | post recipient type value =>
      simp only [perform, post, Entry.change, Change.Effect]
      cases Sources.delivery r.sources type with
      | sampled => rfl
      | posted => exact deliver_eq_map h recipient type value
  | cancel number type => exact effect_cancel r number type
  | scan mode => exact effect_scan r mode
  | readType type mode => rfl
  | reset => rfl
  | renumber number => rfl

end Roster
end DeviceLayer
