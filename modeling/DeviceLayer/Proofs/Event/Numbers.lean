import DeviceLayer.Proofs.Event.Refinement

/-!
# Numbers identify waits

Numbers given out in sequence and numbers of requestors are drawn from one space,
and the sequence wraps around in it.  The number of a live wait is still never
zero, and together with its type it belongs to that wait alone.

Main results:

- Theorem {lit}`Roster.scanFrom_fst_eq_none_iff`: a scan reports nothing exactly
  if no wait is satisfied when its turn comes.
- Theorem {lit}`Roster.nothingReady_iff_of_posted`: where every type is posted, no wait
  is satisfied exactly if all of them are pending.
- Theorem {lit}`Keyed.countP_isFor_le`: a number and a type match one wait at most.
- Theorem {lit}`numbers_identify_waits`: throughout a run numbers are not zero,
  keys are distinct, and a number given out in sequence is new.
-/

namespace DeviceLayer

/-! ## Keys of waits -/

/-- Waits with one key are one wait. -/
theorem Keyed.eq_of_key_eq {waits : List Wait} (h : Keyed waits) {wait other : Wait}
    (hwait : wait ∈ waits) (hother : other ∈ waits) (hkey : wait.key = other.key) :
    wait = other :=
  List.inj_on_of_nodup_map h.nodup hwait hother hkey

/-- A number and a type match one wait at most. -/
theorem Keyed.countP_isFor_le {waits : List Wait} (h : Keyed waits) (number : EventNumber)
    (type : EventType) : waits.countP (·.isFor number type) ≤ 1 := by
  have hcount : waits.countP (·.isFor number type) = (waits.map Wait.key).count (number, type) := by
    rw [List.count, List.countP_map]
    apply List.countP_congr
    intro wait _
    rw [Wait.isFor_iff, Function.comp_apply, beq_iff_eq]
  rw [hcount]
  exact List.nodup_iff_count_le_one.mp h.nodup _

variable {S κ : Type} [Sources S κ]

namespace Roster

/-! ## Nothing to report -/

/-- When its turn comes, there is nothing for any wait. -/
def NothingReady (mode : ReadMode) (sources : S) : List Wait → Prop
  | [] => True
  | wait :: rest =>
    (observe mode sources wait).1 = none ∧
      NothingReady mode (observe mode sources wait).2 rest

/-- For a wait of a posted type there is nothing exactly while it is pending. -/
theorem nothingReady_cons_of_posted {sources : S} {wait : Wait}
    (h : Sources.kindOf sources wait.type = none) (mode : ReadMode) (rest : List Wait) :
    NothingReady mode sources (wait :: rest) ↔
      wait.phase = .pending ∧ NothingReady mode sources rest := by
  rw [NothingReady, observe_of_posted h]
  cases wait.phase <;> simp

/-- Where every type is posted, nothing is ready exactly if all waits are pending. -/
theorem nothingReady_iff_of_posted {sources : S} {waits : List Wait}
    (h : ∀ wait ∈ waits, Sources.kindOf sources wait.type = none) (mode : ReadMode) :
    NothingReady mode sources waits ↔ ∀ wait ∈ waits, wait.phase = .pending := by
  induction waits with
  | nil => simp [NothingReady]
  | cons first rest ih =>
      rcases List.forall_mem_cons.mp h with ⟨hfirst, hrest⟩
      rw [nothingReady_cons_of_posted hfirst, ih hrest, List.forall_mem_cons]

/-- A scan reports nothing exactly if no wait is satisfied when its turn comes. -/
theorem scanFrom_fst_eq_none_iff (mode : ReadMode) (sources : S) (waits : List Wait) :
    (scanFrom mode sources waits).1 = none ↔ NothingReady mode sources waits := by
  induction waits generalizing sources with
  | nil => simp [scanFrom, NothingReady]
  | cons wait rest ih =>
      rcases hobserve : observe mode sources wait with ⟨value?, sources'⟩
      cases value? with
      | some value => cases mode <;> simp [scanFrom, NothingReady, hobserve]
      | none => simp only [scanFrom, NothingReady, hobserve, ih, true_and]

/-! ## Registering -/

omit [Sources S κ] in
/-- A wait that is accepted comes after the live ones under the number it was offered. -/
theorem append_of_ok {r r' : Roster S} {offered number : EventNumber} {type : EventType}
    (happend : r.append offered type = (.ok number, r')) :
    number = offered ∧
      r'.waits = r.waits ++ [{ number, type, phase := .pending, value := 0 }] := by
  unfold append at happend
  split at happend
  · rcases Prod.mk.inj happend with ⟨hnumber, rfl⟩
    obtain rfl := Except.ok.inj hnumber
    exact ⟨rfl, rfl⟩
  · cases happend

omit [Sources S κ] in
/-- A number given out in sequence is not zero, and no live wait carries it. -/
theorem register_of_ok {r r' : Roster S} (h : Keyed r.waits) {type : EventType}
    {number : EventNumber} (hregister : r.register type = (.ok number, r')) :
    r'.waits = r.waits ++ [{ number, type, phase := .pending, value := 0 }] ∧
      isUnused r.waits number = true := by
  unfold register at hregister
  split at hregister
  · rename_i happend
    rcases Prod.mk.inj hregister with ⟨hnumber, rfl⟩
    obtain rfl := Except.ok.inj hnumber
    rcases append_of_ok happend with ⟨hnext, hwaits⟩
    rw [hnext] at hwaits ⊢
    exact ⟨hwaits, isUnused_nextNumber h.length_le⟩
  · cases hregister

end Roster

namespace Recorded

variable {r : Recorded S}

/-- A wait registered in sequence comes after the live ones and has a number of its own. -/
theorem Sound.register_of_ok (h : r.Sound) {type : EventType} {number : EventNumber}
    {q' : Queue S} (hregister : r.queue.register type = (.ok number, q')) :
    q'.waits.waits =
        r.queue.waits.waits ++ [{ number, type, phase := .pending, value := 0 }] ∧
      Roster.isUnused r.queue.waits.waits number = true := by
  have hplain := (Queue.refines_register h.wellFormed type).2
  rw [hregister] at hplain
  exact Roster.register_of_ok (r := r.queue.toRoster) h.keyed hplain

/-- The number of a reported event is that of a live wait, hence not zero. -/
theorem Sound.numberOrZero_eq_iff (h : r.Sound) (mode : ReadMode) :
    Event.numberOrZero (r.queue.scan mode).1 = noEvent ↔
      Roster.NothingReady mode r.queue.sources r.queue.waits.waits := by
  rw [Queue.scan_fst h.wellFormed, ← Roster.scanFrom_fst_eq_none_iff]
  cases hevent : (Roster.scanFrom mode r.queue.sources r.queue.waits.waits).1 with
  | none => simp
  | some event =>
      rcases Roster.scanFrom_of_some hevent with
        ⟨older, wait, younger, -, value, hsplit, -, -, rfl, -⟩
      have hmem : wait ∈ r.queue.waits.waits := hsplit ▸ List.mem_append_right _ List.mem_cons_self
      have hne : wait.number ≠ noEvent := h.keyed.number_ne wait hmem
      simp [hne]

end Recorded

/--
At every moment of every run, also when the counter has been set to any number,
the numbers of the live waits are not zero and no two waits share number and
type.  A number given out in sequence is carried by no live wait of any type.  So
number zero is reported exactly when no wait is satisfied, and a post directed at
a number matches one wait at most.
-/
theorem numbers_identify_waits (sources : S) (commands : List (Command S)) (n : Nat) :
    let q := (moment sources commands n).queue
    let waits := q.waits.waits
    ((∀ wait ∈ waits, wait.number ≠ noEvent) ∧ (waits.map Wait.key).Nodup) ∧
      (∀ type number q', q.register type = (.ok number, q') →
        q'.waits.waits = waits ++ [{ number, type, phase := .pending, value := 0 }] ∧
          number ≠ noEvent ∧ ∀ wait ∈ waits, wait.number ≠ number) ∧
      (∀ mode, Event.numberOrZero (q.scan mode).1 = noEvent ↔
        Roster.NothingReady mode q.sources waits) ∧
      ∀ recipient type, waits.countP (·.isFor recipient type) ≤ 1 := by
  intro q waits
  have hsound := Recorded.sound_moment sources commands n
  refine ⟨⟨hsound.keyed.number_ne, hsound.keyed.nodup⟩, ?_, hsound.numberOrZero_eq_iff,
    hsound.keyed.countP_isFor_le⟩
  intro type number q' hregister
  rcases hsound.register_of_ok hregister with ⟨hwaits, hunused⟩
  exact ⟨hwaits, (Roster.isUnused_iff _ _).mp hunused⟩

/-- The sequence wraps past zero and past the number of a requestor. -/
def wrappingNumbers : List (Command PostedOnly) :=
  [.operation (.call (.renumber 4294967294)),
    .operation (.call (.register 7)),
    .operation (.call (.registerFor 0 8)),
    .operation (.call (.post 4294967295 7 5))]

theorem wrapped_sequence_skips_live_numbers :
    let q := (moment PostedOnly.mk wrappingNumbers 4).queue
    let waits := q.waits.waits
    waits.map Wait.key = [(4294967295, 7), (1, 8)] ∧
      (q.register 7).1 = .ok 2 ∧ (∀ wait ∈ waits, wait.number ≠ 2) ∧
      Event.numberOrZero (q.scan .take).1 = 4294967295 ∧
      ¬ Roster.NothingReady .take PostedOnly.mk waits ∧
      ¬ ∀ wait ∈ waits, wait.phase = .pending := by
  intro q waits
  have hregister : q.register 7 = (.ok 2, (q.register 7).2) := by
    have hnumber : (q.register 7).1 = .ok 2 := by decide
    exact Prod.ext hnumber rfl
  have hscan : Event.numberOrZero (q.scan .take).1 = 4294967295 := by decide
  rcases numbers_identify_waits PostedOnly.mk wrappingNumbers 4 with ⟨-, hnew, hready, -⟩
  have hsatisfied : ¬ Roster.NothingReady .take PostedOnly.mk waits := by
    intro hnothing
    have hzero := (hready .take).mpr hnothing
    rw [hscan] at hzero
    exact absurd hzero (by decide)
  refine ⟨by decide, congrArg Prod.fst hregister, (hnew 7 2 _ hregister).2.2, hscan, hsatisfied,
    ?_⟩
  rwa [Roster.nothingReady_iff_of_posted fun _ _ => rfl] at hsatisfied

end DeviceLayer
