import DeviceLayer.Proofs.Event.Run
import Mathlib.Data.List.Nodup

/-!
# The queue as a plain list

A roster does what a queue does on a plain list of waits: no nodes, no links, no
unused nodes.  A wait is added at the end, looked for from the front, rewritten
in place and taken out of the middle.  A roster has room as long as it is
shorter than the pool.

Main results:

- Theorem {lit}`Roster.exists_unused_among`: fewer waits than numbers leave one of
  the numbers unused.
- Theorem {lit}`Roster.exists_unused`: zero and the numbers of a full pool cannot
  block every candidate.
- Theorem {lit}`Roster.isUnused_nextNumber`: the next number in sequence is not
  zero, and no wait carries it.
- Theorem {lit}`Roster.signalFirst_map`: a directed post rewrites the first match
  and no other wait.
- Theorem {lit}`Roster.sample_eq_observe`: a wait is sampled for what its fields and its
  source have for it.
- Theorem {lit}`Roster.scanFrom_of_some`: a scan reports a wait with what there is for
  it, and taking leaves the others in order.
-/

namespace DeviceLayer

/-- The live waits as a plain list, oldest first. -/
structure Roster (S : Type) where
  waits : List Wait
  lastNumber : EventNumber
  sources : S

namespace Roster

variable {S κ : Type}

/-- A roster without waits. -/
def new (sources : S) : Roster S where
  waits := []
  lastNumber := noEvent
  sources

/-! ## Registering and cancelling -/

/--
The numbers after {lit}`last`, cyclically.  Zero and the numbers of a full pool
can be in the way, so one number more than those is always enough.
-/
def candidates (last : EventNumber) : List EventNumber :=
  (List.range (waitLimit + 2)).map fun i => last + 1 + UInt32.ofNat i

/-- Whether a number can be given out: not zero and not carried by any of the waits. -/
def isUnused (waits : List Wait) (number : EventNumber) : Bool :=
  number != noEvent && waits.all fun wait => wait.number != number

/-- The first number after the last one that can be given out. -/
def nextNumber (r : Roster S) : EventNumber :=
  ((candidates r.lastNumber).find? (isUnused r.waits)).getD noEvent

/-- Add a wait at the end, if there is room. -/
def append (r : Roster S) (number : EventNumber) (type : EventType) :
    Except Fault EventNumber × Roster S :=
  if r.waits.length < waitLimit then
    (.ok number, { r with waits := r.waits ++ [{ number, type, phase := .pending, value := 0 }] })
  else (.error .waitPoolEmpty, r)

/-- Register a wait under the next number in sequence. -/
def register (r : Roster S) (type : EventType) : Except Fault EventNumber × Roster S :=
  match r.append r.nextNumber type with
  | (.ok number, r') => (.ok number, { r' with lastNumber := number })
  | (.error fault, r') => (.error fault, r')

/-- Register a wait under the number of a requestor. -/
def registerFor (r : Roster S) (requestor : UInt32) (type : EventType) :
    Except Fault EventNumber × Roster S :=
  let number := requestor + 1
  if number = noEvent then (.error .requestorWithoutNumber, r)
  else if r.waits.any (·.isFor number type) then (.error .alreadyWaiting, r)
  else r.append number type

/-- Take out the first wait with this number and type. -/
def cancel (r : Roster S) (number : EventNumber) (type : EventType) :
    Except Fault Unit × Roster S :=
  if r.waits.any (·.isFor number type) then
    (.ok (), { r with waits := r.waits.eraseP (·.isFor number type) })
  else (.error .noSuchWait, r)

/-! ## Posting -/

/-- Signal the first wait that satisfies {lit}`p`. -/
def signalFirst (p : Wait → Bool) (value : EventValue) : List Wait → List Wait
  | [] => []
  | wait :: rest =>
    if p wait then { wait with phase := .signaled, value } :: rest
    else wait :: signalFirst p value rest

/-- Signal every wait of a type, or the first one with a number and type. -/
def deliver (waits : List Wait) (recipient : Recipient) (type : EventType)
    (value : EventValue) : List Wait :=
  if recipient = everyone then
    waits.map fun wait =>
      if wait.type == type then { wait with phase := .signaled, value } else wait
  else signalFirst (·.isFor recipient type) value waits

variable [Sources S κ]

/-- Post an event; a post to a sampled type is ignored. -/
def post (r : Roster S) (recipient : Recipient) (type : EventType) (value : EventValue) :
    Roster S :=
  match Sources.delivery r.sources type with
  | .sampled => r
  | .posted => { r with waits := deliver r.waits recipient type value }

/-! ## Scanning -/

/--
What there is for a wait: a sampled type is read from its source, and a wait of a posted
type has its value once it is signaled.
-/
def observe (mode : ReadMode) (sources : S) (wait : Wait) : Option EventValue × S :=
  match Sources.kindOf sources wait.type with
  | some kind => Sources.read sources kind mode
  | none => (if wait.phase = .signaled then some wait.value else none, sources)

/--
Observe waits from the front until there is something for one.  Taking leaves that one
out of the waits.
-/
def scanFrom (mode : ReadMode) (sources : S) : List Wait → Option Event × List Wait × S
  | [] => (none, [], sources)
  | wait :: rest =>
    match observe mode sources wait with
    | (some value, sources') =>
      let event : Event := { number := wait.number, type := wait.type, value }
      match mode with
      | .peek => (some event, wait :: rest, sources')
      | .take => (some event, rest, sources')
    | (none, sources') =>
      let (event, rest', sources'') := scanFrom mode sources' rest
      (event, wait :: rest', sources'')

/-- The first satisfied wait; taking takes it out. -/
def scan (r : Roster S) (mode : ReadMode) : Option Event × Roster S :=
  let (event, waits, sources) := scanFrom mode r.sources r.waits
  (event, { r with waits, sources })

/-- Read the source of a type directly. -/
def readType (r : Roster S) (type : EventType) (mode : ReadMode) :
    Option EventValue × Roster S :=
  ((Sources.readType r.sources type mode).1,
    { r with sources := (Sources.readType r.sources type mode).2 })

/-- Make a call. -/
def perform (r : Roster S) : Call → Answer × Roster S
  | .register type => (.number (r.register type).1, (r.register type).2)
  | .registerFor requestor type =>
    (.number (r.registerFor requestor type).1, (r.registerFor requestor type).2)
  | .post recipient type value => (.nothing, r.post recipient type value)
  | .cancel number type => (.done (r.cancel number type).1, (r.cancel number type).2)
  | .scan mode => (.event (r.scan mode).1, (r.scan mode).2)
  | .readType type mode => (.value (r.readType type mode).1, (r.readType type mode).2)
  | .reset => (.nothing, new r.sources)
  | .renumber number => (.nothing, { r with lastNumber := number })

/-- Do operations one after the other, and log the calls with their answers. -/
def performAll (r : Roster S) : List (Operation S) → List Entry × Roster S
  | [] => ([], r)
  | .call call :: rest =>
    let (answer, r') := r.perform call
    let (log, r'') := r'.performAll rest
    (⟨call, answer⟩ :: log, r'')
  | .change f :: rest => { r with sources := f r.sources : Roster S }.performAll rest

/-! ## Numbers that can be given out -/

theorem isUnused_iff (waits : List Wait) (number : EventNumber) :
    isUnused waits number = true ↔ number ≠ noEvent ∧ ∀ wait ∈ waits, wait.number ≠ number := by
  simp [isUnused]

theorem isUnused_eq_false_iff (waits : List Wait) (number : EventNumber) :
    isUnused waits number = false ↔ number = noEvent ∨ ∃ wait ∈ waits, wait.number = number := by
  rw [← Bool.not_eq_true, isUnused_iff]
  grind

/-- So few steps never come around to the same number. -/
theorem nodup_candidates (last : EventNumber) : (candidates last).Nodup := by
  apply List.Nodup.map_on _ List.nodup_range
  intro i hi j hj heq
  have hsize : waitLimit + 2 ≤ UInt32.size := by decide
  have hi' : i < UInt32.size := Nat.lt_of_lt_of_le (List.mem_range.mp hi) hsize
  have hj' : j < UInt32.size := Nat.lt_of_lt_of_le (List.mem_range.mp hj) hsize
  have hval := congrArg UInt32.toNat ((UInt32.add_right_inj _).mp heq)
  rwa [UInt32.toNat_ofNat_of_lt' hi', UInt32.toNat_ofNat_of_lt' hj'] at hval

/-- Fewer waits than numbers other than zero leave one of the numbers unused. -/
theorem exists_unused_among (waits : List Wait) {numbers : List EventNumber}
    (hnodup : (noEvent :: numbers).Nodup) (hlength : waits.length < numbers.length) :
    ∃ number ∈ numbers, isUnused waits number = true := by
  rcases List.nodup_cons.mp hnodup with ⟨hzero, hnumbers⟩
  by_contra hnone
  have hblocked : numbers ⊆ waits.map Wait.number := by
    intro number hmem
    by_contra hout
    apply hnone
    refine ⟨number, hmem, (isUnused_iff waits number).mpr ⟨?_, ?_⟩⟩
    · intro heq
      exact hzero (heq ▸ hmem)
    · intro wait hwait heq
      exact hout (List.mem_map.mpr ⟨wait, hwait, heq⟩)
  have hle := hnumbers.length_le_of_subset hblocked
  rw [List.length_map] at hle
  exact Nat.not_lt.mpr hle hlength

/-- Zero and the numbers of a full pool cannot block every candidate. -/
theorem exists_unused {waits : List Wait} (h : waits.length ≤ waitLimit)
    (last : EventNumber) : ∃ number ∈ candidates last, isUnused waits number = true := by
  have hnodup := nodup_candidates last
  have hlength : (candidates last).length = waitLimit + 2 := by
    rw [candidates, List.length_map, List.length_range]
  have herase : (candidates last).length - 1 ≤ ((candidates last).erase noEvent).length := by
    rw [List.length_erase]
    split <;> omega
  have hnodup' : (noEvent :: (candidates last).erase noEvent).Nodup :=
    List.nodup_cons.mpr ⟨hnodup.not_mem_erase, hnodup.erase noEvent⟩
  rcases exists_unused_among waits hnodup' (by omega) with ⟨number, hmem, hunused⟩
  exact ⟨number, List.mem_of_mem_erase hmem, hunused⟩

/-- The next number in sequence is not zero, and no wait carries it. -/
theorem isUnused_nextNumber {r : Roster S} (h : r.waits.length ≤ waitLimit) :
    isUnused r.waits r.nextNumber = true := by
  rcases exists_unused h r.lastNumber with ⟨number, hmem, hunused⟩
  unfold nextNumber
  cases hfind : (candidates r.lastNumber).find? (isUnused r.waits) with
  | none => exact absurd hunused (List.find?_eq_none.mp hfind number hmem)
  | some first => exact List.find?_some hfind

/-! ## The first match -/

/-- A directed post to waits that stand at distinct places rewrites the one found first. -/
theorem signalFirst_map {α : Type} [DecidableEq α] (p : Wait → Bool) (value : EventValue)
    (f : α → Wait) {places : List α} (hnodup : places.Nodup) :
    signalFirst p value (places.map f) = places.map fun x =>
      if x ∈ (places.find? fun x => p (f x)).toList then
        ⟨(f x).number, (f x).type, .signaled, value⟩
      else f x := by
  induction places with
  | nil => rfl
  | cons first rest ih =>
      rcases List.nodup_cons.mp hnodup with ⟨hnot, hrest⟩
      by_cases hfirst : p (f first) = true
      · have hkeep : ∀ x ∈ rest, x ≠ first := fun x hx heq => hnot (heq ▸ hx)
        simp only [List.map_cons, signalFirst, hfirst, ↓reduceIte, List.find?_cons_of_pos,
          Option.toList_some, List.mem_singleton, List.cons.injEq, true_and]
        apply List.map_congr_left
        intro x hx
        simp [hkeep x hx]
      · have hfound : first ∉ (rest.find? fun x => p (f x)).toList := by
          intro hmem
          exact hnot (List.mem_of_find?_eq_some (Option.mem_toList.mp hmem))
        simp only [List.map_cons, signalFirst, hfirst, Bool.false_eq_true, ↓reduceIte,
          not_false_eq_true, List.find?_cons_of_neg, hfound, ih hrest]

/-! ## The outcome of a scan -/

/-- A wait is sampled for what its fields and its source have for it. -/
theorem sample_eq_observe (sources : S) (wait : Wait) (mode : ReadMode) :
    Sources.sample sources wait mode = observe mode sources wait := by
  unfold Sources.sample observe
  cases Sources.kindOf sources wait.type with
  | some kind => rfl
  | none => exact congrArg (·, sources) wait.posted?_eq_ite

/-- For a wait of a posted type there is its value if it is signaled, and nothing if not. -/
theorem observe_of_posted {sources : S} {wait : Wait}
    (h : Sources.kindOf sources wait.type = none) (mode : ReadMode) :
    observe mode sources wait =
      (if wait.phase = .signaled then some wait.value else none, sources) := by
  simp only [observe, h]

@[simp]
theorem scanFrom_peek_waits (sources : S) (waits : List Wait) :
    (scanFrom .peek sources waits).2.1 = waits := by
  induction waits generalizing sources with
  | nil => rfl
  | cons first rest ih =>
      simp only [scanFrom]
      split
      · rfl
      · simp only [ih]

theorem scanFrom_waits_of_none {mode : ReadMode} {sources : S} {waits : List Wait}
    (h : (scanFrom mode sources waits).1 = none) : (scanFrom mode sources waits).2.1 = waits := by
  induction waits generalizing sources with
  | nil => rfl
  | cons first rest ih =>
      simp only [scanFrom] at h ⊢
      split
      · rename_i hsample
        cases mode <;> simp [hsample] at h
      · rename_i hsample
        simp only [hsample] at h
        simp only [ih h]

/-- A scan that finds nothing has observed nothing for any wait. -/
theorem observe_of_scanFrom_eq_none {mode : ReadMode} {sources : S} {waits : List Wait}
    (h : (scanFrom mode sources waits).1 = none) :
    ∀ wait ∈ waits, ∃ sources' : S, (observe mode sources' wait).1 = none := by
  induction waits generalizing sources with
  | nil => simp
  | cons first rest ih =>
      rcases hobserve : observe mode sources first with ⟨value?, sources₁⟩
      cases value? with
      | some value => cases mode <;> simp [scanFrom, hobserve] at h
      | none =>
          simp only [scanFrom, hobserve] at h
          intro wait hwait
          rcases List.mem_cons.mp hwait with rfl | hrest
          · exact ⟨sources, by rw [hobserve]⟩
          · exact ih h wait hrest

/--
The event reports a wait with what there is for it.  For the older waits there was
nothing, and taking leaves the others in order.
-/
theorem scanFrom_of_some {mode : ReadMode} {sources : S} {waits : List Wait} {event : Event}
    (h : (scanFrom mode sources waits).1 = some event) :
    ∃ older wait younger, ∃ sources' : S, ∃ value, waits = older ++ wait :: younger ∧
      (∀ w ∈ older, ∃ sources' : S, (observe mode sources' w).1 = none) ∧
      (observe mode sources' wait).1 = some value ∧ event = ⟨wait.number, wait.type, value⟩ ∧
      (mode = .take → (scanFrom mode sources waits).2.1 = older ++ younger) := by
  induction waits generalizing sources with
  | nil => simp [scanFrom] at h
  | cons first rest ih =>
      rcases hobserve : observe mode sources first with ⟨value?, sources₁⟩
      cases value? with
      | some value =>
          refine ⟨[], first, rest, sources, value, rfl, by simp, by rw [hobserve], ?_, ?_⟩
          · cases mode <;> simpa [scanFrom, hobserve] using h.symm
          · rintro rfl
            simp [scanFrom, hobserve]
      | none =>
          simp only [scanFrom, hobserve] at h
          rcases ih h with
            ⟨older, wait, younger, sources₂, value, hsplit, hvain, hvalue, hevent, htake⟩
          refine ⟨first :: older, wait, younger, sources₂, value, by rw [hsplit]; rfl, ?_, hvalue,
            hevent, ?_⟩
          · intro w hw
            rcases List.mem_cons.mp hw with rfl | hrest
            · exact ⟨sources, by rw [hobserve]⟩
            · exact hvain w hrest
          · intro hmode
            simp only [scanFrom, hobserve, htake hmode]
            rfl

end Roster
end DeviceLayer
