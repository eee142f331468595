import DeviceLayer.Boundary
import DeviceLayer.Proofs.Event.Account
import DeviceLayer.Proofs.Event.Numbers

/-!
# Numbers of waits at the boundary

A registration crosses to the virtual machine as one 32-bit integer with sign.
The number of a wait has no sign, so only the lower half of the numbers crosses
unchanged, and the upper half is cut at its end.  As far as numbers cross
unchanged, the integer is what the machine needs: it tells waits apart, it comes
back with the event, and it can be used to cancel the wait.

Main results:

- Theorem {lit}`Boundary.toInt_ofRegistration`: the integer is the number, cut at
  the largest integer.
- Theorem {lit}`Boundary.toUInt32_ofRegistration`: read back without sign it is
  the number, unless it was cut.
- Theorem {lit}`raw_number_identifies_wait`: what the integer says of a wait
  throughout a run.
- Theorem {lit}`cut_numbers_collide`: of two waits whose numbers are cut, one is
  cancelled in place of the other.
-/

namespace DeviceLayer

/-! ## Numbers that cross -/

namespace Boundary

/-- The last number that crosses unchanged. -/
def lastExact : Nat := 2147483647

/-- What the machine sees of a registration. -/
def ofRegistration (result : Except Fault EventNumber) : Int32 :=
  flatten (result.map fun number => (number.toNat : Int))

@[simp]
theorem ofRegistration_error (fault : Fault) : ofRegistration (.error fault) = failure :=
  rfl

theorem fits_iff (number : EventNumber) : Fits number.toNat ↔ number.toNat ≤ lastExact := by
  have hmin : Int32.minValue.toInt = -2147483648 := by decide
  have hmax : Int32.maxValue.toInt = 2147483647 := by decide
  rw [Fits, hmin, hmax, lastExact]
  omega

/-- The integer is the number, cut at the largest integer. -/
theorem toInt_ofRegistration (number : EventNumber) :
    (ofRegistration (.ok number)).toInt = (min number.toNat lastExact : Nat) := by
  show (flatten (.ok (number.toNat : Int))).toInt = _
  by_cases h : number.toNat ≤ lastExact
  · rw [flatten_ok_of_fits ((fits_iff number).mpr h), Nat.min_eq_left h]
    rw [lastExact] at h
    exact Int32.toInt_ofInt_of_le (by omega) (by omega)
  · rw [flatten_ok_of_not_fits (mt (fits_iff number).mp h), Nat.min_eq_right (Nat.le_of_not_le h)]
    decide

/-- Only a failure crosses as the sentinel. -/
theorem ofRegistration_eq_failure_iff (result : Except Fault EventNumber) :
    ofRegistration result = failure ↔ ∃ fault, result = .error fault := by
  cases result with
  | error fault => simp
  | ok number =>
      constructor
      · intro heq
        have hint := toInt_ofRegistration number
        rw [heq, show failure.toInt = -1 by decide] at hint
        omega
      · rintro ⟨fault, hfault⟩
        contradiction

/-- Read back without sign the integer is the number, unless it was cut. -/
theorem toUInt32_ofRegistration {number : EventNumber} (h : number.toNat ≤ lastExact) :
    (ofRegistration (.ok number)).toUInt32 = number := by
  show (flatten (.ok (number.toNat : Int))).toUInt32 = number
  rw [flatten_ok_of_fits ((fits_iff number).mpr h), Int32.ofInt_eq_ofNat]
  apply UInt32.toNat_inj.mp
  show (BitVec.ofNat 32 number.toNat).toNat = number.toNat
  rw [BitVec.toNat_ofNat]
  exact Nat.mod_eq_of_lt number.toNat_lt

/-- Different numbers cross as one integer only if both are cut to it. -/
theorem le_of_ofRegistration_eq {number other : EventNumber} (hne : number ≠ other)
    (heq : ofRegistration (.ok number) = ofRegistration (.ok other)) :
    lastExact ≤ number.toNat ∧ lastExact ≤ other.toNat := by
  have hint := congrArg Int32.toInt heq
  rw [toInt_ofRegistration, toInt_ofRegistration, Int.ofNat_inj] at hint
  have hval : number.toNat ≠ other.toNat := fun h => hne (UInt32.toNat_inj.mp h)
  omega

end Boundary

/-! ## Registrations and their ends -/

/-- A key that is open was opened by an entry of the log. -/
theorem exists_opening {key : WaitKey} {log : List Entry} (h : key ∈ unended log) :
    ∃ entry ∈ log, entry.change = .opens key := by
  induction log with
  | nil => simp [unended] at h
  | cons entry later ih =>
      rw [unended, List.mem_append] at h
      rcases h with hfirst | hlater
      · refine ⟨entry, List.mem_cons_self, ?_⟩
        have hopened : entry.change.opened? = some key :=
          Option.mem_toList.mp (List.mem_filter.mp hfirst).1
        cases hchange : entry.change <;> simp [hchange, Change.opened?] at hopened
        rw [hopened]
      · rcases ih hlater with ⟨opening, hmem, hopening⟩
        exact ⟨opening, List.mem_cons_of_mem entry hmem, hopening⟩

namespace Roster

variable {S : Type} {r r' : Roster S}

/-- A wait registered for a requestor comes after the live ones. -/
theorem registerFor_of_ok {requestor : UInt32} {type : EventType} {number : EventNumber}
    (hregister : r.registerFor requestor type = (.ok number, r')) :
    r'.waits = r.waits ++ [{ number, type, phase := .pending, value := 0 }] := by
  simp only [registerFor] at hregister
  split at hregister
  · cases hregister
  · split at hregister
    · cases hregister
    · exact (append_of_ok hregister).2

/-- Cancelling a wait by its key takes out that wait. -/
theorem cancel_of_mem (h : Keyed r.waits) {wait : Wait} (hwait : wait ∈ r.waits) :
    ∃ older younger, r.waits = older ++ wait :: younger ∧
      r.cancel wait.number wait.type = (.ok (), { r with waits := older ++ younger }) := by
  have hmatch : wait.isFor wait.number wait.type = true := (wait.isFor_iff _ _).mpr rfl
  -- the first wait that matches is this one, because no other has its key
  rcases List.exists_of_eraseP (p := (·.isFor wait.number wait.type)) hwait hmatch with
    ⟨ended, older, younger, -, hended, hsplit, herase⟩
  have hmem : ended ∈ r.waits := hsplit ▸ List.mem_append_right _ List.mem_cons_self
  obtain rfl := h.eq_of_key_eq hmem hwait ((ended.isFor_iff _ _).mp hended)
  refine ⟨older, younger, hsplit, ?_⟩
  rw [cancel, if_pos (List.any_eq_true.mpr ⟨ended, hwait, hmatch⟩), herase]

end Roster

namespace Recorded

variable {S κ : Type} [Sources S κ] {r : Recorded S}

theorem Sound.registerFor_of_ok (h : r.Sound) {requestor : UInt32} {type : EventType}
    {number : EventNumber} {q' : Queue S}
    (hregister : r.queue.registerFor requestor type = (.ok number, q')) :
    q'.waits.waits =
      r.queue.waits.waits ++ [{ number, type, phase := .pending, value := 0 }] := by
  have hplain := (Queue.refines_registerFor h.wellFormed requestor type).2
  rw [hregister] at hplain
  exact Roster.registerFor_of_ok hplain

/-- An event reports a live wait. -/
theorem Sound.exists_key_of_scan (h : r.Sound) {mode : ReadMode} {event : Event}
    (hscan : (r.queue.scan mode).1 = some event) :
    ∃ wait ∈ r.queue.waits.waits, wait.key = (event.number, event.type) := by
  rw [Queue.scan_fst h.wellFormed] at hscan
  rcases Roster.scanFrom_of_some hscan with ⟨older, wait, younger, -, value, hsplit, -, -, rfl, -⟩
  exact ⟨wait, hsplit ▸ List.mem_append_right _ List.mem_cons_self, rfl⟩

theorem Sound.cancel_of_mem (h : r.Sound) {wait : Wait} (hwait : wait ∈ r.queue.waits.waits) :
    (r.queue.cancel wait.number wait.type).1 = .ok () ∧
      ∃ older younger, r.queue.waits.waits = older ++ wait :: younger ∧
        (r.queue.cancel wait.number wait.type).2.waits.waits = older ++ younger := by
  have hplain := (Queue.refines_cancel h.wellFormed wait.number wait.type).2
  rcases Roster.cancel_of_mem (r := r.queue.toRoster) h.keyed hwait with
    ⟨older, younger, hsplit, hcancel⟩
  rw [hcancel] at hplain
  rcases Prod.mk.inj hplain with ⟨hok, hafter⟩
  exact ⟨hok.symm, older, younger, hsplit, (congrArg Roster.waits hafter).symm⟩

end Recorded

/-! ## The integer of a wait -/

/--
At every moment of every run a registration of either kind crosses as the
sentinel exactly if it fails.  Otherwise it crosses as the number of the new
wait, cut at the largest integer.  Each live wait was registered in the log under
its number.  Two of them cross as one integer only if both numbers are cut to it.
An event bears the number of a live wait, and up to the last exact number the
integer of a wait is the number of its event and cancels it.
-/
theorem raw_number_identifies_wait {S κ : Type} [Sources S κ] (sources : S)
    (commands : List (Command S)) (n : Nat) :
    let r := moment sources commands n
    let q := r.queue
    let waits := q.waits.waits
    let raw := fun number : EventNumber => Boundary.ofRegistration (.ok number)
    (∀ type result q',
        (q.register type = (result, q') ∨
          ∃ requestor, q.registerFor requestor type = (result, q')) →
        (Boundary.ofRegistration result = Boundary.failure ↔ ∃ fault, result = .error fault) ∧
          ∀ number, result = .ok number →
            (Boundary.ofRegistration result).toInt =
                (min number.toNat Boundary.lastExact : Nat) ∧
              q'.waits.waits = waits ++ [{ number, type, phase := .pending, value := 0 }]) ∧
      (∀ wait ∈ waits, ∃ entry ∈ r.log, entry.change = .opens wait.key) ∧
      (∀ wait ∈ waits, ∀ other ∈ waits, wait.number ≠ other.number →
        raw wait.number = raw other.number →
          Boundary.lastExact ≤ wait.number.toNat ∧ Boundary.lastExact ≤ other.number.toNat) ∧
      (∀ mode event, (q.scan mode).1 = some event →
        ∃ wait ∈ waits, wait.key = (event.number, event.type) ∧
          (wait.number.toNat ≤ Boundary.lastExact →
            ((Event.numberOrZero (some event)).toNat : Int) = (raw wait.number).toInt)) ∧
      ∀ wait ∈ waits, wait.number.toNat ≤ Boundary.lastExact →
        (q.cancel (raw wait.number).toUInt32 wait.type).1 = .ok () ∧
          ∃ older younger, waits = older ++ wait :: younger ∧
            (q.cancel (raw wait.number).toUInt32 wait.type).2.waits.waits = older ++ younger := by
  intro r q waits raw
  have hsound : r.Sound := Recorded.sound_moment sources commands n
  refine ⟨?_, ?_, ?_, ?_, ?_⟩
  · intro type result q' hregister
    refine ⟨Boundary.ofRegistration_eq_failure_iff result, ?_⟩
    rintro number rfl
    refine ⟨Boundary.toInt_ofRegistration number, ?_⟩
    rcases hregister with hsequence | ⟨requestor, hrequestor⟩
    · exact (hsound.register_of_ok hsequence).1
    · exact hsound.registerFor_of_ok hrequestor
  · intro wait hwait
    apply exists_opening
    rw [← (keys_moment sources commands n).1]
    exact List.mem_map_of_mem hwait
  · intro wait _ other _ hne heq
    exact Boundary.le_of_ofRegistration_eq hne heq
  · intro mode event hscan
    rcases hsound.exists_key_of_scan hscan with ⟨wait, hwait, hkey⟩
    refine ⟨wait, hwait, hkey, fun hexact => ?_⟩
    have hnumber : event.number = wait.number := (congrArg Prod.fst hkey).symm
    rw [Event.numberOrZero_some, hnumber, Boundary.toInt_ofRegistration, Nat.min_eq_left hexact]
  · intro wait hwait hexact
    rw [Boundary.toUInt32_ofRegistration hexact]
    exact hsound.cancel_of_mem hwait

/-- Waits with the last number that crosses unchanged and the first one that is cut to it. -/
def neighboursAtTheEnd : List (Command PostedOnly) :=
  [.operation (.call (.registerFor 2147483646 5)),
    .operation (.call (.registerFor 2147483647 5)),
    .operation (.call (.post everyone 5 9))]

/-- The integer of the last exact number is the number of its event and cancels its wait. -/
theorem last_exact_number_crosses :
    let q := (moment PostedOnly.mk neighboursAtTheEnd 3).queue
    let raw := Boundary.ofRegistration (.ok 2147483647)
    raw.toInt = 2147483647 ∧ (q.scan .peek).1 = some ⟨2147483647, 5, 9⟩ ∧
      ((Event.numberOrZero (q.scan .peek).1).toNat : Int) = raw.toInt ∧
      (q.cancel raw.toUInt32 5).1 = .ok () := by
  intro q raw
  have hscan : (q.scan .peek).1 = some ⟨2147483647, 5, 9⟩ := by decide
  rcases raw_number_identifies_wait PostedOnly.mk neighboursAtTheEnd 3 with
    ⟨-, -, -, hevent, hcancel⟩
  rcases hevent .peek _ hscan with ⟨wait, hwait, hkey, hnumber⟩
  rcases Prod.mk.inj hkey with ⟨hwaitNumber, hwaitType⟩
  have hexact : wait.number.toNat ≤ Boundary.lastExact := by
    rw [hwaitNumber]
    decide
  have hcancelled := (hcancel wait hwait hexact).1
  have hsame := hnumber hexact
  rw [hwaitNumber, hwaitType] at hcancelled
  rw [hwaitNumber] at hsame
  refine ⟨by decide, hscan, ?_, hcancelled⟩
  rw [hscan]
  exact hsame

/--
The number after the last exact one crosses as the last exact one.  The machine
cannot tell the two waits apart, cancelling one takes out the other, and the event
bears another number than the registration returned.
-/
theorem cut_numbers_collide :
    let q := (moment PostedOnly.mk neighboursAtTheEnd 1).queue
    let q' := (moment PostedOnly.mk neighboursAtTheEnd 2).queue
    let raw := Boundary.ofRegistration (q.registerFor 2147483647 5).1
    (q.registerFor 2147483647 5).1 = .ok 2147483648 ∧ raw.toInt ≠ 2147483648 ∧
      q'.waits.waits.map Wait.key = [(2147483647, 5), (2147483648, 5)] ∧
      raw = Boundary.ofRegistration (.ok 2147483647) ∧
      (q'.cancel raw.toUInt32 5).2.waits.waits.map Wait.key = [(2147483648, 5)] ∧
      Event.numberOrZero ((q'.post 2147483648 5 9).scan .peek).1 = 2147483648 := by
  decide

end DeviceLayer
