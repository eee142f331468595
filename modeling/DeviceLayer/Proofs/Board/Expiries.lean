import DeviceLayer.Proofs.Board.TimerBits

/-!
# Bits and the timers behind them

Descriptors are used again, the lowest first.  A bit that was left over from an
earlier owner would make a timer look expired that has just been started.  It cannot
be left over: if no driver raises bits, only an expiry does, an expiry of a timer
that does not run is refused, and stopping a timer drops its bit.

Main results:

- Theorem {lit}`Device.Owned.performAll`: every raised bit belongs to a running
  timer.
- Theorem {lit}`expiries_belong_to_timers`: with one scheduler, a started timer has
  no bit until it expires itself.
-/

namespace DeviceLayer

/-! ## Deeds that raise a bit -/

/-- A read raises no bit. -/
theorem TimerStatus.touchOfRead?_ne_some_true (mode : ReadMode) (type : EventType)
    (value : Option EventValue) : touchOfRead? mode type value ≠ some true := by
  unfold touchOfRead?
  split
  · split
    · simp
    · simp
  · simp

/-- A bit is raised by a driver or by the expiry of its timer. -/
theorem Deed.eq_of_touch?_eq_some_true {ι : Type} {d : Nat} {deed : Deed ι}
    (h : deed.touch? d = some true) :
    (∃ bits, deed.action = .raise bits) ∨
      ∃ i command, deed = ⟨.expire i d, .expired true command⟩ := by
  unfold touch? at h
  split at h
  · rename_i bits reply
    exact .inl ⟨bits, rfl⟩
  · simp at h
  · rename_i i d' command
    obtain ⟨rfl, -⟩ := Option.ite_none_right_eq_some.mp h
    exact .inr ⟨i, command, rfl⟩
  · simp at h
  · exact absurd h (TimerStatus.touchOfRead?_ne_some_true _ _ _)
  · exact absurd h (TimerStatus.touchOfRead?_ne_some_true _ _ _)
  · exact absurd h (TimerStatus.touchOfRead?_ne_some_true _ _ _)
  · contradiction

namespace Device

variable {ι : Type} [DecidableEq ι] {m : Device ι}

/-! ## Timers that keep running -/

/-- An operation of one scheduler stops no timer of another. -/
theorem isSome_request?_settle (m : Device ι) (i j : ι) {ρ : Type}
    {outcome : Scheduler.Outcome ρ} {d : Nat}
    (hrun : ((m.schedulers i).request? d).isSome = true)
    (h : ((m.schedulers j).request? d).isSome = true →
      (outcome.scheduler.request? d).isSome = true) :
    (((m.settle j outcome).schedulers i).request? d).isSome = true :=
  settle_cases (P := fun s => (s.request? d).isSome = true) (fun heq => h (heq ▸ hrun))
    fun _ => hrun

/-- A timer runs on unless its bit is dropped. -/
theorem Consistent.isSome_request?_perform (hm : m.Consistent) (action : Action ι) {i : ι}
    {d : Nat} (hrun : ((m.schedulers i).request? d).isSome = true)
    (hbit : Deed.touch? d ⟨action, (m.perform action).1⟩ ≠ some false) :
    (((m.perform action).2.schedulers i).request? d).isSome = true := by
  cases action with
  | schedule j nowUs delayMs repeats =>
      refine m.isSome_request?_settle i j hrun fun hrun => ?_
      rcases Scheduler.schedule_cases (hm j) m.board.timers nowUs delayMs repeats with
        ⟨fault, hrefused, -⟩ | ⟨d', s', hstarted, -, -, -, hwrites⟩
      · rw [hrefused]
        exact hrun
      · rw [hstarted]
        exact hwrites.isSome_request? hrun
  | expire j d' =>
      refine m.isSome_request?_settle i j hrun fun hrun => ?_
      rcases Scheduler.expire_cases (hm j) m.board.timers d' with
        ⟨hrefused, -⟩ | ⟨timer, s', hrung, -, hwrites⟩
      · rw [hrefused]
        exact hrun
      · rw [hrung]
        exact hwrites.isSome_request? hrun
  | stop j d' =>
      refine m.isSome_request?_settle i j hrun fun hrun => ?_
      rcases Scheduler.cancel_cases (hm j) m.board.timers d' with
        ⟨hrefused, -⟩ | ⟨timer, s', hstopped, -, hwrites⟩
      · rw [hrefused]
        exact hrun
      · simp only [Device.perform, hstopped, Deed.touch?] at hbit
        have hne : d' ≠ d := fun heq => hbit (if_pos heq)
        rw [hstopped]
        rwa [hwrites.request?_of_ne hne]
  | _ => exact hrun

/-! ## Raised bits -/

/-- Every raised bit belongs to a timer that runs under some scheduler. -/
structure Owned (m : Device ι) : Prop where
  consistent : m.Consistent
  exists_timer : ∀ d, m.board.timers.isRaised d = true →
    ∃ i, ((m.schedulers i).request? d).isSome = true

omit [DecidableEq ι] in
theorem owned_new : (new : Device ι).Owned where
  consistent := consistent_new
  exists_timer d hraised := by
    have hclear : (new : Device ι).board.timers.isRaised d = false :=
      TimerStatus.isRaised_empty d
    rw [hclear] at hraised
    contradiction

/-- An expiry is accepted only of a timer that runs. -/
theorem Consistent.isSome_request?_of_expired (hm : m.Consistent) {i : ι} {d : Nat}
    {command : Option TickerCommand}
    (h : (m.perform (.expire i d)).1 = .expired true command) :
    ((m.schedulers i).request? d).isSome = true := by
  rcases Scheduler.expire_cases (hm i) m.board.timers d with
    ⟨hrefused, -⟩ | ⟨timer, s', -, hrequest, -⟩
  · simp [Device.perform, hrefused] at h
  · rw [hrequest]
    rfl

/-- Only a driver can raise a bit without a timer. -/
theorem Owned.perform (hm : m.Owned) {action : Action ι} (haction : ∀ bits, action ≠ .raise bits) :
    (m.perform action).2.Owned where
  consistent := hm.consistent.perform action
  exists_timer d hraised := by
    have hbit := isRaised_perform hm.consistent action d
    rw [hraised] at hbit
    have hkept : Deed.touch? d ⟨action, (m.perform action).1⟩ ≠ some false := by
      intro hdropped
      rw [hdropped] at hbit
      contradiction
    obtain ⟨i, hrun⟩ : ∃ i, ((m.schedulers i).request? d).isSome = true := by
      cases htouch : Deed.touch? d ⟨action, (m.perform action).1⟩ with
      | none =>
          -- the bit was raised before, and then its timer ran before
          rw [htouch] at hbit
          exact hm.exists_timer d hbit.symm
      | some isRaised =>
          cases isRaised with
          | false => exact absurd htouch hkept
          | true =>
              rcases Deed.eq_of_touch?_eq_some_true htouch with
                ⟨bits, hraise⟩ | ⟨i, command, hdeed⟩
              · exact absurd hraise (haction bits)
              · obtain ⟨rfl, hreply⟩ := Deed.mk.inj hdeed
                exact ⟨i, hm.consistent.isSome_request?_of_expired hreply⟩
    exact ⟨i, hm.consistent.isSome_request?_perform action hrun hkept⟩

theorem Owned.performAll (hm : m.Owned) {actions : List (Action ι)}
    (hactions : ∀ bits, .raise bits ∉ actions) : (m.performAll actions).2.Owned :=
  performAll_induction
    (fun _ _ hmem h => h.perform fun bits heq => hactions bits (heq ▸ hmem)) hm

/-- A bit that was clear is raised now, so its timer has expired in between. -/
theorem Consistent.exists_expired_of_isRaised (hm : m.Consistent) {actions : List (Action ι)}
    (hactions : ∀ bits, .raise bits ∉ actions) {d : Nat}
    (hclear : m.board.timers.isRaised d = false)
    (hraised : (m.performAll actions).2.board.timers.isRaised d = true) :
    ∃ i command, ⟨.expire i d, .expired true command⟩ ∈ (m.performAll actions).1 := by
  have hlast : lastTouch? d (m.performAll actions).1 = some true := by
    have hview := isRaised_performAll hm actions d
    rw [hraised, hclear] at hview
    rcases Option.getD_eq_iff.mp hview.symm with hsome | ⟨-, hfalse⟩
    · exact hsome
    · contradiction
  obtain ⟨deed, hmem, htouch⟩ := List.mem_filterMap.mp (List.mem_of_getLast? hlast)
  rcases Deed.eq_of_touch?_eq_some_true htouch with ⟨bits, hraise⟩ | ⟨i, command, rfl⟩
  · have haction : deed.action ∈ actions := by
      rw [← m.map_action_performAll actions]
      exact List.mem_map_of_mem hmem
    exact absurd (hraise ▸ haction) (hactions bits)
  · exact ⟨i, command, hmem⟩

/-- The only scheduler starts a timer under a descriptor whose bit is clear. -/
theorem Owned.isRaised_of_scheduled {m : Device Unit} (hm : m.Owned) {nowUs : Time}
    {delayMs : UInt32} {repeats : Bool} {d : Nat} {command : Option TickerCommand}
    (h : (m.perform (.schedule () nowUs delayMs repeats)).1 = .scheduled (.ok d) command) :
    (m.perform (.schedule () nowUs delayMs repeats)).2.board.timers.isRaised d = false := by
  rcases Scheduler.schedule_cases (hm.consistent ()) m.board.timers nowUs delayMs repeats with
    ⟨fault, hrefused, -⟩ | ⟨d', s', hstarted, -, -, hunused, -⟩
  · simp [Device.perform, hrefused] at h
  · simp only [Device.perform, hstarted, Reply.scheduled.injEq, Except.ok.injEq] at h
    obtain ⟨rfl, -⟩ := h
    simp only [Device.perform, hstarted, board_settle]
    rw [Bool.eq_false_iff]
    intro hraised
    obtain ⟨i, hrun⟩ := hm.exists_timer d' hraised
    rw [hunused] at hrun
    contradiction

end Device

/-! ## No expiry of an earlier owner -/

/--
On a device with one scheduler where no driver raises bits, at every point of every
run: a raised bit belongs to a timer that runs.  When a timer is started its bit is
clear, and the bit is reported only after the timer has expired since then, whatever
became of earlier timers with its descriptor.
-/
theorem expiries_belong_to_timers {before : List (Action Unit)}
    (hbefore : ∀ bits, .raise bits ∉ before) :
    let m := (Device.new.performAll before).2
    (∀ d, m.board.timers.isRaised d = true → (m.schedulers ()).timers.isAllocated d = true) ∧
      ∀ nowUs delayMs repeats d command,
        (m.perform (.schedule () nowUs delayMs repeats)).1 = .scheduled (.ok d) command →
          let m' := (m.perform (.schedule () nowUs delayMs repeats)).2
          m'.board.timers.isRaised d = false ∧
            ∀ after, (∀ bits, .raise bits ∉ after) →
              let log := (m'.performAll after).1
              let m'' := (m'.performAll after).2
              ∀ action value, Deed.timerValue? ⟨action, (m''.perform action).1⟩ = some value →
                value.toUInt32.toNat.testBit d = true →
                  ∃ command', ⟨.expire () d, .expired true command'⟩ ∈ log := by
  intro m
  have hm : m.Owned := Device.owned_new.performAll hbefore
  refine ⟨fun d hraised => ?_, fun nowUs delayMs repeats d command hstarted => ?_⟩
  · obtain ⟨i, hrun⟩ := hm.exists_timer d hraised
    rwa [(hm.consistent i).isSome_request?] at hrun
  · have hclear := hm.isRaised_of_scheduled hstarted
    refine ⟨hclear, fun after hafter action value hvalue hbit => ?_⟩
    rw [Device.toUInt32_of_timerValue? hvalue] at hbit
    have hconsistent := hm.consistent.perform (.schedule () nowUs delayMs repeats)
    obtain ⟨i, command', hexpired⟩ :=
      hconsistent.exists_expired_of_isRaised hafter hclear hbit
    exact ⟨command', hexpired⟩

/--
A timer expires unseen and is stopped, and its late expiry is refused; another expires
and is seen.
-/
def earlierOwners : List (Action Unit) :=
  [.schedule () 0 5 false, .schedule () 0 5 true, .expire () 0, .expire () 1, .stop () 0,
    .expire () 0, .readTimers .take, .expire () 1]

/-- The next timer expires, and a scan finds no wait. -/
def newOwner : List (Action Unit) :=
  [.expire () 0, .call (.scan .take)]

/-- The descriptor of the stopped timer is used again, and its bit is that of the new timer. -/
theorem new_owner_expires_itself :
    let m := (Device.new.performAll earlierOwners).2
    let m' := (m.perform (.schedule () 50000 9 false)).2
    let later := m'.performAll newOwner
    let read : Deed Unit := ⟨.readTimers .take, (later.2.perform (.readTimers .take)).1⟩
    (∀ bits, .raise bits ∉ earlierOwners ∧ .raise bits ∉ newOwner) ∧
      m.board.timers.isRaised 1 = true ∧
      (m.schedulers ()).timers.isAllocated 1 = true ∧
      (m.perform (.schedule () 50000 9 false)).1 = .scheduled (.ok 0) (some (.arm 0 59000)) ∧
      m'.board.timers.isRaised 0 = false ∧
      read.timerValue? = some 3 ∧
      ∃ command, ⟨.expire () 0, .expired true command⟩ ∈ later.1 := by
  intro m m' later read
  have hbefore : ∀ bits, .raise bits ∉ earlierOwners := by simp [earlierOwners]
  have hafter : ∀ bits, .raise bits ∉ newOwner := by simp [newOwner]
  have howned := expiries_belong_to_timers hbefore
  have hraised : m.board.timers.isRaised 1 = true := by decide
  have hstarted : (m.perform (.schedule () 50000 9 false)).1 =
      .scheduled (.ok 0) (some (.arm 0 59000)) := rfl
  have hvalue : read.timerValue? = some 3 := by decide
  obtain ⟨hclear, hexpired⟩ := howned.2 _ _ _ _ _ hstarted
  exact ⟨fun bits => ⟨hbefore bits, hafter bits⟩, hraised, howned.1 1 hraised, hstarted, hclear,
    hvalue, hexpired newOwner hafter _ 3 hvalue (by decide)⟩

end DeviceLayer
