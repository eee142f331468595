import DeviceLayer.Proofs.Timer.Effect

/-!
# What the ticker was told

A scheduler keeps the deadline of a timer in its table, and the ticker knows it from
what it was told.  Each operation tells the ticker of every deadline that it sets or
deletes.  So the last command about a timer says whether the timer runs and when it
expires next, however often its descriptor was used before.

Main results:

- Theorems {lit}`Scheduler.tells_schedule`, {lit}`Scheduler.tells_expire` and
  {lit}`Scheduler.tells_cancel`: an operation tells all that it changes.
- Theorem {lit}`Device.deadline?_performAll`: a deadline after a run is read off
  the last command about it.
- Theorem {lit}`ticker_agrees_with_timers`: a whole run, from a device that was
  just switched on.
-/

namespace DeviceLayer

/-! ## Commands -/

namespace TickerCommand

/-- The timer that a command is about. -/
def timer : TickerCommand → Nat
  | arm d _ => d
  | disarm d => d

/-- When the timer expires if this is the last command about it. -/
def atUs? : TickerCommand → Option Time
  | arm _ atUs => some atUs
  | disarm _ => none

/-- The last command about timer {lit}`d`. -/
def last? (d : Nat) (commands : List TickerCommand) : Option TickerCommand :=
  (commands.filter (·.timer == d)).getLast?

variable {d : Nat} {command : TickerCommand}

theorem eq_arm_iff {atUs : Time} :
    command = arm d atUs ↔ command.timer = d ∧ command.atUs? = some atUs := by
  cases command <;> simp [timer, atUs?]

theorem eq_disarm_iff : command = disarm d ↔ command.timer = d ∧ command.atUs? = none := by
  cases command <;> simp [timer, atUs?]

theorem timer_of_last? {commands : List TickerCommand} (h : last? d commands = some command) :
    command.timer = d := by
  have hmem := (List.mem_filter.mp (List.mem_of_getLast? h)).2
  exact eq_of_beq hmem

theorem last?_singleton (d : Nat) (command : TickerCommand) :
    last? d [command] = if command.timer = d then some command else none := by
  unfold last?
  by_cases htimer : command.timer = d
  · simp [htimer]
  · simp [htimer]

/-- Of commands given in batches, the last one stands in the last batch that has any. -/
theorem last?_flatMap {α : Type} (d : Nat) (batch : α → List TickerCommand) (l : List α) :
    last? d (l.flatMap batch) = (l.filterMap fun a => last? d (batch a)).getLast? := by
  simp only [last?, List.filter_flatMap, List.getLast?_flatMap, List.getLast?_filterMap]

end TickerCommand

/-! ## Operations of a scheduler -/

namespace Scheduler

/-- When timer {lit}`d` expires next. -/
def deadline? (s : Scheduler) (d : Nat) : Option Time :=
  (s.request? d).map Timer.deadlineUs

/-- An outcome tells the ticker of all that it changes, and of nothing out of range. -/
structure Tells {ρ : Type} (s : Scheduler) (outcome : Outcome ρ) : Prop where
  deadline?_eq : ∀ d, outcome.scheduler.deadline? d =
    ((TickerCommand.last? d outcome.command.toList).map TickerCommand.atUs?).getD (s.deadline? d)
  timer_lt : ∀ command ∈ outcome.command, command.timer < descriptorLimit

variable {s s' : Scheduler} {ρ : Type} {answer : ρ} {status : TimerStatus}

/-- Nothing need be told if nothing changes. -/
theorem tells_unchanged (h : s'.request? = s.request?) :
    s.Tells (⟨answer, none, s', status⟩ : Outcome ρ) where
  deadline?_eq d := by
    unfold deadline?
    rw [h]
    rfl
  timer_lt _ hcommand := by contradiction

/-- One command tells of one entry. -/
theorem Writes.tells {d : Nat} {entry : Option Timer} (h : s.Writes d entry s')
    (hlt : d < descriptorLimit) {command : TickerCommand} (htimer : command.timer = d)
    (hat : command.atUs? = entry.map Timer.deadlineUs) :
    s.Tells (⟨answer, some command, s', status⟩ : Outcome ρ) where
  deadline?_eq j := by
    unfold deadline?
    rw [h.request?_eq, Option.toList_some, TickerCommand.last?_singleton, htimer]
    by_cases heq : d = j
    · rw [if_pos heq, if_pos heq, Option.map_some, Option.getD_some, hat]
    · rw [if_neg heq, if_neg heq, Option.map_none, Option.getD_none]
  timer_lt command' hcommand := by
    obtain rfl : command = command' := Option.some.inj hcommand
    rw [htimer]
    exact hlt

theorem tells_schedule (hs : s.Consistent) (status : TimerStatus) (nowUs : Time)
    (delayMs : UInt32) (repeats : Bool) : s.Tells (s.schedule status nowUs delayMs repeats) := by
  rcases schedule_cases hs status nowUs delayMs repeats with
    ⟨fault, hrefused, -⟩ | ⟨d, s', hstarted, -, -, -, hwrites⟩
  · rw [hrefused]
    exact tells_unchanged rfl
  · rw [hstarted]
    exact hwrites.tells (hwrites.consistent.lt_of_request? hwrites.request?_self) rfl rfl

theorem tells_expire (hs : s.Consistent) (status : TimerStatus) (d : Nat) :
    s.Tells (s.expire status d) := by
  rcases expire_cases hs status d with ⟨hrefused, -⟩ | ⟨timer, s', hrung, hrequest, hwrites⟩
  · rw [hrefused]
    exact tells_unchanged rfl
  · rw [hrung, Timer.rearm?]
    cases hrepeats : timer.repeats with
    | true => exact hwrites.tells (hs.lt_of_request? hrequest) rfl rfl
    | false =>
        -- a timer that rings once keeps its deadline, and the ticker is told nothing
        apply tells_unchanged
        funext j
        rw [hwrites.request?_eq, Timer.rung_of_not_repeats hrepeats, ← hrequest]
        exact ite_eq_right_iff.mpr (congrArg s.request?)

theorem tells_cancel (hs : s.Consistent) (status : TimerStatus) (d : Nat) :
    s.Tells (s.cancel status d) := by
  rcases cancel_cases hs status d with ⟨hrefused, -⟩ | ⟨timer, s', hstopped, hrequest, hwrites⟩
  · rw [hrefused]
    exact tells_unchanged rfl
  · rw [hstopped]
    exact hwrites.tells (hs.lt_of_request? hrequest) rfl rfl

end Scheduler

/-! ## Deeds -/

/-- Whether a scheduler refused an operation. -/
def Reply.isRefusal : Reply → Bool
  | .scheduled (.error _) _ | .expired false _ | .stopped (.error _) _ => true
  | _ => false

/-- What a deed told the ticker of scheduler {lit}`i`. -/
def Deed.commands {ι : Type} [DecidableEq ι] (i : ι) : Deed ι → List TickerCommand
  | ⟨.schedule j _ _ _, .scheduled _ command⟩ => if j = i then command.toList else []
  | ⟨.expire j _, .expired _ command⟩ => if j = i then command.toList else []
  | ⟨.stop j _, .stopped _ command⟩ => if j = i then command.toList else []
  | _ => []

/-- The last command about timer {lit}`d` to the ticker of scheduler {lit}`i`. -/
def lastCommand? {ι : Type} [DecidableEq ι] (i : ι) (d : Nat) (log : List (Deed ι)) :
    Option TickerCommand :=
  TickerCommand.last? d (log.flatMap (Deed.commands i))

namespace Device

variable {ι : Type} [DecidableEq ι] {m : Device ι}

/-- An operation of one scheduler changes no deadline of another. -/
theorem deadline?_settle (m : Device ι) (i j : ι) {ρ : Type} {outcome : Scheduler.Outcome ρ}
    (h : (m.schedulers j).Tells outcome) (d : Nat) :
    ((m.settle j outcome).schedulers i).deadline? d =
      ((TickerCommand.last? d (if j = i then outcome.command.toList else [])).map
        TickerCommand.atUs?).getD ((m.schedulers i).deadline? d) := by
  rw [schedulers_settle]
  by_cases heq : j = i
  · subst heq
    rw [if_pos rfl, if_pos rfl]
    exact h.deadline?_eq d
  · rw [if_neg (Ne.symm heq), if_neg heq]
    rfl

/-- What an action makes of a deadline is what it tells the ticker. -/
theorem deadline?_perform (hm : m.Consistent) (action : Action ι) (i : ι) (d : Nat) :
    ((m.perform action).2.schedulers i).deadline? d =
      ((TickerCommand.last? d (Deed.commands i ⟨action, (m.perform action).1⟩)).map
        TickerCommand.atUs?).getD ((m.schedulers i).deadline? d) := by
  cases action with
  | schedule j nowUs delayMs repeats =>
      exact m.deadline?_settle i j (Scheduler.tells_schedule (hm j) _ nowUs delayMs repeats) d
  | expire j d' => exact m.deadline?_settle i j (Scheduler.tells_expire (hm j) _ d') d
  | stop j d' => exact m.deadline?_settle i j (Scheduler.tells_cancel (hm j) _ d') d
  | _ => rfl

/-- After a run, the last command about a timer has set its deadline. -/
theorem deadline?_performAll (hm : m.Consistent) (actions : List (Action ι)) (i : ι) (d : Nat) :
    ((m.performAll actions).2.schedulers i).deadline? d =
      ((lastCommand? i d (m.performAll actions).1).map TickerCommand.atUs?).getD
        ((m.schedulers i).deadline? d) := by
  have hview := view_performAll (fun m : Device ι => (m.schedulers i).deadline? d)
    (fun deed => (TickerCommand.last? d (deed.commands i)).map TickerCommand.atUs?)
    (fun _ action h => Consistent.perform h action)
    (fun _ action h => deadline?_perform h action i d) hm actions
  rw [hview, lastCommand?, TickerCommand.last?_flatMap, ← List.getLast?_map, List.map_filterMap]

/-! ## One deed at a time -/

theorem length_commands_le (deed : Deed ι) (i : ι) : (deed.commands i).length ≤ 1 := by
  have htold (j : ι) (command : Option TickerCommand) :
      (if j = i then command.toList else []).length ≤ 1 := by
    split
    · exact Option.length_toList_le
    · exact Nat.zero_le 1
  unfold Deed.commands
  split
  · exact htold ..
  · exact htold ..
  · exact htold ..
  · exact Nat.zero_le 1

/-- The ticker is told only of timers that have a descriptor. -/
theorem Consistent.timer_lt_of_mem_commands (hm : m.Consistent) (action : Action ι) (i : ι) :
    ∀ command ∈ Deed.commands i ⟨action, (m.perform action).1⟩,
      command.timer < descriptorLimit := by
  intro command hcommand
  cases action with
  | schedule j nowUs delayMs repeats =>
      obtain ⟨-, htold⟩ := List.mem_ite_nil_right.mp hcommand
      exact (Scheduler.tells_schedule (hm j) _ nowUs delayMs repeats).timer_lt command
        (Option.mem_toList.mp htold)
  | expire j d =>
      obtain ⟨-, htold⟩ := List.mem_ite_nil_right.mp hcommand
      exact (Scheduler.tells_expire (hm j) _ d).timer_lt command (Option.mem_toList.mp htold)
  | stop j d =>
      obtain ⟨-, htold⟩ := List.mem_ite_nil_right.mp hcommand
      exact (Scheduler.tells_cancel (hm j) _ d).timer_lt command (Option.mem_toList.mp htold)
  | _ => contradiction

/-- Of a refused operation the ticker is told nothing. -/
theorem Consistent.commands_of_isRefusal (hm : m.Consistent) (action : Action ι) (i : ι)
    (h : (m.perform action).1.isRefusal = true) :
    Deed.commands i ⟨action, (m.perform action).1⟩ = [] := by
  cases action with
  | schedule j nowUs delayMs repeats =>
      rcases Scheduler.schedule_cases (hm j) m.board.timers nowUs delayMs repeats with
        ⟨fault, hrefused, -⟩ | ⟨d, s', hstarted, -⟩
      · simp only [Device.perform, hrefused]
        exact ite_self []
      · simp only [Device.perform, hstarted] at h
        contradiction
  | expire j d =>
      rcases Scheduler.expire_cases (hm j) m.board.timers d with
        ⟨hrefused, -⟩ | ⟨timer, s', hrung, -⟩
      · simp only [Device.perform, hrefused]
        exact ite_self []
      · simp only [Device.perform, hrung] at h
        contradiction
  | stop j d =>
      rcases Scheduler.cancel_cases (hm j) m.board.timers d with
        ⟨hrefused, -⟩ | ⟨timer, s', hstopped, -⟩
      · simp only [Device.perform, hrefused]
        exact ite_self []
      · simp only [Device.perform, hstopped] at h
        contradiction
  | _ => rfl

/-- After a run, a timer runs for which the ticker was last armed, and no other. -/
theorem request?_performAll (actions : List (Action ι)) (i : ι) (d : Nat) :
    let last := lastCommand? i d (Device.new.performAll actions).1
    let s := (Device.new.performAll actions).2.schedulers i
    (∃ timer, s.request? d = some timer ∧ last = some (.arm d timer.deadlineUs)) ∨
      s.request? d = none ∧ (last = none ∨ last = some (.disarm d)) := by
  intro last s
  have hdeadline : s.deadline? d = (last.map TickerCommand.atUs?).getD none := by
    have hstart : ((new : Device ι).schedulers i).deadline? d = none :=
      congrArg (Option.map Timer.deadlineUs) (Scheduler.request?_empty d)
    rw [deadline?_performAll consistent_new actions i d, hstart]
  cases hlast : last with
  | none =>
      rw [hlast] at hdeadline
      exact .inr ⟨Option.map_eq_none_iff.mp hdeadline, .inl rfl⟩
  | some command =>
      have htimer := TickerCommand.timer_of_last? hlast
      rw [hlast] at hdeadline
      cases hat : command.atUs? with
      | none =>
          have hnone : s.deadline? d = none := hdeadline.trans hat
          have hdisarm := TickerCommand.eq_disarm_iff.mpr ⟨htimer, hat⟩
          exact .inr ⟨Option.map_eq_none_iff.mp hnone, .inr (congrArg some hdisarm)⟩
      | some atUs =>
          have hsome : s.deadline? d = some atUs := hdeadline.trans hat
          obtain ⟨timer, hrequest, rfl⟩ := Option.map_eq_some_iff.mp hsome
          have harm := TickerCommand.eq_arm_iff.mpr ⟨htimer, hat⟩
          exact .inl ⟨timer, hrequest, congrArg some harm⟩

end Device

/-! ## Agreement -/

/--
On a device that was just switched on, at every point of every run and for each
scheduler: a descriptor is in use exactly if the last command about it armed the
ticker, and then for the deadline of its timer.  It is free exactly if there was no
command about it or the last one disarmed the ticker.  A deed gives the ticker at
most one command, never one about a descriptor out of range, and none if the
scheduler refused it.
-/
theorem ticker_agrees_with_timers {ι : Type} [DecidableEq ι] (actions : List (Action ι))
    (i : ι) :
    let log := (Device.new.performAll actions).1
    let s := (Device.new.performAll actions).2.schedulers i
    (∀ d,
      (s.timers.isAllocated d = true ↔ ∃ atUs, lastCommand? i d log = some (.arm d atUs)) ∧
        (s.timers.isAllocated d = true → ∃ timer, s.request? d = some timer ∧
          lastCommand? i d log = some (.arm d timer.deadlineUs)) ∧
        (s.timers.isAllocated d = false ↔
          lastCommand? i d log = none ∨ lastCommand? i d log = some (.disarm d))) ∧
      ∀ deed ∈ log,
        (deed.commands i).length ≤ 1 ∧
          (∀ command ∈ deed.commands i, command.timer < descriptorLimit) ∧
          (deed.reply.isRefusal = true → deed.commands i = []) := by
  intro log s
  have hs : s.Consistent := Device.consistent_new.performAll actions i
  refine ⟨fun d => ?_, fun deed hdeed => ?_⟩
  · rw [← hs.isSome_request? d]
    rcases Device.request?_performAll actions i d with
      ⟨timer, hrequest, hlast⟩ | ⟨hrequest, hlast⟩
    · simp [s, log, hrequest, hlast]
    · rcases hlast with hlast | hlast
      · simp [s, log, hrequest, hlast]
      · simp [s, log, hrequest, hlast]
  · obtain ⟨m, hm, hperform⟩ := Device.exists_perform_of_mem (p := Device.Consistent)
      (fun _ action h => h.perform action) Device.consistent_new hdeed
    rw [hperform]
    exact ⟨Device.length_commands_le _ i, hm.timer_lt_of_mem_commands _ i,
      hm.commands_of_isRefusal _ i⟩

/--
A repeating timer expires and is stopped, and its late expiry is refused.  Then its
descriptor goes to a timer that is due at the end of time.
-/
def lateExpiry : List (Action Unit) :=
  [.schedule () 1000 5 true, .schedule () 1000 7 false, .expire () 0, .expire () 1, .stop () 0,
    .expire () 0, .schedule () 18446744073709551000 9 false]

/-- The descriptor that was used again is armed for its new deadline. -/
theorem used_again_armed_again :
    let log := (Device.new.performAll lateExpiry).1
    let s := (Device.new.performAll lateExpiry).2.schedulers ()
    s.timers.isAllocated 0 = true ∧
      (∃ timer, s.request? 0 = some timer ∧
        lastCommand? () 0 log = some (.arm 0 timer.deadlineUs)) ∧
      ⟨.expire () 0, .expired false none⟩ ∈ log ∧
      Reply.isRefusal (.expired false none) = true ∧
      Deed.commands () ⟨.expire () 0, .expired false none⟩ = [] := by
  intro log s
  have hagrees := ticker_agrees_with_timers lateExpiry ()
  have hused : s.timers.isAllocated 0 = true := by decide
  have hlate : ⟨.expire () 0, .expired false none⟩ ∈ log := List.mem_iff_getElem?.mpr ⟨5, rfl⟩
  exact ⟨hused, (hagrees.1 0).2.1 hused, hlate, rfl, (hagrees.2 _ hlate).2.2 rfl⟩

end DeviceLayer
