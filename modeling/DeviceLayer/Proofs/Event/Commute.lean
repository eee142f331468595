import DeviceLayer.Proofs.Event.Numbers
import DeviceLayer.Proofs.Event.Peek

/-!
# Posts among other calls

An interrupt may post at any time.  When a post and another call concern
different waits, or the other call cancels a wait, it makes no difference which
of the two comes first: the answers are the same, and so is the queue down to
its nodes.

A well-formed list is known from its two chains, the waits on the nodes and the
counter, so two orders are compared chain by chain.

Main results:

- Theorem {lit}`WaitList.WellFormed.ext`: the chains, the waits and the counter
  determine a well-formed list.
- Theorems {lit}`WaitList.WellFormed.post_remove` and
  {lit}`WaitList.WellFormed.post_push?`: a post and a change of the chains commute.
- Theorem {lit}`Queue.waits_post_post`: of two posts that concern one wait the
  later one is kept.
- Theorem {lit}`posts_commute`: a post commutes with a cancel, with a registration
  that it does not address, and with a post that addresses other waits.
-/

namespace DeviceLayer

/-! ## One wait and two posts -/

namespace Wait

variable {recipient recipient' : Recipient} {type type' : EventType}

theorem receive_of_not_isAddressed (wait : Wait) (h : wait.key.isAddressed recipient type = false)
    (value : EventValue) : wait.receive recipient type value = wait := by
  simp [receive, h]

/-- Two posts of which one passes a wait by reach it in any order. -/
theorem receive_comm (wait : Wait) (h : (wait.key.isAddressed recipient type &&
      wait.key.isAddressed recipient' type') = false) (value value' : EventValue) :
    (wait.receive recipient type value).receive recipient' type' value' =
      (wait.receive recipient' type' value').receive recipient type value := by
  rcases Bool.and_eq_false_iff.mp h with hone | hother
  · have hone' : (wait.receive recipient' type' value').key.isAddressed recipient type =
        false := by
      rw [key_receive]
      exact hone
    rw [receive_of_not_isAddressed _ hone, receive_of_not_isAddressed _ hone']
  · have hother' : (wait.receive recipient type value).key.isAddressed recipient' type' =
        false := by
      rw [key_receive]
      exact hother
    rw [receive_of_not_isAddressed _ hother, receive_of_not_isAddressed _ hother']

end Wait

/-- Posts to different types, or directed at different numbers, address no key together. -/
theorem WaitKey.isAddressed_disjoint {recipient recipient' : Recipient} {type type' : EventType}
    (h : type ≠ type' ∨ recipient ≠ recipient' ∧ recipient ≠ everyone ∧ recipient' ≠ everyone)
    (key : WaitKey) :
    (key.isAddressed recipient type && key.isAddressed recipient' type') = false := by
  rw [Bool.eq_false_iff]
  intro hboth
  simp only [isAddressed, Bool.and_eq_true, Bool.or_eq_true, beq_iff_eq] at hboth
  rcases hboth with ⟨⟨htype, hnumber⟩, htype', hnumber'⟩
  rcases h with hne | ⟨hne, hone, hone'⟩
  · exact hne (htype.symm.trans htype')
  · exact hne ((hnumber.resolve_left hone).trans (hnumber'.resolve_left hone').symm)

theorem Pool.ext_get {nodes nodes' : Pool} (h : ∀ slot, nodes.get slot = nodes'.get slot) :
    nodes = nodes' :=
  Vector.ext fun i hi => h ⟨i, hi⟩

namespace WaitList

variable {l l' : WaitList}

/-! ## Lists with the same chains -/

theorem IsPath.start_eq {nodes : Pool} {start : Option Slot} {met : List Slot}
    (h : IsPath nodes start met none) : start = met.head? := by
  cases met with
  | nil => exact h
  | cons first rest => exact h.1

/-- A path to no node determines the links of the nodes that it meets. -/
theorem IsPath.next_eq {nodes nodes' : Pool} {start start' : Option Slot} {met : List Slot}
    (h : IsPath nodes start met none) (h' : IsPath nodes' start' met none) :
    ∀ slot ∈ met, (nodes.get slot).next = (nodes'.get slot).next := by
  induction met generalizing start start' with
  | nil => simp
  | cons first rest ih =>
      rcases h with ⟨-, hrest⟩
      rcases h' with ⟨-, hrest'⟩
      intro slot hslot
      rcases List.mem_cons.mp hslot with rfl | hmem
      · rw [hrest.start_eq, hrest'.start_eq]
      · exact ih hrest hrest' slot hmem

/-- The chains, the waits and the counter determine a well-formed list. -/
theorem WellFormed.ext (hl : l.WellFormed) (hl' : l'.WellFormed) (hlive : l.live = l'.live)
    (hspare : l.spare = l'.spare) (hwait : ∀ slot, l.wait slot = l'.wait slot)
    (hlast : l.lastNumber = l'.lastNumber) : l = l' := by
  have hlive_path := hl'.live_path
  have hspare_path := hl'.spare_path
  rw [← hlive] at hlive_path
  rw [← hspare] at hspare_path
  have hnodes : l.nodes = l'.nodes := by
    apply Pool.ext_get
    intro slot
    have hnext : l.next slot = l'.next slot := by
      have hmem : slot ∈ l.live ++ l.spare :=
        List.count_pos_iff.mp (Nat.lt_of_lt_of_eq Nat.zero_lt_one (hl.count_eq_one slot).symm)
      rcases List.mem_append.mp hmem with hmem | hmem
      · exact hl.live_path.next_eq hlive_path slot hmem
      · exact hl.spare_path.next_eq hspare_path slot hmem
    calc l.nodes.get slot = ⟨l.wait slot, l.next slot⟩ := rfl
      _ = ⟨l'.wait slot, l'.next slot⟩ := by rw [hwait, hnext]
      _ = l'.nodes.get slot := rfl
  have hhead : l.head = l'.head := hl.live_path.start_eq.trans hlive_path.start_eq.symm
  have hfree : l.free = l'.free := hl.spare_path.start_eq.trans hspare_path.start_eq.symm
  have htail : l.tail = l'.tail := by rw [hl.tail_eq, hl'.tail_eq, hlive]
  have hsize : l.size = l'.size := by rw [hl.size_eq, hl'.size_eq, hlive]
  cases l
  cases l'
  simp only [mk.injEq]
  exact ⟨hnodes, hhead, htail, hfree, hsize, hlast⟩

/-- A wait is refused exactly when all nodes are live. -/
theorem WellFormed.push?_eq_none_iff (hl : l.WellFormed) (number : EventNumber)
    (type : EventType) : l.push? number type = none ↔ l.live.length = waitLimit := by
  rw [WaitList.push?_eq_none_iff, hl.free_eq_none_iff, hl.size_eq]

/-! ## A post and another change -/

section Post

variable {recipient recipient' : Recipient} {type type' : EventType}

/-- A post rewrites the live waits that it addresses, and nothing else. -/
theorem WellFormed.post_chains (hl : l.WellFormed) (hkeyed : Keyed l.waits)
    (recipient : Recipient) (type : EventType) (value : EventValue) :
    let l' := l.post recipient type value
    l'.WellFormed ∧ l'.live = l.live ∧ l'.spare = l.spare ∧ l'.lastNumber = l.lastNumber ∧
      (∀ slot ∈ l.live, l'.wait slot = (l.wait slot).receive recipient type value) ∧
      ∀ slot ∉ l.live, l'.wait slot = l.wait slot := by
  rcases hl.signalAll (l.targets recipient type) value with ⟨hwf, hlive, hspare, hlast, -, hnot⟩
  refine ⟨hwf, hlive, hspare, hlast, ?_, ?_⟩
  · have hwaits := (hl.post recipient type value).2.2
    rw [Roster.deliver_eq_map hkeyed, waits, waits, WaitList.post, hlive, List.map_map] at hwaits
    exact List.map_inj_left.mp hwaits
  · intro slot hslot
    apply hnot slot
    intro htarget
    unfold targets at htarget
    split at htarget
    · exact hslot (List.mem_of_mem_filter htarget)
    · exact hslot (List.mem_of_find?_eq_some (Option.mem_toList.mp htarget))

/-- The waits after a post. -/
theorem WellFormed.waits_post (hl : l.WellFormed) (hkeyed : Keyed l.waits)
    (recipient : Recipient) (type : EventType) (value : EventValue) :
    (l.post recipient type value).waits =
      l.waits.map fun wait => wait.receive recipient type value := by
  rw [(hl.post recipient type value).2.2, Roster.deliver_eq_map hkeyed]

/-- A post and the removal of a wait commute, also if the post addresses that wait. -/
theorem WellFormed.post_remove (hl : l.WellFormed) (hkeyed : Keyed l.waits)
    {older younger : List Slot} {slot : Slot} (hlive : l.live = older ++ slot :: younger)
    (value : EventValue) :
    (l.post recipient type value).remove older.getLast? slot =
      (l.remove older.getLast? slot).post recipient type value := by
  have hsub : (older.map l.wait ++ younger.map l.wait).Sublist l.waits := by
    rw [waits, hlive, List.map_append, List.map_cons]
    exact List.Sublist.append_left (List.sublist_cons_self _ _) _
  have hkeyed' : Keyed (l.remove older.getLast? slot).waits := by
    rw [(hl.remove hlive).2.1]
    exact hkeyed.sublist hsub
  rcases hl.post_chains hkeyed recipient type value with
    ⟨hwfP, hliveP, hspareP, hlastP, hin, hout⟩
  rcases hl.remove_chains hlive with ⟨hwfR, hliveR, hspareR, hwaitR, hlastR⟩
  rcases hwfP.remove_chains (hliveP.trans hlive) with ⟨hwf, hliveL, hspareL, hwaitL, hlastL⟩
  rcases hwfR.post_chains hkeyed' recipient type value with
    ⟨hwf', hliveP', hspareP', hlastP', hin', hout'⟩
  refine hwf.ext hwf' ?_ ?_ ?_ ?_
  · rw [hliveL, hliveP', hliveR]
  · rw [hspareL, hspareP', hspareR, hspareP]
  · have hgone : slot ∉ (l.remove older.getLast? slot).live :=
      hwfR.notMem_live (hspareR ▸ List.mem_cons_self)
    intro s
    rw [hwaitL]
    by_cases heq : slot = s
    · -- the removed node is blank in either order
      subst heq
      rw [if_pos rfl, hout' slot hgone, hwaitR, if_pos rfl]
    · have hkeep : s ∈ (l.remove older.getLast? slot).live ↔ s ∈ l.live := by
        rw [hliveR, hlive]
        simp [Ne.symm heq]
      rw [if_neg heq]
      by_cases hmem : s ∈ l.live
      · rw [hin s hmem, hin' s (hkeep.mpr hmem), hwaitR, if_neg heq]
      · rw [hout s hmem, hout' s (mt hkeep.mp hmem), hwaitR, if_neg heq]
  · rw [hlastL, hlastP', hlastR, hlastP]

/-- A wait that a post does not address may be added before it or after it. -/
theorem WellFormed.post_of_push? (hl : l.WellFormed) (hkeyed : Keyed l.waits)
    {number : EventNumber} {value : EventValue} {l₁ l₂ : WaitList}
    (hpush : l.push? number type' = some l₁) (hkeyed₁ : Keyed l₁.waits)
    (hpush' : (l.post recipient type value).push? number type' = some l₂)
    (hother : WaitKey.isAddressed (number, type') recipient type = false) :
    l₂ = l₁.post recipient type value := by
  rcases hl.post_chains hkeyed recipient type value with
    ⟨hwfP, hliveP, hspareP, hlastP, hin, hout⟩
  rcases hl.push?_chains hpush with ⟨slot, hwf₁, hlive₁, hspare₁, hwait₁, hlast₁⟩
  rcases hwfP.push?_chains hpush' with ⟨slot', hwf₂, hlive₂, hspare₂, hwait₂, hlast₂⟩
  rcases hwf₁.post_chains hkeyed₁ recipient type value with
    ⟨hwf₃, hlive₃, hspare₃, hlast₃, hin₃, hout₃⟩
  -- both orders take the same node, the first unused one
  rcases List.cons.inj (hspare₁.symm.trans (hspareP.symm.trans hspare₂)) with ⟨rfl, hspare⟩
  refine hwf₂.ext hwf₃ ?_ ?_ ?_ ?_
  · rw [hlive₂, hlive₃, hlive₁, hliveP]
  · rw [hspare₃, hspare]
  · intro s
    rw [hwait₂]
    by_cases heq : slot = s
    · subst heq
      have hmem : slot ∈ l₁.live := by simp [hlive₁]
      have hkeep := Wait.receive_of_not_isAddressed ⟨number, type', .pending, 0⟩ hother value
      rw [if_pos rfl, hin₃ slot hmem, hwait₁, if_pos rfl, hkeep]
    · rw [if_neg heq]
      by_cases hmem : s ∈ l.live
      · have hmem' : s ∈ l₁.live := by simp [hlive₁, hmem]
        rw [hin s hmem, hin₃ s hmem', hwait₁, if_neg heq]
      · have hmem' : s ∉ l₁.live := by simp [hlive₁, hmem, Ne.symm heq]
        rw [hout s hmem, hout₃ s hmem', hwait₁, if_neg heq]
  · rw [hlast₂, hlast₃, hlast₁, hlastP]

/-- A post and the addition of a wait that it does not address commute. -/
theorem WellFormed.post_push? (hl : l.WellFormed) (hkeyed : Keyed l.waits)
    {number : EventNumber} (hne : number ≠ noEvent)
    (hfresh : (number, type') ∉ l.waits.map Wait.key)
    (hother : l.push? number type' ≠ none →
      WaitKey.isAddressed (number, type') recipient type = false) (value : EventValue) :
    (l.post recipient type value).push? number type' =
      (l.push? number type').map fun l' => l'.post recipient type value := by
  rcases hl.post_chains hkeyed recipient type value with ⟨hwfP, hliveP, -⟩
  have hfull : (l.post recipient type value).push? number type' = none ↔
      l.push? number type' = none := by
    rw [hwfP.push?_eq_none_iff, hl.push?_eq_none_iff, hliveP]
  cases hpush : l.push? number type' with
  | none => exact hfull.mpr hpush
  | some l₁ =>
      cases hpush' : (l.post recipient type value).push? number type' with
      | none =>
          rw [hfull.mp hpush'] at hpush
          contradiction
      | some l₂ =>
          rw [hpush] at hother
          have hroom : l.waits.length < waitLimit := by
            refine Nat.lt_of_le_of_ne hkeyed.length_le fun hlength => ?_
            rw [waits, List.length_map, ← hl.push?_eq_none_iff number type', hpush] at hlength
            contradiction
          have hkeyed₁ : Keyed l₁.waits :=
            (hl.push? hpush).2.1 ▸ hkeyed.concat hne hfresh hroom
          exact congrArg some
            (hl.post_of_push? hkeyed hpush hkeyed₁ hpush' (hother (Option.some_ne_none l₁)))

/-- Two posts that address no wait together commute. -/
theorem WellFormed.post_post (hl : l.WellFormed) (hkeyed : Keyed l.waits)
    (h : ∀ key : WaitKey,
      (key.isAddressed recipient type && key.isAddressed recipient' type') = false)
    (value value' : EventValue) :
    (l.post recipient type value).post recipient' type' value' =
      (l.post recipient' type' value').post recipient type value := by
  have hmap : ∀ (recipient : Recipient) (type : EventType) (value : EventValue),
      Keyed (l.post recipient type value).waits := by
    intro recipient type value
    rw [hl.waits_post hkeyed]
    exact hkeyed.map_receive recipient type value
  rcases hl.post_chains hkeyed recipient type value with
    ⟨hwf₁, hlive₁, hspare₁, hlast₁, hin₁, hout₁⟩
  rcases hl.post_chains hkeyed recipient' type' value' with
    ⟨hwf₂, hlive₂, hspare₂, hlast₂, hin₂, hout₂⟩
  rcases hwf₁.post_chains (hmap _ _ _) recipient' type' value' with
    ⟨hwf, hlive, hspare, hlast, hin, hout⟩
  rcases hwf₂.post_chains (hmap _ _ _) recipient type value with
    ⟨hwf', hlive', hspare', hlast', hin', hout'⟩
  refine hwf.ext hwf' ?_ ?_ ?_ ?_
  · rw [hlive, hlive', hlive₁, hlive₂]
  · rw [hspare, hspare', hspare₁, hspare₂]
  · intro s
    by_cases hmem : s ∈ l.live
    · rw [hin s (hlive₁ ▸ hmem), hin' s (hlive₂ ▸ hmem), hin₁ s hmem, hin₂ s hmem,
        Wait.receive_comm _ (h _)]
    · rw [hout s (hlive₁ ▸ hmem), hout' s (hlive₂ ▸ hmem), hout₁ s hmem, hout₂ s hmem]
  · rw [hlast, hlast', hlast₁, hlast₂]

theorem signalAll_withLastNumber (l : WaitList) (targets : List Slot) (number : EventNumber)
    (value : EventValue) :
    targets.foldl (fun l slot => l.signal slot value) { l with lastNumber := number } =
      { targets.foldl (fun l slot => l.signal slot value) l with lastNumber := number } := by
  induction targets generalizing l with
  | nil => rfl
  | cons slot rest ih => exact ih (l.signal slot value)

/-- A post and a setting of the counter commute. -/
theorem WellFormed.post_withLastNumber (hl : l.WellFormed) (number : EventNumber)
    (value : EventValue) :
    ({ l with lastNumber := number } : WaitList).post recipient type value =
      { l.post recipient type value with lastNumber := number } := by
  have htargets : ({ l with lastNumber := number } : WaitList).targets recipient type =
      l.targets recipient type := by
    rw [targets, (hl.withLastNumber_chains number).2.1]
    rfl
  rw [WaitList.post, WaitList.post, htargets]
  exact signalAll_withLastNumber l _ number value

/-! ## What a post does not change -/

theorem WellFormed.carries_post (hl : l.WellFormed) (hkeyed : Keyed l.waits)
    (value : EventValue) (number : EventNumber) :
    (l.post recipient type value).carries number = l.carries number := by
  have hnumber : ∀ wait : Wait, (wait.receive recipient type value).number = wait.number :=
    fun wait => congrArg Prod.fst (wait.key_receive recipient type value)
  simp only [carries, hl.waits_post hkeyed, List.any_map, Function.comp_def, hnumber]

theorem WellFormed.holds_post (hl : l.WellFormed) (hkeyed : Keyed l.waits)
    (value : EventValue) (number : EventNumber) (type' : EventType) :
    (l.post recipient type value).holds number type' = l.holds number type' := by
  have hfor : ∀ wait : Wait,
      (wait.receive recipient type value).isFor number type' = wait.isFor number type' := by
    intro wait
    rw [Bool.eq_iff_iff, Wait.isFor_iff, Wait.isFor_iff, Wait.key_receive]
  simp only [holds, hl.waits_post hkeyed, List.any_map, Function.comp_def, hfor]

theorem firstUnused_congr (h : ∀ number, l.carries number = l'.carries number) (fuel : Nat)
    (candidate : EventNumber) : l.firstUnused fuel candidate = l'.firstUnused fuel candidate := by
  induction fuel generalizing candidate with
  | zero => rfl
  | succ fuel ih => simp only [firstUnused, h, ih]

theorem WellFormed.nextNumber_post (hl : l.WellFormed) (hkeyed : Keyed l.waits)
    (value : EventValue) : (l.post recipient type value).nextNumber = l.nextNumber := by
  rw [nextNumber, nextNumber, (hl.post recipient type value).2.1]
  exact firstUnused_congr (hl.carries_post hkeyed value) _ _

theorem locateAmong_congr {p : Wait → Bool} {slots : List Slot}
    (h : ∀ slot ∈ slots, p (l.wait slot) = p (l'.wait slot)) (before : Option Slot) :
    l.locateAmong p before slots = l'.locateAmong p before slots := by
  induction slots generalizing before with
  | nil => rfl
  | cons first rest ih =>
      rcases List.forall_mem_cons.mp h with ⟨hfirst, hrest⟩
      simp only [locateAmong, hfirst, ih hrest]

/-- A post does not change where a wait stands. -/
theorem WellFormed.locate_post (hl : l.WellFormed) (hkeyed : Keyed l.waits)
    (value : EventValue) (number : EventNumber) (type' : EventType) :
    (l.post recipient type value).locate (·.isFor number type') =
      l.locate (·.isFor number type') := by
  rcases hl.post_chains hkeyed recipient type value with ⟨-, hlive, -, -, hin, -⟩
  rw [locate, locate, hlive]
  apply locateAmong_congr
  intro slot hslot
  rw [Bool.eq_iff_iff, Wait.isFor_iff, Wait.isFor_iff, hin slot hslot, Wait.key_receive]

end Post

end WaitList

/-! ## Queues -/

variable {S κ : Type} [Sources S κ]

namespace Queue

/-- Whether a post concerns the wait with this key; a post to a sampled type concerns none. -/
def reaches (q : Queue S) (recipient : Recipient) (type : EventType) (key : WaitKey) : Bool :=
  q.delivery type == .posted && key.isAddressed recipient type

variable {q : Queue S} {recipient recipient' : Recipient} {type type' : EventType}

theorem post_of_posted (h : q.delivery type = .posted) (recipient : Recipient)
    (value : EventValue) :
    q.post recipient type value = { q with waits := q.waits.post recipient type value } := by
  simp [post, h]

theorem delivery_congr {q q' : Queue S} (h : q'.sources = q.sources) (type : EventType) :
    q'.delivery type = q.delivery type := by
  rw [delivery, delivery, h]

/-- A post and a cancel commute. -/
theorem post_cancel (hq : q.waits.WellFormed) (hkeyed : Keyed q.waits.waits)
    (recipient : Recipient) (type : EventType) (value : EventValue) (number : EventNumber)
    (type' : EventType) :
    (q.post recipient type value).cancel number type' =
      ((q.cancel number type').1, (q.cancel number type').2.post recipient type value) := by
  have hdelivery := delivery_congr (q.sources_cancel number type') type
  cases hposted : q.delivery type with
  | sampled => rw [post_of_sampled hposted, post_of_sampled (hdelivery.trans hposted)]
  | posted =>
      rw [post_of_posted hposted, post_of_posted (hdelivery.trans hposted)]
      simp only [cancel, hq.locate_post hkeyed]
      cases hlocate : q.waits.locate fun wait => wait.isFor number type' with
      | none => rfl
      | some found =>
          rcases found with ⟨before, slot⟩
          rcases WaitList.locate_eq_some hlocate with ⟨older, younger, hlive, rfl, -, -⟩
          simp only [hq.post_remove hkeyed hlive]

/-- A post and the addition of a wait that it does not concern commute. -/
theorem post_append (hq : q.waits.WellFormed) (hkeyed : Keyed q.waits.waits)
    {number : EventNumber} (hne : number ≠ noEvent)
    (hfresh : (number, type') ∉ q.waits.waits.map Wait.key) (hposted : q.delivery type = .posted)
    (hother : (q.append number type').1 = .ok number →
      WaitKey.isAddressed (number, type') recipient type = false) (value : EventValue) :
    (q.post recipient type value).append number type' =
      ((q.append number type').1, (q.append number type').2.post recipient type value) := by
  have hdelivery := delivery_congr (q.sources_append number type') type
  have hother' : q.waits.push? number type' ≠ none →
      WaitKey.isAddressed (number, type') recipient type = false := by
    intro hroom
    apply hother
    cases hpush : q.waits.push? number type' with
    | none => exact absurd hpush hroom
    | some l' => simp only [append, hpush]
  rw [post_of_posted hposted, post_of_posted (hdelivery.trans hposted)]
  simp only [append, hq.post_push? hkeyed hne hfresh hother']
  cases q.waits.push? number type' with
  | none => rfl
  | some l' => rfl

/-- A post and a setting of the counter commute. -/
theorem post_withLastNumber (hq : q.waits.WellFormed) (number : EventNumber)
    (value : EventValue) :
    (q.withLastNumber number).post recipient type value =
      (q.post recipient type value).withLastNumber number := by
  have hdelivery : (q.withLastNumber number).delivery type = q.delivery type := rfl
  cases hposted : q.delivery type with
  | sampled => rw [post_of_sampled hposted, post_of_sampled (hdelivery.trans hposted)]
  | posted =>
      rw [post_of_posted hposted, post_of_posted (hdelivery.trans hposted)]
      exact congrArg (Queue.mk · q.sources) (hq.post_withLastNumber number value)

/-- A post and a registration in sequence that it does not concern commute. -/
theorem post_register (hq : q.waits.WellFormed) (hkeyed : Keyed q.waits.waits)
    (hother : ∀ number, (q.register type').1 = .ok number →
      q.reaches recipient type (number, type') = false) (value : EventValue) :
    (q.post recipient type value).register type' =
      ((q.register type').1, (q.register type').2.post recipient type value) := by
  have hdelivery := delivery_congr (q.sources_register type') type
  cases hposted : q.delivery type with
  | sampled => rw [post_of_sampled hposted, post_of_sampled (hdelivery.trans hposted)]
  | posted =>
      have hunused : Roster.isUnused q.waits.waits q.waits.nextNumber = true := by
        rw [hq.nextNumber_eq q.sources]
        exact Roster.isUnused_nextNumber hkeyed.length_le
      rcases (Roster.isUnused_iff _ _).mp hunused with ⟨hne, hnumbers⟩
      have hfresh : (q.waits.nextNumber, type') ∉ q.waits.waits.map Wait.key := by
        intro hmem
        rcases List.mem_map.mp hmem with ⟨wait, hwait, hkey⟩
        exact hnumbers wait hwait (congrArg Prod.fst hkey)
      have hother' : (q.append q.waits.nextNumber type').1 = .ok q.waits.nextNumber →
          WaitKey.isAddressed (q.waits.nextNumber, type') recipient type = false := by
        intro hok
        have hnumber : (q.register type').1 = .ok q.waits.nextNumber := by
          simp only [register, inInterrupt, Bool.false_eq_true, ↓reduceIte]
          split
          · rename_i happend
            rw [happend] at hok
            exact hok
          · rename_i happend
            rw [happend] at hok
            contradiction
        simpa [reaches, hposted] using hother _ hnumber
      have hnext : (q.post recipient type value).waits.nextNumber = q.waits.nextNumber := by
        rw [post_of_posted hposted]
        exact hq.nextNumber_post hkeyed value
      have happend := post_append hq hkeyed hne hfresh hposted hother' value
      have hwf := (refines_append hq q.waits.nextNumber type').1
      simp only [register, inInterrupt, Bool.false_eq_true, ↓reduceIte, hnext, happend]
      rcases happended : q.append q.waits.nextNumber type' with ⟨fault | number, q'⟩
      · rfl
      · rw [happended] at hwf
        exact congrArg (Prod.mk _) (post_withLastNumber hwf number value).symm

/-- A post and a registration for a requestor that it does not concern commute. -/
theorem post_registerFor (hq : q.waits.WellFormed) (hkeyed : Keyed q.waits.waits)
    {requestor : UInt32} (hother : ∀ number, (q.registerFor requestor type').1 = .ok number →
      q.reaches recipient type (number, type') = false) (value : EventValue) :
    (q.post recipient type value).registerFor requestor type' =
      ((q.registerFor requestor type').1,
        (q.registerFor requestor type').2.post recipient type value) := by
  have hdelivery := delivery_congr (q.sources_registerFor requestor type') type
  cases hposted : q.delivery type with
  | sampled => rw [post_of_sampled hposted, post_of_sampled (hdelivery.trans hposted)]
  | posted =>
      have hholds : (q.post recipient type value).waits.holds (requestor + 1) type' =
          q.waits.holds (requestor + 1) type' := by
        rw [post_of_posted hposted]
        exact hq.holds_post hkeyed value _ _
      simp only [registerFor, inInterrupt, Bool.false_eq_true, ↓reduceIte, hholds] at hother ⊢
      by_cases hzero : requestor + 1 = noEvent
      · simp only [hzero, ↓reduceIte]
      · by_cases hlive : q.waits.holds (requestor + 1) type' = true
        · simp only [hzero, hlive, ↓reduceIte]
        · simp only [hzero, hlive, Bool.false_eq_true, ↓reduceIte] at hother ⊢
          have hfresh : (requestor + 1, type') ∉ q.waits.waits.map Wait.key := by
            intro hmem
            rcases List.mem_map.mp hmem with ⟨wait, hwait, hkey⟩
            exact hlive (List.any_eq_true.mpr ⟨wait, hwait, (wait.isFor_iff _ _).mpr hkey⟩)
          refine post_append hq hkeyed hzero hfresh hposted (fun hok => ?_) value
          simpa [reaches, hposted] using hother _ hok

/-- The live waits after a post. -/
theorem waits_post (hq : q.waits.WellFormed) (hkeyed : Keyed q.waits.waits)
    (recipient : Recipient) (type : EventType) (value : EventValue) :
    (q.post recipient type value).waits.waits = q.waits.waits.map fun wait =>
      if q.reaches recipient type wait.key then { wait with phase := .signaled, value }
      else wait := by
  cases hposted : q.delivery type with
  | sampled => simp [post_of_sampled hposted, reaches, hposted]
  | posted =>
      simp [post_of_posted hposted, reaches, hposted, hq.waits_post hkeyed, Wait.receive]

/-- Posts keep the keys of the live waits distinct. -/
theorem keyed_post (hq : q.waits.WellFormed) (hkeyed : Keyed q.waits.waits)
    (recipient : Recipient) (type : EventType) (value : EventValue) :
    Keyed (q.post recipient type value).waits.waits := by
  cases hposted : q.delivery type with
  | sampled =>
      rw [post_of_sampled hposted]
      exact hkeyed
  | posted =>
      rw [post_of_posted hposted]
      exact hq.waits_post hkeyed recipient type value ▸ hkeyed.map_receive recipient type value

/-- Two posts that address no wait together commute. -/
theorem post_post (hq : q.waits.WellFormed) (hkeyed : Keyed q.waits.waits)
    (h : ∀ key : WaitKey,
      (key.isAddressed recipient type && key.isAddressed recipient' type') = false)
    (value value' : EventValue) :
    (q.post recipient type value).post recipient' type' value' =
      (q.post recipient' type' value').post recipient type value := by
  have hdelivery := delivery_congr (q.sources_post recipient type value) type'
  have hdelivery' := delivery_congr (q.sources_post recipient' type' value') type
  cases hposted : q.delivery type with
  | sampled => rw [post_of_sampled hposted, post_of_sampled (hdelivery'.trans hposted)]
  | posted =>
      cases hposted' : q.delivery type' with
      | sampled => rw [post_of_sampled (hdelivery.trans hposted'), post_of_sampled hposted']
      | posted =>
          rw [post_of_posted (hdelivery.trans hposted'), post_of_posted (hdelivery'.trans hposted),
            post_of_posted hposted, post_of_posted hposted']
          exact congrArg (Queue.mk · q.sources) (hq.post_post hkeyed h value value')

/-- Of two posts that concern one wait the later one is kept. -/
theorem waits_post_post (hq : q.waits.WellFormed) (hkeyed : Keyed q.waits.waits)
    (recipient recipient' : Recipient) (type type' : EventType) (value value' : EventValue) :
    ((q.post recipient type value).post recipient' type' value').waits.waits =
      q.waits.waits.map fun wait =>
        if q.reaches recipient' type' wait.key then
          { wait with phase := .signaled, value := value' }
        else if q.reaches recipient type wait.key then { wait with phase := .signaled, value }
        else wait := by
  have hwf := (refines_post hq recipient type value).1
  have hreaches : ∀ key, (q.post recipient type value).reaches recipient' type' key =
      q.reaches recipient' type' key := by
    intro key
    rw [reaches, reaches, delivery_congr (q.sources_post recipient type value)]
  rw [waits_post hwf (keyed_post hq hkeyed recipient type value), waits_post hq hkeyed,
    List.map_map]
  apply List.map_congr_left
  intro wait _
  simp only [Function.comp_apply, hreaches]
  by_cases h : q.reaches recipient type wait.key = true
  · have hkey : ({ wait with phase := .signaled, value } : Wait).key = wait.key := rfl
    simp only [h, ↓reduceIte, hkey]
  · simp only [h, Bool.false_eq_true, ↓reduceIte]

end Queue

/-! ## At every moment -/

/--
At every moment of every run a post commutes with a cancel, whatever it cancels,
and with a registration unless the post concerns the wait that is registered:
the answers are the same, and so is the queue.  Two posts commute if their types
differ or they are directed at different numbers.  In any case each wait keeps
the later one of the posts that concern it.
-/
theorem posts_commute (sources : S) (commands : List (Command S)) (n : Nat) :
    let q := (moment sources commands n).queue
    ∀ (recipient : Recipient) (type : EventType) (value : EventValue),
      (∀ number type', (q.post recipient type value).cancel number type' =
        ((q.cancel number type').1, (q.cancel number type').2.post recipient type value)) ∧
      ((∀ type', (∀ number, (q.register type').1 = .ok number →
            q.reaches recipient type (number, type') = false) →
          (q.post recipient type value).register type' =
            ((q.register type').1, (q.register type').2.post recipient type value)) ∧
        ∀ requestor type', (∀ number, (q.registerFor requestor type').1 = .ok number →
            q.reaches recipient type (number, type') = false) →
          (q.post recipient type value).registerFor requestor type' =
            ((q.registerFor requestor type').1,
              (q.registerFor requestor type').2.post recipient type value)) ∧
      ∀ (recipient' : Recipient) (type' : EventType) (value' : EventValue),
        (type ≠ type' ∨
            recipient ≠ recipient' ∧ recipient ≠ everyone ∧ recipient' ≠ everyone →
          (q.post recipient type value).post recipient' type' value' =
            (q.post recipient' type' value').post recipient type value) ∧
        ((q.post recipient type value).post recipient' type' value').waits.waits =
          q.waits.waits.map fun wait =>
            if q.reaches recipient' type' wait.key then
              { wait with phase := .signaled, value := value' }
            else if q.reaches recipient type wait.key then
              { wait with phase := .signaled, value }
            else wait := by
  intro q recipient type value
  rcases Recorded.sound_moment sources commands n with ⟨hq, hkeyed⟩
  refine ⟨Queue.post_cancel hq hkeyed recipient type value, ⟨?_, ?_⟩, ?_⟩
  · intro type' hother
    exact Queue.post_register hq hkeyed hother value
  · intro requestor type' hother
    exact Queue.post_registerFor hq hkeyed hother value
  · intro recipient' type' value'
    refine ⟨fun h => ?_, Queue.waits_post_post hq hkeyed _ _ _ _ value value'⟩
    exact Queue.post_post hq hkeyed (WaitKey.isAddressed_disjoint h) value value'

/-- Two threads wait for one type, the second one as a requestor. -/
def twoWaiters : List (Command PostedOnly) :=
  [.operation (.call (.register 7)),
    .operation (.call (.registerFor 4 7))]

/--
A post to the wait with number one, before and after other calls.  A later post to
everyone overwrites its value, and one to the other wait leaves it, as a poll shows.
-/
theorem post_between_other_calls :
    let q := (moment PostedOnly.mk twoWaiters 2).queue
    q.waits.waits.map Wait.key = [(1, 7), (5, 7)] ∧
      (q.post 1 7 9).cancel 1 7 = (.ok (), (q.cancel 1 7).2.post 1 7 9) ∧
      (q.post 1 7 9).register 8 = (.ok 2, (q.register 8).2.post 1 7 9) ∧
      (q.post 1 7 9).registerFor 2 7 = (.ok 3, (q.registerFor 2 7).2.post 1 7 9) ∧
      (q.post 1 7 9).post 5 7 6 = (q.post 5 7 6).post 1 7 9 ∧
      ((q.post 1 7 9).post everyone 7 6).waits.waits =
        [⟨1, 7, .signaled, 6⟩, ⟨5, 7, .signaled, 6⟩] ∧
      (((q.post 1 7 9).post everyone 7 6).scan .peek).1 = some ⟨1, 7, 6⟩ ∧
      ((q.post 1 7 9).post 5 7 6).waits.waits =
        [⟨1, 7, .signaled, 9⟩, ⟨5, 7, .signaled, 6⟩] ∧
      (((q.post 1 7 9).post 5 7 6).scan .peek).1 = some ⟨1, 7, 9⟩ := by
  intro q
  rcases posts_commute PostedOnly.mk twoWaiters 2 1 7 9 with
    ⟨hcancel, ⟨hregister, hregisterFor⟩, hpost⟩
  have hother : ∀ number, (q.registerFor 2 7).1 = .ok number →
      q.reaches 1 7 (number, 7) = false := by
    intro number hok
    have hthree : (q.registerFor 2 7).1 = .ok 3 := by decide
    obtain rfl := Except.ok.inj (hthree.symm.trans hok)
    decide
  refine ⟨by decide, hcancel 1 7, hregister 8 fun number _ => ?_, hregisterFor 2 7 hother, ?_,
    ?_, by decide, ?_, by decide⟩
  · simp [Queue.reaches, WaitKey.isAddressed]
  · exact (hpost 5 7 6).1 (Or.inr ⟨by decide, by decide, by decide⟩)
  · rw [(hpost everyone 7 6).2]
    decide
  · rw [(hpost 5 7 6).2]
    decide

end DeviceLayer
