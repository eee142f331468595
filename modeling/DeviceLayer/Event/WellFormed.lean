import DeviceLayer.Event.Links

/-!
# Well-formed wait lists

In a well-formed list the live and the unused nodes form two paths that share no
node and together use up the pool.  Every operation keeps a list well formed and
acts on the live waits as on a plain list.

Main results:

- Theorems {lit}`WaitList.WellFormed.push?_of_tail_eq_none` and
  {lit}`WaitList.WellFormed.push?_of_tail_eq_some`: a new node starts the live path,
  or it comes after the old tail.
- Theorem {lit}`WaitList.WellFormed.push?_chains`: the first unused node becomes
  the youngest live one.
- Theorem {lit}`WaitList.WellFormed.push?`: a new wait is appended.
- Theorems {lit}`WaitList.WellFormed.remove_head` and
  {lit}`WaitList.WellFormed.remove_after`: a live node leaves the path without a node
  before it, or the node before is linked past it.
- Theorem {lit}`WaitList.WellFormed.remove_chains`: a live node becomes the first
  unused one.
- Theorem {lit}`WaitList.WellFormed.remove`: one wait is taken out, the others
  keep their order.
- Theorem {lit}`WaitList.WellFormed.signal`: one wait is rewritten in place.
-/

namespace DeviceLayer
namespace WaitList

/-- Live and unused nodes form two paths that share out the pool. -/
structure WellFormed (l : WaitList) : Prop where
  live_path : IsPath l.nodes l.head l.live none
  spare_path : IsPath l.nodes l.free l.spare none
  nodup : (l.live ++ l.spare).Nodup
  length_eq : (l.live ++ l.spare).length = waitLimit
  size_eq : l.size = l.live.length
  tail_eq : l.tail = l.live.getLast?

/-- Two paths that share out the pool are the live and the unused nodes. -/
theorem wellFormed_of_paths (l : WaitList) (live spare : List Slot)
    (hlive : IsPath l.nodes l.head live none) (hspare : IsPath l.nodes l.free spare none)
    (hnodup : (live ++ spare).Nodup) (hlength : (live ++ spare).length = waitLimit)
    (hsize : l.size = live.length) (htail : l.tail = live.getLast?) :
    l.WellFormed ∧ l.live = live ∧ l.spare = spare := by
  have hsum := hlength
  rw [List.length_append] at hsum
  have hl : l.live = live := chain_eq hlive (by omega)
  have hs : l.spare = spare := chain_eq hspare (by omega)
  refine ⟨⟨?_, ?_, ?_, ?_, ?_, ?_⟩, hl, hs⟩
  · rwa [hl]
  · rwa [hs]
  · rwa [hl, hs]
  · rwa [hl, hs]
  · rwa [hl]
  · rwa [hl]

theorem wellFormed_empty : empty.WellFormed :=
  (wellFormed_of_paths empty [] [0, 1, 2, 3] rfl ⟨rfl, rfl, rfl, rfl, rfl⟩ (by decide) rfl rfl
    rfl).1

/-- The number of live waits is the size of the list. -/
theorem WellFormed.length_waits {l : WaitList} (hl : l.WellFormed) :
    l.waits.length = l.size := by
  rw [hl.size_eq, waits, List.length_map]

/-- No more waits are live than there are nodes. -/
theorem WellFormed.size_le {l : WaitList} (hl : l.WellFormed) : l.size ≤ waitLimit := by
  have hsum := hl.length_eq
  rw [List.length_append] at hsum
  rw [hl.size_eq]
  omega

/-- No node is unused exactly when the list is as long as the pool. -/
theorem WellFormed.free_eq_none_iff {l : WaitList} (hl : l.WellFormed) :
    l.free = none ↔ l.size = waitLimit := by
  have hsum := hl.length_eq
  have hpath := hl.spare_path
  rw [List.length_append] at hsum
  rw [hl.size_eq]
  cases hspare : l.spare with
  | nil =>
    rw [hspare] at hpath hsum
    have hfree : l.free = none := hpath
    simp only [hfree, true_iff]
    simpa using hsum
  | cons slot rest =>
    rw [hspare] at hpath hsum
    simp only [hpath.1, reduceCtorEq, false_iff]
    simp only [List.length_cons] at hsum
    omega

/-- No node is both live and unused. -/
theorem WellFormed.notMem_live {l : WaitList} (hl : l.WellFormed) {slot : Slot}
    (hslot : slot ∈ l.spare) : slot ∉ l.live :=
  fun hmem => (List.nodup_append.mp hl.nodup).2.2 slot hmem slot hslot rfl

/-! ## Adding a wait -/

/-- Adding a wait without an old tail: the first unused node is head and tail. -/
theorem push?_of_tail_eq_none {l : WaitList} {slot : Slot} (hfree : l.free = some slot)
    (htail : l.tail = none) (number : EventNumber) (type : EventType) :
    l.push? number type = some
      { l with
        nodes := l.nodes.put slot ⟨.registered number type, none⟩
        head := some slot
        tail := some slot
        free := l.next slot
        size := l.size + 1 } := by
  simp only [push?, hfree, htail]

/-- Adding a wait after an old tail: the tail is linked to the first unused node. -/
theorem push?_of_tail_eq_some {l : WaitList} {slot last : Slot} (hfree : l.free = some slot)
    (htail : l.tail = some last) (number : EventNumber) (type : EventType) :
    l.push? number type = some
      { l with
        nodes := (l.nodes.put slot ⟨.registered number type, none⟩).link last (some slot)
        tail := some slot
        free := l.next slot
        size := l.size + 1 } := by
  simp only [push?, hfree, htail]

/-- Adding a wait writes it at the first unused node and no wait anywhere else. -/
theorem wait_push? {l l' : WaitList} {number : EventNumber} {type : EventType} {slot : Slot}
    (hfree : l.free = some slot) (h : l.push? number type = some l') (s : Slot) :
    l'.wait s =
      if slot = s then { number, type, phase := .pending, value := 0 } else l.wait s := by
  cases htail : l.tail with
  | none =>
    rw [push?_of_tail_eq_none hfree htail] at h
    obtain rfl := Option.some.inj h
    simp only [wait, Pool.get_put]
    split <;> rfl
  | some last =>
    rw [push?_of_tail_eq_some hfree htail] at h
    obtain rfl := Option.some.inj h
    simp only [wait, Pool.wait_link, Pool.get_put]
    split <;> rfl

theorem lastNumber_push? {l l' : WaitList} {number : EventNumber} {type : EventType}
    (h : l.push? number type = some l') : l'.lastNumber = l.lastNumber := by
  unfold push? at h
  split at h
  · cases h
  · rw [← Option.some.inj h]

/-- The path of the unused nodes goes on after its first node. -/
theorem WellFormed.spare_eq_cons {l : WaitList} (hl : l.WellFormed) {slot : Slot}
    (hfree : l.free = some slot) :
    ∃ rest, l.spare = slot :: rest ∧ IsPath l.nodes (l.next slot) rest none := by
  have hpath := hl.spare_path
  cases hspare : l.spare with
  | nil =>
    rw [hspare, hfree] at hpath
    exact absurd hpath nofun
  | cons first rest =>
    rw [hspare, hfree] at hpath
    obtain ⟨hfirst, hrest⟩ := hpath
    obtain rfl := Option.some.inj hfirst
    exact ⟨rest, rfl, hrest⟩

/-- The nodes still share out the pool when the first unused one goes over to the live ones. -/
theorem WellFormed.share_concat {l : WaitList} (hl : l.WellFormed) {slot : Slot}
    {rest : List Slot} (hspare : l.spare = slot :: rest) :
    (l.live ++ [slot] ++ rest).Nodup ∧ (l.live ++ [slot] ++ rest).length = waitLimit := by
  rw [List.append_assoc, List.singleton_append, ← hspare]
  exact ⟨hl.nodup, hl.length_eq⟩

/-- Without an old tail the first unused node becomes the only live one. -/
theorem WellFormed.push?_of_tail_eq_none {l l' : WaitList} (hl : l.WellFormed)
    {number : EventNumber} {type : EventType} {slot : Slot} (hfree : l.free = some slot)
    (htail : l.tail = none) (h : l.push? number type = some l') :
    l'.WellFormed ∧ l'.live = l.live ++ [slot] ∧ l.spare = slot :: l'.spare := by
  obtain ⟨rest, hspare, hrest⟩ := hl.spare_eq_cons hfree
  obtain ⟨hnodup, hlength⟩ := hl.share_concat hspare
  have hnil : l.live = [] := List.getLast?_eq_none_iff.mp (hl.tail_eq.symm.trans htail)
  have hslot : slot ∉ rest :=
    fun hmem => (List.nodup_append.mp hnodup).2.2 slot (by simp) slot hmem rfl
  have hempty : IsPath l.nodes none [] none := rfl
  rw [WaitList.push?_of_tail_eq_none hfree htail] at h
  obtain rfl := Option.some.inj h
  rw [hspare, hnil, List.nil_append]
  rw [hnil, List.nil_append] at hnodup hlength
  obtain ⟨hwf, hlive', hspare'⟩ := wellFormed_of_paths
    { l with
      nodes := l.nodes.put slot ⟨.registered number type, none⟩
      head := some slot
      tail := some slot
      free := l.next slot
      size := l.size + 1 }
    [slot] rest (hempty.put_cons List.not_mem_nil _) (hrest.put hslot _) hnodup hlength
    (by simp [hl.size_eq, hnil]) rfl
  exact ⟨hwf, hlive', by rw [hspare']⟩

/-- The first unused node comes after an old tail. -/
theorem WellFormed.push?_of_tail_eq_some {l l' : WaitList} (hl : l.WellFormed)
    {number : EventNumber} {type : EventType} {slot last : Slot} (hfree : l.free = some slot)
    (htail : l.tail = some last) (h : l.push? number type = some l') :
    l'.WellFormed ∧ l'.live = l.live ++ [slot] ∧ l.spare = slot :: l'.spare := by
  obtain ⟨rest, hspare, hrest⟩ := hl.spare_eq_cons hfree
  obtain ⟨hnodup, hlength⟩ := hl.share_concat hspare
  obtain ⟨hlive, _, hdisjoint⟩ := List.nodup_append.mp hnodup
  obtain ⟨older, holder⟩ := List.getLast?_eq_some_iff.mp (hl.tail_eq.symm.trans htail)
  have hslot : slot ∉ rest := fun hmem => hdisjoint slot (by simp) slot hmem rfl
  have hlast : last ∉ rest := fun hmem => hdisjoint last (by simp [holder]) last hmem rfl
  have hpath : IsPath ((l.nodes.put slot ⟨.registered number type, none⟩).link last (some slot))
      l.head (l.live ++ [slot]) none := by
    have hold := hl.live_path
    rw [holder] at hold hlive ⊢
    exact hold.link_concat hlive _
  rw [WaitList.push?_of_tail_eq_some hfree htail] at h
  obtain rfl := Option.some.inj h
  obtain ⟨hwf, hlive', hspare'⟩ := wellFormed_of_paths
    { l with
      nodes := (l.nodes.put slot ⟨.registered number type, none⟩).link last (some slot)
      tail := some slot
      free := l.next slot
      size := l.size + 1 }
    (l.live ++ [slot]) rest hpath ((hrest.put hslot _).put hlast _) hnodup hlength
    (by simp [hl.size_eq]) (by simp)
  exact ⟨hwf, hlive', by rw [hspare', hspare]⟩

/-- The first unused node becomes the youngest live one. -/
theorem WellFormed.push?_chains {l l' : WaitList} (hl : l.WellFormed) {number : EventNumber}
    {type : EventType} (h : l.push? number type = some l') :
    ∃ slot, l'.WellFormed ∧ l'.live = l.live ++ [slot] ∧ l.spare = slot :: l'.spare ∧
      (∀ s, l'.wait s =
        if slot = s then { number, type, phase := .pending, value := 0 } else l.wait s) ∧
      l'.lastNumber = l.lastNumber := by
  cases hfree : l.free with
  | none =>
    rw [(push?_eq_none_iff l number type).mpr hfree] at h
    exact absurd h nofun
  | some slot =>
    have hchains : l'.WellFormed ∧ l'.live = l.live ++ [slot] ∧ l.spare = slot :: l'.spare := by
      cases htail : l.tail with
      | none => exact hl.push?_of_tail_eq_none hfree htail h
      | some last => exact hl.push?_of_tail_eq_some hfree htail h
    obtain ⟨hwf, hlive, hspare⟩ := hchains
    exact ⟨slot, hwf, hlive, hspare, wait_push? hfree h, lastNumber_push? h⟩

/-- A new wait is appended to the live ones. -/
theorem WellFormed.push? {l l' : WaitList} (hl : l.WellFormed) {number : EventNumber}
    {type : EventType} (h : l.push? number type = some l') :
    l'.WellFormed ∧
      l'.waits = l.waits ++ [{ number, type, phase := .pending, value := 0 }] ∧
      l'.lastNumber = l.lastNumber := by
  obtain ⟨slot, hwf, hlive, hspare, hwait, hlast⟩ := hl.push?_chains h
  refine ⟨hwf, ?_, hlast⟩
  have hnew : slot ∉ l.live := hl.notMem_live (hspare ▸ List.mem_cons_self)
  have hkeep : ∀ s ∈ l.live, l'.wait s = l.wait s := by
    intro s hs
    have hne : slot ≠ s := fun heq => hnew (heq ▸ hs)
    rw [hwait, if_neg hne]
  rw [waits, hlive, List.map_append, List.map_congr_left hkeep, List.map_singleton, hwait,
    if_pos rfl, waits]

/-! ## Taking out a wait -/

/-- Taking out a node blanks its wait and changes no wait anywhere else. -/
theorem wait_remove (l : WaitList) (before : Option Slot) (slot s : Slot) :
    (l.remove before slot).wait s = if slot = s then .blank else l.wait s := by
  simp only [wait, remove, Pool.get_put]
  split
  · rfl
  · cases before with
    | none => rfl
    | some previous => exact Pool.wait_link ..

/-- The nodes still share out the pool when a live one goes over to the unused ones. -/
theorem WellFormed.share_release {l : WaitList} (hl : l.WellFormed) {older younger : List Slot}
    {slot : Slot} (hlive : l.live = older ++ slot :: younger) :
    (older ++ younger ++ slot :: l.spare).Nodup ∧
      (older ++ younger ++ slot :: l.spare).length = waitLimit := by
  have hperm : ((older ++ slot :: younger) ++ l.spare).Perm
      ((older ++ younger) ++ slot :: l.spare) := by
    simp only [List.append_assoc, List.cons_append]
    exact (List.perm_append_left_iff older).mpr List.perm_middle.symm
  rw [← hperm.nodup_iff, ← hperm.length_eq, ← hlive]
  exact ⟨hl.nodup, hl.length_eq⟩

/-- The tail falls back to the node before it exactly if it is the one taken out. -/
theorem WellFormed.tail_remove {l : WaitList} (hl : l.WellFormed) {older younger : List Slot}
    {slot : Slot} (hlive : l.live = older ++ slot :: younger) :
    (l.remove older.getLast? slot).tail = (older ++ younger).getLast? := by
  have hnodup := (List.nodup_append.mp hl.nodup).1
  rw [hlive] at hnodup
  have hslot : slot ∉ younger := (List.nodup_cons.mp (List.nodup_append.mp hnodup).2.1).1
  have htail : l.tail = (older ++ slot :: younger).getLast? := hlive ▸ hl.tail_eq
  show (if l.tail = some slot then older.getLast? else l.tail) = _
  cases hlast : younger.getLast? with
  | none =>
    obtain rfl := List.getLast?_eq_none_iff.mp hlast
    simp [htail]
  | some last =>
    obtain ⟨front, rfl⟩ := List.getLast?_eq_some_iff.mp hlast
    have hne : last ≠ slot := fun heq => hslot (by simp [heq])
    have hold : (older ++ slot :: (front ++ [last])).getLast? = some last := by
      rw [← List.cons_append, ← List.append_assoc, List.getLast?_concat]
    rw [htail, hold, ← List.append_assoc, List.getLast?_concat]
    simp [hne]

/-- Without a node before it, a live node leaves the rest of the path. -/
theorem WellFormed.remove_head {l : WaitList} (hl : l.WellFormed) {younger : List Slot}
    {slot : Slot} (hlive : l.live = slot :: younger) :
    (l.remove none slot).WellFormed ∧ (l.remove none slot).live = younger ∧
      (l.remove none slot).spare = slot :: l.spare := by
  have hsplit : l.live = [] ++ slot :: younger := hlive
  obtain ⟨hnodup, hlength⟩ := hl.share_release hsplit
  obtain ⟨-, hspare, hdisjoint⟩ := List.nodup_append.mp hnodup
  have hslot : slot ∉ younger := fun hmem => hdisjoint slot hmem slot List.mem_cons_self rfl
  have hpath := hl.live_path
  rw [hlive] at hpath
  exact wellFormed_of_paths (l.remove none slot) younger (slot :: l.spare)
    (hpath.2.put hslot _) (hl.spare_path.put_cons (List.nodup_cons.mp hspare).1 _) hnodup hlength
    (by simp [WaitList.remove, hl.size_eq, hlive]) (hl.tail_remove hsplit)

/-- The node before a live one is linked to the node after it. -/
theorem WellFormed.remove_after {l : WaitList} (hl : l.WellFormed) {older younger : List Slot}
    {previous slot : Slot} (hlive : l.live = older ++ [previous] ++ slot :: younger) :
    (l.remove (some previous) slot).WellFormed ∧
      (l.remove (some previous) slot).live = older ++ [previous] ++ younger ∧
      (l.remove (some previous) slot).spare = slot :: l.spare := by
  obtain ⟨hnodup, hlength⟩ := hl.share_release hlive
  obtain ⟨-, hspare, hdisjoint⟩ := List.nodup_append.mp hnodup
  have hprevious : previous ∉ l.spare :=
    fun hmem => hdisjoint previous (by simp) previous (List.mem_cons_of_mem _ hmem) rfl
  have hpath := hl.live_path
  have hmet := (List.nodup_append.mp hl.nodup).1
  have htail := hl.tail_remove hlive
  rw [hlive] at hpath hmet
  rw [List.getLast?_concat] at htail
  exact wellFormed_of_paths (l.remove (some previous) slot)
    (older ++ [previous] ++ younger) (slot :: l.spare) (hpath.bypass hmet _)
    ((hl.spare_path.put hprevious _).put_cons (List.nodup_cons.mp hspare).1 _) hnodup hlength
    (by simp [WaitList.remove, hl.size_eq, hlive]) htail

/-- A live node becomes the first unused one, and its wait is blanked. -/
theorem WellFormed.remove_chains {l : WaitList} (hl : l.WellFormed) {older younger : List Slot}
    {slot : Slot} (hlive : l.live = older ++ slot :: younger) :
    (l.remove older.getLast? slot).WellFormed ∧
      (l.remove older.getLast? slot).live = older ++ younger ∧
      (l.remove older.getLast? slot).spare = slot :: l.spare ∧
      (∀ s, (l.remove older.getLast? slot).wait s = if slot = s then .blank else l.wait s) ∧
      (l.remove older.getLast? slot).lastNumber = l.lastNumber := by
  cases hprevious : older.getLast? with
  | none =>
    obtain rfl := List.getLast?_eq_none_iff.mp hprevious
    obtain ⟨hwf, hlive', hspare⟩ := hl.remove_head hlive
    exact ⟨hwf, hlive', hspare, l.wait_remove none slot, rfl⟩
  | some previous =>
    obtain ⟨front, rfl⟩ := List.getLast?_eq_some_iff.mp hprevious
    obtain ⟨hwf, hlive', hspare⟩ := hl.remove_after hlive
    exact ⟨hwf, hlive', hspare, l.wait_remove (some previous) slot, rfl⟩

/-- One wait is taken out and the others keep their order. -/
theorem WellFormed.remove {l : WaitList} (hl : l.WellFormed) {older younger : List Slot}
    {slot : Slot} (hlive : l.live = older ++ slot :: younger) :
    (l.remove older.getLast? slot).WellFormed ∧
      (l.remove older.getLast? slot).waits = older.map l.wait ++ younger.map l.wait ∧
      (l.remove older.getLast? slot).lastNumber = l.lastNumber := by
  obtain ⟨hwf, hlive', hspare', hwait, hlast⟩ := hl.remove_chains hlive
  refine ⟨hwf, ?_, hlast⟩
  have hgone : slot ∉ older ++ younger :=
    hlive' ▸ hwf.notMem_live (hspare' ▸ List.mem_cons_self)
  have hkeep : ∀ s ∈ older ++ younger, (l.remove older.getLast? slot).wait s = l.wait s := by
    intro s hs
    have hne : slot ≠ s := fun heq => hgone (heq ▸ hs)
    rw [hwait, if_neg hne]
  rw [waits, hlive', List.map_congr_left hkeep, List.map_append]

/-! ## Posting -/

/-- One wait is rewritten in place; the nodes keep their roles. -/
theorem WellFormed.signal {l : WaitList} (hl : l.WellFormed) (slot : Slot) (value : EventValue) :
    (l.signal slot value).WellFormed ∧ (l.signal slot value).live = l.live ∧
      (l.signal slot value).spare = l.spare ∧
      ∀ s, (l.signal slot value).wait s =
        if slot = s then ⟨(l.wait s).number, (l.wait s).type, .signaled, value⟩
        else l.wait s := by
  obtain ⟨hwf, hlive, hspare⟩ := wellFormed_of_paths (l.signal slot value) l.live l.spare
    (hl.live_path.put_wait slot _) (hl.spare_path.put_wait slot _) hl.nodup hl.length_eq
    hl.size_eq hl.tail_eq
  refine ⟨hwf, hlive, hspare, fun s => ?_⟩
  show ((l.nodes.put slot ⟨(l.wait slot).signal value, l.next slot⟩).get s).wait = _
  rw [Pool.get_put]
  by_cases heq : slot = s
  · subst heq
    simp [Wait.signal]
  · simp [heq, WaitList.wait]

end WaitList
end DeviceLayer
