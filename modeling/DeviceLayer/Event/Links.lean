import DeviceLayer.Event.WaitList

/-!
# Paths through the wait pool

A path is what following links from a start meets before it comes to a given
end.  The list of waits and the list of unused nodes are paths to the end "no
node".  Rewriting a node keeps every path that does not pass it.

Main results:

- Theorem {lit}`WaitList.isPath_append`: a path splits wherever its nodes do.
- Theorem {lit}`WaitList.IsPath.put`: rewriting a node keeps the paths around it.
- Theorem {lit}`WaitList.IsPath.link_last`: relinking the last node of a path moves
  its end.
- Theorem {lit}`WaitList.IsPath.link_concat`: a path to no node grows at its end.
- Theorem {lit}`WaitList.IsPath.bypass`: linking the node before one to the node after
  it leaves that one out.
- Theorem {lit}`WaitList.chain_eq`: following links reads off the path to no node.
-/

namespace DeviceLayer
namespace WaitList

/-- Following links from {lit}`start` meets these nodes and then comes to {lit}`stop`. -/
def IsPath (nodes : Pool) (start : Option Slot) (met : List Slot)
    (stop : Option Slot) : Prop :=
  match met with
  | [] => start = stop
  | slot :: rest => start = some slot ∧ IsPath nodes (nodes.get slot).next rest stop

/-- A path splits wherever its nodes do. -/
theorem isPath_append (nodes : Pool) (start stop : Option Slot)
    (xs ys : List Slot) :
    IsPath nodes start (xs ++ ys) stop ↔
      ∃ mid, IsPath nodes start xs mid ∧ IsPath nodes mid ys stop := by
  induction xs generalizing start with
  | nil => simp [IsPath]
  | cons slot rest ih => simp [IsPath, ih, and_assoc]

/-- Rewriting a node keeps the paths around it. -/
theorem IsPath.put {nodes : Pool} {start stop : Option Slot} {met : List Slot}
    (h : IsPath nodes start met stop) {slot : Slot} (hslot : slot ∉ met) (node : Node) :
    IsPath (nodes.put slot node) start met stop := by
  induction met generalizing start with
  | nil => exact h
  | cons first rest ih =>
    obtain ⟨hfirst, hrest⟩ := h
    have hne : slot ≠ first := fun heq => hslot (heq ▸ List.mem_cons_self)
    have hnot : slot ∉ rest := fun hmem => hslot (List.mem_cons_of_mem _ hmem)
    refine ⟨hfirst, ?_⟩
    rw [Pool.get_put]
    simp only [hne, ↓reduceIte]
    exact ih hrest hnot

/-- Rewriting only the wait of a node keeps every path. -/
theorem IsPath.put_wait {nodes : Pool} {start stop : Option Slot}
    {met : List Slot} (h : IsPath nodes start met stop) (slot : Slot) (wait : Wait) :
    IsPath (nodes.put slot ⟨wait, (nodes.get slot).next⟩) start met stop := by
  induction met generalizing start with
  | nil => exact h
  | cons first rest ih =>
    obtain ⟨hfirst, hrest⟩ := h
    refine ⟨hfirst, ?_⟩
    rw [Pool.get_put]
    by_cases heq : slot = first
    · subst heq
      simpa using ih hrest
    · simpa [heq] using ih hrest

/-- Relinking the last node of a path moves its end. -/
theorem IsPath.link_last {nodes : Pool} {start stop : Option Slot}
    {met : List Slot} {last : Slot} (h : IsPath nodes start (met ++ [last]) stop)
    (hlast : last ∉ met) (stop' : Option Slot) :
    IsPath (nodes.link last stop') start (met ++ [last]) stop' := by
  rw [isPath_append] at h ⊢
  obtain ⟨mid, hmet, hmid, _⟩ := h
  refine ⟨mid, hmet.put hlast _, hmid, ?_⟩
  rw [Pool.link, Pool.get_put]
  simp [IsPath]

/-- A node that is linked to the start of a path comes before it. -/
theorem IsPath.put_cons {nodes : Pool} {start stop : Option Slot} {met : List Slot}
    (h : IsPath nodes start met stop) {slot : Slot} (hslot : slot ∉ met) (wait : Wait) :
    IsPath (nodes.put slot ⟨wait, start⟩) (some slot) (slot :: met) stop := by
  refine ⟨rfl, ?_⟩
  rw [Pool.get_put_self]
  exact h.put hslot _

/-- A path to no node grows when its last node is linked to a node that links nowhere. -/
theorem IsPath.link_concat {nodes : Pool} {start : Option Slot} {older : List Slot}
    {last slot : Slot} (h : IsPath nodes start (older ++ [last]) none)
    (hnodup : (older ++ [last] ++ [slot]).Nodup) (wait : Wait) :
    IsPath ((nodes.put slot ⟨wait, none⟩).link last (some slot)) start
      (older ++ [last] ++ [slot]) none := by
  obtain ⟨hmet, _, hdisjoint⟩ := List.nodup_append.mp hnodup
  have hslot : slot ∉ older ++ [last] :=
    fun hmem => hdisjoint slot hmem slot List.mem_cons_self rfl
  have hlast : last ∉ older :=
    fun hmem => (List.nodup_append.mp hmet).2.2 last hmem last List.mem_cons_self rfl
  have hne : last ≠ slot := fun heq => hslot (by simp [heq])
  rw [isPath_append]
  refine ⟨some slot, (h.put hslot _).link_last hlast _, rfl, ?_⟩
  rw [Pool.next_link_of_ne _ hne, Pool.get_put_self]
  rfl

/-- Linking the node before one to the node after it leaves that one out of the path. -/
theorem IsPath.bypass {nodes : Pool} {start stop : Option Slot} {older younger : List Slot}
    {previous slot : Slot} (h : IsPath nodes start (older ++ [previous] ++ slot :: younger) stop)
    (hnodup : (older ++ [previous] ++ slot :: younger).Nodup) (node : Node) :
    IsPath ((nodes.link previous (nodes.get slot).next).put slot node) start
      (older ++ [previous] ++ younger) stop := by
  obtain ⟨hfront, hback, hdisjoint⟩ := List.nodup_append.mp hnodup
  have hprev_older : previous ∉ older :=
    fun hmem => (List.nodup_append.mp hfront).2.2 previous hmem previous List.mem_cons_self rfl
  have hprev_younger : previous ∉ younger :=
    fun hmem => hdisjoint previous (by simp) previous (List.mem_cons_of_mem _ hmem) rfl
  have hslot_front : slot ∉ older ++ [previous] :=
    fun hmem => hdisjoint slot hmem slot List.mem_cons_self rfl
  have hslot_younger : slot ∉ younger := (List.nodup_cons.mp hback).1
  obtain ⟨mid, hmet, hmid, hyounger⟩ := (isPath_append ..).mp h
  rw [isPath_append]
  exact ⟨(nodes.get slot).next, (hmet.link_last hprev_older _).put hslot_front node,
    (hyounger.put hprev_younger _).put hslot_younger node⟩

/-- Following links reads off the path to no node. -/
theorem chain_eq {l : WaitList} {start : Option Slot} {met : List Slot}
    (h : IsPath l.nodes start met none) {fuel : Nat} (hfuel : met.length ≤ fuel) :
    l.chain fuel start = met := by
  induction met generalizing start fuel with
  | nil =>
    obtain rfl : start = none := h
    cases fuel <;> rfl
  | cons slot rest ih =>
    obtain ⟨rfl, hrest⟩ := h
    obtain ⟨n, rfl⟩ := Nat.exists_eq_add_of_le' (Nat.lt_of_lt_of_le (Nat.succ_pos _) hfuel)
    simp only [chain, next]
    rw [ih hrest (Nat.le_of_succ_le_succ hfuel)]

end WaitList
end DeviceLayer
