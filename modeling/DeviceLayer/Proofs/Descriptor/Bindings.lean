import DeviceLayer.Proofs.Descriptor.Run

/-!
# Partial maps from descriptors to payloads

What a descriptor table is for its users: a partial map with as many keys as the
table has slots.  There is no bitmap, no cursor and no slot that is searched for;
the smallest unbound key is found by looking at every key in turn.

Main results:

- Theorem {lit}`Bindings.lookup_put`: a write changes one key.
- Theorem {lit}`Bindings.lowest?_eq_some_iff`: the key that is handed out is the
  smallest unbound one.
- Theorem {lit}`Bindings.lawful`: how the operations of a map act on what is
  looked up.
-/

namespace DeviceLayer

/-- A partial map from the descriptors in range to payloads. -/
abbrev Bindings (α : Type) := Fin descriptorLimit → Option α

namespace Bindings

variable {α : Type}

/-! ## Operations -/

/-- No key is bound. -/
def unbound : Bindings α :=
  fun _ => none

/-- What a key is bound to; a number out of range is no key. -/
def lookup (m : Bindings α) (d : Nat) : Option α :=
  if h : d < descriptorLimit then m ⟨d, h⟩ else none

/-- Bind or unbind a key; a number out of range is no key. -/
def put (m : Bindings α) (d : Nat) (content : Option α) : Bindings α :=
  fun key => if d = key then content else m key

/-- The bound keys in ascending order. -/
def keys (m : Bindings α) : List Nat :=
  (List.range descriptorLimit).filter fun d => (m.lookup d).isSome

/-- The smallest unbound key. -/
def lowest? (m : Bindings α) : Option Nat :=
  (List.range descriptorLimit).find? fun d => (m.lookup d).isNone

/-- Whether every key is bound. -/
def isFull (m : Bindings α) : Bool :=
  (List.range descriptorLimit).all fun d => (m.lookup d).isSome

/-- Bind the smallest unbound key. -/
def allocate (m : Bindings α) (payload : α) : Except Fault Nat × Bindings α :=
  match m.lowest? with
  | some d => (.ok d, m.put d (some payload))
  | none => (.error .descriptorsFull, m)

/-- What a key is bound to, or why it is bound to nothing. -/
def fetch (m : Bindings α) (d : Nat) : Except Fault α :=
  match m.lookup d with
  | some payload => .ok payload
  | none => .error (if d < descriptorLimit then .descriptorUnused else .descriptorOutOfRange)

/-- Bind a bound key anew. -/
def replace? (m : Bindings α) (d : Nat) (payload : α) : Option α × Bindings α :=
  (m.lookup d, m.put d ((m.lookup d).map fun _ => payload))

/-- Unbind a key. -/
def release? (m : Bindings α) (d : Nat) : Option α × Bindings α :=
  (m.lookup d, m.put d none)

/-- Unbind a key, or say why it is not bound. -/
def release (m : Bindings α) (d : Nat) : Except Fault α × Bindings α :=
  (m.fetch d, m.put d none)

/-- A bound key with what it is bound to. -/
def binding? (m : Bindings α) (d : Nat) : Option (Nat × α) :=
  (m.lookup d).map fun payload => (d, payload)

/-- The bound keys with what they are bound to. -/
def entries (m : Bindings α) : List (Nat × α) :=
  m.keys.filterMap m.binding?

/-- Make a call. -/
def perform (m : Bindings α) : Table.Call α → Table.Answer α × Bindings α
  | .allocate payload => (.descriptor (m.allocate payload).1, (m.allocate payload).2)
  | .get? d => (.payload? (m.lookup d), m)
  | .fetch d => (.payload (m.fetch d), m)
  | .replace? d payload => (.payload? (m.replace? d payload).1, (m.replace? d payload).2)
  | .release? d => (.payload? (m.release? d).1, (m.release? d).2)
  | .release d => (.payload (m.release d).1, (m.release d).2)
  | .isAllocated d => (.flag (m.lookup d).isSome, m)
  | .size => (.count m.keys.length, m)
  | .isEmpty => (.flag m.keys.isEmpty, m)
  | .isFull => (.flag m.isFull, m)
  | .entries => (.entries m.entries, m)
  | .clear => (.nothing, unbound)

/-! ## Looking up -/

theorem lookup_of_lt (m : Bindings α) {d : Nat} (h : d < descriptorLimit) :
    m.lookup d = m ⟨d, h⟩ := by
  rw [lookup, dif_pos h]

theorem lookup_of_le (m : Bindings α) {d : Nat} (h : descriptorLimit ≤ d) :
    m.lookup d = none := by
  rw [lookup, dif_neg (Nat.not_lt.mpr h)]

theorem lt_of_lookup {m : Bindings α} {d : Nat} {payload : α} (h : m.lookup d = some payload) :
    d < descriptorLimit := by
  by_contra hle
  rw [m.lookup_of_le (Nat.le_of_not_lt hle)] at h
  contradiction

/-- A write changes one key. -/
theorem lookup_put (m : Bindings α) {d : Nat} (h : d < descriptorLimit) (content : Option α)
    (j : Nat) : (m.put d content).lookup j = if d = j then content else m.lookup j := by
  by_cases hj : j < descriptorLimit
  · rw [lookup_of_lt _ hj, lookup_of_lt _ hj, put]
  · have hle := Nat.le_of_not_lt hj
    rw [lookup_of_le _ hle, lookup_of_le _ hle, if_neg (by omega)]

/-- A write to a number out of range changes nothing. -/
theorem put_of_le (m : Bindings α) {d : Nat} (h : descriptorLimit ≤ d) (content : Option α) :
    m.put d content = m := by
  funext key
  have hne : ¬ d = key := by
    have := key.isLt
    omega
  rw [put, if_neg hne]

/-- Unbinding makes one key unbound, if it is one. -/
theorem lookup_put_none (m : Bindings α) (d j : Nat) :
    (m.put d none).lookup j = if d = j then none else m.lookup j := by
  by_cases hd : d < descriptorLimit
  · exact m.lookup_put hd none j
  · have hle := Nat.le_of_not_lt hd
    rw [m.put_of_le hle]
    split
    · rename_i heq
      exact m.lookup_of_le (heq ▸ hle)
    · rfl

/-- The key that is handed out is the smallest unbound one. -/
theorem lowest?_eq_some_iff (m : Bindings α) (d : Nat) :
    m.lowest? = some d ↔ IsLeast {key | key < descriptorLimit ∧ m.lookup key = none} d := by
  rw [lowest?, List.find?_range_eq_some, isLeast_lt_and_iff, List.mem_range, and_left_comm]
  simp only [Option.isNone_iff_eq_none, Bool.not_eq_true', Option.isNone_eq_false_iff,
    Option.isSome_iff_ne_none, ne_eq]

/-- No key is handed out exactly if every one is bound. -/
theorem lowest?_eq_none_iff (m : Bindings α) :
    m.lowest? = none ↔ ∀ d < descriptorLimit, m.lookup d ≠ none := by
  simp [lowest?]

/-! ## The laws of a map -/

/-- How the operations of a map act on what is looked up. -/
structure Lawful (m : Bindings α) : Prop where
  /-- Allocating binds the smallest unbound key and no other, or there is none. -/
  allocate : ∀ payload,
    match m.allocate payload with
    | (.ok d, m') =>
      IsLeast {key | key < descriptorLimit ∧ m.lookup key = none} d ∧
        ∀ j, m'.lookup j = if d = j then some payload else m.lookup j
    | (.error fault, m') =>
      fault = .descriptorsFull ∧ (∀ d < descriptorLimit, m.lookup d ≠ none) ∧ m' = m
  /-- Replacing concerns one key, and that only if it is bound. -/
  replace? : ∀ d payload j,
    (m.replace? d payload).2.lookup j =
      if d = j then (m.lookup d).map fun _ => payload else m.lookup j
  /-- Releasing unbinds one key. -/
  release? : ∀ d j, (m.release? d).2.lookup j = if d = j then none else m.lookup j
  /-- A key is bound, unbound, or none at all. -/
  fetch : ∀ d,
    (∀ payload, m.fetch d = .ok payload ↔ m.lookup d = some payload) ∧
      (m.fetch d = .error .descriptorUnused ↔ d < descriptorLimit ∧ m.lookup d = none) ∧
      (m.fetch d = .error .descriptorOutOfRange ↔ descriptorLimit ≤ d)
  /-- The keys ascend. -/
  keys_sorted : m.keys.Pairwise (· < ·)
  mem_keys : ∀ d, d ∈ m.keys ↔ m.lookup d ≠ none
  /-- The entries are the keys in their order, each with its payload. -/
  map_fst_entries : m.entries.map Prod.fst = m.keys
  mem_entries : ∀ d payload, (d, payload) ∈ m.entries ↔ m.lookup d = some payload

variable (m : Bindings α)

theorem lookup_allocate (payload : α) :
    match m.allocate payload with
    | (.ok d, m') =>
      IsLeast {key | key < descriptorLimit ∧ m.lookup key = none} d ∧
        ∀ j, m'.lookup j = if d = j then some payload else m.lookup j
    | (.error fault, m') =>
      fault = .descriptorsFull ∧ (∀ d < descriptorLimit, m.lookup d ≠ none) ∧ m' = m := by
  unfold allocate
  cases hlowest : m.lowest? with
  | none => exact ⟨rfl, m.lowest?_eq_none_iff.mp hlowest, rfl⟩
  | some d =>
      have hleast := (m.lowest?_eq_some_iff d).mp hlowest
      exact ⟨hleast, m.lookup_put hleast.1.1 (some payload)⟩

theorem lookup_replace? (d : Nat) (payload : α) (j : Nat) :
    (m.replace? d payload).2.lookup j =
      if d = j then (m.lookup d).map fun _ => payload else m.lookup j := by
  cases hlookup : m.lookup d with
  | none =>
      simp only [replace?, hlookup]
      exact m.lookup_put_none d j
  | some old =>
      simp only [replace?, hlookup]
      exact m.lookup_put (lt_of_lookup hlookup) (some payload) j

/-- A key is bound, unbound, or none at all. -/
theorem fetch_eq_iff (d : Nat) :
    (∀ payload, m.fetch d = .ok payload ↔ m.lookup d = some payload) ∧
      (m.fetch d = .error .descriptorUnused ↔ d < descriptorLimit ∧ m.lookup d = none) ∧
      (m.fetch d = .error .descriptorOutOfRange ↔ descriptorLimit ≤ d) := by
  cases hlookup : m.lookup d with
  | none =>
      by_cases hd : d < descriptorLimit
      · simp [fetch, hlookup, hd]
      · simp [fetch, hlookup, hd, Nat.le_of_not_lt hd]
  | some payload =>
      have hd := lt_of_lookup hlookup
      simp [fetch, hlookup, hd]

theorem mem_keys_iff (d : Nat) : d ∈ m.keys ↔ m.lookup d ≠ none := by
  rw [keys, List.mem_filter, List.mem_range, Option.isSome_iff_ne_none]
  constructor
  · exact And.right
  · intro hbound
    refine ⟨?_, hbound⟩
    rcases Option.ne_none_iff_exists'.mp hbound with ⟨payload, hlookup⟩
    exact lt_of_lookup hlookup

theorem mem_entries_iff (d : Nat) (payload : α) :
    (d, payload) ∈ m.entries ↔ m.lookup d = some payload := by
  simp only [entries, binding?, List.mem_filterMap, Option.map_eq_some_iff, Prod.mk.injEq]
  constructor
  · rintro ⟨key, -, value, hvalue, rfl, rfl⟩
    exact hvalue
  · intro h
    refine ⟨d, (m.mem_keys_iff d).mpr ?_, payload, h, rfl, rfl⟩
    rw [h]
    exact nofun

/-- Keys that are bound all have an entry, in the same order. -/
theorem map_fst_filterMap {keys : List Nat} (h : ∀ d ∈ keys, m.lookup d ≠ none) :
    (keys.filterMap m.binding?).map Prod.fst = keys := by
  induction keys with
  | nil => rfl
  | cons d rest ih =>
      rcases Option.ne_none_iff_exists'.mp (h d List.mem_cons_self) with ⟨payload, hlookup⟩
      have hbinding : m.binding? d = some (d, payload) := by
        rw [binding?, hlookup]
        rfl
      rw [List.filterMap_cons_some hbinding, List.map_cons,
        ih fun d' hd' => h d' (List.mem_cons_of_mem d hd')]

theorem lawful : m.Lawful where
  allocate := m.lookup_allocate
  replace? := m.lookup_replace?
  release? := m.lookup_put_none
  fetch := m.fetch_eq_iff
  keys_sorted := List.pairwise_lt_range.filter _
  mem_keys := m.mem_keys_iff
  map_fst_entries := m.map_fst_filterMap fun d hd => (m.mem_keys_iff d).mp hd
  mem_entries := m.mem_entries_iff

end Bindings
end DeviceLayer
