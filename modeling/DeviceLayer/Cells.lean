/-!
# Guarded cells

Data shared with interrupt handlers lives in cells that are borrowed for the
length of a critical section.  Sections may nest, but a cell that is borrowed
cannot be borrowed again until its borrower is done.  An attempt to do so ends
the borrower's work at that point; what was written before stays written, and
every cell is free again afterwards.

Main results:

- Theorem {lit}`Cells.lock_of_borrowed`: a borrowed cell cannot be borrowed again,
  and the attempt changes no cell.
- Theorem {lit}`Cells.lock_update`: a free cell is updated and left free.
-/

namespace DeviceLayer

/-- A value and whether someone is working on it. -/
structure Cell (α : Type) where
  value : α
  borrowed : Bool
deriving DecidableEq, Repr

/-- A fixed number of cells. -/
abbrev Cells (n : Nat) (α : Type) := Vector (Cell α) n

/-- Why work on cells was cut short. -/
inductive Conflict where
  /-- A borrowed cell was to be borrowed again. -/
  | alreadyBorrowed
deriving DecidableEq, Repr

/-- Work on {lit}`n` cells that answers with {lit}`ρ` or is cut short. -/
abbrev Work (n : Nat) (α ρ : Type) := ExceptT Conflict (StateM (Cells n α)) ρ

namespace Cells

variable {n : Nat} {α ρ : Type}

/-- A cell that nobody works on. -/
def free (value : α) : Cell α where
  value
  borrowed := false

/-- Mark a cell as borrowed or free. -/
def mark (cells : Cells n α) (i : Fin n) (borrowed : Bool) : Cells n α :=
  cells.set i { cells[i] with borrowed }

/-- Borrow a cell for the length of some work. -/
def lock (i : Fin n) (work : Work n α ρ) : Work n α ρ := fun cells =>
  if cells[i].borrowed then (.error .alreadyBorrowed, cells)
  else
    let (answer, cells') := work (mark cells i true)
    (answer, mark cells' i false)

/-- Replace the value of a cell; the answer is the new value. -/
def update (i : Fin n) (f : α → α) : Work n α α := fun cells =>
  let value := f cells[i].value
  (.ok value, cells.set i { cells[i] with value })

/-- A borrowed cell cannot be borrowed again, and the attempt changes no cell. -/
theorem lock_of_borrowed {cells : Cells n α} {i : Fin n} (h : cells[i].borrowed = true)
    (work : Work n α ρ) : lock i work cells = (.error .alreadyBorrowed, cells) := by
  simp only [lock, h, ↓reduceIte]

/-- A free cell is updated and left free. -/
theorem lock_update {cells : Cells n α} {i : Fin n} (h : cells[i].borrowed = false)
    (f : α → α) :
    lock i (update i f) cells =
      (.ok (f cells[i].value), cells.set i (free (f cells[i].value))) := by
  have hfree : cells[i.val].borrowed = false := h
  simp [lock, update, mark, free, hfree]

end Cells
end DeviceLayer
