import Mathlib
import MpRpc.Command

/-!
# Heap — cells that are allocated and freed

A cell is known by the number of its allocation, so that no address is given out twice
and an access through a stale pointer is seen as such. Reading, writing or freeing a cell
that is not there is undefined.
-/

namespace MpRpc

/-- The cells by address; one that was freed leaves `none`. -/
structure Heap (α : Type) where
  cells : List (Option α) := []
deriving DecidableEq, Repr

namespace Heap

variable {α ε : Type} {h : Heap α} {a b : Nat} {x : α}

/-- The cell at address `a`, unless there is none. -/
def cell (h : Heap α) (a : Nat) : Option α := h.cells[a]?.join

/-- The address that is given out next. -/
def next (h : Heap α) : Nat := h.cells.length

/-- The heap after an allocation at `h.next`. -/
def push (h : Heap α) (x : α) : Heap α := ⟨h.cells ++ [some x]⟩

def set (h : Heap α) (a : Nat) (x : Option α) : Heap α := ⟨h.cells.set a x⟩

theorem lt_next (hx : h.cell a = some x) : a < h.next := by
  by_contra hge
  have hnone : h.cells[a]? = none := List.getElem?_eq_none (Nat.le_of_not_lt hge)
  simp [cell, hnone] at hx

theorem cell_push_self (h : Heap α) (x : α) : (h.push x).cell h.next = some x := by
  simp [cell, push, next]

theorem cell_push_ne (x : α) (hne : a ≠ h.next) : (h.push x).cell a = h.cell a := by
  unfold cell push
  by_cases hlt : a < h.cells.length
  · rw [List.getElem?_append_left hlt]
  · have hout : h.cells.length < a := Nat.lt_of_le_of_ne (Nat.le_of_not_lt hlt) (Ne.symm hne)
    rw [List.getElem?_eq_none (Nat.le_of_lt hout), List.getElem?_eq_none]
    rw [List.length_append, List.length_singleton]
    exact hout

theorem cell_set_self (hlt : a < h.next) (x : Option α) : (h.set a x).cell a = x := by
  simp only [cell, set, List.getElem?_set_self hlt]
  cases x with
  | none => rfl
  | some x => rfl

theorem cell_set_ne (x : Option α) (hne : b ≠ a) : (h.set a x).cell b = h.cell b := by
  simp only [cell, set, List.getElem?_set_ne hne.symm]

@[simp] theorem next_push (h : Heap α) (x : α) : (h.push x).next = h.next + 1 := by
  simp [next, push]

@[simp] theorem next_set (h : Heap α) (a : Nat) (x : Option α) : (h.set a x).next = h.next := by
  simp [next, set]

theorem cell_push_of_cell {y : α} (hx : h.cell a = some x) : (h.push y).cell a = some x := by
  rw [cell_push_ne y (Nat.ne_of_lt (lt_next hx)), hx]

/-! ## Counting -/

theorem mem_cells_iff : some x ∈ h.cells ↔ ∃ a, h.cell a = some x := by
  rw [List.mem_iff_getElem?]
  constructor
  · intro hex
    obtain ⟨a, ha⟩ := hex
    exact ⟨a, by rw [cell, ha]; rfl⟩
  · intro hex
    obtain ⟨a, ha⟩ := hex
    unfold cell at ha
    cases hcell : h.cells[a]? with
    | none =>
      rw [hcell] at ha
      cases ha
    | some y =>
      rw [hcell] at ha
      exact ⟨a, by rw [hcell]; exact congrArg some ha⟩

section Count

variable [DecidableEq α]

/-- How many cells hold `x`. -/
def count (h : Heap α) (x : α) : Nat := h.cells.count (some x)

theorem count_pos_iff : 0 < h.count x ↔ ∃ a, h.cell a = some x := by
  rw [count, List.count_pos_iff, mem_cells_iff]

theorem count_push (h : Heap α) (x y : α) :
    (h.push y).count x = h.count x + if y = x then 1 else 0 := by
  simp [count, push, List.count_append, List.count_singleton]

/-- What is written into a cell is counted instead of what was there. -/
theorem count_set {z : α} (hz : h.cell a = some z) (x : α) (y : Option α) :
    (h.set a y).count x + (if z = x then 1 else 0) = h.count x + if y = some x then 1 else 0 := by
  have hlt : a < h.cells.length := lt_next hz
  have hget : h.cells[a] = some z := by
    have hjoin : (some h.cells[a]).join = some z := by
      rw [← List.getElem?_eq_getElem hlt]
      exact hz
    exact hjoin
  have hset := List.count_set (a := y) (b := some x) hlt
  simp only [hget, beq_iff_eq, Option.some.injEq] at hset
  unfold count set
  rw [hset]
  by_cases hzx : z = x
  · have hpos : 0 < h.cells.count (some x) :=
      List.count_pos_iff.mpr (mem_cells_iff.mpr ⟨a, hzx ▸ hz⟩)
    simp only [if_pos hzx]
    omega
  · simp only [if_neg hzx]
    omega

end Count

/-! ## Access -/

/-- Allocates a cell. -/
def alloc (x : α) : Command (Heap α) ε Nat := do
  let h ← Command.get
  Command.modify fun h => h.push x
  pure h.next

/-- Reads the cell that `a` points to. -/
def read (a : Nat) : Command (Heap α) ε α := do
  let h ← Command.get
  Command.ofOption (h.cell a)

/-- Writes the cell that `a` points to. -/
def write (a : Nat) (x : α) : Command (Heap α) ε Unit := do
  let _ ← read a
  Command.modify fun h => h.set a (some x)

/-- Frees the cell that `a` points to. -/
def free (a : Nat) : Command (Heap α) ε Unit := do
  let _ ← read a
  Command.modify fun h => h.set a none

variable {E : ε → Heap α → Prop}

@[simp] theorem wp_alloc {Q : Nat → Heap α → Prop} (x : α) :
    Command.wp (alloc x) Q E h ↔ Q h.next (h.push x) := Iff.rfl

theorem wp_read {Q : α → Heap α → Prop} (hx : h.cell a = some x) :
    Command.wp (read a) Q E h ↔ Q x h := by
  simp only [read, Command.wp_bind, Command.wp_get, hx, Command.wp_ofOption_some]

theorem wp_write {Q : Unit → Heap α → Prop} (hx : h.cell a = some x) (y : α) :
    Command.wp (write a y) Q E h ↔ Q () (h.set a (some y)) := by
  simp only [write, Command.wp_bind, wp_read hx, Command.wp_modify]

theorem wp_free {Q : Unit → Heap α → Prop} (hx : h.cell a = some x) :
    Command.wp (free a) Q E h ↔ Q () (h.set a none) := by
  simp only [free, Command.wp_bind, wp_read hx, Command.wp_modify]

end Heap

end MpRpc
