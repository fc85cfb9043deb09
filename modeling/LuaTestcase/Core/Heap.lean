import Mathlib.Data.List.Basic

/-!
# A heap of cells

Tables are shared by reference, and a function that builds new tables from old ones must not
write into the old ones.  A heap is a list of cells, an address is a position in it, and
allocation appends.

What a reference stands for is read off the heap through a *view*, a partial map from addresses to
cells: `Heap.read h` is the whole heap, and `Heap.without h a` is the heap with one cell hidden —
the one a loop is still writing to, so that nothing found in the view can depend on it.  A view
that knows at least as much (`Knows`) supports whatever the first one supported.
-/

namespace Testcase

/-- A heap of cells. -/
structure Heap (C : Type) where
  cells : List C

/-- The second view has every cell of the first one. -/
def Knows {C : Type} (view view' : Nat → Option C) : Prop :=
  ∀ a c, view a = some c → view' a = some c

namespace Heap

variable {C : Type}

/-- The number of cells, and the next address. -/
def size (h : Heap C) : Nat := h.cells.length

/-- The cell at an address. -/
def read (h : Heap C) (a : Nat) : Option C := h.cells[a]?

/-- A new cell, with its address. -/
def alloc (h : Heap C) (c : C) : Heap C × Nat := (⟨h.cells ++ [c]⟩, h.size)

/-- Replace a cell. -/
def write (h : Heap C) (a : Nat) (c : C) : Heap C := ⟨h.cells.set a c⟩

/-- The heap with one cell hidden. -/
def without (h : Heap C) (hidden : Nat) : Nat → Option C :=
  fun a => if a = hidden then none else h.read a

variable {h : Heap C} {a b : Nat} {c d : C}

theorem lt_size_of_read (hread : h.read a = some c) : a < h.size :=
  (List.getElem?_eq_some_iff.mp hread).1

@[simp] theorem size_alloc : (h.alloc c).1.size = h.size + 1 := List.length_append

@[simp] theorem size_write : (h.write a c).size = h.size := List.length_set

@[simp] theorem read_alloc_self : (h.alloc c).1.read h.size = some c := by
  simp [read, alloc, size]

theorem read_alloc_of_lt (ha : a < h.size) : (h.alloc c).1.read a = h.read a :=
  List.getElem?_append_left ha

theorem read_write_self (ha : a < h.size) : (h.write a c).read a = some c := by
  have hlen : a < h.cells.length := ha
  simp [read, write, hlen]

theorem read_write_of_ne (hab : b ≠ a) : (h.write a c).read b = h.read b := by
  simp [read, write, List.getElem?_set_ne hab.symm]

end Heap

theorem Knows.trans {C : Type} {u v w : Nat → Option C} (huv : Knows u v) (hvw : Knows v w) :
    Knows u w := fun a c h => hvw a c (huv a c h)

section Views

variable {C : Type} {h : Heap C} {a : Nat} {c : C} {view : Nat → Option C}

/-- Allocation keeps every cell. -/
theorem knows_alloc : Knows h.read (h.alloc c).1.read := by
  intro b d hread
  rw [Heap.read_alloc_of_lt (Heap.lt_size_of_read hread)]
  exact hread

/-- The hidden cell aside, the heap is as it was. -/
theorem knows_without : Knows (h.without a) h.read := by
  intro b d hread
  simp only [Heap.without] at hread
  split_ifs at hread
  exact hread

/-- Writing to the hidden cell is not seen. -/
theorem without_write : (h.write a c).without a = h.without a := by
  funext b
  simp only [Heap.without]
  split_ifs with hb
  · rfl
  · exact Heap.read_write_of_ne hb

/-- What is kept is kept with the same cell hidden on both sides. -/
theorem Knows.hide {h' : Heap C} (hh : Knows h.read h'.read) (a : Nat) :
    Knows (h.without a) (h'.without a) := by
  intro b d hread
  simp only [Heap.without] at hread ⊢
  split_ifs at hread with hb
  rw [if_neg hb]
  exact hh b d hread

/-- A cell other than the hidden one is seen. -/
theorem without_of_ne {b : Nat} (hb : b ≠ a) : h.without a b = h.read b := if_neg hb

/-- A view that does not know the cell does not need it. -/
theorem Knows.without (hview : Knows view h.read) (ha : view a = none) :
    Knows view (h.without a) := by
  intro b d hread
  have hb : b ≠ a := by
    rintro rfl
    rw [ha] at hread
    cases hread
  rw [Heap.without, if_neg hb]
  exact hview b d hread

/-- Above a heap there is nothing in its view. -/
theorem read_of_size_le (ha : h.size ≤ a) : h.read a = none := List.getElem?_eq_none ha

end Views

end Testcase
