/-
  This file defines how a cell is put into an array at some
  place and how it is taken out again. The other cells are
  shifted one after the other, within the array itself.

  Key definitions include:
    * `Cells.insertAt`
    * `Cells.removeAt`

  Key lemmas include:
    * `Cells.toList_insertAt`
    * `Cells.toList_removeAt`
-/

namespace OrderedLog

namespace Cells

variable {α : Type}

------------------------------------------------------------
-- Shifting
------------------------------------------------------------

/- Bring the cell that is some steps after a place down to it. -/
def sink
    (place : Nat) :
    (steps : Nat) → Array α → Array α
  | 0, cells => cells
  | steps + 1, cells =>
    sink place steps
      (cells.swapIfInBounds (place + steps) (place + steps + 1))

/- Bring the cell at a place up by some steps. -/
def rise :
    (steps : Nat) → (place : Nat) → Array α → Array α
  | 0, _, cells => cells
  | steps + 1, place, cells =>
    rise steps (place + 1) (cells.swapIfInBounds place (place + 1))

/- A swap of two neighbours. -/
theorem toList_swap_next
    {cells : Array α}
    {front back : List α}
    {x y : α}
    (h : cells.toList = front ++ x :: y :: back) :
    (cells.swapIfInBounds front.length (front.length + 1)).toList
      = front ++ y :: x :: back := by
  have e : cells = (front ++ x :: y :: back).toArray := by
    rw [← h]
  subst e
  simp [Array.swapIfInBounds, Array.swap]

/- Sinking lets a run of cells pass. -/
theorem toList_sink
    {cells : Array α}
    {front passed back : List α}
    {x : α}
    (h : cells.toList = front ++ passed ++ x :: back) :
    (sink front.length passed.length cells).toList
      = front ++ x :: passed ++ back := by
  generalize hs : passed.length = steps
  induction steps generalizing cells passed back with
  | zero =>
    have : passed = [] := List.length_eq_zero_iff.mp hs
    subst this
    simpa [sink] using h
  | succ steps ih =>
    have hne : passed ≠ [] := by
      intro e
      simp [e] at hs
    obtain ⟨init, y, rfl⟩ := (List.eq_nil_or_concat passed).resolve_left hne
    have hl : init.length = steps := by
      simpa using hs
    have h' : cells.toList = (front ++ init) ++ y :: x :: back := by
      simpa [List.concat_eq_append] using h
    have swapped := toList_swap_next h'
    rw [List.length_append, hl] at swapped
    rw [sink, ih (by simpa using swapped) hl]
    simp

/- Rising lets the rest of the cells pass. -/
theorem toList_rise
    {cells : Array α}
    {front passed : List α}
    {x : α}
    (h : cells.toList = front ++ x :: passed) :
    (rise passed.length front.length cells).toList
      = front ++ passed ++ [x] := by
  induction passed generalizing cells front with
  | nil => simpa [rise] using h
  | cons y passed ih =>
    have swapped := toList_swap_next h
    have h' :
        (cells.swapIfInBounds front.length (front.length + 1)).toList
          = (front ++ [y]) ++ x :: passed := by
      simpa using swapped
    have done := ih h'
    rw [List.length_append, List.length_singleton] at done
    rw [List.length_cons, rise, done]
    simp

------------------------------------------------------------
-- Inserting and removing
------------------------------------------------------------

/- Put a new cell before the one at a place. -/
def insertAt
    (cells : Array α)
    (place : Nat)
    (x : α) : Array α :=
  sink place (cells.size - place) (cells.push x)

/- Take out the cell at a place. -/
def removeAt
    (cells : Array α)
    (place : Nat) : Array α :=
  (rise (cells.size - (place + 1)) place cells).pop

theorem toList_insertAt
    {cells : Array α}
    {front back : List α}
    (h : cells.toList = front ++ back)
    (x : α) :
    (insertAt cells front.length x).toList = front ++ x :: back := by
  have size : cells.size - front.length = back.length := by
    rw [← Array.length_toList, h, List.length_append]
    omega
  have pushed : (cells.push x).toList = front ++ back ++ x :: [] := by
    rw [Array.toList_push, h]
  rw [insertAt, size, toList_sink pushed, List.append_nil]

theorem toList_removeAt
    {cells : Array α}
    {front back : List α}
    {x : α}
    (h : cells.toList = front ++ x :: back) :
    (removeAt cells front.length).toList = front ++ back := by
  have size : cells.size - (front.length + 1) = back.length := by
    rw [← Array.length_toList, h, List.length_append, List.length_cons]
    omega
  rw [removeAt, size, Array.toList_pop, toList_rise h, List.dropLast_concat]

end Cells

end OrderedLog
