import Mathlib.Data.List.Basic

/-! A window on an array: the cells before it, in it and behind it. An operation moves one edge
over cells that it writes or keeps, or puts the window elsewhere; one that finds too few cells is
refused. -/

namespace QpRs.Lib

structure Window (α : Type) (size : Nat) where
  before : List α
  within : List α
  behind : List α
  sized : before.length + within.length + behind.length = size

namespace Window

variable {α : Type} {size : Nat}

def cells (w : Window α size) : List α := w.before ++ w.within ++ w.behind

def first (w : Window α size) : Nat := w.before.length

def last (w : Window α size) : Nat := w.before.length + w.within.length

theorem length_cells (w : Window α size) : w.cells.length = size := by
  rw [cells, List.length_append, List.length_append, w.sized]

theorem first_le_last (w : Window α size) : w.first ≤ w.last := Nat.le_add_right _ _

theorem last_le (w : Window α size) : w.last ≤ size := by
  have sized := w.sized
  rw [last]
  omega

theorem sized_write (w : Window α size) {n : Nat} {data : List α}
    (inside : n + data.length ≤ size) :
    (w.cells.take n).length + data.length + (w.cells.drop (n + data.length)).length = size := by
  rw [List.length_take, List.length_drop, w.length_cells]
  omega

/-- The window on `data`, written from cell `n` on. -/
def write (w : Window α size) (n : Nat) (data : List α) : Option (Window α size) :=
  if inside : n + data.length ≤ size then
    some { before := w.cells.take n
           within := data
           behind := w.cells.drop (n + data.length)
           sized := w.sized_write inside }
  else none

def extendFront (w : Window α size) (data : List α) : Option (Window α size) :=
  if room : data.length ≤ w.before.length then
    some { before := w.before.take (w.before.length - data.length)
           within := data ++ w.within
           behind := w.behind
           sized := by
             have sized := w.sized
             rw [List.length_take, List.length_append]
             omega }
  else none

def extendBack (w : Window α size) (data : List α) : Option (Window α size) :=
  if room : data.length ≤ w.behind.length then
    some { before := w.before
           within := w.within ++ data
           behind := w.behind.drop data.length
           sized := by
             have sized := w.sized
             rw [List.length_drop, List.length_append]
             omega }
  else none

def dropFront (w : Window α size) (n : Nat) : Option (List α × Window α size) :=
  if present : n ≤ w.within.length then
    some (w.within.take n,
      { before := w.before ++ w.within.take n
        within := w.within.drop n
        behind := w.behind
        sized := by
          have sized := w.sized
          rw [List.length_append, List.length_take, List.length_drop]
          omega })
  else none

def dropBack (w : Window α size) (n : Nat) : Option (List α × Window α size) :=
  if present : n ≤ w.within.length then
    some (w.within.drop (w.within.length - n),
      { before := w.before
        within := w.within.take (w.within.length - n)
        behind := w.within.drop (w.within.length - n) ++ w.behind
        sized := by
          have sized := w.sized
          rw [List.length_append, List.length_take, List.length_drop]
          omega })
  else none

def firstCells (w : Window α size) (n : Nat) : Window α size where
  before := []
  within := w.cells.take n
  behind := w.cells.drop n
  sized := by
    have whole := w.length_cells
    rw [List.length_nil, List.length_take, List.length_drop]
    omega

theorem between (w : Window α size) : (w.cells.take w.last).drop w.first = w.within := by
  rw [cells, last, first, ← List.length_append, List.take_left, List.drop_left]

section

variable {w w' : Window α size} {data : List α} {n : Nat}

theorem write_none : w.write n data = none ↔ size < n + data.length := by
  rw [write]
  split <;> simp_all

theorem extendFront_none : w.extendFront data = none ↔ w.first < data.length := by
  rw [extendFront, first]
  split <;> simp_all

theorem extendBack_none : w.extendBack data = none ↔ size < w.last + data.length := by
  have sized := w.sized
  rw [extendBack, last]
  split
  · simp only [reduceCtorEq, false_iff]
    omega
  · simp only [true_iff]
    omega

theorem dropFront_none : w.dropFront n = none ↔ w.within.length < n := by
  rw [dropFront]
  split <;> simp_all

theorem dropBack_none : w.dropBack n = none ↔ w.within.length < n := by
  rw [dropBack]
  split <;> simp_all

theorem write_some (wrote : w.write n data = some w') :
    w'.first = n ∧ w'.within = data ∧
      w'.cells = w.cells.take n ++ data ++ w.cells.drop (n + data.length) := by
  by_cases inside : n + data.length ≤ size
  · rw [write, dif_pos inside] at wrote
    cases wrote
    refine ⟨?_, rfl, rfl⟩
    change (w.cells.take n).length = n
    rw [List.length_take, w.length_cells]
    omega
  · rw [write, dif_neg inside] at wrote
    cases wrote

theorem extendFront_some (moved : w.extendFront data = some w') :
    w'.first + data.length = w.first ∧ w'.last = w.last ∧ w'.within = data ++ w.within ∧
      w'.cells = w.cells.take w'.first ++ data ++ w.cells.drop (w'.first + data.length) := by
  by_cases room : data.length ≤ w.before.length
  · rw [extendFront, dif_pos room] at moved
    cases moved
    have front : (w.before.take (w.before.length - data.length)).length + data.length =
        w.before.length := by
      rw [List.length_take]
      omega
    have short : (w.before.take (w.before.length - data.length)).length =
        w.before.length - data.length := by omega
    refine ⟨front, ?_, rfl, ?_⟩
    · simp only [last, List.length_append]
      omega
    · simp only [cells, first]
      rw [front, short, List.append_assoc w.before, List.drop_left,
        List.take_append_of_le_length (Nat.sub_le _ _), List.append_assoc, List.append_assoc,
        List.append_assoc]
  · rw [extendFront, dif_neg room] at moved
    cases moved

theorem extendBack_some (moved : w.extendBack data = some w') :
    w'.first = w.first ∧ w'.last = w.last + data.length ∧ w'.within = w.within ++ data ∧
      w'.cells = w.cells.take w.last ++ data ++ w.cells.drop (w.last + data.length) := by
  by_cases room : data.length ≤ w.behind.length
  · rw [extendBack, dif_pos room] at moved
    cases moved
    refine ⟨rfl, ?_, rfl, ?_⟩
    · change w.before.length + (w.within ++ data).length = _
      rw [List.length_append, last]
      omega
    · simp only [cells, last]
      rw [← List.length_append, List.take_left, List.drop_length_add_append]
      simp only [List.append_assoc]
  · rw [extendBack, dif_neg room] at moved
    cases moved

theorem dropFront_some {front : List α} (moved : w.dropFront n = some (front, w')) :
    w'.first = w.first + n ∧ w'.last = w.last ∧ w'.cells = w.cells ∧
      front = (w.cells.take (w.first + n)).drop w.first := by
  by_cases present : n ≤ w.within.length
  · rw [dropFront, dif_pos present] at moved
    cases moved
    have taken : (w.within.take n).length = n := List.length_take_of_le present
    refine ⟨?_, ?_, ?_, ?_⟩
    · change (w.before ++ w.within.take n).length = w.before.length + n
      rw [List.length_append, taken]
    · change (w.before ++ w.within.take n).length + (w.within.drop n).length = _
      rw [List.length_append, taken, List.length_drop, last]
      omega
    · change w.before ++ w.within.take n ++ w.within.drop n ++ w.behind = w.cells
      rw [List.append_assoc w.before, List.take_append_drop]
      rfl
    · rw [cells, first, List.append_assoc, List.take_length_add_append, List.drop_left,
        List.take_append_of_le_length present]
  · rw [dropFront, dif_neg present] at moved
    cases moved

theorem dropBack_some {back : List α} (moved : w.dropBack n = some (back, w')) :
    w'.first = w.first ∧ w'.last + n = w.last ∧ w'.cells = w.cells ∧
      back = (w.cells.take w.last).drop w'.last := by
  by_cases present : n ≤ w.within.length
  · rw [dropBack, dif_pos present] at moved
    cases moved
    have taken : (w.within.take (w.within.length - n)).length = w.within.length - n :=
      List.length_take_of_le (Nat.sub_le _ _)
    refine ⟨rfl, ?_, ?_, ?_⟩
    · change w.before.length + (w.within.take (w.within.length - n)).length + n = _
      rw [taken, last]
      omega
    · change w.before ++ w.within.take _ ++ (w.within.drop _ ++ w.behind) = w.cells
      rw [List.append_assoc, ← List.append_assoc (w.within.take _), List.take_append_drop,
        ← List.append_assoc]
      rfl
    · simp only [cells, last]
      rw [taken, ← List.length_append, List.take_left, List.drop_length_add_append]
  · rw [dropBack, dif_neg present] at moved
    cases moved

theorem cells_firstCells (w : Window α size) (n : Nat) : (w.firstCells n).cells = w.cells := by
  change [] ++ w.cells.take n ++ w.cells.drop n = w.cells
  rw [List.nil_append, List.take_append_drop]

theorem last_firstCells (w : Window α size) (n : Nat) : (w.firstCells n).last = min n size := by
  change [].length + (w.cells.take n).length = min n size
  rw [List.length_nil, Nat.zero_add, List.length_take, w.length_cells]

end

end Window

end QpRs.Lib
