import Mathlib.Data.List.Basic
import Mathlib.Order.Bounds.Basic

/-! Queues with two ends: the storage, which may have a bound of its own, and the bounded queue it
serves, which remembers how much room there ever was. -/

namespace QpRs.Lib

structure Deque (α : Type) (bound : Option Nat) where
  items : List α
  fits : ∀ limit ∈ bound, items.length ≤ limit

namespace Deque

variable {α : Type} {bound : Option Nat}

def new : Deque α bound := ⟨[], fun _ _ => Nat.zero_le _⟩

def len (d : Deque α bound) : Nat := d.items.length

def isEmpty (d : Deque α bound) : Bool := d.items.isEmpty

def Room (d : Deque α bound) : Prop := ∀ limit ∈ bound, d.items.length < limit

instance (d : Deque α bound) : Decidable d.Room :=
  match bound, d with
  | none, _ => .isTrue fun _ absent => by cases absent
  | some limit, d =>
      decidable_of_iff (d.items.length < limit)
        ⟨fun room _ same => Option.some.inj same ▸ room, fun room => room limit rfl⟩

def pushBack (d : Deque α bound) (x : α) : Option (Deque α bound) :=
  if room : d.Room then
    some ⟨d.items ++ [x], fun limit is => by
      rw [List.length_append]
      exact room limit is⟩
  else none

def pushFront (d : Deque α bound) (x : α) : Option (Deque α bound) :=
  if room : d.Room then some ⟨x :: d.items, room⟩ else none

def popFront (d : Deque α bound) : Option α × Deque α bound :=
  (d.items.head?, ⟨d.items.tail, fun limit is => by
    have fits := d.fits limit is
    rw [List.length_tail]
    omega⟩)

variable {d : Deque α bound} {x : α}

theorem pushBack_room (room : d.Room) :
    ∃ t, d.pushBack x = some t ∧ t.items = d.items ++ [x] := by
  rw [pushBack, dif_pos room]
  exact ⟨_, rfl, rfl⟩

theorem pushFront_room (room : d.Room) :
    ∃ t, d.pushFront x = some t ∧ t.items = x :: d.items := by
  rw [pushFront, dif_pos room]
  exact ⟨_, rfl, rfl⟩

end Deque

/-- `frees` are the counts of free slots of the queue at every moment so far, the latest first. -/
structure BoundedQueue (α : Type) (capacity : Nat) where
  items : List α
  frees : List Nat
  fits : items.length ≤ capacity

namespace BoundedQueue

variable {α : Type} {capacity : Nat}

def new : BoundedQueue α capacity := ⟨[], [capacity], Nat.zero_le _⟩

def free (q : BoundedQueue α capacity) : Nat := capacity - q.items.length

def leastFree (q : BoundedQueue α capacity) : Nat := q.frees.foldr min capacity

def change (q : BoundedQueue α capacity) (items : List α) (fits : items.length ≤ capacity) :
    BoundedQueue α capacity :=
  ⟨items, (capacity - items.length) :: q.frees, fits⟩

/-- Joins the end when more than `margin` slots are free. -/
def postBack (q : BoundedQueue α capacity) (x : α) (margin : Nat) :
    Bool × BoundedQueue α capacity :=
  if room : margin < q.free then
    (true, q.change (q.items ++ [x]) (by
      rw [free] at room
      rw [List.length_append, List.length_singleton]
      omega))
  else (false, q)

def postFront (q : BoundedQueue α capacity) (x : α) : Bool × BoundedQueue α capacity :=
  if room : q.items.length < capacity then (true, q.change (x :: q.items) room) else (false, q)

def take (q : BoundedQueue α capacity) : Option α × BoundedQueue α capacity :=
  (q.items.head?, q.change q.items.tail (by
    have fits := q.fits
    rw [List.length_tail]
    omega))

/-- What holds of a queue that started full of free slots. -/
structure Watched (q : BoundedQueue α capacity) : Prop where
  started : capacity ∈ q.frees
  within : ∀ n ∈ q.frees, n ≤ capacity
  now : q.free ∈ q.frees

variable {q : BoundedQueue α capacity}

theorem new_watched : (new : BoundedQueue α capacity).Watched where
  started := List.mem_singleton_self capacity
  within _ member := Nat.le_of_eq (List.mem_singleton.mp member)
  now := List.mem_singleton_self capacity

theorem Watched.change (watched : q.Watched) {items : List α} (fits : items.length ≤ capacity) :
    (q.change items fits).Watched where
  started := List.mem_cons_of_mem _ watched.started
  within _ member := by
    rcases List.mem_cons.mp member with rfl | earlier
    · exact Nat.sub_le _ _
    · exact watched.within _ earlier
  now := List.mem_cons_self

theorem foldr_min_le {start : Nat} {frees : List Nat} {n : Nat} (member : n ∈ frees) :
    frees.foldr min start ≤ n := by
  induction frees with
  | nil => cases member
  | cons first rest ih =>
      rcases List.mem_cons.mp member with rfl | later
      · exact Nat.min_le_left _ _
      · exact Nat.le_trans (Nat.min_le_right _ _) (ih later)

theorem foldr_min_mem {start : Nat} {frees : List Nat} :
    frees.foldr min start = start ∨ frees.foldr min start ∈ frees := by
  induction frees with
  | nil => exact Or.inl rfl
  | cons first rest ih =>
      rw [List.foldr_cons]
      rcases Nat.le_total first (rest.foldr min start) with low | low
      · rw [Nat.min_eq_left low]
        exact Or.inr List.mem_cons_self
      · rw [Nat.min_eq_right low]
        exact ih.imp id (List.mem_cons_of_mem first)

theorem Watched.leastFree (watched : q.Watched) : IsLeast {n | n ∈ q.frees} q.leastFree := by
  constructor
  · show q.frees.foldr min capacity ∈ q.frees
    rcases foldr_min_mem with full | member
    · rw [full]
      exact watched.started
    · exact member
  · intro n member
    exact foldr_min_le member

theorem Watched.leastFree_le (watched : q.Watched) : q.leastFree ≤ q.free :=
  foldr_min_le watched.now

end BoundedQueue

end QpRs.Lib
