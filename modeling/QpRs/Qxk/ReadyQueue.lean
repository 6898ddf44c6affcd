import QpRs.Lib.Run
import QpRs.Qxk.Yield

/-! The list of ready threads (`ThreadReadyQueue` of `qxk/src/scheduler.rs`) after any calls, in
whichever order its sort leaves equal priorities. -/

namespace QpRs.Qxk

open QpRs.Lib

inductive ReadyCall where
  | insert (id : ThreadId) (priority : Nat)
  | remove (id : ThreadId)
  deriving DecidableEq, Repr

namespace ThreadReadyQueue

/-- What a call may leave. `capacity` is the size of the vector on the `static-alloc` build, where
`insert` never returns from a full one. -/
inductive Leaves (capacity : Option Nat) (q : ThreadReadyQueue) :
    ReadyCall → ThreadReadyQueue → Prop where
  | insert (id : ThreadId) (priority : Nat) (q' : ThreadReadyQueue)
      (inserted : q.Inserted id priority q')
      (room : q.Holds id ∨ ∀ size ∈ capacity, q.length < size) :
      Leaves capacity q (.insert id priority) q'
  | remove (id : ThreadId) : Leaves capacity q (.remove id) (q.remove id)

inductive Reaches (capacity : Option Nat) : List ReadyCall → ThreadReadyQueue → Prop where
  | start : Reaches capacity [] []
  | call {past : List ReadyCall} {q q' : ThreadReadyQueue} {c : ReadyCall}
      (before : Reaches capacity past q) (left : Leaves capacity q c q') :
      Reaches capacity (past ++ [c]) q'

/-- The thread was inserted and not removed since. -/
def Ready (past : List ReadyCall) (id : ThreadId) : Prop :=
  Since (fun _ c => ∃ priority, c = .insert id priority) (· = .remove id) past

/-- The insert that made the thread ready had this priority. -/
def AddedWith (past : List ReadyCall) (id : ThreadId) (priority : Nat) : Prop :=
  Since (fun before c => c = .insert id priority ∧ ¬Ready before id) (· = .remove id) past

/-- The list holds the ready threads, each once with the priority that it was added with, the
highest priority first; a call that has nothing to do changes nothing. -/
structure Tells (capacity : Option Nat) (past : List ReadyCall) (q : ThreadReadyQueue) :
    Prop where
  ordered : q.Ordered
  ready : ∀ id, q.Holds id ↔ Ready past id
  entries : ∀ id priority, (id, priority) ∈ q ↔ AddedWith past id priority
  highest : ∀ entry, q.max = some entry → entry ∈ q ∧ ∀ other ∈ q, other.2 ≤ entry.2
  empty : q.max = none ↔ q = []
  remove_absent : ∀ id q', ¬Ready past id → q.Leaves capacity (.remove id) q' → q' = q
  insert_present : ∀ id priority q', Ready past id →
    q.Leaves capacity (.insert id priority) q' → q' = q

variable {capacity : Option Nat} {past : List ReadyCall} {q q' : ThreadReadyQueue}
  {c : ReadyCall} {id other : ThreadId} {priority : Nat}

theorem ready_insert : Ready (past ++ [.insert other priority]) id ↔
    id = other ∨ Ready past id := by
  rw [Ready, since_snoc]
  simp [Ready, eq_comm]

theorem ready_remove : Ready (past ++ [.remove other]) id ↔ id ≠ other ∧ Ready past id := by
  rw [Ready, since_snoc]
  simp [Ready, eq_comm]

theorem added_insert {p : Nat} : AddedWith (past ++ [.insert other priority]) id p ↔
    (id = other ∧ p = priority ∧ ¬Ready past id) ∨ AddedWith past id p := by
  rw [AddedWith, since_snoc]
  simp [AddedWith, eq_comm, and_assoc]

theorem added_remove {p : Nat} : AddedWith (past ++ [.remove other]) id p ↔
    id ≠ other ∧ AddedWith past id p := by
  rw [AddedWith, since_snoc]
  simp [AddedWith, eq_comm]

theorem max_highest (ordered : q.Ordered) {entry : ThreadId × Nat} (first : q.max = some entry) :
    entry ∈ q ∧ ∀ other ∈ q, other.2 ≤ entry.2 := by
  cases q with
  | nil => cases first
  | cons head rest =>
      cases first
      refine ⟨List.mem_cons_self, ?_⟩
      intro other member
      rcases List.mem_cons.mp member with rfl | later
      · exact Nat.le_refl _
      · exact List.rel_of_pairwise_cons ordered.sorted later

theorem remove_absent (absent : ¬q.Holds id) : q.remove id = q := by
  apply List.filter_eq_self.mpr
  intro entry member
  rw [decide_eq_true_eq]
  rintro rfl
  exact absent (List.mem_map_of_mem member)

theorem mem_inserted (absent : ¬q.Holds id) (inserted : q.Inserted id priority q')
    (entry : ThreadId × Nat) : entry ∈ q' ↔ entry = (id, priority) ∨ entry ∈ q := by
  rw [Inserted, if_neg absent] at inserted
  rw [inserted.1.mem_iff, List.mem_append, List.mem_singleton, or_comm]

theorem eq_of_inserted (present : q.Holds id) (inserted : q.Inserted id priority q') : q' = q := by
  rwa [Inserted, if_pos present] at inserted

theorem holds_iff_entries : q.Holds id ↔ ∃ p, (id, p) ∈ q := by
  rw [Holds, List.mem_map]
  constructor
  · intro found
    obtain ⟨⟨t, p⟩, member, rfl⟩ := found
    exact ⟨p, member⟩
  · intro found
    obtain ⟨p, member⟩ := found
    exact ⟨(id, p), member, rfl⟩

theorem Tells.of_entries (ordered : q.Ordered) (ready : ∀ id, q.Holds id ↔ Ready past id)
    (entries : ∀ id priority, (id, priority) ∈ q ↔ AddedWith past id priority) :
    q.Tells capacity past where
  ordered := ordered
  ready := ready
  entries := entries
  highest := fun _ => max_highest ordered
  empty := List.head?_eq_none_iff
  remove_absent := by
    intro id q' gone left
    cases left
    exact ThreadReadyQueue.remove_absent (mt (ready id).mp gone)
  insert_present := by
    intro id priority q' present left
    cases left with
    | insert id priority q' inserted room => exact eq_of_inserted ((ready id).mpr present) inserted

theorem Tells.step (tells : q.Tells capacity past) (left : q.Leaves capacity c q') :
    q'.Tells capacity (past ++ [c]) := by
  cases left with
  | insert id priority q' inserted room =>
      refine .of_entries (tells.ordered.inserted inserted) ?_ ?_
      · intro other
        rw [ready_insert, ← tells.ready]
        by_cases present : q.Holds id
        · rw [eq_of_inserted present inserted]
          constructor
          · exact .inr
          · rintro (rfl | there)
            · exact present
            · exact there
        · simp only [holds_iff_entries, mem_inserted present inserted, Prod.mk.injEq]
          simp [exists_or]
      · intro other p
        rw [added_insert, ← tells.entries, ← tells.ready]
        by_cases present : q.Holds id
        · rw [eq_of_inserted present inserted]
          constructor
          · exact .inr
          · rintro (⟨rfl, _, absent⟩ | there)
            · exact absurd present absent
            · exact there
        · rw [mem_inserted present inserted, Prod.mk.injEq]
          constructor
          · rintro (⟨rfl, rfl⟩ | there)
            · exact .inl ⟨rfl, rfl, present⟩
            · exact .inr there
          · rintro (⟨rfl, rfl, _⟩ | there)
            · exact .inl ⟨rfl, rfl⟩
            · exact .inr there
  | remove id =>
      refine .of_entries (tells.ordered.remove id) ?_ ?_
      · intro other
        rw [ready_remove, holds_remove, tells.ready]
      · intro other p
        rw [added_remove, ← tells.entries, remove, List.mem_filter, decide_eq_true_eq, and_comm]

/-- After any calls the list tells which threads are ready. -/
theorem reaches_tells (capacity : Option Nat) (past : List ReadyCall) (q : ThreadReadyQueue)
    (reaches : Reaches capacity past q) : q.Tells capacity past := by
  induction reaches with
  | start =>
      refine .of_entries ⟨.nil, .nil⟩ ?_ ?_
      · exact fun id => iff_of_false List.not_mem_nil not_since_nil
      · exact fun id priority => iff_of_false List.not_mem_nil not_since_nil
  | call before left ih => exact ih.step left

theorem reaches_tells_three : Tells (some 2)
    [.insert ⟨1⟩ 5, .insert ⟨2⟩ 9, .insert ⟨1⟩ 7, .remove ⟨3⟩] [(⟨2⟩, 9), (⟨1⟩, 5)] := by
  have first : Leaves (some 2) [] (.insert ⟨1⟩ 5) [(⟨1⟩, 5)] :=
    .insert ⟨1⟩ 5 _ (inserted_insert [] ⟨1⟩ 5) (.inr (by decide))
  have second : Leaves (some 2) [(⟨1⟩, 5)] (.insert ⟨2⟩ 9) [(⟨2⟩, 9), (⟨1⟩, 5)] :=
    .insert ⟨2⟩ 9 _ (inserted_insert [(⟨1⟩, 5)] ⟨2⟩ 9) (.inr (by decide))
  have again : Leaves (some 2) [(⟨2⟩, 9), (⟨1⟩, 5)] (.insert ⟨1⟩ 7) [(⟨2⟩, 9), (⟨1⟩, 5)] :=
    .insert ⟨1⟩ 7 _ (inserted_insert [(⟨2⟩, 9), (⟨1⟩, 5)] ⟨1⟩ 7) (.inl (by decide))
  exact reaches_tells (some 2) _ _ (.call (.call (.call (.call .start first) second) again)
    (.remove ⟨3⟩))

theorem leaves_of_room (q : ThreadReadyQueue) (c : ReadyCall)
    (room : ∀ id priority, c = .insert id priority →
      q.Holds id ∨ ∀ size ∈ capacity, q.length < size) : ∃ q', q.Leaves capacity c q' := by
  cases c with
  | insert id priority =>
      exact ⟨_, .insert id priority _ (inserted_insert q id priority) (room id priority rfl)⟩
  | remove id => exact ⟨_, .remove id⟩

end ThreadReadyQueue

end QpRs.Qxk
