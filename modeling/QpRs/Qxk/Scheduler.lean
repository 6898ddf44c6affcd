import QpRs.ReadySet
import Mathlib.Data.List.Sort

/-! The single-core scheduler of QXK (`qxk/src/scheduler.rs`): active objects in a bitmap, extended
threads in a list by priority, and the dual-mode choice between them. `records` is what the trace
hook receives when one is installed. -/

namespace QpRs.Qxk

structure ThreadId where
  val : Nat
  deriving DecidableEq, Repr

inductive SchedStatus where
  | unlocked
  | locked (ceiling : Nat)
  deriving DecidableEq, Repr

def SchedStatus.isLocked : SchedStatus → Bool
  | .locked _ => true
  | .unlocked => false

inductive ScheduleMode where
  | activeObject (priority : Nat)
  | extendedThread (id : ThreadId) (priority : Nat)
  | idle
  deriving DecidableEq, Repr

inductive Record where
  | lock (ceiling : Nat)
  | unlock (current value : Nat)
  | next (prio : Nat)
  | threadNext (id : ThreadId) (priority : Nat)
  | idle
  deriving DecidableEq, Repr

abbrev ThreadReadyQueue := List (ThreadId × Nat)

namespace ThreadReadyQueue

/-- Highest priority first. The order of equal priorities is not specified by the source's sort. -/
def insert (q : ThreadReadyQueue) (id : ThreadId) (priority : Nat) : ThreadReadyQueue :=
  if q.any fun entry => entry.1 = id then q
  else (q ++ [(id, priority)]).insertionSort fun x y => y.2 ≤ x.2

def remove (q : ThreadReadyQueue) (id : ThreadId) : ThreadReadyQueue :=
  q.filter fun entry => entry.1 ≠ id

def max (q : ThreadReadyQueue) : Option (ThreadId × Nat) := q.head?

def Holds (q : ThreadReadyQueue) (id : ThreadId) : Prop := id ∈ q.map Prod.fst

instance (q : ThreadReadyQueue) (id : ThreadId) : Decidable (q.Holds id) :=
  inferInstanceAs (Decidable (id ∈ q.map Prod.fst))

theorem holds_insert (q : ThreadReadyQueue) (id : ThreadId) (priority : Nat) (other : ThreadId) :
    (q.insert id priority).Holds other ↔ other = id ∨ q.Holds other := by
  unfold insert Holds
  split
  · rename_i present
    simp only [List.any_eq_true, decide_eq_true_eq] at present
    rcases present with ⟨entry, member, same⟩
    constructor
    · exact .inr
    · rintro (rfl | there)
      · exact List.mem_map.mpr ⟨entry, member, same⟩
      · exact there
  · simp only [List.mem_map, List.mem_insertionSort, List.mem_append, List.mem_singleton]
    constructor
    · rintro ⟨entry, old | new, same⟩
      · exact .inr ⟨entry, old, same⟩
      · exact .inl (by rw [← same, new])
    · rintro (rfl | ⟨entry, old, same⟩)
      · exact ⟨(other, priority), .inr rfl, rfl⟩
      · exact ⟨entry, .inl old, same⟩

theorem holds_remove (q : ThreadReadyQueue) (id other : ThreadId) :
    (q.remove id).Holds other ↔ other ≠ id ∧ q.Holds other := by
  unfold remove Holds
  simp only [List.mem_map, List.mem_filter, decide_eq_true_eq]
  constructor
  · rintro ⟨entry, ⟨member, different⟩, rfl⟩
    exact ⟨different, entry, member, rfl⟩
  · rintro ⟨different, entry, member, rfl⟩
    exact ⟨entry, ⟨member, different⟩, rfl⟩

end ThreadReadyQueue

structure QxkScheduler where
  lockCeiling : Nat
  aoReady : ReadySet
  threadReady : ThreadReadyQueue
  activePrio : Nat
  activeThread : Option ThreadId
  records : List Record
  deriving DecidableEq

namespace QxkScheduler

def new : QxkScheduler where
  lockCeiling := 0
  aoReady := .empty
  threadReady := []
  activePrio := 0
  activeThread := none
  records := []

def emitTrace (s : QxkScheduler) (record : Record) : QxkScheduler :=
  { s with records := s.records ++ [record] }

def lock (s : QxkScheduler) (ceiling : Nat) : SchedStatus × QxkScheduler :=
  if ceiling > s.lockCeiling then
    (.locked s.lockCeiling, emitTrace { s with lockCeiling := ceiling } (.lock ceiling))
  else (.unlocked, s)

def unlock (s : QxkScheduler) : SchedStatus → QxkScheduler
  | .locked value =>
      if s.lockCeiling > value then
        emitTrace { s with lockCeiling := value } (.unlock s.lockCeiling value)
      else s
  | .unlocked => s

def markAoReady (s : QxkScheduler) (prio : Nat) : QxkScheduler :=
  { s with aoReady := s.aoReady.insert prio }

def markAoNotReady (s : QxkScheduler) (prio : Nat) : QxkScheduler :=
  { s with aoReady := s.aoReady.remove prio }

def markThreadReady (s : QxkScheduler) (id : ThreadId) (priority : Nat) : QxkScheduler :=
  { s with threadReady := s.threadReady.insert id priority }

def markThreadNotReady (s : QxkScheduler) (id : ThreadId) : QxkScheduler :=
  { s with threadReady := s.threadReady.remove id }

/-- `plan_next` when no active object is above the ceiling. -/
def planThread (s : QxkScheduler) : ScheduleMode × QxkScheduler :=
  match s.threadReady.max with
  | some (id, priority) => (.extendedThread id priority, s.emitTrace (.threadNext id priority))
  | none => (.idle, s.emitTrace .idle)

def planNext (s : QxkScheduler) : ScheduleMode × QxkScheduler :=
  match s.aoReady.max with
  | some prio =>
      if prio > s.lockCeiling then (.activeObject prio, s.emitTrace (.next prio))
      else s.planThread
  | none => s.planThread

def hasWork (s : QxkScheduler) : Bool := s.aoReady.max.isSome || !s.threadReady.isEmpty

def setActive (s : QxkScheduler) : ScheduleMode → QxkScheduler
  | .activeObject priority => { s with activePrio := priority, activeThread := none }
  | .extendedThread id _ => { s with activePrio := 0, activeThread := some id }
  | .idle => { s with activePrio := 0, activeThread := none }

/-- Without the `smp` feature nothing is recorded at the end of an execution. -/
def completeExecution (s : QxkScheduler) (_mode : ScheduleMode) : QxkScheduler := s

def blockThread (s : QxkScheduler) (id : ThreadId) : QxkScheduler :=
  { s with threadReady := s.threadReady.remove id }

def unblockThread (s : QxkScheduler) (id : ThreadId) (priority : Nat) : QxkScheduler :=
  { s with threadReady := s.threadReady.insert id priority }

end QxkScheduler

end QpRs.Qxk
