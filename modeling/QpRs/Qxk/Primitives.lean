import QpRs.Qxk.Scheduler
import Mathlib.Data.List.Perm.Basic

/-! The blocking primitives of QXK (`qxk/src/primitives.rs`).

Each operation takes the lock of its primitive once, or twice for a mutex with a ceiling, and then
calls the scheduler. The part under the lock is the definition named `enter…`; the operation itself
puts it together with the scheduler calls that follow. -/

namespace QpRs.Qxk

inductive SyncError where
  | timeout
  | overflow
  | queueFull
  | queueEmpty
  | invalidOperation
  | wouldBlock
  deriving DecidableEq, Repr

structure WaitingThread where
  id : ThreadId
  priority : Nat
  deriving DecidableEq, Repr

abbrev WaitVec := List WaitingThread

namespace WaitVec

/-- `Vec::swap_remove`: the last element takes the place of the removed one. -/
def swapRemove (v : WaitVec) (i : Nat) : Option (WaitingThread × WaitVec) :=
  match v[i]?, v.getLast? with
  | some w, some last => some (w, (v.set i last).dropLast)
  | _, _ => none

/-- The loop of `take_highest`: `i` is the index of the head of the rest of the list, `best` the
index of the highest priority so far. -/
def bestFrom : WaitVec → Nat → Nat → Nat → Nat
  | [], _, best, _ => best
  | w :: rest, i, best, highest =>
      if w.priority > highest then bestFrom rest (i + 1) i w.priority
      else bestFrom rest (i + 1) best highest

def takeHighest : WaitVec → Option (WaitingThread × WaitVec)
  | [] => none
  | w :: rest => swapRemove (w :: rest) (bestFrom rest 1 0 w.priority)

theorem swapRemove_perm {v rest : WaitVec} {i : Nat} {w : WaitingThread}
    (removed : v.swapRemove i = some (w, rest)) : v.Perm (w :: rest) := by
  unfold swapRemove at removed
  split at removed
  · rename_i found last present final
    cases removed
    rcases List.getLast?_eq_some_iff.mp final with ⟨front, rfl⟩
    rcases List.getElem?_eq_some_iff.mp present with ⟨bound, here⟩
    by_cases inner : i < front.length
    · rw [List.getElem_append_left inner] at here
      rw [List.set_append_left _ _ inner, List.dropLast_concat]
      calc
        (front ++ [last]).Perm (last :: front) := List.perm_append_comm
        _ |>.Perm (last :: w :: front.eraseIdx i) := by
          rw [← here]
          exact (List.getElem_cons_eraseIdx_perm inner).symm.cons last
        _ |>.Perm (w :: last :: front.eraseIdx i) := .swap _ _ _
        _ |>.Perm (w :: front.set i last) := (List.set_perm_cons_eraseIdx inner last).symm.cons w
    · simp only [List.length_append, List.length_singleton] at bound
      have final : i = front.length := by omega
      subst final
      have same : last = w := by simpa using here
      subst same
      simp
  · cases removed

theorem bestFrom_lt (rest : WaitVec) {i best : Nat} (seen : best < i) (highest : Nat) :
    bestFrom rest i best highest < i + rest.length := by
  induction rest generalizing i best highest with
  | nil => simpa [bestFrom] using seen
  | cons w rest ih =>
      unfold bestFrom
      have first := ih (Nat.lt_add_one i) w.priority
      have later := ih (Nat.lt_add_right 1 seen) highest
      simp only [List.length_cons]
      split <;> omega

theorem takeHighest_perm {v rest : WaitVec} {w : WaitingThread}
    (taken : v.takeHighest = some (w, rest)) : v.Perm (w :: rest) := by
  cases v with
  | nil => cases taken
  | cons first others => exact swapRemove_perm taken

theorem takeHighest_none {v : WaitVec} (none : v.takeHighest = none) : v = [] := by
  cases v with
  | nil => rfl
  | cons first others =>
      have bound := bestFrom_lt others Nat.one_pos first.priority
      have inside : bestFrom others 1 0 first.priority < (first :: others).length := by
        simp only [List.length_cons]
        omega
      simp only [takeHighest, swapRemove, List.getElem?_eq_getElem inside,
        List.getLast?_cons] at none
      cases none

end WaitVec

def ids (v : WaitVec) : List ThreadId := v.map WaitingThread.id

theorem ids_takeHighest {v rest : WaitVec} {w : WaitingThread} {t : ThreadId}
    (taken : v.takeHighest = some (w, rest)) (listed : t ∈ ids v) :
    t ∈ ids rest ∨ t ∈ ids [w] := by
  have same := (WaitVec.takeHighest_perm taken).map WaitingThread.id
  have member := same.mem_iff.mp listed
  simpa [ids, or_comm] using member

theorem ids_push {v : WaitVec} {t : ThreadId} (w : WaitingThread) (listed : t ∈ ids v) :
    t ∈ ids (v ++ [w]) := by
  unfold ids at listed ⊢
  rw [List.map_append]
  exact List.mem_append_left _ listed

structure SemaphoreInner where
  count : Nat
  maxCount : Nat
  waiting : WaitVec
  deriving DecidableEq, Repr

namespace SemaphoreInner

def new (initialCount maxCount : Nat) : SemaphoreInner := ⟨initialCount, maxCount, []⟩

def tryWait (s : SemaphoreInner) : Bool × SemaphoreInner :=
  if s.count > 0 then (true, { s with count := s.count - 1 }) else (false, s)

def enterWait (s : SemaphoreInner) (thread : ThreadId) (priority : Nat) : Bool × SemaphoreInner :=
  if s.count > 0 then (true, { s with count := s.count - 1 })
  else (false, { s with waiting := s.waiting ++ [⟨thread, priority⟩] })

def wait (s : SemaphoreInner) (thread : ThreadId) (priority : Nat) (scheduler : QxkScheduler) :
    Except SyncError Unit × SemaphoreInner × QxkScheduler :=
  match s.enterWait thread priority with
  | (true, s) => (.ok (), s, scheduler)
  | (false, s) => (.error .wouldBlock, s, scheduler.blockThread thread)

/-- It tries once; the timeout is not read. -/
def waitTimeout (s : SemaphoreInner) : Except SyncError Unit × SemaphoreInner :=
  match s.tryWait with
  | (true, s) => (.ok (), s)
  | (false, s) => (.error .timeout, s)

/-- The woken waiter, if any, is off the list. -/
def enterSignal (s : SemaphoreInner) :
    Except SyncError (Option WaitingThread × SemaphoreInner) :=
  if s.count ≥ s.maxCount then .error .overflow
  else
    match s.waiting.takeHighest with
    | some (woken, rest) => .ok (some woken, { s with count := s.count + 1, waiting := rest })
    | none => .ok (none, { s with count := s.count + 1 })

def signal (s : SemaphoreInner) (scheduler : QxkScheduler) :
    Except SyncError Unit × SemaphoreInner × QxkScheduler :=
  match s.enterSignal with
  | .error e => (.error e, s, scheduler)
  | .ok (some woken, s) => (.ok (), s, scheduler.unblockThread woken.id woken.priority)
  | .ok (none, s) => (.ok (), s, scheduler)

end SemaphoreInner

structure MutexInner where
  locked : Bool
  owner : Option ThreadId
  originalPriority : Option Nat
  ceiling : Option Nat
  ceilingSchedStatus : Option SchedStatus
  waiting : WaitVec
  deriving DecidableEq, Repr

namespace MutexInner

def new : MutexInner := ⟨false, none, none, none, none, []⟩

def withCeiling (ceiling : Nat) : MutexInner := { new with ceiling := some ceiling }

def tryLock (m : MutexInner) (thread : ThreadId) : Bool × MutexInner :=
  if !m.locked then (true, { m with locked := true, owner := some thread }) else (false, m)

/-- Whether the mutex was acquired, and the ceiling to raise then. -/
def enterLock (m : MutexInner) (thread : ThreadId) (priority : Nat) :
    (Bool × Option Nat) × MutexInner :=
  if !m.locked then
    ((true, m.ceiling),
      { m with locked := true, owner := some thread, originalPriority := some priority })
  else ((false, none), { m with waiting := m.waiting ++ [⟨thread, priority⟩] })

/-- The second critical section of `lock`. -/
def storeStatus (m : MutexInner) (status : SchedStatus) : MutexInner :=
  { m with ceilingSchedStatus := some status }

def lock (m : MutexInner) (thread : ThreadId) (priority : Nat) (scheduler : QxkScheduler) :
    Except SyncError Unit × MutexInner × QxkScheduler :=
  match m.enterLock thread priority with
  | ((true, some c), m) =>
      let (status, scheduler) := scheduler.lock c
      (.ok (), m.storeStatus status, scheduler)
  | ((true, none), m) => (.ok (), m, scheduler)
  | ((false, _), m) => (.error .wouldBlock, m, scheduler.blockThread thread)

/-- The scheduler status to restore and the woken waiter. -/
def enterUnlock (m : MutexInner) (thread : ThreadId) :
    Except SyncError ((Option SchedStatus × Option WaitingThread) × MutexInner) :=
  if m.owner ≠ some thread then .error .invalidOperation
  else
    let freed := { m with
      locked := false, owner := none, originalPriority := none, ceilingSchedStatus := none }
    match m.waiting.takeHighest with
    | some (woken, rest) => .ok ((m.ceilingSchedStatus, some woken), { freed with waiting := rest })
    | none => .ok ((m.ceilingSchedStatus, none), freed)

def unlock (m : MutexInner) (thread : ThreadId) (scheduler : QxkScheduler) :
    Except SyncError Unit × MutexInner × QxkScheduler :=
  match m.enterUnlock thread with
  | .error e => (.error e, m, scheduler)
  | .ok ((status, woken), m) =>
      let scheduler := status.elim scheduler scheduler.unlock
      let scheduler := woken.elim scheduler fun w => scheduler.unblockThread w.id w.priority
      (.ok (), m, scheduler)

end MutexInner

/-- `capacity` is the const parameter `N`. -/
structure MessageQueueInner (τ : Type) where
  capacity : Nat
  queue : List τ
  waitingReceivers : WaitVec
  waitingSenders : WaitVec

namespace MessageQueueInner

variable {τ : Type}

def new (capacity : Nat) : MessageQueueInner τ := ⟨capacity, [], [], []⟩

def tryPush (q : MessageQueueInner τ) (msg : τ) : Option (MessageQueueInner τ) :=
  if q.queue.length ≥ q.capacity then none else some { q with queue := q.queue ++ [msg] }

/-- What follows a successful push under the lock: a waiting receiver is taken off its list. -/
def wakeReceiver (q : MessageQueueInner τ) : Option WaitingThread × MessageQueueInner τ :=
  match q.waitingReceivers.takeHighest with
  | some (woken, rest) => (some woken, { q with waitingReceivers := rest })
  | none => (none, q)

def wakeSender (q : MessageQueueInner τ) : Option WaitingThread × MessageQueueInner τ :=
  match q.waitingSenders.takeHighest with
  | some (woken, rest) => (some woken, { q with waitingSenders := rest })
  | none => (none, q)

def enterTrySend (q : MessageQueueInner τ) (msg : τ) :
    Except SyncError (Option WaitingThread × MessageQueueInner τ) :=
  match q.tryPush msg with
  | some q => .ok q.wakeReceiver
  | none => .error .queueFull

def tryReceive (q : MessageQueueInner τ) : Except SyncError τ × MessageQueueInner τ :=
  match q.queue with
  | msg :: rest => (.ok msg, { q with queue := rest })
  | [] => (.error .queueEmpty, q)

/-- `none` in the first place: the queue is full and the sender is on the list. -/
def enterSend (q : MessageQueueInner τ) (msg : τ) (thread : ThreadId) (priority : Nat) :
    Option (Option WaitingThread) × MessageQueueInner τ :=
  match q.tryPush msg with
  | some q => (some q.wakeReceiver.1, q.wakeReceiver.2)
  | none => (none, { q with waitingSenders := q.waitingSenders ++ [⟨thread, priority⟩] })

/-- `none` in the first place: the queue is empty and the receiver is on the list. -/
def enterReceive (q : MessageQueueInner τ) (thread : ThreadId) (priority : Nat) :
    Option (τ × Option WaitingThread) × MessageQueueInner τ :=
  match q.queue with
  | msg :: rest =>
      let popped := { q with queue := rest }
      (some (msg, popped.wakeSender.1), popped.wakeSender.2)
  | [] => (none, { q with waitingReceivers := q.waitingReceivers ++ [⟨thread, priority⟩] })

def trySend (q : MessageQueueInner τ) (msg : τ) (scheduler : QxkScheduler) :
    Except SyncError Unit × MessageQueueInner τ × QxkScheduler :=
  match q.enterTrySend msg with
  | .error e => (.error e, q, scheduler)
  | .ok (woken, q) =>
      (.ok (), q, woken.elim scheduler fun w => scheduler.unblockThread w.id w.priority)

def send (q : MessageQueueInner τ) (msg : τ) (thread : ThreadId) (priority : Nat)
    (scheduler : QxkScheduler) : Except SyncError Unit × MessageQueueInner τ × QxkScheduler :=
  match q.enterSend msg thread priority with
  | (some woken, q) =>
      (.ok (), q, woken.elim scheduler fun w => scheduler.unblockThread w.id w.priority)
  | (none, q) => (.error .wouldBlock, q, scheduler.blockThread thread)

def receive (q : MessageQueueInner τ) (thread : ThreadId) (priority : Nat)
    (scheduler : QxkScheduler) : Except SyncError τ × MessageQueueInner τ × QxkScheduler :=
  match q.enterReceive thread priority with
  | (some (msg, woken), q) =>
      (.ok msg, q, woken.elim scheduler fun w => scheduler.unblockThread w.id w.priority)
  | (none, q) => (.error .wouldBlock, q, scheduler.blockThread thread)

end MessageQueueInner

structure CondVarInner where
  waiting : WaitVec
  deriving DecidableEq, Repr

namespace CondVarInner

def new : CondVarInner := ⟨[]⟩

def enterWait (c : CondVarInner) (thread : ThreadId) (priority : Nat) : CondVarInner :=
  ⟨c.waiting ++ [⟨thread, priority⟩]⟩

def enterNotifyOne (c : CondVarInner) : Option WaitingThread × CondVarInner :=
  match c.waiting.takeHighest with
  | some (woken, rest) => (some woken, ⟨rest⟩)
  | none => (none, c)

def enterNotifyAll (c : CondVarInner) : WaitVec × CondVarInner := (c.waiting, ⟨[]⟩)

end CondVarInner

end QpRs.Qxk
