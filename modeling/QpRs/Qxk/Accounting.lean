import QpRs.Lib.Handoff
import QpRs.Lib.Run
import QpRs.Qxk.Primitives

/-! Semaphores and mutexes with each call as one step: what the count, the owner and the waiter list
say about the calls made so far.

The fields after the scheduler are ghost state. A thread that was woken retries with its next call;
`woken` holds the wake-ups that were not yet retried. -/

namespace QpRs.Qxk

inductive SemCall where
  | tryWait (thread : ThreadId)
  | wait (thread : ThreadId) (priority : Nat)
  | waitTimeout (thread : ThreadId)
  | signal
  deriving DecidableEq, Repr

structure SemRun where
  sem : SemaphoreInner
  sched : QxkScheduler
  acquired : Nat
  signalled : Nat
  woken : List ThreadId

namespace SemRun

def init (initialCount maxCount : Nat) (sched : QxkScheduler) : SemRun :=
  ⟨.new initialCount maxCount, sched, 0, 0, []⟩

def wakes (s : SemaphoreInner) : List ThreadId :=
  match s.enterSignal with
  | .ok (some w, _) => [w.id]
  | _ => []

/-- Each call of a thread retries one of its wake-ups. -/
def call (r : SemRun) : SemCall → SemRun
  | .tryWait thread =>
      { r with
        sem := r.sem.tryWait.2
        acquired := r.acquired + r.sem.tryWait.1.toNat
        woken := r.woken.erase thread }
  | .wait thread priority =>
      let (result, sem, sched) := r.sem.wait thread priority r.sched
      { r with
        sem := sem, sched := sched
        acquired := r.acquired + result.isOk.toNat
        woken := r.woken.erase thread }
  | .waitTimeout thread =>
      { r with
        sem := r.sem.waitTimeout.2
        acquired := r.acquired + r.sem.waitTimeout.1.isOk.toNat
        woken := r.woken.erase thread }
  | .signal =>
      let (result, sem, sched) := r.sem.signal r.sched
      { r with
        sem := sem, sched := sched
        signalled := r.signalled + result.isOk.toNat
        woken := r.woken ++ wakes r.sem }

def step (r : SemRun) (c : SemCall) : Option SemRun := some (r.call c)

end SemRun

/-- The count is bounded and balanced, and while threads wait it is covered by wake-ups. -/
structure SemSound (initialCount maxCount : Nat) (r : SemRun) : Prop where
  limit : r.sem.maxCount = maxCount
  bounded : r.sem.count ≤ maxCount
  balanced : r.acquired + r.sem.count = initialCount + r.signalled
  covered : r.sem.waiting ≠ [] → r.sem.count ≤ r.woken.length

/-- No thread waits while it is already on the list. -/
def Fresh (r : SemRun) : SemCall → Prop
  | .wait thread _ => thread ∉ ids r.sem.waiting
  | _ => True

instance (r : SemRun) : (c : SemCall) → Decidable (Fresh r c)
  | .wait _ _ => inferInstanceAs (Decidable (_ ∉ _))
  | .tryWait _ => .isTrue trivial
  | .waitTimeout _ => .isTrue trivial
  | .signal => .isTrue trivial

/-- Each thread is on the list once or has one wake-up to retry, not both. -/
def Single (r : SemRun) : Prop :=
  (r.woken ++ ids r.sem.waiting).Nodup

section Semaphore

variable {initialCount maxCount : Nat} {r : SemRun}

/-- A call that tries to acquire: it takes one unit, or the count is 0 and it may put its thread on
the list. -/
inductive Tries (s s' : SemaphoreInner) (entry : List ThreadId) : Bool → Prop where
  | acquired (limit : s'.maxCount = s.maxCount) (count : s'.count + 1 = s.count)
      (waiting : s'.waiting = s.waiting) : Tries s s' entry true
  | failed (limit : s'.maxCount = s.maxCount) (same : s'.count = s.count) (empty : s.count = 0)
      (waiting : ids s'.waiting = ids s.waiting ++ entry) : Tries s s' entry false

theorem tryWait_tries (s : SemaphoreInner) : Tries s s.tryWait.2 [] s.tryWait.1 := by
  unfold SemaphoreInner.tryWait
  by_cases available : s.count > 0
  · rw [if_pos available]
    exact .acquired rfl (by simp only; omega) rfl
  · rw [if_neg available]
    exact .failed rfl rfl (by omega) (List.append_nil _).symm

theorem waitTimeout_tries (s : SemaphoreInner) :
    Tries s s.waitTimeout.2 [] s.waitTimeout.1.isOk := by
  have tried := tryWait_tries s
  unfold SemaphoreInner.waitTimeout
  split
  · rename_i same
    rw [same] at tried
    exact tried
  · rename_i same
    rw [same] at tried
    exact tried

theorem wait_tries (s : SemaphoreInner) (thread : ThreadId) (priority : Nat)
    (sched : QxkScheduler) :
    Tries s (s.wait thread priority sched).2.1 [thread]
      (s.wait thread priority sched).1.isOk := by
  unfold SemaphoreInner.wait SemaphoreInner.enterWait
  by_cases available : s.count > 0
  · simp only [if_pos available]
    exact .acquired rfl (by simp only; omega) rfl
  · simp only [if_neg available]
    exact .failed rfl rfl (by omega) (by simp [ids])

/-- The units of the count as units handed to the waiting threads. -/
def SemRun.handoff (r : SemRun) : Lib.Handoff ThreadId :=
  ⟨r.sem.count, ids r.sem.waiting, r.woken⟩

theorem covered_iff : r.handoff.Covered ↔ (r.sem.waiting ≠ [] → r.sem.count ≤ r.woken.length) := by
  simp [Lib.Handoff.Covered, SemRun.handoff, ids]

theorem Tries.retries {s : SemaphoreInner} {entry : List ThreadId} {acquired : Bool}
    (tried : Tries r.sem s entry acquired) (thread : ThreadId) (sched : QxkScheduler) :
    r.handoff.Retries (some thread) entry (SemRun.handoff { r with
      sem := s, sched := sched
      acquired := r.acquired + acquired.toNat
      woken := r.woken.erase thread }) := by
  cases tried with
  | acquired limit count waiting =>
      simp only [SemRun.handoff, waiting]
      exact .taken count
  | failed limit same empty waiting =>
      have refused : r.handoff.Retries (some thread) entry
          ⟨0, ids r.sem.waiting ++ entry, r.woken.erase thread⟩ := .refused empty
      simpa only [SemRun.handoff, waiting, same, empty] using refused

theorem SemSound.retry (sound : SemSound initialCount maxCount r) {s : SemaphoreInner}
    {entry : List ThreadId} {acquired : Bool} (tried : Tries r.sem s entry acquired)
    (thread : ThreadId) (sched : QxkScheduler) :
    SemSound initialCount maxCount { r with
      sem := s, sched := sched
      acquired := r.acquired + acquired.toNat
      woken := r.woken.erase thread } := by
  have bounded := sound.bounded
  have balanced := sound.balanced
  have covered := (covered_iff.mpr sound.covered).retries (tried.retries thread sched)
  cases tried with
  | acquired limit count waiting =>
      refine ⟨limit.trans sound.limit, ?_, ?_, covered_iff.mp covered⟩
      · simp only
        omega
      · simp only [Bool.toNat_true]
        omega
  | failed limit same empty waiting =>
      refine ⟨limit.trans sound.limit, ?_, ?_, covered_iff.mp covered⟩
      · simp only
        omega
      · simp only [Bool.toNat_false]
        omega

theorem signal_cases (s : SemaphoreInner) (sched : QxkScheduler) :
    ((s.signal sched).1 = .error .overflow ∧ (s.signal sched).2 = (s, sched) ∧
        SemRun.wakes s = []) ∨
      (s.count < s.maxCount ∧ (s.signal sched).1 = .ok () ∧
        (s.signal sched).2.1.maxCount = s.maxCount ∧
        (s.signal sched).2.1.count = s.count + 1 ∧
        ((s.waiting = [] ∧ (s.signal sched).2.1.waiting = [] ∧ SemRun.wakes s = []) ∨
          ∃ w rest, s.waiting.takeHighest = some (w, rest) ∧
            (s.signal sched).2.1.waiting = rest ∧ SemRun.wakes s = [w.id])) := by
  unfold SemaphoreInner.signal SemRun.wakes SemaphoreInner.enterSignal
  by_cases full : s.count ≥ s.maxCount
  · left
    simp only [if_pos full, and_self]
  · right
    simp only [if_neg full]
    refine ⟨by omega, ?_⟩
    cases taken : s.waiting.takeHighest with
    | none =>
        have empty := WaitVec.takeHighest_none taken
        exact ⟨rfl, rfl, rfl, .inl ⟨empty, empty, rfl⟩⟩
    | some entry => exact ⟨rfl, rfl, rfl, .inr ⟨entry.1, entry.2, rfl, rfl, rfl⟩⟩

theorem signal_handoff (r : SemRun) :
    (r.call .signal).handoff = r.handoff ∨ r.handoff.Grants (r.call .signal).handoff := by
  unfold SemRun.call
  rcases signal_cases r.sem r.sched with ⟨-, same, wakes⟩ |
    ⟨-, -, -, count, ⟨empty, waiting, wakes⟩ | ⟨w, rest, taken, waiting, wakes⟩⟩
  · left
    simp only [SemRun.handoff, same, wakes, List.append_nil]
  · right
    have nobody : r.handoff.waiting = [] := congrArg ids empty
    simp only [SemRun.handoff, count, waiting, wakes, List.append_nil, ← empty]
    exact .unclaimed nobody
  · right
    simp only [SemRun.handoff, count, waiting, wakes]
    exact .woke ((WaitVec.takeHighest_perm taken).map WaitingThread.id)

theorem SemSound.signal (sound : SemSound initialCount maxCount r) :
    SemSound initialCount maxCount (r.call .signal) := by
  have bounded := sound.bounded
  have balanced := sound.balanced
  have covered : (r.call .signal).handoff.Covered := by
    rcases signal_handoff r with same | granted
    · rw [same]
      exact covered_iff.mpr sound.covered
    · exact (covered_iff.mpr sound.covered).grants granted
  rcases signal_cases r.sem r.sched with ⟨overflow, same, wakes⟩ | ⟨room, ok, limit, count, -⟩
  · simp only [SemRun.call, overflow, same, wakes, List.append_nil]
    exact ⟨sound.limit, bounded, balanced, sound.covered⟩
  · rw [sound.limit] at room
    refine ⟨limit.trans sound.limit, ?_, ?_, covered_iff.mp covered⟩
    · simp only [SemRun.call, count]
      omega
    · simp only [SemRun.call, ok, count, Except.isOk, Except.toBool, Bool.toNat_true]
      omega

theorem semSound_step (r : SemRun) (c : SemCall) (r' : SemRun)
    (sound : SemSound initialCount maxCount r) (stepped : r.step c = some r') :
    SemSound initialCount maxCount r' := by
  rw [← Option.some.inj stepped]
  cases c with
  | tryWait thread => exact sound.retry (tryWait_tries r.sem) thread r.sched
  | wait thread priority => exact sound.retry (wait_tries r.sem thread priority r.sched) thread _
  | waitTimeout thread => exact sound.retry (waitTimeout_tries r.sem) thread r.sched
  | signal => exact sound.signal

theorem Single.signal (single : Single r) : Single (r.call .signal) := by
  have handoff : r.handoff.Single := single
  rcases signal_handoff r with same | granted
  · rw [← same] at handoff
    exact handoff
  · exact handoff.grants granted

theorem Single.retry (single : Single r) {s : SemaphoreInner} {entry : List ThreadId}
    {acquired : Bool} (tried : Tries r.sem s entry acquired) (thread : ThreadId)
    (sched : QxkScheduler) (own : ∀ t ∈ entry, t = thread) (once : entry.Nodup)
    (fresh : ∀ t ∈ entry, t ∉ ids r.sem.waiting) :
    Single { r with
      sem := s, sched := sched
      acquired := r.acquired + acquired.toNat
      woken := r.woken.erase thread } := by
  have handoff : r.handoff.Single := single
  apply handoff.retries (tried.retries thread sched) once _ fresh
  intro t member
  rw [own t member]

theorem single_step (r : SemRun) (c : SemCall) (r' : SemRun) (single : Single r) (fresh : Fresh r c)
    (stepped : r.step c = some r') : Single r' := by
  rw [← Option.some.inj stepped]
  cases c with
  | tryWait thread =>
      apply single.retry (tryWait_tries r.sem) thread r.sched
      · simp
      · exact .nil
      · simp
  | wait thread priority =>
      apply single.retry (wait_tries r.sem thread priority r.sched) thread
      · simp
      · simp
      · intro t member
        rw [List.mem_singleton.mp member]
        exact fresh
  | waitTimeout thread =>
      apply single.retry (waitTimeout_tries r.sem) thread r.sched
      · simp
      · exact .nil
      · simp
  | signal => exact single.signal

theorem single_run {sched : QxkScheduler} {calls : List SemCall}
    (fresh : Lib.Along SemRun.step Fresh (SemRun.init initialCount maxCount sched) calls)
    (ran : Lib.run SemRun.step (SemRun.init initialCount maxCount sched) calls = some r) :
    Single r := by
  have start : Single (SemRun.init initialCount maxCount sched) := List.nodup_nil
  exact Lib.along_preserves single_step start fresh ran

end Semaphore

inductive MutexCall where
  | tryLock (thread : ThreadId)
  | lock (thread : ThreadId) (priority : Nat)
  | unlock (thread : ThreadId)
  deriving DecidableEq, Repr

/-- `holders` are the threads that acquired the mutex and did not unlock it since. -/
structure MutexRun where
  mutex : MutexInner
  sched : QxkScheduler
  holders : List ThreadId
  woken : List ThreadId

namespace MutexRun

def init (ceiling : Option Nat) (sched : QxkScheduler) : MutexRun :=
  ⟨{ MutexInner.new with ceiling := ceiling }, sched, [], []⟩

def wakes (m : MutexInner) (thread : ThreadId) : List ThreadId :=
  match m.enterUnlock thread with
  | .ok ((_, some w), _) => [w.id]
  | _ => []

/-- A call of a thread retries all its wake-ups. -/
def call (r : MutexRun) : MutexCall → MutexRun
  | .tryLock thread =>
      let (locked, mutex) := r.mutex.tryLock thread
      { r with
        mutex := mutex
        holders := if locked then r.holders ++ [thread] else r.holders
        woken := r.woken.filter (· ≠ thread) }
  | .lock thread priority =>
      let (result, mutex, sched) := r.mutex.lock thread priority r.sched
      { r with
        mutex := mutex, sched := sched
        holders := if result.isOk then r.holders ++ [thread] else r.holders
        woken := r.woken.filter (· ≠ thread) }
  | .unlock thread =>
      let (result, mutex, sched) := r.mutex.unlock thread r.sched
      { r with
        mutex := mutex, sched := sched
        holders := if result.isOk then r.holders.erase thread else r.holders
        woken := r.woken ++ wakes r.mutex thread }

def step (r : MutexRun) (c : MutexCall) : Option MutexRun := some (r.call c)

end MutexRun

structure MutexSound (r : MutexRun) : Prop where
  owned : r.mutex.locked = r.mutex.owner.isSome
  held : r.holders = r.mutex.owner.toList
  passed : r.mutex.locked = false → r.mutex.waiting ≠ [] → r.woken ≠ []

section Mutex

variable {r : MutexRun}

/-- A call that tries to lock: it takes a free mutex, or the mutex stays as it was and the thread
may go on the list. -/
inductive Locks (m m' : MutexInner) (thread : ThreadId) : Bool → Prop where
  | acquired (free : m.locked = false) (locked : m'.locked = true)
      (owner : m'.owner = some thread) :
      Locks m m' thread true
  | failed (taken : m.locked = true) (locked : m'.locked = true) (owner : m'.owner = m.owner) :
      Locks m m' thread false

theorem tryLock_locks (m : MutexInner) (thread : ThreadId) :
    Locks m (m.tryLock thread).2 thread (m.tryLock thread).1 := by
  unfold MutexInner.tryLock
  cases taken : m.locked with
  | true => exact .failed taken taken rfl
  | false => exact .acquired taken rfl rfl

theorem lock_locks (m : MutexInner) (thread : ThreadId) (priority : Nat) (sched : QxkScheduler) :
    Locks m (m.lock thread priority sched).2.1 thread (m.lock thread priority sched).1.isOk := by
  unfold MutexInner.lock MutexInner.enterLock
  cases taken : m.locked with
  | true => exact .failed taken rfl rfl
  | false =>
      cases ceiling : m.ceiling with
      | none =>
          simp only [Bool.not_false, if_true]
          exact .acquired taken rfl rfl
      | some c =>
          simp only [Bool.not_false, if_true]
          exact .acquired taken rfl rfl

theorem MutexSound.locks (sound : MutexSound r) {m : MutexInner} {thread : ThreadId} {ok : Bool}
    (locks : Locks r.mutex m thread ok) (sched : QxkScheduler) :
    MutexSound { r with
      mutex := m, sched := sched
      holders := if ok then r.holders ++ [thread] else r.holders
      woken := r.woken.filter (· ≠ thread) } := by
  have owned := sound.owned
  have held := sound.held
  cases locks with
  | acquired free locked owner =>
      have nobody : r.mutex.owner = none := by
        rw [free] at owned
        exact Option.isNone_iff_eq_none.mp (by simp [← Option.not_isSome, ← owned])
      refine ⟨?_, ?_, ?_⟩
      · simp [locked, owner]
      · simp [held, nobody, owner]
      · intro unlocked
        rw [locked] at unlocked
        cases unlocked
  | failed taken locked owner =>
      refine ⟨?_, ?_, ?_⟩
      · simp only [locked, owner, ← owned, taken]
      · simpa [owner] using held
      · intro unlocked
        rw [locked] at unlocked
        cases unlocked

theorem unlock_by_other {m : MutexInner} {thread : ThreadId} (other : m.owner ≠ some thread)
    (sched : QxkScheduler) : m.unlock thread sched = (.error .invalidOperation, m, sched) := by
  simp [MutexInner.unlock, MutexInner.enterUnlock, other]

theorem unlock_by_owner {m : MutexInner} {thread : ThreadId} (owner : m.owner = some thread)
    (sched : QxkScheduler) :
    (m.unlock thread sched).1 = .ok () ∧ (m.unlock thread sched).2.1.locked = false ∧
      (m.unlock thread sched).2.1.owner = none ∧
      ((m.unlock thread sched).2.1.waiting = [] ∨ MutexRun.wakes m thread ≠ []) := by
  unfold MutexInner.unlock MutexRun.wakes MutexInner.enterUnlock
  simp only [owner, ne_eq, not_true_eq_false, if_false]
  cases taken : m.waiting.takeHighest with
  | none => exact ⟨rfl, rfl, rfl, .inl (WaitVec.takeHighest_none taken)⟩
  | some entry => exact ⟨rfl, rfl, rfl, .inr (List.cons_ne_nil _ _)⟩

theorem MutexSound.unlock (sound : MutexSound r) (thread : ThreadId) :
    MutexSound (r.call (.unlock thread)) := by
  unfold MutexRun.call
  by_cases owner : r.mutex.owner = some thread
  · rcases unlock_by_owner owner r.sched with ⟨ok, free, nobody, passed⟩
    refine ⟨?_, ?_, ?_⟩
    · simp [free, nobody]
    · simp [ok, nobody, sound.held, owner, Except.isOk, Except.toBool]
    · intro _ listed
      rcases passed with empty | wakes
      · exact absurd empty listed
      · simp [wakes]
  · have wakes : MutexRun.wakes r.mutex thread = [] := by
      simp [MutexRun.wakes, MutexInner.enterUnlock, owner]
    simp only [unlock_by_other owner r.sched, wakes, List.append_nil]
    exact ⟨sound.owned, sound.held, sound.passed⟩

theorem mutexSound_step (r : MutexRun) (c : MutexCall) (r' : MutexRun) (sound : MutexSound r)
    (stepped : r.step c = some r') : MutexSound r' := by
  rw [← Option.some.inj stepped]
  cases c with
  | tryLock thread => exact sound.locks (tryLock_locks r.mutex thread) r.sched
  | lock thread priority => exact sound.locks (lock_locks r.mutex thread priority r.sched) _
  | unlock thread => exact sound.unlock thread

end Mutex

/-- The accounting of a semaphore and of a mutex over any sequence of calls. The count of the
semaphore is at most the wake-ups not yet retried while threads wait; if no thread waits while it is
on the list, these are wake-ups of different threads. -/
theorem accounting (initialCount maxCount : Nat) (within : initialCount ≤ maxCount)
    (sched : QxkScheduler) (calls : List SemCall) (r : SemRun)
    (ran : Lib.run SemRun.step (SemRun.init initialCount maxCount sched) calls = some r)
    (ceiling : Option Nat) (mutexCalls : List MutexCall) (m : MutexRun)
    (mutexRan : Lib.run MutexRun.step (MutexRun.init ceiling sched) mutexCalls = some m) :
    (r.sem.count ≤ maxCount ∧ r.acquired + r.sem.count = initialCount + r.signalled ∧
      (r.sem.waiting ≠ [] → r.sem.count ≤ r.woken.length) ∧
      (Lib.Along SemRun.step Fresh (SemRun.init initialCount maxCount sched) calls →
        r.woken.Nodup)) ∧
    ((m.mutex.locked = true ↔ m.mutex.owner.isSome = true) ∧ m.holders = m.mutex.owner.toList ∧
      (∀ thread, m.mutex.owner ≠ some thread →
        m.mutex.unlock thread m.sched = (.error .invalidOperation, m.mutex, m.sched)) ∧
      (m.mutex.locked = false → m.mutex.waiting ≠ [] → m.woken ≠ [])) := by
  have semStart : SemSound initialCount maxCount (SemRun.init initialCount maxCount sched) :=
    ⟨rfl, within, by simp [SemRun.init, SemaphoreInner.new],
      fun listed => absurd rfl listed⟩
  have sem := Lib.run_preserves semSound_step semStart ran
  have mutexStart : MutexSound (MutexRun.init ceiling sched) :=
    ⟨rfl, rfl, fun _ listed => absurd rfl listed⟩
  have mutex := Lib.run_preserves mutexSound_step mutexStart mutexRan
  refine ⟨⟨sem.bounded, sem.balanced, sem.covered, ?_⟩, ?_, mutex.held, ?_, mutex.passed⟩
  · intro fresh
    exact (List.nodup_append.mp (single_run fresh ran)).1
  · rw [mutex.owned]
  · intro thread other
    exact unlock_by_other other m.sched

/-- Two threads wait, one is woken; one thread locks, another waits and is woken by the unlock. -/
theorem handover_accounting :
    ∃ (r : SemRun) (m : MutexRun),
      Lib.run SemRun.step (SemRun.init 0 5 .new)
        [.wait ⟨1⟩ 5, .wait ⟨2⟩ 3, .signal] = some r ∧
      Lib.run MutexRun.step (MutexRun.init (some 4) .new)
        [.lock ⟨1⟩ 5, .lock ⟨2⟩ 3, .lock ⟨3⟩ 2, .unlock ⟨1⟩] = some m ∧
      r.sem.waiting ≠ [] ∧ r.sem.count ≤ r.woken.length ∧
      m.mutex.locked = false ∧ m.mutex.waiting ≠ [] ∧ m.woken ≠ [] := by
  refine ⟨_, _, rfl, rfl, by decide, ?_, by decide, by decide, ?_⟩
  · exact (accounting 0 5 (by decide) .new [.wait ⟨1⟩ 5, .wait ⟨2⟩ 3, .signal] _ rfl none [] _
      rfl).1.2.2.1 (by decide)
  · exact (accounting 0 5 (by decide) .new [] _ rfl (some 4)
      [.lock ⟨1⟩ 5, .lock ⟨2⟩ 3, .lock ⟨3⟩ 2, .unlock ⟨1⟩] _ rfl).2.2.2.2 (by decide) (by decide)

/-- A thread that waits twice is woken twice: the count is 2 with a thread still waiting, and one
thread has yet to retry. -/
theorem double_wait_outnumbers :
    ∃ r : SemRun, Lib.run SemRun.step (SemRun.init 0 5 .new)
        [.wait ⟨1⟩ 5, .wait ⟨1⟩ 5, .wait ⟨2⟩ 3, .signal, .signal] = some r ∧
      r.sem.waiting ≠ [] ∧ r.woken.dedup.length < r.sem.count := by
  exact ⟨_, rfl, by decide, by decide⟩

end QpRs.Qxk
