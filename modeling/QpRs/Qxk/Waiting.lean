import QpRs.Qxk.Kernel
import QpRs.Qxk.Primitives

/-! Threads that wait on the primitives of QXK while other cores and interrupts wake them, one
critical section at a time.

A context is a core or an interrupt. It polls a thread or runs other code, and it is at most in one
call of a primitive; `pc` is what the call has left to do. `blockedOn` is ghost state: the primitive
for which a thread was last taken out of the ready queue. -/

namespace QpRs.Qxk.Waiting

variable {ι τ : Type}

inductive Prim (τ : Type) where
  | semaphore (s : SemaphoreInner)
  | mutex (m : MutexInner)
  | queue (q : MessageQueueInner τ)
  | condVar (c : CondVarInner)

def Prim.waiters : Prim τ → List ThreadId
  | .semaphore s => ids s.waiting
  | .mutex m => ids m.waiting
  | .queue q => ids q.waitingReceivers ++ ids q.waitingSenders
  | .condVar c => ids c.waiting

inductive Op (τ : Type) where
  | tryWait
  | wait
  | waitTimeout
  | signal
  | tryLock (thread : ThreadId)
  | lock
  | unlock (thread : ThreadId)
  | trySend (msg : τ)
  | tryReceive
  | send (msg : τ)
  | receive
  | condWait
  | notifyOne
  | notifyAll

/-- What a call has left to do after its first critical section. -/
inductive Rest where
  | done
  | block
  | wake (woken : WaitVec)
  /-- `lock` of a mutex with a ceiling has acquired it. -/
  | raise (ceiling : Nat)
  /-- `unlock` of a mutex whose ceiling was raised. -/
  | lower (status : SchedStatus) (woken : WaitVec)
  deriving DecidableEq, Repr

def Rest.woken : Rest → WaitVec
  | .wake woken => woken
  | .lower _ woken => woken
  | _ => []

/-- The first critical section of an operation. Operations that can block are called by a thread
that is being polled, `thread`, with a priority of its choice. -/
def Prim.enter (thread : Option ThreadId) (priority : Nat) :
    Prim τ → Op τ → Option (Prim τ × Rest)
  | .semaphore s, .tryWait => some (.semaphore s.tryWait.2, .done)
  | .semaphore s, .waitTimeout => some (.semaphore s.waitTimeout.2, .done)
  | .semaphore s, .wait => thread.map fun t =>
      let (acquired, s) := s.enterWait t priority
      (.semaphore s, if acquired then .done else .block)
  | .semaphore s, .signal =>
      match s.enterSignal with
      | .error _ => some (.semaphore s, .done)
      | .ok (woken, s) => some (.semaphore s, .wake woken.toList)
  | .mutex m, .tryLock t => some (.mutex (m.tryLock t).2, .done)
  | .mutex m, .lock => thread.map fun t =>
      match m.enterLock t priority with
      | ((true, some c), m) => (.mutex m, .raise c)
      | ((true, none), m) => (.mutex m, .done)
      | ((false, _), m) => (.mutex m, .block)
  | .mutex m, .unlock t =>
      match m.enterUnlock t with
      | .error _ => some (.mutex m, .done)
      | .ok ((some status, woken), m) => some (.mutex m, .lower status woken.toList)
      | .ok ((none, woken), m) => some (.mutex m, .wake woken.toList)
  | .queue q, .trySend msg =>
      match q.enterTrySend msg with
      | .error _ => some (.queue q, .done)
      | .ok (woken, q) => some (.queue q, .wake woken.toList)
  | .queue q, .tryReceive => some (.queue q.tryReceive.2, .done)
  | .queue q, .send msg => thread.map fun t =>
      match q.enterSend msg t priority with
      | (some woken, q) => (.queue q, .wake woken.toList)
      | (none, q) => (.queue q, .block)
  | .queue q, .receive => thread.map fun t =>
      match q.enterReceive t priority with
      | (some (_, woken), q) => (.queue q, .wake woken.toList)
      | (none, q) => (.queue q, .block)
  | .condVar c, .condWait => thread.map fun t => (.condVar (c.enterWait t priority), .block)
  | .condVar c, .notifyOne => some (.condVar c.enterNotifyOne.2, .wake c.enterNotifyOne.1.toList)
  | .condVar c, .notifyAll => some (.condVar c.enterNotifyAll.2, .wake c.enterNotifyAll.1)
  | _, _ => none

inductive Pc where
  | idle
  | block (k : Nat)
  | wake (woken : WaitVec)
  | raise (k ceiling : Nat)
  | store (k : Nat) (status : SchedStatus)
  | lower (status : SchedStatus) (woken : WaitVec)
  /-- `dispatch_once` after the handler of a thread has returned `Yield`. -/
  | ready (thread : ThreadId) (priority : Nat)
  /-- `dispatch_once` after the handler of a thread has returned `Terminated`. -/
  | unready (thread : ThreadId)
  deriving DecidableEq, Repr

/-- `unblock_thread` is called for each woken thread in turn. -/
def Pc.waking : WaitVec → Pc
  | [] => .idle
  | woken => .wake woken

def Pc.ofRest (k : Nat) : Rest → Pc
  | .done => .idle
  | .block => .block k
  | .wake woken => .waking woken
  | .raise c => .raise k c
  | .lower status woken => .lower status woken

/-- The threads that the call has taken off a list and not yet unblocked. -/
def Pc.pending : Pc → List ThreadId
  | .wake woken => ids woken
  | .lower _ woken => ids woken
  | _ => []

structure Context where
  polling : Option (ThreadId × Nat)
  pc : Pc
  deriving DecidableEq, Repr

structure State (ι τ : Type) where
  sched : QxkScheduler
  prims : Nat → Prim τ
  contexts : ι → Context
  executing : ThreadId → Bool
  terminated : ThreadId → Bool
  blockedOn : ThreadId → Option Nat

inductive Label (ι τ : Type) where
  /-- `dispatch_once` of a core polls a thread that `plan_next` has found. -/
  | poll (i : ι) (thread : ThreadId) (priority : Nat)
  | call (i : ι) (k : Nat) (op : Op τ) (priority : Nat)
  /-- The next critical section of the call that the context is in. -/
  | go (i : ι)
  | ret (i : ι) (action : ThreadAction)

namespace State

/-- After `start`: every registered thread is ready. -/
def init (configs : List ThreadConfig) (prims : Nat → Prim τ) : State ι τ where
  sched := configs.foldl (fun s c => s.markThreadReady c.id c.priority) .new
  prims := prims
  contexts := fun _ => ⟨none, .idle⟩
  executing := fun _ => false
  terminated := fun _ => false
  blockedOn := fun _ => none

variable [DecidableEq ι] (s : State ι τ)

def setContext (i : ι) (c : Context) : State ι τ :=
  { s with contexts := Function.update s.contexts i c }

def setPc (i : ι) (pc : Pc) : State ι τ :=
  s.setContext i ⟨(s.contexts i).polling, pc⟩

def block (thread : ThreadId) (k : Nat) : State ι τ :=
  { s with
    sched := s.sched.blockThread thread
    blockedOn := Function.update s.blockedOn thread (some k) }

def poll (i : ι) (thread : ThreadId) (priority : Nat) : Option (State ι τ) :=
  if s.contexts i = ⟨none, .idle⟩ ∧ (thread, priority) ∈ s.sched.threadReady ∧
      s.executing thread = false then
    if s.terminated thread then some (s.setContext i ⟨none, .unready thread⟩)
    else
      some { s.setContext i ⟨some (thread, priority), .idle⟩ with
        executing := Function.update s.executing thread true }
  else none

def call (i : ι) (k : Nat) (op : Op τ) (priority : Nat) : Option (State ι τ) :=
  if (s.contexts i).pc = .idle then
    ((s.prims k).enter ((s.contexts i).polling.map Prod.fst) priority op).map fun (p, rest) =>
      { s with prims := Function.update s.prims k p }.setPc i (.ofRest k rest)
  else none

def go (i : ι) : Option (State ι τ) :=
  match (s.contexts i).pc with
  | .idle => none
  | .block k => (s.contexts i).polling.map fun (thread, _) => (s.block thread k).setPc i .idle
  | .wake [] => some (s.setPc i .idle)
  | .wake (w :: rest) =>
      some ({ s with sched := s.sched.unblockThread w.id w.priority }.setPc i (.waking rest))
  | .raise k c =>
      some ({ s with sched := (s.sched.lock c).2 }.setPc i (.store k (s.sched.lock c).1))
  | .store k status =>
      match s.prims k with
      | .mutex m =>
          some ({ s with
            prims := Function.update s.prims k (.mutex (m.storeStatus status)) }.setPc i .idle)
      | _ => none
  | .lower status woken =>
      some ({ s with sched := s.sched.unlock status }.setPc i (.waking woken))
  | .ready thread priority =>
      some ({ s with sched := s.sched.markThreadReady thread priority }.setPc i .idle)
  | .unready thread =>
      some ({ s with sched := s.sched.markThreadNotReady thread }.setPc i .idle)

def ret (i : ι) (action : ThreadAction) : Option (State ι τ) :=
  match s.contexts i with
  | ⟨some (thread, priority), .idle⟩ =>
      let s := { s with executing := Function.update s.executing thread false }
      match action with
      | .continue | .blocked => some (s.setContext i ⟨none, .idle⟩)
      | .yield => some (s.setContext i ⟨none, .ready thread priority⟩)
      | .terminated =>
          some { s.setContext i ⟨none, .unready thread⟩ with
            terminated := Function.update s.terminated thread true }
  | _ => none

def step (s : State ι τ) : Label ι τ → Option (State ι τ)
  | .poll i thread priority => s.poll i thread priority
  | .call i k op priority => s.call i k op priority
  | .go i => s.go i
  | .ret i action => s.ret i action

end State

def WakePending (s : State ι τ) (t : ThreadId) : Prop := ∃ i, t ∈ (s.contexts i).pc.pending

/-- A thread is ready, or on the list of the primitive it blocked on, or about to be unblocked. -/
def Accounted (s : State ι τ) (t : ThreadId) : Prop :=
  s.sched.threadReady.Holds t ∨ WakePending s t ∨
    ∃ k, s.blockedOn t = some k ∧ t ∈ (s.prims k).waiters

/-- A thread is taken out of the ready queue while it is still on the list of the primitive, or
while the call that took it off the list has yet to unblock it. -/
def StillWaiting (s : State ι τ) : Label ι τ → Prop
  | .go i => ∀ k thread priority, (s.contexts i).pc = .block k →
      (s.contexts i).polling = some (thread, priority) →
      thread ∈ (s.prims k).waiters ∨ WakePending s thread
  | _ => True

section Enter

variable {t : ThreadId}

theorem tryWait_waiting (s : SemaphoreInner) : s.tryWait.2.waiting = s.waiting := by
  unfold SemaphoreInner.tryWait
  split <;> rfl

theorem waitTimeout_waiting (s : SemaphoreInner) : s.waitTimeout.2.waiting = s.waiting := by
  have tried := tryWait_waiting s
  unfold SemaphoreInner.waitTimeout
  split
  · rename_i same
    rw [same] at tried
    exact tried
  · rename_i same
    rw [same] at tried
    exact tried

theorem enterWait_listed (s : SemaphoreInner) (thread : ThreadId) (priority : Nat)
    (listed : t ∈ ids s.waiting) : t ∈ ids (s.enterWait thread priority).2.waiting := by
  unfold SemaphoreInner.enterWait
  split
  · exact listed
  · exact ids_push _ listed

theorem enterSignal_listed {s s' : SemaphoreInner} {woken : Option WaitingThread}
    (signalled : s.enterSignal = .ok (woken, s')) (listed : t ∈ ids s.waiting) :
    t ∈ ids s'.waiting ∨ t ∈ ids woken.toList := by
  unfold SemaphoreInner.enterSignal at signalled
  split at signalled
  · cases signalled
  · split at signalled
    · rename_i taken
      cases signalled
      exact ids_takeHighest taken listed
    · cases signalled
      exact .inl listed

theorem tryLock_waiting (m : MutexInner) (thread : ThreadId) :
    (m.tryLock thread).2.waiting = m.waiting := by
  unfold MutexInner.tryLock
  split <;> rfl

theorem enterLock_listed (m : MutexInner) (thread : ThreadId) (priority : Nat)
    (listed : t ∈ ids m.waiting) : t ∈ ids (m.enterLock thread priority).2.waiting := by
  unfold MutexInner.enterLock
  split
  · exact listed
  · exact ids_push _ listed

theorem enterUnlock_listed {m m' : MutexInner} {thread : ThreadId} {status : Option SchedStatus}
    {woken : Option WaitingThread} (unlocked : m.enterUnlock thread = .ok ((status, woken), m'))
    (listed : t ∈ ids m.waiting) : t ∈ ids m'.waiting ∨ t ∈ ids woken.toList := by
  unfold MutexInner.enterUnlock at unlocked
  split at unlocked
  · cases unlocked
  · simp only at unlocked
    split at unlocked
    · rename_i taken
      cases unlocked
      exact ids_takeHighest taken listed
    · cases unlocked
      exact .inl listed

/-- A thread on either list of a message queue. -/
def Queued (q : MessageQueueInner τ) (t : ThreadId) : Prop :=
  t ∈ ids q.waitingReceivers ∨ t ∈ ids q.waitingSenders

theorem wakeReceiver_listed {q : MessageQueueInner τ} (listed : Queued q t) :
    Queued q.wakeReceiver.2 t ∨ t ∈ ids q.wakeReceiver.1.toList := by
  unfold MessageQueueInner.wakeReceiver
  split
  · rename_i taken
    rcases listed with receiver | sender
    · exact (ids_takeHighest taken receiver).imp .inl id
    · exact .inl (.inr sender)
  · exact .inl listed

theorem wakeSender_listed {q : MessageQueueInner τ} (listed : Queued q t) :
    Queued q.wakeSender.2 t ∨ t ∈ ids q.wakeSender.1.toList := by
  unfold MessageQueueInner.wakeSender
  split
  · rename_i taken
    rcases listed with receiver | sender
    · exact .inl (.inl receiver)
    · exact (ids_takeHighest taken sender).imp .inr id
  · exact .inl listed

theorem tryPush_listed {q q' : MessageQueueInner τ} {msg : τ} (pushed : q.tryPush msg = some q')
    (listed : Queued q t) : Queued q' t := by
  unfold MessageQueueInner.tryPush at pushed
  split at pushed
  · cases pushed
  · cases pushed
    exact listed

theorem enterTrySend_listed {q q' : MessageQueueInner τ} {msg : τ} {woken : Option WaitingThread}
    (sent : q.enterTrySend msg = .ok (woken, q')) (listed : Queued q t) :
    Queued q' t ∨ t ∈ ids woken.toList := by
  unfold MessageQueueInner.enterTrySend at sent
  split at sent
  · rename_i pushed
    have kept := wakeReceiver_listed (tryPush_listed pushed listed)
    rw [Except.ok.inj sent] at kept
    exact kept
  · cases sent

theorem tryReceive_listed (q : MessageQueueInner τ) (listed : Queued q t) :
    Queued q.tryReceive.2 t := by
  unfold MessageQueueInner.tryReceive
  split <;> exact listed

theorem enterSend_listed (q : MessageQueueInner τ) (msg : τ) (thread : ThreadId) (priority : Nat)
    (listed : Queued q t) : Queued (q.enterSend msg thread priority).2 t ∨
      ∃ woken, (q.enterSend msg thread priority).1 = some woken ∧ t ∈ ids woken.toList := by
  unfold MessageQueueInner.enterSend
  split
  · rename_i pushed
    rcases wakeReceiver_listed (tryPush_listed pushed listed) with stays | taken
    · exact .inl stays
    · exact .inr ⟨_, rfl, taken⟩
  · exact .inl (listed.imp id (ids_push _))

theorem enterReceive_listed (q : MessageQueueInner τ) (thread : ThreadId) (priority : Nat)
    (listed : Queued q t) : Queued (q.enterReceive thread priority).2 t ∨
      ∃ msg woken, (q.enterReceive thread priority).1 = some (msg, woken) ∧
        t ∈ ids woken.toList := by
  unfold MessageQueueInner.enterReceive
  split
  · rename_i msg rest _
    have popped : Queued { q with queue := rest } t := listed
    rcases wakeSender_listed popped with stays | taken
    · exact .inl stays
    · exact .inr ⟨msg, _, rfl, taken⟩
  · exact .inl (listed.imp (ids_push _) id)

theorem enterNotifyOne_listed (c : CondVarInner) (listed : t ∈ ids c.waiting) :
    t ∈ ids c.enterNotifyOne.2.waiting ∨ t ∈ ids c.enterNotifyOne.1.toList := by
  unfold CondVarInner.enterNotifyOne
  split
  · rename_i taken
    exact ids_takeHighest taken listed
  · exact .inl listed

theorem mem_waiters_queue (q : MessageQueueInner τ) : t ∈ (Prim.queue q).waiters ↔ Queued q t :=
  List.mem_append

theorem semaphore_listed {s : SemaphoreInner} {thread : Option ThreadId} {priority : Nat}
    {op : Op τ} {p : Prim τ} {rest : Rest}
    (entered : Prim.enter thread priority (.semaphore s) op = some (p, rest))
    (listed : t ∈ ids s.waiting) : t ∈ p.waiters ∨ t ∈ ids rest.woken := by
  cases op with
  | tryWait =>
      cases entered
      simp only [Prim.waiters, tryWait_waiting]
      exact .inl listed
  | waitTimeout =>
      cases entered
      simp only [Prim.waiters, waitTimeout_waiting]
      exact .inl listed
  | wait =>
      rcases Option.map_eq_some_iff.mp entered with ⟨caller, -, same⟩
      cases same
      exact .inl (enterWait_listed s caller priority listed)
  | signal =>
      simp only [Prim.enter] at entered
      split at entered
      · cases entered
        exact .inl listed
      · rename_i signalled
        cases entered
        exact enterSignal_listed signalled listed
  | _ => cases entered

theorem mutex_listed {m : MutexInner} {thread : Option ThreadId} {priority : Nat}
    {op : Op τ} {p : Prim τ} {rest : Rest}
    (entered : Prim.enter thread priority (.mutex m) op = some (p, rest))
    (listed : t ∈ ids m.waiting) : t ∈ p.waiters ∨ t ∈ ids rest.woken := by
  cases op with
  | tryLock caller =>
      cases entered
      simp only [Prim.waiters, tryLock_waiting]
      exact .inl listed
  | lock =>
      rcases Option.map_eq_some_iff.mp entered with ⟨caller, -, same⟩
      have kept := enterLock_listed m caller priority listed
      split at same
      all_goals
        rename_i locked
        cases same
        rw [locked] at kept
        exact .inl kept
  | unlock caller =>
      simp only [Prim.enter] at entered
      split at entered
      · cases entered
        exact .inl listed
      · rename_i unlocked
        cases entered
        exact enterUnlock_listed unlocked listed
      · rename_i unlocked
        cases entered
        exact enterUnlock_listed unlocked listed
  | _ => cases entered

theorem queue_listed {q : MessageQueueInner τ} {thread : Option ThreadId} {priority : Nat}
    {op : Op τ} {p : Prim τ} {rest : Rest}
    (entered : Prim.enter thread priority (.queue q) op = some (p, rest))
    (listed : Queued q t) : t ∈ p.waiters ∨ t ∈ ids rest.woken := by
  cases op with
  | trySend msg =>
      simp only [Prim.enter] at entered
      split at entered
      · cases entered
        exact .inl ((mem_waiters_queue q).mpr listed)
      · rename_i sent
        cases entered
        exact (enterTrySend_listed sent listed).imp (mem_waiters_queue _).mpr id
  | tryReceive =>
      cases entered
      exact .inl ((mem_waiters_queue _).mpr (tryReceive_listed q listed))
  | send msg =>
      rcases Option.map_eq_some_iff.mp entered with ⟨caller, -, same⟩
      have kept := enterSend_listed q msg caller priority listed
      split at same
      · rename_i sent
        cases same
        rw [sent] at kept
        rcases kept with stays | ⟨woken, same, taken⟩
        · exact .inl ((mem_waiters_queue _).mpr stays)
        · cases same
          exact .inr taken
      · rename_i sent
        cases same
        rw [sent] at kept
        rcases kept with stays | ⟨woken, same, taken⟩
        · exact .inl ((mem_waiters_queue _).mpr stays)
        · cases same
  | receive =>
      rcases Option.map_eq_some_iff.mp entered with ⟨caller, -, same⟩
      have kept := enterReceive_listed q caller priority listed
      split at same
      · rename_i received
        cases same
        rw [received] at kept
        rcases kept with stays | ⟨msg, woken, same, taken⟩
        · exact .inl ((mem_waiters_queue _).mpr stays)
        · cases same
          exact .inr taken
      · rename_i received
        cases same
        rw [received] at kept
        rcases kept with stays | ⟨msg, woken, same, taken⟩
        · exact .inl ((mem_waiters_queue _).mpr stays)
        · cases same
  | _ => cases entered

theorem condVar_listed {c : CondVarInner} {thread : Option ThreadId} {priority : Nat}
    {op : Op τ} {p : Prim τ} {rest : Rest}
    (entered : Prim.enter thread priority (.condVar c) op = some (p, rest))
    (listed : t ∈ ids c.waiting) : t ∈ p.waiters ∨ t ∈ ids rest.woken := by
  cases op with
  | condWait =>
      rcases Option.map_eq_some_iff.mp entered with ⟨caller, -, same⟩
      cases same
      exact .inl (ids_push _ listed)
  | notifyOne =>
      cases entered
      exact enterNotifyOne_listed c listed
  | notifyAll =>
      cases entered
      exact .inr listed
  | _ => cases entered

/-- A critical section takes a thread off a list only to wake it. -/
theorem enter_listed {p p' : Prim τ} {thread : Option ThreadId} {priority : Nat} {op : Op τ}
    {rest : Rest} (entered : p.enter thread priority op = some (p', rest))
    (listed : t ∈ p.waiters) : t ∈ p'.waiters ∨ t ∈ ids rest.woken := by
  cases p with
  | semaphore s => exact semaphore_listed entered listed
  | mutex m => exact mutex_listed entered listed
  | queue q => exact queue_listed entered ((mem_waiters_queue q).mp listed)
  | condVar c => exact condVar_listed entered listed

end Enter

section Steps

variable [DecidableEq ι] {s s' : State ι τ} {i : ι} {t : ThreadId}

theorem pending_waking (woken : WaitVec) : (Pc.waking woken).pending = ids woken := by
  cases woken <;> rfl

theorem pending_ofRest (k : Nat) (rest : Rest) : (Pc.ofRest k rest).pending = ids rest.woken := by
  cases rest with
  | wake woken => exact pending_waking woken
  | _ => rfl

theorem WakePending.setContext {c : Context} (pending : WakePending s t)
    (kept : t ∈ (s.contexts i).pc.pending → t ∈ c.pc.pending) :
    WakePending (s.setContext i c) t := by
  rcases pending with ⟨j, member⟩
  refine ⟨j, ?_⟩
  by_cases here : j = i
  · subst here
    simpa [State.setContext] using kept member
  · simpa [State.setContext, here] using member

theorem wakePending_here {c : Context} (member : t ∈ c.pc.pending) :
    WakePending (s.setContext i c) t :=
  ⟨i, by simpa [State.setContext] using member⟩

theorem Accounted.setContext {c : Context} (accounted : Accounted s t)
    (kept : t ∈ (s.contexts i).pc.pending → t ∈ c.pc.pending) :
    Accounted (s.setContext i c) t := by
  rcases accounted with ready | pending | listed
  · exact .inl ready
  · exact .inr (.inl (pending.setContext kept))
  · exact .inr (.inr listed)

/-- The thread that blocks is accounted for after `block_thread` exactly when it is still
waiting. -/
theorem block_accounted_iff {k priority : Nat} {thread : ThreadId}
    (pc : (s.contexts i).pc = .block k)
    (polling : (s.contexts i).polling = some (thread, priority))
    (stepped : s.go i = some s') :
    Accounted s' thread ↔ thread ∈ (s.prims k).waiters ∨ WakePending s thread := by
  simp only [State.go, pc, polling, Option.map_some, Option.some.injEq] at stepped
  subst stepped
  have pending : WakePending ((s.block thread k).setPc i .idle) thread ↔ WakePending s thread := by
    constructor
    · rintro ⟨j, member⟩
      by_cases here : j = i
      · subst here
        simp [State.setPc, State.setContext, Pc.pending] at member
      · exact ⟨j, by simpa [State.setPc, State.setContext, State.block, here] using member⟩
    · intro before
      apply WakePending.setContext (s := s.block thread k) before
      simp [State.block, pc, Pc.pending]
  unfold Accounted
  rw [pending]
  simp only [State.setPc, State.setContext, State.block, QxkScheduler.blockThread,
    ThreadReadyQueue.holds_remove, ne_eq, not_true_eq_false, false_and, false_or,
    Function.update_self, Option.some.injEq]
  constructor
  · rintro (wake | ⟨k', rfl, listed⟩)
    · exact .inr wake
    · exact .inl listed
  · rintro (listed | wake)
    · exact .inr ⟨k, rfl, listed⟩
    · exact .inl wake

omit [DecidableEq ι] in
theorem Accounted.block {thread : ThreadId} (accounted : Accounted s t) (k : Nat)
    (other : t ≠ thread) : Accounted (s.block thread k) t := by
  rcases accounted with ready | pending | ⟨k', blocked, listed⟩
  · exact .inl ((ThreadReadyQueue.holds_remove _ _ _).mpr ⟨other, ready⟩)
  · exact .inr (.inl pending)
  · exact .inr (.inr ⟨k', by simpa [State.block, other] using blocked, listed⟩)

theorem Accounted.schedule (accounted : Accounted s t) (sched : QxkScheduler) (pc : Pc)
    (ready : s.sched.threadReady.Holds t → sched.threadReady.Holds t)
    (kept : t ∈ (s.contexts i).pc.pending → t ∈ pc.pending) :
    Accounted (State.setPc { s with sched := sched } i pc) t := by
  have same : Accounted { s with sched := sched } t := by
    rcases accounted with before | pending | listed
    · exact .inl (ready before)
    · exact .inr (.inl pending)
    · exact .inr (.inr listed)
  exact same.setContext kept

omit [DecidableEq ι] in
theorem Accounted.storeStatus {k : Nat} {m : MutexInner} (accounted : Accounted s t)
    (prim : s.prims k = .mutex m) (status : SchedStatus) :
    Accounted { s with prims := Function.update s.prims k (.mutex (m.storeStatus status)) } t := by
  rcases accounted with ready | pending | ⟨k', blocked, listed⟩
  · exact .inl ready
  · exact .inr (.inl pending)
  · refine .inr (.inr ⟨k', blocked, ?_⟩)
    by_cases here : k' = k
    · subst here
      rw [prim] at listed
      simp only [Function.update_self]
      exact listed
    · simpa [here] using listed

theorem accounted_unblock {w : WaitingThread} {rest : WaitVec} (accounted : Accounted s t)
    (pc : (s.contexts i).pc = .wake (w :: rest)) :
    Accounted (State.setPc { s with sched := s.sched.unblockThread w.id w.priority } i
      (.waking rest)) t := by
  have held := ThreadReadyQueue.holds_insert s.sched.threadReady w.id w.priority t
  by_cases here : t = w.id
  · exact .inl (held.mpr (.inl here))
  · apply accounted.schedule _ _ fun ready => held.mpr (.inr ready)
    intro pending
    rw [pending_waking]
    simpa [pc, Pc.pending, ids, here] using pending

theorem lock_threadReady (sched : QxkScheduler) (ceiling : Nat) :
    (sched.lock ceiling).2.threadReady = sched.threadReady := by
  unfold QxkScheduler.lock
  split <;> rfl

theorem unlock_threadReady (sched : QxkScheduler) (status : SchedStatus) :
    (sched.unlock status).threadReady = sched.threadReady := by
  unfold QxkScheduler.unlock
  split
  · split <;> rfl
  · rfl

theorem accounted_go (accounted : Accounted s t) (stepped : s.go i = some s')
    (waiting : ∀ k thread priority, (s.contexts i).pc = .block k →
      (s.contexts i).polling = some (thread, priority) →
      thread ∈ (s.prims k).waiters ∨ WakePending s thread)
    (alive : (s.contexts i).pc ≠ .unready t) : Accounted s' t := by
  unfold State.go at stepped
  cases pc : (s.contexts i).pc with
  | idle => simp [pc] at stepped
  | block k =>
      cases polling : (s.contexts i).polling with
      | none => simp [pc, polling] at stepped
      | some polled =>
          rcases polled with ⟨thread, priority⟩
          by_cases here : t = thread
          · subst here
            exact (block_accounted_iff pc polling stepped).mpr (waiting k t priority pc polling)
          · simp only [pc, polling, Option.map_some, Option.some.injEq] at stepped
            subst stepped
            apply (accounted.block k here).setContext
            simp [State.block, pc, Pc.pending]
  | wake woken =>
      cases woken with
      | nil =>
          simp only [pc, Option.some.injEq] at stepped
          subst stepped
          apply accounted.setContext
          simp [pc, Pc.pending, ids]
      | cons w rest =>
          simp only [pc, Option.some.injEq] at stepped
          subst stepped
          exact accounted_unblock accounted pc
  | raise k c =>
      simp only [pc, Option.some.injEq] at stepped
      subst stepped
      apply accounted.schedule
      · rw [lock_threadReady]
        exact id
      · simp [pc, Pc.pending]
  | store k status =>
      simp only [pc] at stepped
      cases prim : s.prims k with
      | mutex m =>
          simp only [prim, Option.some.injEq] at stepped
          subst stepped
          apply (accounted.storeStatus prim status).setContext
          simp [pc, Pc.pending]
      | _ => simp [prim] at stepped
  | lower status woken =>
      simp only [pc, Option.some.injEq] at stepped
      subst stepped
      apply accounted.schedule
      · rw [unlock_threadReady]
        exact id
      · rw [pending_waking]
        simp [pc, Pc.pending]
  | ready thread priority =>
      simp only [pc, Option.some.injEq] at stepped
      subst stepped
      apply accounted.schedule
      · intro ready
        exact (ThreadReadyQueue.holds_insert _ _ _ _).mpr (.inr ready)
      · simp [pc, Pc.pending]
  | unready thread =>
      simp only [pc, Option.some.injEq] at stepped
      subst stepped
      have other : t ≠ thread := by
        rintro rfl
        exact alive pc
      apply accounted.schedule
      · intro ready
        exact (ThreadReadyQueue.holds_remove _ _ _).mpr ⟨other, ready⟩
      · simp [pc, Pc.pending]

theorem accounted_call {k priority : Nat} {op : Op τ} (accounted : Accounted s t)
    (stepped : s.call i k op priority = some s') : Accounted s' t := by
  unfold State.call at stepped
  split at stepped
  · rename_i pc
    rcases Option.map_eq_some_iff.mp stepped with ⟨⟨p, rest⟩, entered, rfl⟩
    have idle : t ∈ (s.contexts i).pc.pending → t ∈ (Pc.ofRest k rest).pending := by
      simp [pc, Pc.pending]
    rcases accounted with ready | pending | ⟨k', blocked, listed⟩
    · exact .inl ready
    · exact .inr (.inl (pending.setContext idle))
    · by_cases here : k' = k
      · subst here
        rcases enter_listed entered listed with stays | taken
        · refine .inr (.inr ⟨k', blocked, ?_⟩)
          simpa [State.setPc, State.setContext] using stays
        · exact .inr (.inl (wakePending_here (by rw [pending_ofRest]; exact taken)))
      · refine .inr (.inr ⟨k', blocked, ?_⟩)
        simpa [State.setPc, State.setContext, here] using listed
  · cases stepped

theorem accounted_poll {thread : ThreadId} {priority : Nat} (accounted : Accounted s t)
    (stepped : s.poll i thread priority = some s') : Accounted s' t := by
  unfold State.poll at stepped
  split at stepped
  · rename_i guard
    have idle : (s.contexts i).pc.pending = [] := by simp [guard.1, Pc.pending]
    split at stepped
    · cases stepped
      apply accounted.setContext
      simp [idle]
    · cases stepped
      have moved := accounted.setContext (i := i) (c := ⟨some (thread, priority), .idle⟩)
      apply moved
      simp [idle]
  · cases stepped

theorem accounted_ret {action : ThreadAction} (accounted : Accounted s t)
    (stepped : s.ret i action = some s') : Accounted s' t := by
  unfold State.ret at stepped
  split at stepped
  · rename_i thread priority context
    have moved (c : Context) : Accounted (s.setContext i c) t := by
      apply accounted.setContext
      simp [context, Pc.pending]
    cases action with
    | terminated =>
        cases stepped
        exact moved ⟨none, .unready thread⟩
    | yield =>
        cases stepped
        exact moved ⟨none, .ready thread priority⟩
    | _ =>
        cases stepped
        exact moved ⟨none, .idle⟩
  · cases stepped

end Steps

def Ended (s : State ι τ) : Prop :=
  ∀ i thread, (s.contexts i).pc = .unready thread → s.terminated thread = true

section Ends

variable [DecidableEq ι] {s s' : State ι τ} {i : ι}

theorem Ended.setContext (ended : Ended s) {c : Context}
    (known : ∀ thread, c.pc = .unready thread → s.terminated thread = true) :
    Ended (s.setContext i c) := by
  intro j thread pc
  by_cases here : j = i
  · subst here
    simp only [State.setContext, Function.update_self] at pc
    exact known thread pc
  · simp only [State.setContext, Function.update_of_ne here] at pc
    exact ended j thread pc

theorem waking_not_unready (woken : WaitVec) (thread : ThreadId) :
    Pc.waking woken ≠ .unready thread := by
  cases woken <;> simp [Pc.waking]

theorem ended_go (ended : Ended s) (stepped : s.go i = some s') :
    Ended s' ∧ s'.terminated = s.terminated := by
  have moved (pc : Pc) (other : ∀ thread, pc ≠ .unready thread) : Ended (s.setPc i pc) :=
    ended.setContext fun thread same => absurd same (other thread)
  unfold State.go at stepped
  cases pc : (s.contexts i).pc with
  | idle => simp [pc] at stepped
  | block k =>
      simp only [pc] at stepped
      rcases Option.map_eq_some_iff.mp stepped with ⟨polled, -, rfl⟩
      exact ⟨moved .idle (by simp), rfl⟩
  | wake woken =>
      cases woken with
      | nil =>
          simp only [pc, Option.some.injEq] at stepped
          subst stepped
          exact ⟨moved .idle (by simp), rfl⟩
      | cons w rest =>
          simp only [pc, Option.some.injEq] at stepped
          subst stepped
          exact ⟨moved _ (waking_not_unready rest), rfl⟩
  | raise k c =>
      simp only [pc, Option.some.injEq] at stepped
      subst stepped
      exact ⟨moved (.store k (s.sched.lock c).1) (by simp), rfl⟩
  | store k status =>
      simp only [pc] at stepped
      split at stepped
      · cases stepped
        exact ⟨moved .idle (by simp), rfl⟩
      · cases stepped
  | lower status woken =>
      simp only [pc, Option.some.injEq] at stepped
      subst stepped
      exact ⟨moved _ (waking_not_unready woken), rfl⟩
  | ready thread priority =>
      simp only [pc, Option.some.injEq] at stepped
      subst stepped
      exact ⟨moved .idle (by simp), rfl⟩
  | unready thread =>
      simp only [pc, Option.some.injEq] at stepped
      subst stepped
      exact ⟨moved .idle (by simp), rfl⟩

theorem ended_call {k priority : Nat} {op : Op τ} (ended : Ended s)
    (stepped : s.call i k op priority = some s') :
    Ended s' ∧ s'.terminated = s.terminated := by
  unfold State.call at stepped
  split at stepped
  · rcases Option.map_eq_some_iff.mp stepped with ⟨⟨p, rest⟩, -, rfl⟩
    refine ⟨?_, rfl⟩
    apply Ended.setContext ended
    intro thread pc
    cases rest with
    | wake woken => exact absurd pc (waking_not_unready woken thread)
    | _ => cases pc
  · cases stepped

theorem ended_poll {thread : ThreadId} {priority : Nat} (ended : Ended s)
    (stepped : s.poll i thread priority = some s') :
    Ended s' ∧ s'.terminated = s.terminated := by
  unfold State.poll at stepped
  split at stepped
  · split at stepped
    · rename_i gone
      cases stepped
      refine ⟨ended.setContext ?_, rfl⟩
      intro other pc
      cases pc
      exact gone
    · cases stepped
      have moved := ended.setContext (i := i) (c := ⟨some (thread, priority), .idle⟩)
      refine ⟨moved ?_, rfl⟩
      intro other pc
      cases pc
  · cases stepped

theorem ended_ret {action : ThreadAction} (ended : Ended s)
    (stepped : s.ret i action = some s') :
    Ended s' ∧ ∀ t, s'.terminated t = false → s.terminated t = false := by
  unfold State.ret at stepped
  split at stepped
  · rename_i thread priority context
    cases action with
    | terminated =>
        cases stepped
        constructor
        · intro j other pc
          by_cases same : other = thread
          · simp [same]
          · simp only [Function.update_of_ne same]
            by_cases here : j = i
            · subst here
              simp only [State.setContext, Function.update_self, Pc.unready.injEq] at pc
              exact absurd pc.symm same
            · simp only [State.setContext, Function.update_of_ne here] at pc
              exact ended j other pc
        · intro t alive
          by_cases same : t = thread
          · simp [same] at alive
          · simpa [same] using alive
    | yield =>
        cases stepped
        refine ⟨Ended.setContext ended ?_, fun t alive => alive⟩
        intro other pc
        cases pc
    | _ =>
        cases stepped
        refine ⟨Ended.setContext ended ?_, fun t alive => alive⟩
        intro other pc
        cases pc
  · cases stepped

end Ends

/-- Every thread that lives is accounted for. -/
structure Inv (registered : List ThreadId) (s : State ι τ) : Prop where
  accounted : ∀ t ∈ registered, s.terminated t = false → Accounted s t
  ended : Ended s

theorem inv_step [DecidableEq ι] (registered : List ThreadId) (s : State ι τ) (l : Label ι τ)
    (s' : State ι τ) (inv : Inv registered s) (waiting : StillWaiting s l)
    (stepped : s.step l = some s') : Inv registered s' := by
  cases l with
  | poll i thread priority =>
      rcases ended_poll inv.ended stepped with ⟨ended, same⟩
      refine ⟨?_, ended⟩
      intro t member alive
      rw [same] at alive
      exact accounted_poll (inv.accounted t member alive) stepped
  | call i k op priority =>
      rcases ended_call inv.ended stepped with ⟨ended, same⟩
      refine ⟨?_, ended⟩
      intro t member alive
      rw [same] at alive
      exact accounted_call (inv.accounted t member alive) stepped
  | go i =>
      rcases ended_go inv.ended stepped with ⟨ended, same⟩
      refine ⟨?_, ended⟩
      intro t member alive
      rw [same] at alive
      apply accounted_go (inv.accounted t member alive) stepped waiting
      intro gone
      have dead := inv.ended i t gone
      rw [alive] at dead
      cases dead
  | ret i action =>
      rcases ended_ret inv.ended stepped with ⟨ended, before⟩
      refine ⟨?_, ended⟩
      intro t member alive
      exact accounted_ret (inv.accounted t member (before t alive)) stepped

theorem start_ready (configs : List ThreadConfig) (sched : QxkScheduler) (t : ThreadId)
    (known : t ∈ configs.map ThreadConfig.id ∨ sched.threadReady.Holds t) :
    (configs.foldl (fun s c => s.markThreadReady c.id c.priority) sched).threadReady.Holds t := by
  induction configs generalizing sched with
  | nil => simpa using known
  | cons c rest ih =>
      apply ih
      have inserted := ThreadReadyQueue.holds_insert sched.threadReady c.id c.priority t
      rcases known with member | before
      · rcases List.mem_cons.mp member with same | later
        · exact .inr (inserted.mpr (.inl same))
        · exact .inl later
      · exact .inr (inserted.mpr (.inr before))

theorem inv_init (configs : List ThreadConfig) (prims : Nat → Prim τ) :
    Inv (configs.map ThreadConfig.id) (State.init configs prims : State ι τ) where
  accounted := by
    intro t member _
    exact .inl (start_ready configs .new t (.inl member))
  ended := by
    intro i thread pc
    cases pc

/-- No stranded thread, in every run in which each thread that blocks is still waiting: whenever no
context is in a call, every registered thread that has not terminated is in the ready queue or on
the list of the primitive it blocked on. -/
theorem no_stranded_thread [DecidableEq ι] (configs : List ThreadConfig) (prims : Nat → Prim τ)
    (labels : List (Label ι τ)) (s : State ι τ)
    (waiting : Lib.Along State.step StillWaiting (State.init configs prims) labels)
    (ran : Lib.run State.step (State.init configs prims) labels = some s)
    (quiet : ∀ i, (s.contexts i).pc = .idle) :
    ∀ t ∈ configs.map ThreadConfig.id, s.terminated t = false →
      s.sched.threadReady.Holds t ∨ ∃ k, s.blockedOn t = some k ∧ t ∈ (s.prims k).waiters := by
  intro t member alive
  have inv := Lib.along_preserves (inv_step (configs.map ThreadConfig.id))
    (inv_init configs prims) waiting ran
  rcases inv.accounted t member alive with ready | ⟨i, pending⟩ | listed
  · exact .inl ready
  · rw [quiet i] at pending
    cases pending
  · exact .inr listed

def oneThread : List ThreadConfig := [⟨⟨1⟩, 5⟩]

def closedSemaphore : Nat → Prim Unit := fun _ => .semaphore (.new 0 1)

/-- The thread waits; another core signals before the thread is taken out of the ready queue, and
wakes it after that. The thread acquires, waits again and blocks, while the other core signals a
semaphore on which nobody waits. -/
def waits : List (Label Bool Unit) :=
  [.poll true ⟨1⟩ 5, .call true 0 .wait 5, .call false 0 .signal 0, .go true, .go false,
    .ret true .blocked, .poll true ⟨1⟩ 5, .call true 0 .wait 5, .call true 0 .wait 5, .go true,
    .call false 1 .signal 0, .ret true .blocked]

theorem waits_not_stranded :
    ∃ s : State Bool Unit,
      Lib.run State.step (State.init oneThread closedSemaphore) waits = some s ∧
      ¬ s.sched.threadReady.Holds ⟨1⟩ ∧
      (s.sched.threadReady.Holds ⟨1⟩ ∨
        ∃ k, s.blockedOn ⟨1⟩ = some k ∧ ⟨1⟩ ∈ (s.prims k).waiters) := by
  have waiting : Lib.Along State.step StillWaiting
      (State.init oneThread closedSemaphore : State Bool Unit) waits := by
    refine Lib.along_cons rfl trivial (Lib.along_cons rfl trivial (Lib.along_cons rfl trivial
      (Lib.along_cons rfl ?_ (Lib.along_cons rfl ?_ (Lib.along_cons rfl trivial
      (Lib.along_cons rfl trivial (Lib.along_cons rfl trivial (Lib.along_cons rfl trivial
      (Lib.along_cons rfl ?_ (Lib.along_cons rfl trivial (Lib.along_cons rfl trivial
      trivial)))))))))))
    · intro k thread priority pc polling
      cases pc
      cases polling
      exact .inr ⟨false, by decide⟩
    · intro k thread priority pc polling
      cases pc
    · intro k thread priority pc polling
      cases pc
      cases polling
      exact .inl (by decide)
  refine ⟨_, rfl, by decide, ?_⟩
  refine no_stranded_thread oneThread closedSemaphore waits _ waiting rfl ?_ ⟨1⟩ (by decide) rfl
  intro i
  cases i <;> rfl

/-- A signal from another core falls between the two critical sections of `wait`: its
`unblock_thread` finds the thread still ready, and `block_thread` then strands it. -/
theorem signal_strands :
    ∃ s : State Bool Unit,
      Lib.run State.step (State.init oneThread closedSemaphore)
        [.poll true ⟨1⟩ 5, .call true 0 .wait 5, .call false 0 .signal 0, .go false, .go true,
          .ret true .blocked] = some s ∧
      (∀ i, (s.contexts i).pc = .idle) ∧ s.terminated ⟨1⟩ = false ∧ s.executing ⟨1⟩ = false ∧
      ¬ s.sched.threadReady.Holds ⟨1⟩ ∧ ∀ k, ⟨1⟩ ∉ (s.prims k).waiters := by
  refine ⟨_, rfl, ?_, rfl, by decide, by decide, ?_⟩
  · intro i
    cases i <;> rfl
  · intro k
    cases k with
    | zero => decide
    | succ k =>
        intro member
        cases member

end QpRs.Qxk.Waiting
