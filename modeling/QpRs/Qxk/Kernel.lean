import QpRs.Active
import QpRs.Lib.Run
import QpRs.Qxk.Scheduler
import Mathlib.Logic.Function.Basic

/-! The QXK kernel on one core (`qxk/src/kernel.rs`, `qxk/src/thread.rs`).

`stack` holds the unfinished kernel calls, innermost first; handlers of active objects and of
threads may call the kernel back. Each `plan_next` is a step of its own. `selections` is ghost
state: what `dispatch_once` selected, and inside which handlers. -/

namespace QpRs.Qxk

def maxAoPriority : Nat := 63

inductive QxkKernelError where
  | duplicateAoPriority (priority : Nat)
  | duplicateThreadId (id : ThreadId)
  | aoNotFound (id : ActiveObjectId)
  | invalidAoPriority (priority : Nat) (reason : String)
  deriving DecidableEq, Repr

inductive ThreadAction where
  | continue
  | yield
  | blocked
  | terminated
  deriving DecidableEq, Repr

inductive ThreadState where
  | ready
  | running
  | blocked
  | terminated
  deriving DecidableEq, Repr

structure ThreadConfig where
  id : ThreadId
  priority : Nat
  deriving DecidableEq, Repr

/-- `handler` says whether the handler is still there. -/
structure ExtendedThread where
  id : ThreadId
  priority : Nat
  state : ThreadState
  handler : Bool
  iteration : Nat
  deriving DecidableEq, Repr

def ExtendedThread.new (config : ThreadConfig) : ExtendedThread :=
  ⟨config.id, config.priority, .ready, true, 0⟩

/-- A registration the builder accepted. -/
structure AoRegistration where
  object : ActiveObjectRef
  positive : 0 < object.priority
  inRange : object.priority ≤ maxAoPriority

structure QxkKernelBuilder where
  aoRegistrations : List AoRegistration
  threadConfigs : List ThreadConfig

namespace QxkKernelBuilder

def new : QxkKernelBuilder := ⟨[], []⟩

def registerAo (b : QxkKernelBuilder) (object : ActiveObjectRef) :
    Except QxkKernelError QxkKernelBuilder :=
  if zero : object.priority = 0 then
    .error (.invalidAoPriority object.priority "priority 0 is reserved for idle")
  else if high : object.priority > maxAoPriority then
    .error (.invalidAoPriority object.priority "exceeds supported range 1..63")
  else .ok { b with
    aoRegistrations := b.aoRegistrations ++ [⟨object, by omega, by omega⟩] }

def registerThread (b : QxkKernelBuilder) (config : ThreadConfig) :
    Except QxkKernelError QxkKernelBuilder :=
  if b.threadConfigs.any fun c => c.id = config.id then .error (.duplicateThreadId config.id)
  else .ok { b with threadConfigs := b.threadConfigs ++ [config] }

end QxkKernelBuilder

/-- The parts of a built kernel that never change. -/
structure QxkKernel where
  aoSlots : Nat → Option ActiveObjectRef
  aoIdToPrio : ActiveObjectId → Option Nat
  threadConfigs : List ThreadConfig
  slot_positive : ∀ p, (aoSlots p).isSome → 0 < p
  slot_inRange : ∀ p, (aoSlots p).isSome → p ≤ maxAoPriority
  id_registered : ∀ id p, aoIdToPrio id = some p → (aoSlots p).isSome

namespace QxkKernel

theorem id_unregistered (_ : ActiveObjectId) (p : Nat)
    (found : (Option.none : Option Nat) = some p) :
    (Option.none : Option ActiveObjectRef).isSome := by
  cases found

def none (threadConfigs : List ThreadConfig) : QxkKernel where
  aoSlots _ := .none
  aoIdToPrio _ := .none
  threadConfigs := threadConfigs
  slot_positive := by simp
  slot_inRange := by simp
  id_registered := id_unregistered

/-- One round of the loop of `QxkKernel::new` over the active objects. -/
def add (k : QxkKernel) (r : AoRegistration) : Except QxkKernelError QxkKernel :=
  if (k.aoSlots r.object.priority).isSome then .error (.duplicateAoPriority r.object.priority)
  else .ok
    { aoSlots := Function.update k.aoSlots r.object.priority (some r.object)
      aoIdToPrio := Function.update k.aoIdToPrio r.object.id (some r.object.priority)
      threadConfigs := k.threadConfigs
      slot_positive := by
        intro p taken
        by_cases here : p = r.object.priority
        · rw [here]
          exact r.positive
        · rw [Function.update_of_ne here] at taken
          exact k.slot_positive p taken
      slot_inRange := by
        intro p taken
        by_cases here : p = r.object.priority
        · rw [here]
          exact r.inRange
        · rw [Function.update_of_ne here] at taken
          exact k.slot_inRange p taken
      id_registered := by
        intro id p found
        by_cases here : p = r.object.priority
        · subst here
          simp
        · rw [Function.update_of_ne here]
          by_cases same : id = r.object.id
          · subst same
            simp only [Function.update_self, Option.some.injEq] at found
            exact absurd found.symm here
          · rw [Function.update_of_ne same] at found
            exact k.id_registered id p found }

/-- The thread map is ordered by id. -/
def build (b : QxkKernelBuilder) : Except QxkKernelError QxkKernel :=
  b.aoRegistrations.foldlM add
    (none (b.threadConfigs.insertionSort fun x y => x.id.val ≤ y.id.val))

def registered (k : QxkKernel) : List Nat :=
  (List.range (maxAoPriority + 1)).filter fun p => (k.aoSlots p).isSome

end QxkKernel

inductive Frame where
  /-- `dispatch_once` before its `plan_next`. -/
  | once
  /-- `run_until_idle`; innermost, it is about to call `dispatch_once`. -/
  | loop
  /-- `dispatch_once` with the handler of an active object running. -/
  | ao (prio : Nat)
  /-- `dispatch_once` with the handler of a thread running. -/
  | thread (id : ThreadId) (priority : Nat)
  deriving DecidableEq, Repr

inductive Fault where
  /-- `fusa::on_error` for an empty slot. -/
  | noSlot
  /-- `debug_assert!(processed)` -/
  | noEvent
  /-- The handler of `prio` would run while its behavior is locked. -/
  | aoDeadlock (prio : Nat)
  /-- The handler of the thread would run while the thread is locked. -/
  | threadDeadlock (id : ThreadId)
  deriving DecidableEq, Repr

def aoPrios : List Frame → List Nat
  | [] => []
  | .ao p :: rest => p :: aoPrios rest
  | .once :: rest => aoPrios rest
  | .loop :: rest => aoPrios rest
  | .thread _ _ :: rest => aoPrios rest

def polledThreads : List Frame → List ThreadId
  | [] => []
  | .thread id _ :: rest => id :: polledThreads rest
  | .once :: rest => polledThreads rest
  | .loop :: rest => polledThreads rest
  | .ao _ :: rest => polledThreads rest

/-- What a `dispatch_once` selected, and the active objects running around it. -/
structure Selection where
  mode : ScheduleMode
  inside : List Nat
  deriving DecidableEq, Repr

structure World (π : Type) where
  sched : QxkScheduler
  queues : Nat → EventQueue π
  threads : ThreadId → Option ExtendedThread
  stack : List Frame
  fault : Option Fault
  selections : List Selection

inductive Call (π : Type) where
  | start
  | postAo (target : ActiveObjectId) (e : DynEvent π)
  | postAoAndRun (target : ActiveObjectId) (e : DynEvent π)
  | publishAo (signal : Signal) (e : DynEvent π)
  | dispatchOnce
  | runUntilIdle
  | lockScheduler (ceiling : Nat)
  | unlockScheduler (status : SchedStatus)
  | blockThread (id : ThreadId)
  | unblockThread (id : ThreadId) (priority : Nat)

inductive Action (π : Type) where
  /-- The running application code calls the kernel, or the scheduler it got from it. -/
  | call (c : Call π)
  /-- A pending `dispatch_once` calls `plan_next` and goes on to the handler. -/
  | plan
  /-- The handler of an active object returns. -/
  | aoRet
  /-- The handler of a thread returns an action. -/
  | threadRet (action : ThreadAction)

namespace World

variable {π : Type} (k : QxkKernel)

def init : World π where
  sched := .new
  queues := fun _ => .new
  threads := fun id => (k.threadConfigs.find? fun c => c.id = id).map ExtendedThread.new
  stack := []
  fault := none
  selections := []

variable (w : World π)

def fail (fault : Fault) : World π := { w with fault := some fault }

def hasEvents (p : Nat) : Bool := !(w.queues p).isEmpty

/-- The part of `post_ao` and `publish_ao` for one recipient. -/
def deliver (p : Nat) (e : DynEvent π) : World π :=
  let wasEmpty := !w.hasEvents p
  let w := { w with queues := Function.update w.queues p ((w.queues p).pushBack e) }
  if wasEmpty then { w with sched := w.sched.markAoReady p } else w

def postAo (target : ActiveObjectId) (e : DynEvent π) : Except QxkKernelError (World π) :=
  match k.aoIdToPrio target with
  | none => .error (.aoNotFound target)
  | some p =>
      match k.aoSlots p with
      | none => .ok (w.fail .noSlot)
      | some _ => .ok (w.deliver p e)

def deliverAll (e : DynEvent π) : World π → List Nat → World π
  | w, [] => w
  | w, p :: rest => deliverAll e (w.deliver p e) rest

/-- The loop of `start` over the active objects. It has the kernel to itself, so no `on_start`
calls the kernel. -/
def startAos : World π → List Nat → World π
  | w, [] => w
  | w, p :: rest =>
      startAos (if w.hasEvents p then { w with sched := w.sched.markAoReady p } else w) rest

def startThreads : World π → List ThreadConfig → World π
  | w, [] => w
  | w, c :: rest =>
      match w.threads c.id with
      | some t =>
          if t.state = .ready then
            startThreads { w with sched := w.sched.markThreadReady t.id t.priority } rest
          else startThreads w rest
      | none => startThreads w rest

def start : World π := startThreads (startAos w k.registered) k.threadConfigs

def finishAo (p : Nat) : World π :=
  if w.hasEvents p then w else { w with sched := w.sched.markAoNotReady p }

/-- `dispatch_ao` up to the handler; `debug` says whether `debug_assert` is compiled in. -/
def dispatchAo (debug : Bool) (p : Nat) : World π :=
  match k.aoSlots p with
  | none => w
  | some _ =>
      match (w.queues p).popFront with
      | (none, _) => if debug then w.fail .noEvent else w.finishAo p
      | (some _, rest) =>
          let w := { w with queues := Function.update w.queues p rest }
          if p ∈ aoPrios w.stack then w.fail (.aoDeadlock p)
          else { w with stack := .ao p :: w.stack }

/-- The branch of `dispatch_once` for a thread, up to the handler. `idle` is the stack if
`dispatch_once` returns false. -/
def dispatchThread (id : ThreadId) (priority : Nat) (idle : List Frame) : World π :=
  match w.threads id with
  | none => { w with sched := w.sched.markThreadNotReady id, stack := idle }
  | some t =>
      if id ∈ polledThreads w.stack then w.fail (.threadDeadlock id)
      else if t.handler then
        { w with
          threads := Function.update w.threads id
            (some { t with state := .running, iteration := t.iteration + 1 })
          stack := .thread id priority :: w.stack }
      else
        { w with
          threads := Function.update w.threads id (some { t with state := .terminated })
          sched := w.sched.markThreadNotReady id }

/-- `dispatch_once` up to the handler. `w.stack` is the stack to return to if it returns true,
`idle` if it returns false. -/
def dispatchOnce (debug : Bool) (idle : List Frame) : World π :=
  let inside := aoPrios w.stack
  let (mode, sched) := w.sched.planNext
  let w := { w with
    sched := sched.setActive mode
    selections := w.selections ++ [⟨mode, inside⟩] }
  match mode with
  | .activeObject p => dispatchAo k w debug p
  | .extendedThread id priority => w.dispatchThread id priority idle
  | .idle => { w with stack := idle }

/-- `poll` after the handler, and what `dispatch_once` does with its action. -/
def finishThread (id : ThreadId) (priority : Nat) (action : ThreadAction) : World π :=
  let state : ThreadState := match action with
    | .terminated => .terminated
    | .blocked => .blocked
    | .yield | .continue => .ready
  let polled (t : ExtendedThread) : ExtendedThread :=
    { t with state := state, handler := t.handler && action != .terminated }
  let w := { w with
    threads := Function.update w.threads id ((w.threads id).map polled) }
  match action with
  | .continue | .blocked => w
  | .yield => { w with sched := w.sched.markThreadReady id priority }
  | .terminated => { w with sched := w.sched.markThreadNotReady id }

def unlockScheduler (status : SchedStatus) : World π :=
  let w := { w with sched := w.sched.unlock status }
  if status.isLocked && w.sched.hasWork then { w with stack := .once :: w.stack } else w

def perform : Call π → World π
  | .start => w.start k
  | .postAo target e =>
      match postAo k w target e with
      | .ok w => w
      | .error _ => w
  | .postAoAndRun target e =>
      match postAo k w target e with
      | .ok w => if w.fault.isSome then w else { w with stack := .loop :: w.stack }
      | .error _ => w
  | .publishAo signal e => deliverAll (e.withSignal signal) w k.registered
  | .dispatchOnce => { w with stack := .once :: w.stack }
  | .runUntilIdle => { w with stack := .loop :: w.stack }
  | .lockScheduler ceiling => { w with sched := (w.sched.lock ceiling).2 }
  | .unlockScheduler status => w.unlockScheduler status
  | .blockThread id => { w with sched := w.sched.blockThread id }
  | .unblockThread id priority => { w with sched := w.sched.unblockThread id priority }

/-- `start` takes the kernel exclusively, so no handler calls it. -/
def allows : Call π → List Frame → Bool
  | .start, stack => stack.isEmpty
  | _, .once :: _ => false
  | _, .loop :: _ => false
  | _, _ => true

def step (debug : Bool) (w : World π) (a : Action π) : Option (World π) :=
  if w.fault.isSome then none
  else
    match a, w.stack with
    | .call c, stack => if allows c stack then some (perform k w c) else none
    | .plan, .once :: rest => some (dispatchOnce k { w with stack := rest } debug rest)
    | .plan, .loop :: rest => some (dispatchOnce k w debug rest)
    | .aoRet, .ao p :: rest => some (finishAo { w with stack := rest } p)
    | .threadRet action, .thread id priority :: rest =>
        some (finishThread { w with stack := rest } id priority action)
    | _, _ => none

end World

end QpRs.Qxk
