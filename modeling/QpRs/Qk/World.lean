import QpRs.Qk.Kernel
import QpRs.Lib.Run

/-! Runs of the QK kernel on one core (`QkKernel` in `qk/src/kernel.rs`).

`stack` holds the unfinished kernel calls, innermost first. The lists from `posted` on are ghost
state: what was put into each queue, what each handler received, and how activations began and
ended. -/

namespace QpRs.Qk

/-- An unfinished kernel call. -/
inductive Frame where
  /-- `activate` with the handler of `prio` running; the pair `before` was in force at its call. -/
  | activation (prio restorePrio restoreThreshold : Nat) (before : Nat × Nat)
  /-- `run_until_idle` waiting for its `dispatch_once`. -/
  | loop
  /-- `start` with the `on_start` of `prio` running and the slots `rest` still to start. -/
  | starting (prio : Nat) (rest : List Nat)
  deriving DecidableEq, Repr

inductive Fault where
  /-- `fusa::on_error` for an empty slot. -/
  | noSlot
  /-- `debug_assert_eq!(state.next_prio, decision.next_prio)` -/
  | planMismatch
  /-- `debug_assert!(processed)` -/
  | noEvent
  /-- The handler of `prio` would run while its behavior is locked. -/
  | deadlock (prio : Nat)
  /-- A signal or priority that the subscription table refuses. -/
  | pubsub
  deriving DecidableEq, Repr

/-- An activation as it begins: the threshold of the activation below and the ceiling in force. -/
structure Start where
  prio : Nat
  below : Nat
  ceiling : Nat
  deriving DecidableEq, Repr

structure World (π : Type) where
  sched : QkScheduler
  queues : Nat → EventQueue π
  pubsub : Option PubSubTable
  stack : List Frame
  fault : Option Fault
  posted : Nat → List (DynEvent π)
  handled : Nat → List (DynEvent π)
  starts : List Start
  returns : List ((Nat × Nat) × (Nat × Nat))

inductive Call (π : Type) where
  | start
  | post (target : ActiveObjectId) (e : DynEvent π)
  | postAndRun (target : ActiveObjectId) (e : DynEvent π)
  | publish (signal : Signal) (e : DynEvent π)
  | publishAndRun (signal : Signal) (e : DynEvent π)
  | dispatchOnce
  | runUntilIdle
  | lockScheduler (ceiling : Nat)
  | unlockScheduler (status : SchedStatus)
  | subscribe (signal : Signal) (prio : Nat)
  | unsubscribe (signal : Signal) (prio : Nat)
  | unsubscribeAll (prio : Nat)

inductive Action (π : Type) where
  | call (c : Call π)
  | ret

def activePrios : List Frame → List Nat
  | [] => []
  | .activation p _ _ _ :: rest => p :: activePrios rest
  | .loop :: rest => activePrios rest
  | .starting _ _ :: rest => activePrios rest

def topPair (k : QkKernel) (stack : List Frame) : Nat × Nat :=
  match activePrios stack with
  | [] => (0, 0)
  | p :: _ => (p, (k.thresholdFor p).getD 0)

def heldBehaviors : List Frame → List Nat
  | [] => []
  | .activation p _ _ _ :: rest => p :: heldBehaviors rest
  | .loop :: rest => heldBehaviors rest
  | .starting p _ :: rest => p :: heldBehaviors rest

namespace World

variable {π : Type}

def init (pubsub : Option PubSubTable) : World π where
  sched := QkScheduler.new.configureActive 0 0
  queues := fun _ => .new
  pubsub := pubsub
  stack := []
  fault := none
  posted := fun _ => []
  handled := fun _ => []
  starts := []
  returns := []

def fail (w : World π) (fault : Fault) : World π := { w with fault := some fault }

def hasEvents (w : World π) (p : Nat) : Bool := !(w.queues p).isEmpty

def push (w : World π) (p : Nat) (e : DynEvent π) : World π :=
  { w with
    queues := Function.update w.queues p ((w.queues p).pushBack e)
    posted := Function.update w.posted p (w.posted p ++ [e]) }

/-- The part of `post` and `publish` for one recipient. -/
def deliver (w : World π) (p : Nat) (e : DynEvent π) : World π :=
  let wasEmpty := !w.hasEvents p
  let w := w.push p e
  if wasEmpty then { w with sched := w.sched.markReady p } else w

variable (k : QkKernel)

def post (w : World π) (target : ActiveObjectId) (e : DynEvent π) :
    Except QkKernelError (World π) :=
  match k.idToPrio target with
  | none => .error (.notFound target)
  | some p =>
      match k.slots p with
      | none => .ok (w.fail .noSlot)
      | some _ => .ok (w.deliver p e)

def deliverAll (e : DynEvent π) : World π → List Nat → World π
  | w, [] => w
  | w, p :: rest => deliverAll e (w.deliver p e) rest

def publish (w : World π) (signal : Signal) (e : DynEvent π) : World π :=
  match w.pubsub with
  | some table =>
      let w := { w with sched := w.sched.emitRecord (.publish signal) }
      match table.subscribers signal with
      | .error _ => w.fail .pubsub
      | .ok subscribers =>
          let recipients := k.registered.filter fun p => (subscribers &&& (1#64 <<< p)) != 0#64
          deliverAll (e.withSignal signal) w recipients
  | none => deliverAll (e.withSignal signal) w k.registered

/-- `dispatch_one` up to the start of `on_event`; the activation of `p` is on the stack already, so
its behavior is free if no frame below holds it. -/
def dispatchOne (w : World π) (p : Nat) (below : List Frame) : World π :=
  match (w.queues p).popFront with
  | (none, _) => w.fail .noEvent
  | (some e, rest) =>
      let w := { w with queues := Function.update w.queues p rest }
      if p ∈ heldBehaviors below then w.fail (.deadlock p)
      else { w with handled := Function.update w.handled p (w.handled p ++ [e]) }

/-- One round of the loop of `activate`, up to the handler. -/
def activateNext (w : World π) (restorePrio restoreThreshold : Nat) (before : Nat × Nat)
    (decision : ScheduleDecision) : World π :=
  match k.slots decision.nextPrio with
  | none => w.fail .noSlot
  | some slot =>
      if w.sched.nextPrio ≠ decision.nextPrio then w.fail .planMismatch
      else
        let below := w.stack
        let start := ⟨decision.nextPrio, (topPair k below).2, w.sched.lockCeiling⟩
        let w := { w with
          sched := w.sched.commitActivation decision slot.threshold
          stack := .activation decision.nextPrio restorePrio restoreThreshold before :: below
          starts := w.starts ++ [start] }
        w.dispatchOne decision.nextPrio below

def activate (w : World π) (initial : ScheduleDecision) : World π :=
  let before := (w.sched.activePrio, w.sched.activeThreshold)
  let restorePrio := initial.previousPrio
  match k.thresholdFor restorePrio with
  | none => w.fail .noSlot
  | some restoreThreshold => activateNext k w restorePrio restoreThreshold before initial

def dispatchOnce (w : World π) : World π :=
  match w.sched.planActivation with
  | (some decision, sched) => activate k { w with sched := sched } decision
  | (none, sched) => { w with sched := sched }

def runUntilIdle (w : World π) : World π :=
  match w.sched.planActivation with
  | (some decision, sched) =>
      activate k { w with sched := sched, stack := .loop :: w.stack } decision
  | (none, sched) => { w with sched := sched }

/-- `run_until_idle` after a call that can fault. -/
def thenRun (w : World π) : World π := if w.fault.isSome then w else runUntilIdle k w

/-- What the caller of `activate` does next: `run_until_idle` goes on, other callers return. -/
def resume (w : World π) : World π :=
  match w.stack with
  | .loop :: rest => runUntilIdle k { w with stack := rest }
  | _ => w

/-- The part of `activate` after the handler of `p` has returned; its frame is off the stack. -/
def finish (w : World π) (p restorePrio restoreThreshold : Nat) (before : Nat × Nat) : World π :=
  let w := if w.hasEvents p then w else { w with sched := w.sched.markNotReady p }
  match w.sched.nextAfterDispatch restoreThreshold with
  | (some decision, sched) =>
      activateNext k { w with sched := sched } restorePrio restoreThreshold before decision
  | (none, sched) =>
      let sched := sched.restoreActive restorePrio restoreThreshold
      let after := (sched.activePrio, sched.activeThreshold)
      resume k { w with sched := sched, returns := w.returns ++ [(before, after)] }

def startFrom (w : World π) : List Nat → World π
  | [] => w
  | p :: rest =>
      if p ∈ heldBehaviors w.stack then w.fail (.deadlock p)
      else { w with stack := .starting p rest :: w.stack }

/-- The part of `start` after the `on_start` of `p` has returned; its frame is off the stack. -/
def started (w : World π) (p : Nat) (rest : List Nat) : World π :=
  let w := if w.hasEvents p then { w with sched := w.sched.markReady p } else w
  w.startFrom rest

def unlockScheduler (w : World π) (status : SchedStatus) : World π :=
  let w := { w with sched := w.sched.unlock status }
  match status with
  | .locked _ => dispatchOnce k w
  | .unlocked => w

def updateTable (w : World π) (change : PubSubTable → Except Halt PubSubTable)
    (record : Option Record) : World π :=
  match w.pubsub with
  | none => w
  | some table =>
      match change table with
      | .error _ => w.fail .pubsub
      | .ok table =>
          let sched := record.elim w.sched w.sched.emitRecord
          { w with pubsub := some table, sched := sched }

/-- `checks` says whether overflow checks are compiled in. -/
def perform (checks : Bool) (w : World π) : Call π → World π
  | .start => w.startFrom k.registered
  | .post target e =>
      match w.post k target e with
      | .ok w => w
      | .error _ => w
  | .postAndRun target e =>
      match w.post k target e with
      | .ok w => thenRun k w
      | .error _ => w
  | .publish signal e => w.publish k signal e
  | .publishAndRun signal e => thenRun k (w.publish k signal e)
  | .dispatchOnce => dispatchOnce k w
  | .runUntilIdle => runUntilIdle k w
  | .lockScheduler ceiling => { w with sched := (w.sched.lock ceiling).2 }
  | .unlockScheduler status => unlockScheduler k w status
  | .subscribe signal prio =>
      w.updateTable (fun t => t.subscribe checks signal prio) (some (.subscribe prio signal))
  | .unsubscribe signal prio =>
      w.updateTable (fun t => t.unsubscribe checks signal prio) (some (.unsubscribe prio signal))
  | .unsubscribeAll prio => w.updateTable (fun t => t.unsubscribeAll checks prio) none

/-- One step of the running code: outside code, a handler or an `on_start` calls the kernel, or the
running handler or `on_start` returns. Nothing runs after a fault. -/
def step (checks : Bool) (w : World π) (a : Action π) : Option (World π) :=
  if w.fault.isSome then none
  else
    match a, w.stack with
    | .call _, .loop :: _ => none
    | .call c, _ => some (w.perform k checks c)
    | .ret, .activation p restorePrio restoreThreshold before :: rest =>
        some (finish k { w with stack := rest } p restorePrio restoreThreshold before)
    | .ret, .starting p rest :: below => some (started { w with stack := below } p rest)
    | .ret, _ => none

end World

end QpRs.Qk
