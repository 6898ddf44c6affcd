import QpRs.Active
import QpRs.Lib.Run
import Mathlib.Data.List.Sort
import Mathlib.Logic.Function.Basic

/-! The cooperative kernel QV (`QvKernel` in `qf/src/kernel.rs`), single core.

`stack` holds the unfinished kernel calls, innermost first: handlers, `on_start` and the idle
callback are code of the application and may call the kernel back. `enqueued`, `dispatches` and
the queue and waiting objects in a `Dispatch` are ghost state. -/

namespace QpRs.Qv

structure KernelBuilder where
  objects : List ActiveObjectRef
  idleCallback : Bool
  pubsub : Option PubSubTable

namespace KernelBuilder

/-- `KernelConfig` has an idle callback or not; its other fields are sizes for the trace. -/
def new (idleCallback : Bool) : KernelBuilder := ⟨[], idleCallback, none⟩

def psInit (b : KernelBuilder) (maxSignal : Nat) : KernelBuilder :=
  { b with pubsub := some (.new maxSignal) }

def register (b : KernelBuilder) (object : ActiveObjectRef) : KernelBuilder :=
  { b with objects := b.objects ++ [object] }

/-- What the application promises and the builder does not check. -/
structure Distinct (b : KernelBuilder) : Prop where
  ids : (b.objects.map ActiveObjectRef.id).Nodup
  priorities : (b.objects.map ActiveObjectRef.priority).Nodup

end KernelBuilder

/-- The registry, by priority, and the map from ids to objects. -/
structure QvKernel where
  objects : List ActiveObjectRef
  byId : ActiveObjectId → Option ActiveObjectRef
  idleCallback : Bool

/-- `by_id.insert` for each object in turn: the last object with an id wins. -/
def indexById : List ActiveObjectRef → (ActiveObjectId → Option ActiveObjectRef)
  | [] => fun _ => none
  | ao :: rest => fun id => (indexById rest id).or (if ao.id = id then some ao else none)

/-- `sort_unstable_by_key` by priority, then `QvKernel::new`. -/
def KernelBuilder.build (b : KernelBuilder) : QvKernel :=
  let objects := b.objects.insertionSort fun x y => x.priority ≤ y.priority
  { objects := objects, byId := indexById objects, idleCallback := b.idleCallback }

inductive KernelError where
  | notFound (id : ActiveObjectId)
  deriving DecidableEq, Repr

inductive Frame where
  /-- `dispatch_once` with the handler of the object running. -/
  | handling (ao : ActiveObjectRef)
  /-- `run_until_idle` waiting for its `dispatch_once`. -/
  | loop
  /-- `run_until_idle` with the idle callback running. -/
  | idling
  /-- `start` with the `on_start` of the object running and `rest` still to start. -/
  | starting (ao : ActiveObjectRef) (rest : List ActiveObjectRef)
  deriving DecidableEq, Repr

inductive Fault where
  /-- The behavior of the object is locked by an unfinished call. -/
  | deadlock (ao : ActiveObjectRef)
  /-- A signal or priority that the subscription table refuses. -/
  | pubsub
  deriving DecidableEq, Repr

/-- An event given to a handler, and the kernel as `dispatch_once` found it: the ceiling, the queue
of the object, and all objects with events. -/
structure Dispatch (π : Type) where
  ao : ActiveObjectRef
  event : DynEvent π
  ceiling : Nat
  queue : List (DynEvent π)
  waiting : List ActiveObjectRef

structure World (π : Type) where
  prevPrio : Nat
  schedCeiling : Nat
  queues : ActiveObjectRef → EventQueue π
  pubsub : Option PubSubTable
  records : List Record
  stack : List Frame
  fault : Option Fault
  enqueued : ActiveObjectRef → List (DynEvent π)
  dispatches : List (Dispatch π)

inductive Call (π : Type) where
  | start
  | post (target : ActiveObjectId) (e : DynEvent π)
  | publish (signal : Signal) (e : DynEvent π)
  | dispatchOnce
  | runUntilIdle
  | lockScheduler (ceiling : Nat)
  | unlockScheduler
  | subscribe (signal : Signal) (prio : Nat)
  | unsubscribe (signal : Signal) (prio : Nat)
  | unsubscribeAll (prio : Nat)

inductive Action (π : Type) where
  | call (c : Call π)
  | ret

def heldBehaviors : List Frame → List ActiveObjectRef
  | [] => []
  | .handling ao :: rest => ao :: heldBehaviors rest
  | .loop :: rest => heldBehaviors rest
  | .idling :: rest => heldBehaviors rest
  | .starting ao _ :: rest => ao :: heldBehaviors rest

namespace World

variable {π : Type}

def init (pubsub : Option PubSubTable) : World π where
  prevPrio := 0
  schedCeiling := 0
  queues := fun _ => .new
  pubsub := pubsub
  records := []
  stack := []
  fault := none
  enqueued := fun _ => []
  dispatches := []

def handled (w : World π) (ao : ActiveObjectRef) : List (DynEvent π) :=
  (w.dispatches.filter fun d => d.ao = ao).map Dispatch.event

def fail (w : World π) (fault : Fault) : World π := { w with fault := some fault }

def emit (w : World π) (record : Record) : World π := { w with records := w.records ++ [record] }

def hasEvents (w : World π) (ao : ActiveObjectRef) : Bool := !(w.queues ao).isEmpty

def push (w : World π) (ao : ActiveObjectRef) (e : DynEvent π) : World π :=
  { w with
    queues := Function.update w.queues ao ((w.queues ao).pushBack e)
    enqueued := Function.update w.enqueued ao (w.enqueued ao ++ [e]) }

variable (k : QvKernel)

def post (w : World π) (target : ActiveObjectId) (e : DynEvent π) : Except KernelError (World π) :=
  match k.byId target with
  | some ao => .ok (w.push ao e)
  | none => .error (.notFound target)

/-- The loop of `publish` with a subscription table; the mask of each object is `1u64 <<
priority`. -/
def multicast (checks : Bool) (subscribers : BitVec 64) (e : DynEvent π) :
    World π → List ActiveObjectRef → World π
  | w, [] => w
  | w, ao :: rest =>
      match shiftOne checks ao.priority with
      | .error _ => w.fail .pubsub
      | .ok mask =>
          if (subscribers &&& mask) != 0#64 then multicast checks subscribers e (w.push ao e) rest
          else multicast checks subscribers e w rest

def broadcast (e : DynEvent π) : World π → List ActiveObjectRef → World π
  | w, [] => w
  | w, ao :: rest => broadcast e (w.push ao e) rest

def publish (checks : Bool) (w : World π) (signal : Signal) (e : DynEvent π) : World π :=
  match w.pubsub with
  | some table =>
      let w := w.emit (.publish signal)
      match table.subscribers signal with
      | .error _ => w.fail .pubsub
      | .ok subscribers => multicast checks subscribers (e.withSignal signal) w k.objects
  | none => broadcast (e.withSignal signal) w k.objects

/-- `prev_prio` goes to 0, with a record if it was not. -/
def noteIdle (w : World π) : World π :=
  if w.prevPrio ≠ 0 then { w with prevPrio := 0 }.emit (.idle w.prevPrio) else w

/-- `prev_prio` goes to the dispatched priority, with a record if it changes. -/
def noteNext (w : World π) (prio : Nat) : World π :=
  let next := { w with prevPrio := prio }
  if prio ≠ w.prevPrio then next.emit (.next prio w.prevPrio) else next

def dispatchOne (w : World π) (ao : ActiveObjectRef) (waiting : List ActiveObjectRef) :
    Bool × World π :=
  match (w.queues ao).popFront with
  | (none, _) => (false, w)
  | (some e, rest) =>
      let queue := (w.queues ao).buf
      let w := { w with queues := Function.update w.queues ao rest }
      if ao ∈ heldBehaviors w.stack then (true, w.fail (.deadlock ao))
      else
        (true, { w with
          stack := .handling ao :: w.stack
          dispatches := w.dispatches ++ [⟨ao, e, w.schedCeiling, queue, waiting⟩] })

def dispatchOnce (w : World π) : Bool × World π :=
  match k.objects.reverse.find? w.hasEvents with
  | some ao =>
      if ao.priority ≤ w.schedCeiling then (false, w.noteIdle)
      else (w.noteNext ao.priority).dispatchOne ao (k.objects.filter w.hasEvents)
  | none => (false, w.noteIdle)

def idle (w : World π) : World π :=
  if k.idleCallback then { w with stack := .idling :: w.stack } else w

def runUntilIdle (w : World π) : World π :=
  match dispatchOnce k { w with stack := .loop :: w.stack } with
  | (true, next) => next
  | (false, next) => idle k { next with stack := w.stack }

/-- What the caller of `dispatch_once` does next: `run_until_idle` goes on, other callers return. -/
def resume (w : World π) : World π :=
  match w.stack with
  | .loop :: rest => runUntilIdle k { w with stack := rest }
  | _ => w

def startFrom (w : World π) : List ActiveObjectRef → World π
  | [] => w
  | ao :: rest =>
      if ao ∈ heldBehaviors w.stack then w.fail (.deadlock ao)
      else { w with stack := .starting ao rest :: w.stack }

def lockScheduler (w : World π) (ceiling : Nat) : World π :=
  if ceiling > w.schedCeiling then
    { w with schedCeiling := ceiling }.emit (.lock w.schedCeiling ceiling)
  else w

def unlockScheduler (w : World π) : World π :=
  if w.schedCeiling ≠ 0 then { w with schedCeiling := 0 }.emit (.unlock w.schedCeiling 0) else w

def updateTable (w : World π) (change : PubSubTable → Except Halt PubSubTable)
    (record : Option Record) : World π :=
  match w.pubsub with
  | none => w
  | some table =>
      match change table with
      | .error _ => w.fail .pubsub
      | .ok table =>
          record.elim { w with pubsub := some table } { w with pubsub := some table }.emit

/-- `checks` says whether overflow checks are compiled in. -/
def perform (checks : Bool) (w : World π) : Call π → World π
  | .start => w.startFrom k.objects
  | .post target e =>
      match w.post k target e with
      | .ok w => w
      | .error _ => w
  | .publish signal e => publish k checks w signal e
  | .dispatchOnce => (dispatchOnce k w).2
  | .runUntilIdle => runUntilIdle k w
  | .lockScheduler ceiling => w.lockScheduler ceiling
  | .unlockScheduler => w.unlockScheduler
  | .subscribe signal prio =>
      w.updateTable (fun t => t.subscribe checks signal prio) (some (.subscribe prio signal))
  | .unsubscribe signal prio =>
      w.updateTable (fun t => t.unsubscribe checks signal prio) (some (.unsubscribe prio signal))
  | .unsubscribeAll prio => w.updateTable (fun t => t.unsubscribeAll checks prio) none

/-- One step of the running code: outside code, a handler, an `on_start` or the idle callback calls
the kernel, or the innermost of them returns. Nothing runs after a fault. -/
def step (checks : Bool) (w : World π) (a : Action π) : Option (World π) :=
  if w.fault.isSome then none
  else
    match a, w.stack with
    | .call _, .loop :: _ => none
    | .call c, _ => some (perform k checks w c)
    | .ret, .handling _ :: rest => some (resume k { w with stack := rest })
    | .ret, .starting _ more :: rest => some (startFrom { w with stack := rest } more)
    | .ret, .idling :: rest => some { w with stack := rest }
    | .ret, _ => none

end World

end QpRs.Qv
