import QpRs.Event
import QpRs.Lib.BoundedQueue
import QpRs.Lib.Calls
import QpRs.Pool.Dis

/-! The standalone event queues (`qf/src/equeue.rs`): `QEQueue` of the dynamic and of the
`static-alloc` build, `StaticEQueue`, and the bounded queue that all three are. -/

namespace QpRs

open Lib
open Pool (Build Fault)

inductive PostStatus where
  | accepted
  | acceptedDegraded
  | shed
  deriving DecidableEq, Repr

/-- The methods of an event queue. -/
inductive QueueCall (π : Type) where
  | post (event : DynEvent π) (margin : Nat)
  | postNormal (event : DynEvent π)
  | postCritical (event : DynEvent π)
  | postLifo (event : DynEvent π)
  | get
  | setSafetyMargin (margin : Nat)
  | safetyMargin
  | isDegraded
  | shedCount
  | peekFront
  | isEmpty
  | getFree
  | getMin
  | len
  | capacity
  deriving DecidableEq, Repr

inductive QueueAnswer (π : Type) where
  | done
  | flag (yes : Bool)
  | status (status : PostStatus)
  | event (event : Option (DynEvent π))
  | count (n : Nat)
  deriving DecidableEq, Repr

def qequeueCapacity : Nat := 16

/-- Where the storage of a `QEQueue` ends: nowhere on the heap. -/
def qequeueBound (staticAlloc : Bool) : Option Nat :=
  if staticAlloc then some qequeueCapacity else none

structure QEQueueInner (π : Type) (bound : Option Nat) where
  buffer : Deque (DynEvent π) bound
  capacity : Nat
  minFree : Nat
  safetyMargin : Nat
  shedCount : Nat

abbrev QEQueue (π : Type) (staticAlloc : Bool) := QEQueueInner π (qequeueBound staticAlloc)

namespace QEQueue

variable {π : Type} {staticAlloc : Bool}

def withSafetyMargin (capacity margin : Nat) : Except Fault (QEQueue π staticAlloc) :=
  if staticAlloc = true ∧ qequeueCapacity < capacity then .error .onError
  else .ok ⟨.new, capacity, capacity, min margin capacity, 0⟩

def new (capacity : Nat) : Except Fault (QEQueue π staticAlloc) := withSafetyMargin capacity 0

end QEQueue

namespace QEQueueInner

variable {π : Type} {bound : Option Nat}

def free (q : QEQueueInner π bound) : Nat := q.capacity - q.buffer.len

def updateWatermark (q : QEQueueInner π bound) : QEQueueInner π bound :=
  if q.free < q.minFree then { q with minFree := q.free } else q

/-- The storage of the heap takes every event; the inline one faults when it is full. -/
def pushBack (q : QEQueueInner π bound) (event : DynEvent π) :
    Except Fault (QEQueueInner π bound) :=
  match q.buffer.pushBack event with
  | some buffer => .ok { q with buffer := buffer }
  | none => .error .onError

def pushFront (q : QEQueueInner π bound) (event : DynEvent π) :
    Except Fault (QEQueueInner π bound) :=
  match q.buffer.pushFront event with
  | some buffer => .ok { q with buffer := buffer }
  | none => .error .onError

def setSafetyMargin (q : QEQueueInner π bound) (margin : Nat) : QEQueueInner π bound :=
  { q with safetyMargin := min margin q.capacity }

def isDegraded (q : QEQueueInner π bound) : Bool := decide (q.free ≤ q.safetyMargin)

def postNormal (b : Build) (q : QEQueueInner π bound) (event : DynEvent π) :
    Except Fault (PostStatus × QEQueueInner π bound) :=
  if q.safetyMargin < q.free then do
    let q ← q.pushBack event
    let q := q.updateWatermark
    .ok (if q.free ≤ q.safetyMargin then .acceptedDegraded else .accepted, q)
  else do
    let count ← b.add q.shedCount 1
    .ok (.shed, { q with shedCount := count })

def post (q : QEQueueInner π bound) (event : DynEvent π) (margin : Nat) :
    Except Fault (Bool × QEQueueInner π bound) :=
  if margin < q.free then do
    let q ← q.pushBack event
    .ok (true, q.updateWatermark)
  else .ok (false, q)

def postCritical (q : QEQueueInner π bound) (event : DynEvent π) :
    Except Fault (Bool × QEQueueInner π bound) :=
  q.post event 0

def postLifo (q : QEQueueInner π bound) (event : DynEvent π) :
    Except Fault (Bool × QEQueueInner π bound) :=
  if q.buffer.len < q.capacity then do
    let q ← q.pushFront event
    .ok (true, q.updateWatermark)
  else .ok (false, q)

def get (q : QEQueueInner π bound) : Option (DynEvent π) × QEQueueInner π bound :=
  (q.buffer.popFront.1, { q with buffer := q.buffer.popFront.2 })

def call (b : Build) (q : QEQueueInner π bound) :
    QueueCall π → Except Fault (QueueAnswer π × QEQueueInner π bound)
  | .post event margin => (q.post event margin).map fun out => (.flag out.1, out.2)
  | .postNormal event => (q.postNormal b event).map fun out => (.status out.1, out.2)
  | .postCritical event => (q.postCritical event).map fun out => (.flag out.1, out.2)
  | .postLifo event => (q.postLifo event).map fun out => (.flag out.1, out.2)
  | .get => .ok (.event q.get.1, q.get.2)
  | .setSafetyMargin margin => .ok (.done, q.setSafetyMargin margin)
  | .safetyMargin => .ok (.count q.safetyMargin, q)
  | .isDegraded => .ok (.flag q.isDegraded, q)
  | .shedCount => .ok (.count q.shedCount, q)
  | .peekFront => .ok (.flag !q.buffer.isEmpty, q)
  | .isEmpty => .ok (.flag q.buffer.isEmpty, q)
  | .getFree => .ok (.count q.free, q)
  | .getMin => .ok (.count q.minFree, q)
  | .len => .ok (.count q.buffer.len, q)
  | .capacity => .ok (.count q.capacity, q)

end QEQueueInner

structure StaticEQueue (π : Type) (N : Nat) where
  buffer : Deque (DynEvent π) (some N)
  minFree : Nat
  safetyMargin : Nat
  shedCount : Nat

namespace StaticEQueue

variable {π : Type} {N : Nat}

/-- The margin is kept as it is given. -/
def withSafetyMargin (margin : Nat) : StaticEQueue π N := ⟨.new, N, margin, 0⟩

def new : StaticEQueue π N := withSafetyMargin 0

def free (q : StaticEQueue π N) : Nat := N - q.buffer.len

def updateWatermark (q : StaticEQueue π N) : StaticEQueue π N :=
  if q.free < q.minFree then { q with minFree := q.free } else q

def pushBack (q : StaticEQueue π N) (event : DynEvent π) : Except Fault (StaticEQueue π N) :=
  match q.buffer.pushBack event with
  | some buffer => .ok { q with buffer := buffer }
  | none => .error .onError

def pushFront (q : StaticEQueue π N) (event : DynEvent π) : Except Fault (StaticEQueue π N) :=
  match q.buffer.pushFront event with
  | some buffer => .ok { q with buffer := buffer }
  | none => .error .onError

def setSafetyMargin (q : StaticEQueue π N) (margin : Nat) : StaticEQueue π N :=
  { q with safetyMargin := if margin > N then N else margin }

def isDegraded (q : StaticEQueue π N) : Bool := decide (q.free ≤ q.safetyMargin)

def postNormal (b : Build) (q : StaticEQueue π N) (event : DynEvent π) :
    Except Fault (PostStatus × StaticEQueue π N) :=
  if q.safetyMargin < q.free then do
    let q ← q.pushBack event
    let q := q.updateWatermark
    .ok (if q.free ≤ q.safetyMargin then .acceptedDegraded else .accepted, q)
  else do
    let count ← b.add q.shedCount 1
    .ok (.shed, { q with shedCount := count })

def post (q : StaticEQueue π N) (event : DynEvent π) (margin : Nat) :
    Except Fault (Bool × StaticEQueue π N) :=
  if margin < q.free then do
    let q ← q.pushBack event
    .ok (true, q.updateWatermark)
  else .ok (false, q)

def postCritical (q : StaticEQueue π N) (event : DynEvent π) :
    Except Fault (Bool × StaticEQueue π N) :=
  q.post event 0

def postLifo (q : StaticEQueue π N) (event : DynEvent π) :
    Except Fault (Bool × StaticEQueue π N) :=
  if q.buffer.len < N then do
    let q ← q.pushFront event
    .ok (true, q.updateWatermark)
  else .ok (false, q)

def get (q : StaticEQueue π N) : Option (DynEvent π) × StaticEQueue π N :=
  (q.buffer.popFront.1, { q with buffer := q.buffer.popFront.2 })

def call (b : Build) (q : StaticEQueue π N) :
    QueueCall π → Except Fault (QueueAnswer π × StaticEQueue π N)
  | .post event margin => (q.post event margin).map fun out => (.flag out.1, out.2)
  | .postNormal event => (q.postNormal b event).map fun out => (.status out.1, out.2)
  | .postCritical event => (q.postCritical event).map fun out => (.flag out.1, out.2)
  | .postLifo event => (q.postLifo event).map fun out => (.flag out.1, out.2)
  | .get => .ok (.event q.get.1, q.get.2)
  | .setSafetyMargin margin => .ok (.done, q.setSafetyMargin margin)
  | .safetyMargin => .ok (.count q.safetyMargin, q)
  | .isDegraded => .ok (.flag q.isDegraded, q)
  | .shedCount => .ok (.count q.shedCount, q)
  | .peekFront => .ok (.flag !q.buffer.isEmpty, q)
  | .isEmpty => .ok (.flag q.buffer.isEmpty, q)
  | .getFree => .ok (.count q.free, q)
  | .getMin => .ok (.count q.minFree, q)
  | .len => .ok (.count q.buffer.len, q)
  | .capacity => .ok (.count N, q)

end StaticEQueue

/-- What the queues are for: a bounded queue that keeps `margin` slots from normal events. -/
structure ReservedQueue (π : Type) (N : Nat) where
  queue : BoundedQueue (DynEvent π) N
  margin : Nat
  shed : Nat

namespace ReservedQueue

variable {π : Type} {N : Nat}

def new (margin : Nat) : ReservedQueue π N := ⟨.new, min margin N, 0⟩

def post (q : ReservedQueue π N) (event : DynEvent π) (margin : Nat) : Bool × ReservedQueue π N :=
  ((q.queue.postBack event margin).1, { q with queue := (q.queue.postBack event margin).2 })

def postNormal (b : Build) (q : ReservedQueue π N) (event : DynEvent π) :
    Except Fault (PostStatus × ReservedQueue π N) :=
  match q.post event q.margin with
  | (true, t) => .ok (if t.queue.free ≤ t.margin then .acceptedDegraded else .accepted, t)
  | (false, _) => (b.add q.shed 1).map fun shed => (.shed, { q with shed := shed })

def postLifo (q : ReservedQueue π N) (event : DynEvent π) : Bool × ReservedQueue π N :=
  ((q.queue.postFront event).1, { q with queue := (q.queue.postFront event).2 })

def call (b : Build) (q : ReservedQueue π N) :
    QueueCall π → Except Fault (QueueAnswer π × ReservedQueue π N)
  | .post event margin => .ok (.flag (q.post event margin).1, (q.post event margin).2)
  | .postNormal event => (q.postNormal b event).map fun out => (.status out.1, out.2)
  | .postCritical event => .ok (.flag (q.post event 0).1, (q.post event 0).2)
  | .postLifo event => .ok (.flag (q.postLifo event).1, (q.postLifo event).2)
  | .get => .ok (.event q.queue.take.1, { q with queue := q.queue.take.2 })
  | .setSafetyMargin margin => .ok (.done, { q with margin := min margin N })
  | .safetyMargin => .ok (.count q.margin, q)
  | .isDegraded => .ok (.flag (decide (q.queue.free ≤ q.margin)), q)
  | .shedCount => .ok (.count q.shed, q)
  | .peekFront => .ok (.flag !q.queue.items.isEmpty, q)
  | .isEmpty => .ok (.flag q.queue.items.isEmpty, q)
  | .getFree => .ok (.count q.queue.free, q)
  | .getMin => .ok (.count q.queue.leastFree, q)
  | .len => .ok (.count q.queue.items.length, q)
  | .capacity => .ok (.count N, q)

end ReservedQueue

end QpRs
