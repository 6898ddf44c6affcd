import QpRs.Event
import QpRs.ReadySet

/-! Active objects as the kernels see them (`qf/src/active.rs`): an id, a priority and a queue of
events. The subscription table of publish-subscribe is `qf/src/pubsub.rs`. Dynamic build. -/

namespace QpRs

structure ActiveObjectId where
  val : Nat
  deriving DecidableEq, Repr

/-- What the kernels read of an active object. -/
structure ActiveObjectRef where
  id : ActiveObjectId
  priority : Nat
  deriving DecidableEq, Repr

/-- The trace records of the kernels and their schedulers. -/
inductive Record where
  | lock (previous ceiling : Nat)
  | unlock (current value : Nat)
  | next (prio previous : Nat)
  | idle (previous : Nat)
  | subscribe (prio : Nat) (signal : Signal)
  | unsubscribe (prio : Nat) (signal : Signal)
  | publish (signal : Signal)
  deriving DecidableEq, Repr

structure EventQueue (π : Type) where
  buf : List (DynEvent π)
  highWatermark : Nat
  deriving Repr

namespace EventQueue

variable {π : Type}

def new : EventQueue π := ⟨[], 0⟩

def touchWatermark (q : EventQueue π) : EventQueue π :=
  if q.buf.length > q.highWatermark then { q with highWatermark := q.buf.length } else q

def pushBack (q : EventQueue π) (e : DynEvent π) : EventQueue π :=
  touchWatermark { q with buf := q.buf ++ [e] }

def pushFront (q : EventQueue π) (e : DynEvent π) : EventQueue π :=
  touchWatermark { q with buf := e :: q.buf }

def popFront (q : EventQueue π) : Option (DynEvent π) × EventQueue π :=
  match q.buf with
  | [] => (none, q)
  | e :: rest => (some e, { q with buf := rest })

def isEmpty (q : EventQueue π) : Bool := q.buf.isEmpty

@[simp] theorem buf_touchWatermark (q : EventQueue π) : q.touchWatermark.buf = q.buf := by
  unfold touchWatermark
  split <;> rfl

@[simp] theorem buf_pushBack (q : EventQueue π) (e : DynEvent π) :
    (q.pushBack e).buf = q.buf ++ [e] := by simp [pushBack]

@[simp] theorem buf_pushFront (q : EventQueue π) (e : DynEvent π) :
    (q.pushFront e).buf = e :: q.buf := by simp [pushFront]

@[simp] theorem isEmpty_iff (q : EventQueue π) : q.isEmpty = true ↔ q.buf = [] := by
  simp [isEmpty]

end EventQueue

/-- `1u64 << prio`: stops the program at a shift of 64 or more when overflow checks are compiled
in, and takes the shift modulo 64 otherwise. -/
def shiftOne (checks : Bool) (prio : Nat) : Except Halt (BitVec 64) :=
  if prio < 64 then .ok (1#64 <<< prio)
  else if checks then .error .fault
  else .ok (1#64 <<< (prio % 64))

structure PubSubTable where
  subscriptions : Nat → BitVec 64
  maxSignal : Nat

namespace PubSubTable

def new (maxSignal : Nat) : PubSubTable := ⟨fun _ => 0#64, maxSignal⟩

/-- `assert!(idx <= max_signal)` -/
def idx (t : PubSubTable) (signal : Signal) : Except Halt Nat :=
  if signal.val ≤ t.maxSignal then .ok signal.val else .error .fault

def subscribe (checks : Bool) (t : PubSubTable) (signal : Signal) (prio : Nat) :
    Except Halt PubSubTable := do
  let idx ← t.idx signal
  let mask ← shiftOne checks prio
  let subscriptions := fun i => if i = idx then t.subscriptions i ||| mask else t.subscriptions i
  return { t with subscriptions := subscriptions }

def unsubscribe (checks : Bool) (t : PubSubTable) (signal : Signal) (prio : Nat) :
    Except Halt PubSubTable := do
  let idx ← t.idx signal
  let mask ← shiftOne checks prio
  let subscriptions := fun i => if i = idx then t.subscriptions i &&& ~~~mask else t.subscriptions i
  return { t with subscriptions := subscriptions }

def unsubscribeAll (checks : Bool) (t : PubSubTable) (prio : Nat) : Except Halt PubSubTable := do
  let mask ← shiftOne checks prio
  return { t with subscriptions := fun i => t.subscriptions i &&& ~~~mask }

def subscribers (t : PubSubTable) (signal : Signal) : Except Halt (BitVec 64) := do
  let idx ← t.idx signal
  return t.subscriptions idx

end PubSubTable

end QpRs
