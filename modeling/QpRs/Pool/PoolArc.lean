import Mathlib.Data.Finset.Card
import Mathlib.Logic.Function.Basic
import QpRs.Pool.PoolRegistry

/-! Shared handles to values in pool blocks (`qf/src/pool_arc.rs`), used by any number of contexts.

A context is a thread, or the destructor of a value while a drop runs it. Each step of a context is
one access to shared memory: a load or a compare-exchange of a reference count, or a call on one
pool under its lock. A pool is the stock of blocks that its `QMPool` represents. -/

namespace QpRs.Pool

open QpRs.Lib

structure PoolSlot where
  blockSize : Nat
  stock : Stock Nat

def PoolSlot.canServe (slot : PoolSlot) (size : Nat) : Bool := size ≤ slot.blockSize

/-- `CtrlHeader` and the value behind it. A block without a value may hold anything. -/
structure Block (V : Type) where
  refCount : UInt32
  poolId : Dis
  value : Option V

/-- Why a context never returns from `fusa::on_error`. -/
inductive Halt where
  | corrupted
  | overflow
  | underflow
  | noPool
  | overaligned
  deriving DecidableEq, Repr

variable {n : Nat} {ι κ V : Type}

inductive Pc (n : Nat) (κ V : Type) where
  | idle
  /-- `PoolRegistry::alloc` before slot `i`; `required` is that of `from_value`. -/
  | alloc (i : Nat) (value : V) (size : Nat) (required : Bool)
  | write (i : Fin n) (ptr : Nat) (value : V)
  | increment (h : κ) (ptr : Nat) (cur : UInt32)
  | reading (h : κ) (ptr : Nat)
  | decrement (h : κ) (ptr : Nat) (cur : UInt32)
  /-- The last handle is gone; `b` numbers the allocation. -/
  | last (ptr b : Nat)
  | destroy (poolId ptr b : Nat)
  | free (poolId ptr b : Nat)
  | halted (why : Halt)

/-- What a block is used for (ghost): `b` numbers the allocation. -/
inductive Use (ι : Type) where
  | free
  | filling (t : ι)
  | shared (b : Nat)
  | ending (t : ι) (b : Nat)

/-- A handle. `repr` is none for `Repr::Empty`; `borrowers` and `dropper` are what the borrow
checker knows; `birth` is the number of the allocation (ghost). -/
structure Handle (ι : Type) where
  repr : Option Nat
  borrowers : Finset ι
  dropper : Option ι
  birth : Nat

/-- An allocation (ghost). -/
structure Birth (n : Nat) (V : Type) where
  value : V
  ptr : Nat
  pool : Fin n

/-- `born`, `destroyed` and `returned` log the allocations, the destructors run, and the blocks put
back with the pool they went to (ghost). -/
structure Sharing (n : Nat) (ι κ V : Type) where
  slots : Fin n → PoolSlot
  heap : Nat → Block V
  pc : ι → Pc n κ V
  live : Finset κ
  handle : κ → Handle ι
  use : Nat → Use ι
  born : List (Birth n V)
  destroyed : List Nat
  returned : List (Nat × Fin n)

inductive ArcStep (κ V : Type) where
  | empty (h : κ)
  | fromValue (value : V) (size : Nat) (overaligned required : Bool)
  | tryPool
  | write (h : κ)
  | cloneEmpty (h fresh : κ)
  | clone (h : κ)
  /-- One turn of the loop; a weak compare-exchange may fail without a reason. -/
  | increment (fresh : κ) (spurious : Bool)
  | read (h : κ)
  | endRead
  | drop (h : κ)
  | decrement (spurious : Bool)
  | verifyPool
  | destroy
  /-- `put` leaves its links, `junk`, in the block. -/
  | free (junk : Block V)

namespace Sharing

variable [DecidableEq ι] [DecidableEq κ]

def goto (s : Sharing n ι κ V) (t : ι) (pc : Pc n κ V) : Sharing n ι κ V :=
  { s with pc := Function.update s.pc t pc }

def setHandle (s : Sharing n ι κ V) (h : κ) (x : Handle ι) : Sharing n ι κ V :=
  { s with handle := Function.update s.handle h x }

def addHandle (s : Sharing n ι κ V) (h : κ) (repr : Option Nat) (birth : Nat) : Sharing n ι κ V :=
  { s with live := insert h s.live }.setHandle h ⟨repr, ∅, none, birth⟩

def removeHandle (s : Sharing n ι κ V) (h : κ) : Sharing n ι κ V :=
  { s with live := s.live.erase h }

def borrow (s : Sharing n ι κ V) (t : ι) (h : κ) : Sharing n ι κ V :=
  s.setHandle h { s.handle h with borrowers := insert t (s.handle h).borrowers }

def unborrow (s : Sharing n ι κ V) (t : ι) (h : κ) : Sharing n ι κ V :=
  s.setHandle h { s.handle h with borrowers := (s.handle h).borrowers.erase t }

def setCount (s : Sharing n ι κ V) (ptr : Nat) (v : UInt16) : Sharing n ι κ V :=
  { s with
    heap := Function.update s.heap ptr { s.heap ptr with refCount := DisAtomicU16.pack v } }

def setUse (s : Sharing n ι κ V) (ptr : Nat) (use : Use ι) : Sharing n ι κ V :=
  { s with use := Function.update s.use ptr use }

def setSlot (s : Sharing n ι κ V) (i : Fin n) (stock : Stock Nat) : Sharing n ι κ V :=
  { s with slots := Function.update s.slots i { s.slots i with stock := stock } }

def Borrowable (s : Sharing n ι κ V) (h : κ) : Prop := h ∈ s.live ∧ (s.handle h).dropper = none

instance (s : Sharing n ι κ V) (h : κ) : Decidable (s.Borrowable h) :=
  inferInstanceAs (Decidable (_ ∧ _))

def Droppable (s : Sharing n ι κ V) (h : κ) : Prop :=
  h ∈ s.live ∧ (s.handle h).borrowers = ∅ ∧ (s.handle h).dropper = none

instance (s : Sharing n ι κ V) (h : κ) : Decidable (s.Droppable h) :=
  inferInstanceAs (Decidable (_ ∧ _ ∧ _))

/-- `alloc` at slot `i`. -/
def tryPool (s : Sharing n ι κ V) (t : ι) (i : Nat) (value : V) (size : Nat) (required : Bool) :
    Sharing n ι κ V :=
  if inside : i < n then
    if (s.slots ⟨i, inside⟩).canServe size then
      match (s.slots ⟨i, inside⟩).stock.get 0 with
      | (some ptr, stock) =>
        ((s.setSlot ⟨i, inside⟩ stock).setUse ptr (.filling t)).goto t
          (.write ⟨i, inside⟩ ptr value)
      | (none, stock) =>
        (s.setSlot ⟨i, inside⟩ stock).goto t (.alloc (i + 1) value size required)
    else s.goto t (.alloc (i + 1) value size required)
  else if required then s.goto t (.halted .noPool)
  else s.goto t .idle

/-- `ptr::write` of the block into memory that no other context can reach. -/
def writeBlock (s : Sharing n ι κ V) (i : Fin n) (ptr : Nat) (value : V) : Sharing n ι κ V :=
  let block : Block V :=
    { refCount := DisAtomicU16.pack 1
      poolId := Dis.new 255 ((i + 1) % 256)
      value := some value }
  { s with
    heap := Function.update s.heap ptr block
    use := Function.update s.use ptr (.shared s.born.length)
    born := s.born ++ [⟨value, ptr, i⟩] }

/-- One turn of the loop of `DisAtomicU16::increment`. -/
def increment (s : Sharing n ι κ V) (t : ι) (fresh : κ) (spurious : Bool) (h : κ) (ptr : Nat)
    (cur : UInt32) : Option (Sharing n ι κ V) :=
  match DisAtomicU16.verify cur with
  | .error _ => some ((s.unborrow t h).goto t (.halted .corrupted))
  | .ok v =>
    if v.toNat + 1 < 65536 then
      if (s.heap ptr).refCount = cur ∧ spurious = false then
        if fresh ∈ s.live then none
        else
          some ((((s.setCount ptr (v + 1)).unborrow t h).addHandle fresh (some ptr)
            (s.handle h).birth).goto t .idle)
      else some (s.goto t (.increment h ptr (s.heap ptr).refCount))
    else some ((s.unborrow t h).goto t (.halted .overflow))

/-- One turn of the loop of `DisAtomicU16::decrement`. -/
def decrement (s : Sharing n ι κ V) (t : ι) (spurious : Bool) (h : κ) (ptr : Nat) (cur : UInt32) :
    Sharing n ι κ V :=
  match DisAtomicU16.verify cur with
  | .error _ => s.goto t (.halted .corrupted)
  | .ok v =>
    if 1 ≤ v.toNat then
      if (s.heap ptr).refCount = cur ∧ spurious = false then
        let s := (s.setCount ptr (v - 1)).removeHandle h
        if v ≠ 1 then s.goto t .idle
        else (s.setUse ptr (.ending t (s.handle h).birth)).goto t (.last ptr (s.handle h).birth)
      else s.goto t (.decrement h ptr (s.heap ptr).refCount)
    else s.goto t (.halted .underflow)

/-- `ptr::drop_in_place` of the value. -/
def destroyValue (s : Sharing n ι κ V) (ptr b : Nat) : Sharing n ι κ V :=
  { s with
    heap := Function.update s.heap ptr { s.heap ptr with value := none }
    destroyed := s.destroyed ++ [b] }

def putBack (s : Sharing n ι κ V) (i : Fin n) (ptr b : Nat) (junk : Block V) : Sharing n ι κ V :=
  { s.setSlot i ((s.slots i).stock.put ptr) with
    heap := Function.update s.heap ptr junk
    use := Function.update s.use ptr .free
    returned := s.returned ++ [(b, i)] }

/-- `PoolRegistry::free`; a slot that was never registered ignores the call. -/
def freeBlock (s : Sharing n ι κ V) (poolId ptr b : Nat) (junk : Block V) : Sharing n ι κ V :=
  if inside : poolId - 1 < n then s.putBack ⟨poolId - 1, inside⟩ ptr b junk else s

def step (s : Sharing n ι κ V) : ι × ArcStep κ V → Option (Sharing n ι κ V)
  | (t, a) =>
    match s.pc t, a with
    | .idle, .empty h => if h ∈ s.live then none else some (s.addHandle h none 0)
    | .idle, .fromValue value size overaligned required =>
      if overaligned then some (s.goto t (.halted .overaligned))
      else some (s.goto t (.alloc 0 value size required))
    | .alloc i value size required, .tryPool => some (s.tryPool t i value size required)
    | .write i ptr value, .write h =>
      if h ∈ s.live then none
      else some (((s.writeBlock i ptr value).addHandle h (some ptr) s.born.length).goto t .idle)
    | .idle, .cloneEmpty h fresh =>
      if s.Borrowable h ∧ (s.handle h).repr = none ∧ fresh ∉ s.live then
        some (s.addHandle fresh none 0)
      else none
    | .idle, .clone h =>
      if s.Borrowable h then
        (s.handle h).repr.map fun ptr =>
          (s.borrow t h).goto t (.increment h ptr (s.heap ptr).refCount)
      else none
    | .increment h ptr cur, .increment fresh spurious => s.increment t fresh spurious h ptr cur
    | .idle, .read h =>
      if s.Borrowable h then
        (s.handle h).repr.map fun ptr => (s.borrow t h).goto t (.reading h ptr)
      else none
    | .reading h _, .endRead => some ((s.unborrow t h).goto t .idle)
    | .idle, .drop h =>
      if s.Droppable h then
        match (s.handle h).repr with
        | none => some (s.removeHandle h)
        | some ptr =>
          some ((s.setHandle h { s.handle h with dropper := some t }).goto t
            (.decrement h ptr (s.heap ptr).refCount))
      else none
    | .decrement h ptr cur, .decrement spurious => some (s.decrement t spurious h ptr cur)
    | .last ptr b, .verifyPool =>
      match (s.heap ptr).poolId.get 255 with
      | .error _ => some (s.goto t (.halted .corrupted))
      | .ok poolId => some (s.goto t (.destroy poolId ptr b))
    | .destroy poolId ptr b, .destroy =>
      some ((s.destroyValue ptr b).goto t (.free poolId ptr b))
    | .free poolId ptr b, .free junk => some ((s.freeBlock poolId ptr b junk).goto t .idle)
    | _, _ => none

/-- Pools that were registered over storages of their own, before any handle is made. -/
def start (slots : Fin n → PoolSlot) (heap : Nat → Block V) : Sharing n ι κ V where
  slots := slots
  heap := heap
  pc := fun _ => .idle
  live := ∅
  handle := fun _ => ⟨none, ∅, none, 0⟩
  use := fun _ => .free
  born := []
  destroyed := []
  returned := []

end Sharing

end QpRs.Pool
