import Mathlib.Data.Nat.Notation

/-! Events and signals of the framework (`qf/src/event.rs`, `qf/src/hsm/common.rs`). -/

namespace QpRs

structure Signal where
  val : Nat
  deriving DecidableEq, Repr

structure EventHeader where
  signal : Signal
  poolId : Option Nat
  refCount : Nat
  deriving DecidableEq, Repr

def EventHeader.new (signal : Signal) : EventHeader := ⟨signal, none, 1⟩

/-- A type-erased payload: the unit payload of signal-only events, or a value of the application. -/
inductive DynPayload (π : Type) where
  | unit
  | value (payload : π)
  deriving DecidableEq, Repr

structure DynEvent (π : Type) where
  header : EventHeader
  payload : DynPayload π
  deriving DecidableEq, Repr

namespace DynEvent

variable {π : Type}

def signal (e : DynEvent π) : Signal := e.header.signal

def emptyDyn (signal : Signal) : DynEvent π := ⟨.new signal, .unit⟩

def withPayload (signal : Signal) (payload : π) : DynEvent π := ⟨.new signal, .value payload⟩

/-- `cloned.header.signal = signal` on a clone, as `publish` does for each recipient. -/
def withSignal (e : DynEvent π) (signal : Signal) : DynEvent π :=
  { e with header := { e.header with signal := signal } }

@[simp] theorem signal_emptyDyn (s : Signal) : (emptyDyn s : DynEvent π).signal = s := rfl

end DynEvent

def qEmptySig : Signal := ⟨0⟩
def qEntrySig : Signal := ⟨1⟩
def qExitSig : Signal := ⟨2⟩
def qInitSig : Signal := ⟨3⟩
def qUserSig : Signal := ⟨4⟩

/-- Signals of the application start at `Q_USER_SIG`; the lower ones are reserved. -/
def IsUser {π : Type} (e : DynEvent π) : Prop := qUserSig.val ≤ e.signal.val

instance {π : Type} (e : DynEvent π) : Decidable (IsUser e) :=
  inferInstanceAs (Decidable (qUserSig.val ≤ e.signal.val))

theorem user_not_reserved {π : Type} {e : DynEvent π} (user : IsUser e) :
    e.signal ≠ qEmptySig ∧ e.signal ≠ qEntrySig ∧ e.signal ≠ qExitSig ∧ e.signal ≠ qInitSig := by
  refine ⟨?_, ?_, ?_, ?_⟩ <;> intro same <;>
    simp [IsUser, same, qUserSig, qEmptySig, qEntrySig, qExitSig, qInitSig] at user

/-- Duplicate storage (`qf/src/dis.rs`): `get` faults when the copies differ, and no value the code
builds has copies that differ. -/
structure Dup (α : Type) where
  a : α
  b : α
  agree : a = b

namespace Dup

variable {α : Type}

def new (value : α) : Dup α := ⟨value, value, rfl⟩

def get (d : Dup α) : α := d.a

def set (_ : Dup α) (value : α) : Dup α := new value

@[simp] theorem get_new (value : α) : (new value).get = value := rfl

@[simp] theorem get_set (d : Dup α) (value : α) : (d.set value).get = value := rfl

end Dup

/-- How a call can fail to return: a fault of the crash-only model, or a loop that is still running
when the fuel of the model is used up. -/
inductive Halt where
  | fault
  | outOfFuel
  deriving DecidableEq, Repr

end QpRs
