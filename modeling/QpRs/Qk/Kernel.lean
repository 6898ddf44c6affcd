import QpRs.Qk.Scheduler
import Mathlib.Logic.Function.Basic

/-! The QK kernel (`qk/src/kernel.rs`), single core.

Handlers are code of the application and may call the kernel back, so a state of the kernel carries
the stack of its unfinished calls, and a step is one call of the running code or the return of the
running handler. Everything between two steps runs without a handler. -/

namespace QpRs.Qk

def maxPriority : Nat := 63

inductive QkKernelError where
  | duplicatePriority (priority : Nat)
  | notFound (id : ActiveObjectId)
  | invalidPriority (priority : Nat) (reason : String)
  | invalidThreshold (threshold priority : Nat)
  deriving DecidableEq, Repr

/-- `QPrioSpec` as its two bytes. -/
structure QPrioSpec where
  low : Nat
  high : Nat
  deriving DecidableEq, Repr

def QPrioSpec.threshold (spec : QPrioSpec) : Nat := if spec.high = 0 then spec.low else spec.high

/-- A registration the builder accepted. -/
structure Registration where
  object : ActiveObjectRef
  threshold : Nat
  positive : 0 < object.priority
  inRange : object.priority ≤ maxPriority
  above : object.priority ≤ threshold
  thresholdInRange : threshold ≤ maxPriority

def validatePriority (priority : Nat) :
    Except QkKernelError (PLift (0 < priority ∧ priority ≤ maxPriority)) :=
  if zero : priority = 0 then
    .error (.invalidPriority priority "priority 0 is reserved for the idle thread")
  else if high : priority > maxPriority then
    .error (.invalidPriority priority "exceeds supported range 1..63")
  else .ok ⟨by omega, by omega⟩

def validateThreshold (threshold priority : Nat) :
    Except QkKernelError (PLift (priority ≤ threshold ∧ threshold ≤ maxPriority)) :=
  if low : threshold < priority then .error (.invalidThreshold threshold priority)
  else if high : threshold > maxPriority then
    .error (.invalidPriority threshold "threshold exceeds supported range 1..63")
  else .ok ⟨by omega, by omega⟩

structure QkKernelBuilder where
  registrations : List Registration
  pubsub : Option PubSubTable

namespace QkKernelBuilder

def new : QkKernelBuilder := ⟨[], none⟩

def psInit (b : QkKernelBuilder) (maxSignal : Nat) : QkKernelBuilder :=
  { b with pubsub := some (.new maxSignal) }

def register (b : QkKernelBuilder) (object : ActiveObjectRef) :
    Except QkKernelError QkKernelBuilder := do
  let ⟨valid⟩ ← validatePriority object.priority
  return { b with registrations := b.registrations ++
    [⟨object, object.priority, valid.1, valid.2, le_refl _, valid.2⟩] }

def registerWithThreshold (b : QkKernelBuilder) (object : ActiveObjectRef) (threshold : Nat) :
    Except QkKernelError QkKernelBuilder := do
  let ⟨valid⟩ ← validatePriority object.priority
  let ⟨above⟩ ← validateThreshold threshold object.priority
  return { b with registrations := b.registrations ++
    [⟨object, threshold, valid.1, valid.2, above.1, above.2⟩] }

def registerPrio (b : QkKernelBuilder) (object : ActiveObjectRef) (spec : QPrioSpec) :
    Except QkKernelError QkKernelBuilder :=
  b.registerWithThreshold object spec.threshold

end QkKernelBuilder

structure ActiveSlot where
  object : ActiveObjectRef
  threshold : Nat

/-- The parts of a built kernel that never change. -/
structure QkKernel where
  slots : Nat → Option ActiveSlot
  idToPrio : ActiveObjectId → Option Nat
  slot_priority : ∀ p slot, slots p = some slot → slot.object.priority = p
  slot_positive : ∀ p slot, slots p = some slot → 0 < p
  slot_inRange : ∀ p slot, slots p = some slot → p ≤ maxPriority
  slot_threshold : ∀ p slot, slots p = some slot → p ≤ slot.threshold
  id_registered : ∀ id p, idToPrio id = some p → (slots p).isSome

namespace QkKernel

def none : QkKernel where
  slots _ := .none
  idToPrio _ := .none
  slot_priority := by simp
  slot_positive := by simp
  slot_inRange := by simp
  slot_threshold := by simp
  id_registered := by simp

/-- One round of the loop of `QkKernel::new`. -/
def add (k : QkKernel) (r : Registration) : Except QkKernelError QkKernel :=
  if taken : (k.slots r.object.priority).isSome then
    .error (.duplicatePriority r.object.priority)
  else .ok
    { slots := Function.update k.slots r.object.priority (some ⟨r.object, r.threshold⟩)
      idToPrio := Function.update k.idToPrio r.object.id (some r.object.priority)
      slot_priority := by
        intro p slot found
        by_cases here : p = r.object.priority
        · subst here
          simp only [Function.update_self, Option.some.injEq] at found
          rw [← found]
        · rw [Function.update_of_ne here] at found
          exact k.slot_priority p slot found
      slot_positive := by
        intro p slot found
        by_cases here : p = r.object.priority
        · rw [here]
          exact r.positive
        · rw [Function.update_of_ne here] at found
          exact k.slot_positive p slot found
      slot_inRange := by
        intro p slot found
        by_cases here : p = r.object.priority
        · rw [here]
          exact r.inRange
        · rw [Function.update_of_ne here] at found
          exact k.slot_inRange p slot found
      slot_threshold := by
        intro p slot found
        by_cases here : p = r.object.priority
        · subst here
          simp only [Function.update_self, Option.some.injEq] at found
          rw [← found]
          exact r.above
        · rw [Function.update_of_ne here] at found
          exact k.slot_threshold p slot found
      id_registered := by
        intro id p found
        by_cases here : p = r.object.priority
        · subst here
          simp
        · rw [Function.update_of_ne here]
          by_cases same : id = r.object.id
          · subst same
            simp only [Function.update_self, Option.some.injEq] at found
            exact absurd found.symm here
          · rw [Function.update_of_ne same] at found
            exact k.id_registered id p found }

def build (b : QkKernelBuilder) : Except QkKernelError (QkKernel × Option PubSubTable) := do
  let k ← b.registrations.foldlM add none
  return (k, b.pubsub)

def Registered (k : QkKernel) (p : Nat) : Prop := (k.slots p).isSome

instance (k : QkKernel) (p : Nat) : Decidable (k.Registered p) :=
  inferInstanceAs (Decidable ((k.slots p).isSome = true))

/-- `threshold_for`; the reserved priority 0 has threshold 0. -/
def thresholdFor (k : QkKernel) (prio : Nat) : Option Nat :=
  if prio = 0 then some 0 else (k.slots prio).map ActiveSlot.threshold

/-- `self.slots.iter().flatten()`, by priority. -/
def registered (k : QkKernel) : List Nat :=
  (List.range (maxPriority + 1)).filter fun p => (k.slots p).isSome

end QkKernel

variable {k : QkKernel} {p : Nat}

theorem registered_lt (registered : k.Registered p) : p < 64 := by
  rcases Option.isSome_iff_exists.mp registered with ⟨slot, found⟩
  have := k.slot_inRange p slot found
  unfold maxPriority at this
  omega

theorem mem_registered (member : p ∈ k.registered) : k.Registered p := by
  unfold QkKernel.registered at member
  exact (List.mem_filter.mp member).2

def pairKernel : QkKernel :=
  match (do
      let b ← QkKernelBuilder.new.register ⟨⟨1⟩, 2⟩
      let b ← b.register ⟨⟨2⟩, 5⟩
      QkKernel.build b) with
  | .ok (k, _) => k
  | .error _ => .none

end QpRs.Qk
