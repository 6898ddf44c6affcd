import QpRs.Lib.Claims
import QpRs.Qv.Kernel
import Mathlib.Data.List.FinRange

/-! QV with the `smp` feature: any number of contexts run `dispatch_once` (`qf/src/kernel.rs`) over
one registry, each atomic access one step.

A context is an execution of `dispatch_once`: a core, or a handler on a core that dispatches inside.
Each slot has its own object. The mutex of the behavior is left out, so the exclusion shown here
rests on the slots alone. -/

namespace QpRs.Qv.Smp

/-- `CORE_ID_NONE` -/
def coreIdNone : Nat := 0xFF

abbrev Slot (k : QvKernel) := Fin k.objects.length

def prio {k : QvKernel} (slot : Slot k) : Nat := (k.objects.get slot).priority

/-- Where a context is in `dispatch_once`: at the next access that another context can see. -/
inductive Pc (k : QvKernel) (π : Type) where
  /-- Outside; next the load of `sched_ceiling`. -/
  | idle
  /-- In the `find`; next `has_events` of the first slot of `rest`. -/
  | scanning (ceiling : Nat) (rest : List (Slot k))
  /-- In the `find`; next the load of `executing_core`. -/
  | loading (ceiling : Nat) (slot : Slot k) (rest : List (Slot k))
  /-- Next the `compare_exchange`. -/
  | claiming (slot : Slot k)
  /-- Next the second `has_events`. -/
  | claimed (slot : Slot k)
  /-- In `dispatch_one`; next `pop_event`. -/
  | popping (slot : Slot k)
  /-- Next the handler. -/
  | popped (slot : Slot k) (e : DynEvent π)
  | handling (slot : Slot k) (e : DynEvent π)
  /-- Next the store of `CORE_ID_NONE`. -/
  | releasing (slot : Slot k) (dispatched : Bool)
  deriving DecidableEq

/-- `owner` and the lists after it are ghost state: the context that claimed a slot, and the events
put into each queue, taken out of it and given to its handler. -/
structure State (k : QvKernel) (ι π : Type) where
  schedCeiling : Nat
  executingCore : Slot k → Nat
  queues : Slot k → EventQueue π
  pcs : ι → Pc k π
  owner : Slot k → Option ι
  enqueued : Slot k → List (DynEvent π)
  taken : Slot k → List (DynEvent π)
  handled : Slot k → List (DynEvent π)

/-- A context takes its next access, a poster puts an event into a queue, or `lock_scheduler` or
`unlock_scheduler` stores a ceiling. -/
inductive Label (k : QvKernel) (ι π : Type) where
  | advance (c : ι)
  | post (slot : Slot k) (e : DynEvent π)
  | setCeiling (ceiling : Nat)

namespace State

variable {k : QvKernel} {ι π : Type} [DecidableEq ι]

def init : State k ι π where
  schedCeiling := 0
  executingCore := fun _ => coreIdNone
  queues := fun _ => .new
  pcs := fun _ => .idle
  owner := fun _ => none
  enqueued := fun _ => []
  taken := fun _ => []
  handled := fun _ => []

def hasEvents (s : State k ι π) (slot : Slot k) : Bool := !(s.queues slot).isEmpty

def goto (s : State k ι π) (c : ι) (pc : Pc k π) : State k ι π :=
  { s with pcs := Function.update s.pcs c pc }

/-- `coreId` is `current_core_id()`; contexts of one core share it. -/
def advance (coreId : ι → Fin 8) (s : State k ι π) (c : ι) : State k ι π :=
  match s.pcs c with
  | .idle => s.goto c (.scanning s.schedCeiling (List.finRange k.objects.length).reverse)
  | .scanning _ [] => s.goto c .idle
  | .scanning ceiling (slot :: rest) =>
      if prio slot > ceiling ∧ s.hasEvents slot then s.goto c (.loading ceiling slot rest)
      else s.goto c (.scanning ceiling rest)
  | .loading ceiling slot rest =>
      if s.executingCore slot = coreIdNone then s.goto c (.claiming slot)
      else s.goto c (.scanning ceiling rest)
  | .claiming slot =>
      if s.executingCore slot = coreIdNone then
        { s with
          executingCore := Function.update s.executingCore slot (coreId c).val
          owner := Function.update s.owner slot (some c) }.goto c (.claimed slot)
      else s.goto c .idle
  | .claimed slot =>
      if s.hasEvents slot then s.goto c (.popping slot) else s.goto c (.releasing slot false)
  | .popping slot =>
      match (s.queues slot).popFront with
      | (none, _) => s.goto c (.releasing slot false)
      | (some e, rest) =>
          { s with
            queues := Function.update s.queues slot rest
            taken := Function.update s.taken slot (s.taken slot ++ [e]) }.goto c (.popped slot e)
  | .popped slot e =>
      { s with handled := Function.update s.handled slot (s.handled slot ++ [e]) }.goto c
        (.handling slot e)
  | .handling slot _ => s.goto c (.releasing slot true)
  | .releasing slot _ =>
      { s with
        executingCore := Function.update s.executingCore slot coreIdNone
        owner := Function.update s.owner slot none }.goto c .idle

def step (coreId : ι → Fin 8) (s : State k ι π) : Label k ι π → Option (State k ι π)
  | .advance c => some (s.advance coreId c)
  | .post slot e => some { s with
      queues := Function.update s.queues slot ((s.queues slot).pushBack e)
      enqueued := Function.update s.enqueued slot (s.enqueued slot ++ [e]) }
  | .setCeiling ceiling => some { s with schedCeiling := ceiling }

end State

variable {k : QvKernel} {ι π : Type}

def Pc.holds : Pc k π → Option (Slot k)
  | .claimed slot => some slot
  | .popping slot => some slot
  | .popped slot _ => some slot
  | .handling slot _ => some slot
  | .releasing slot _ => some slot
  | _ => none

def Pc.carries : Pc k π → List (DynEvent π)
  | .popped _ e => [e]
  | _ => []

/-- The events taken out of a queue that have not reached the handler. -/
def State.inFlight (s : State k ι π) (slot : Slot k) : List (DynEvent π) :=
  (s.owner slot).elim [] fun c => (s.pcs c).carries

def State.claims (s : State k ι π) : Lib.Claims ι (Slot k) where
  mark := s.owner
  held c := (s.pcs c).holds.toList
  reserved _ := none

/-- Every slot has at most one holder, `executing_core` shows it, and the events of each queue are
the handled ones, the one in flight and the queued ones, in this order. -/
structure Inv [DecidableEq ι] (coreId : ι → Fin 8) (s : State k ι π) : Prop where
  exclusive : s.claims.Exclusive
  marks : ∀ slot, s.executingCore slot = (s.owner slot).elim coreIdNone fun c => (coreId c).val
  account : ∀ slot, s.enqueued slot = s.taken slot ++ (s.queues slot).buf
  order : ∀ slot, s.taken slot = s.handled slot ++ s.inFlight slot

section Steps

variable [DecidableEq ι] {coreId : ι → Fin 8} {s t : State k ι π} {c : ι}

/-- What an access of a context does. -/
inductive Moves (coreId : ι → Fin 8) (s : State k ι π) (c : ι) : State k ι π → Prop where
  | shift {pc : Pc k π} (holds : pc.holds = (s.pcs c).holds) (before : (s.pcs c).carries = [])
      (after : pc.carries = []) : Moves coreId s c (s.goto c pc)
  | claim {slot : Slot k} (free : s.executingCore slot = coreIdNone)
      (outside : (s.pcs c).holds = none) :
      Moves coreId s c ({ s with
        executingCore := Function.update s.executingCore slot (coreId c).val
        owner := Function.update s.owner slot (some c) }.goto c (.claimed slot))
  | take {slot : Slot k} {e : DynEvent π} {rest : EventQueue π} (stands : s.pcs c = .popping slot)
      (content : (s.queues slot).buf = e :: rest.buf) :
      Moves coreId s c ({ s with
        queues := Function.update s.queues slot rest
        taken := Function.update s.taken slot (s.taken slot ++ [e]) }.goto c (.popped slot e))
  | enter {slot : Slot k} {e : DynEvent π} (stands : s.pcs c = .popped slot e) :
      Moves coreId s c ({ s with
        handled := Function.update s.handled slot (s.handled slot ++ [e]) }.goto c
          (.handling slot e))
  | release {slot : Slot k} (holds : (s.pcs c).holds = some slot)
      (before : (s.pcs c).carries = []) :
      Moves coreId s c ({ s with
        executingCore := Function.update s.executingCore slot coreIdNone
        owner := Function.update s.owner slot none }.goto c .idle)

theorem advance_moves (coreId : ι → Fin 8) (s : State k ι π) (c : ι) :
    Moves coreId s c (s.advance coreId c) := by
  unfold State.advance
  cases pc : s.pcs c with
  | idle => exact .shift (by rw [pc]; rfl) (by rw [pc]; rfl) rfl
  | scanning ceiling rest =>
      cases rest with
      | nil => exact .shift (by rw [pc]; rfl) (by rw [pc]; rfl) rfl
      | cons slot rest =>
          simp only
          split <;> exact .shift (by rw [pc]; rfl) (by rw [pc]; rfl) rfl
  | loading ceiling slot rest =>
      simp only
      split <;> exact .shift (by rw [pc]; rfl) (by rw [pc]; rfl) rfl
  | claiming slot =>
      simp only
      split
      · rename_i free
        exact .claim free (by rw [pc]; rfl)
      · exact .shift (by rw [pc]; rfl) (by rw [pc]; rfl) rfl
  | claimed slot =>
      simp only
      split <;> exact .shift (by rw [pc]; rfl) (by rw [pc]; rfl) rfl
  | popping slot =>
      simp only [EventQueue.popFront]
      cases content : (s.queues slot).buf with
      | nil => exact .shift (by rw [pc]; rfl) (by rw [pc]; rfl) rfl
      | cons e rest => exact .take pc content
  | popped slot e => exact .enter pc
  | handling slot e => exact .shift (by rw [pc]; rfl) (by rw [pc]; rfl) rfl
  | releasing slot dispatched => exact .release (by rw [pc]; rfl) (by rw [pc]; rfl)

theorem claims_goto {pc : Pc k π} (holds : pc.holds = (s.pcs c).holds) :
    (s.goto c pc).claims = s.claims := by
  apply Lib.Claims.ext
  · rfl
  · funext c'
    by_cases here : c' = c
    · subst here
      simp [State.claims, State.goto, holds]
    · simp [State.claims, State.goto, here]
  · rfl

theorem Inv.owner_iff (inv : Inv coreId s) (c : ι) (slot : Slot k) :
    s.owner slot = some c ↔ (s.pcs c).holds = some slot := by
  have held : slot ∈ (s.pcs c).holds.toList ↔ s.owner slot = some c := inv.exclusive.mem_iff c slot
  rw [← held, Option.mem_toList]

theorem inFlight_goto (pc : Pc k π) (slot : Slot k) :
    (s.goto c pc).inFlight slot =
      if s.owner slot = some c then pc.carries else s.inFlight slot := by
  unfold State.inFlight State.goto
  cases owned : s.owner slot with
  | none => simp
  | some c' =>
      by_cases here : c' = c
      · subst here
        simp
      · simp [here]

theorem Inv.shift (inv : Inv coreId s) {pc : Pc k π} (holds : pc.holds = (s.pcs c).holds)
    (before : (s.pcs c).carries = []) (after : pc.carries = []) : Inv coreId (s.goto c pc) where
  exclusive := by
    rw [claims_goto holds]
    exact inv.exclusive
  marks := inv.marks
  account := inv.account
  order slot := by
    have order := inv.order slot
    rw [inFlight_goto]
    by_cases owned : s.owner slot = some c
    · rw [if_pos owned, after]
      simpa [State.inFlight, owned, before, State.goto] using order
    · rw [if_neg owned]
      exact order

theorem Inv.unowned (inv : Inv coreId s) {slot : Slot k}
    (free : s.executingCore slot = coreIdNone) :
    s.owner slot = none := by
  have mark := inv.marks slot
  rw [free] at mark
  cases owned : s.owner slot with
  | none => rfl
  | some c =>
      have low := (coreId c).isLt
      simp only [owned, Option.elim_some, coreIdNone] at mark
      omega

omit [DecidableEq ι] in
theorem marks_update {owner : Slot k → Option ι} {executing : Slot k → Nat}
    (marks : ∀ slot, executing slot = (owner slot).elim coreIdNone fun c => (coreId c).val)
    (slot : Slot k) (holder : Option ι) (other : Slot k) :
    Function.update executing slot (holder.elim coreIdNone fun c => (coreId c).val) other =
      (Function.update owner slot holder other).elim coreIdNone fun c => (coreId c).val := by
  by_cases here : other = slot
  · subst here
    simp
  · simpa [here] using marks other

theorem Inv.claim (inv : Inv coreId s) {slot : Slot k} (free : s.executingCore slot = coreIdNone)
    (outside : (s.pcs c).holds = none) :
    Inv coreId ({ s with
      executingCore := Function.update s.executingCore slot (coreId c).val
      owner := Function.update s.owner slot (some c) }.goto c (.claimed slot)) where
  exclusive := by
    have claims := inv.exclusive.take (k := c) (t := slot) (inv.unowned free)
        (by simp [State.claims])
    convert claims using 1
    apply Lib.Claims.ext
    · rfl
    · funext c'
      by_cases here : c' = c
      · subst here
        have claimed : (Pc.claimed slot : Pc k π).holds = some slot := rfl
        simp [State.claims, State.goto, claimed, outside]
      · simp [State.claims, State.goto, here]
    · funext c'
      simp [State.claims]
  marks := marks_update inv.marks slot (some c)
  account := inv.account
  order other := by
    have order := inv.order other
    rw [inFlight_goto]
    by_cases here : other = slot
    · subst here
      simpa [State.goto, Pc.carries, State.inFlight, inv.unowned free] using order
    · have unheld : s.owner other ≠ some c := by
        rw [Ne, inv.owner_iff, outside]
        simp
      simpa [State.goto, State.inFlight, here, unheld] using order

theorem Inv.take (inv : Inv coreId s) {slot : Slot k} {e : DynEvent π} {rest : EventQueue π}
    (stands : s.pcs c = .popping slot) (content : (s.queues slot).buf = e :: rest.buf) :
    Inv coreId ({ s with
      queues := Function.update s.queues slot rest
      taken := Function.update s.taken slot (s.taken slot ++ [e]) }.goto c (.popped slot e)) where
  exclusive := by
    have claims : (s.goto c (.popped slot e)).claims = s.claims := claims_goto (by rw [stands]; rfl)
    have exclusive := inv.exclusive
    rw [← claims] at exclusive
    exact exclusive
  marks := inv.marks
  account other := by
    have account := inv.account other
    by_cases here : other = slot
    · subst here
      simpa [State.goto, content] using account
    · simpa [State.goto, here] using account
  order other := by
    have order := inv.order other
    have holds : (s.pcs c).holds = some slot := by
      rw [stands]
      rfl
    rw [inFlight_goto]
    by_cases here : other = slot
    · subst here
      simpa [State.goto, State.inFlight, (inv.owner_iff c other).mpr holds, stands, Pc.carries]
        using order
    · have unheld : s.owner other ≠ some c := by
        rw [Ne, inv.owner_iff, holds, Option.some.injEq]
        exact fun same => here same.symm
      simpa [State.goto, State.inFlight, here, unheld] using order

theorem Inv.enter (inv : Inv coreId s) {slot : Slot k} {e : DynEvent π}
    (stands : s.pcs c = .popped slot e) :
    Inv coreId ({ s with
      handled := Function.update s.handled slot (s.handled slot ++ [e]) }.goto c
        (.handling slot e)) where
  exclusive := by
    have claims : (s.goto c (.handling slot e)).claims = s.claims :=
      claims_goto (by rw [stands]; rfl)
    have exclusive := inv.exclusive
    rw [← claims] at exclusive
    exact exclusive
  marks := inv.marks
  account := inv.account
  order other := by
    have order := inv.order other
    have holds : (s.pcs c).holds = some slot := by
      rw [stands]
      rfl
    rw [inFlight_goto]
    by_cases here : other = slot
    · subst here
      simpa [State.goto, State.inFlight, (inv.owner_iff c other).mpr holds, stands, Pc.carries]
        using order
    · have unheld : s.owner other ≠ some c := by
        rw [Ne, inv.owner_iff, holds, Option.some.injEq]
        exact fun same => here same.symm
      simpa [State.goto, State.inFlight, here, unheld] using order

theorem Inv.release (inv : Inv coreId s) {slot : Slot k} (holds : (s.pcs c).holds = some slot)
    (before : (s.pcs c).carries = []) :
    Inv coreId ({ s with
      executingCore := Function.update s.executingCore slot coreIdNone
      owner := Function.update s.owner slot none }.goto c .idle) where
  exclusive := by
    have held : (s.claims.held c).Perm (slot :: []) := by simp [State.claims, holds]
    have claims := inv.exclusive.release held
    convert claims using 1
    apply Lib.Claims.ext
    · rfl
    · funext c'
      by_cases here : c' = c
      · subst here
        have idle : (Pc.idle : Pc k π).holds = none := rfl
        simp [State.claims, State.goto, idle]
      · simp [State.claims, State.goto, here]
    · rfl
  marks := marks_update inv.marks slot none
  account := inv.account
  order other := by
    have order := inv.order other
    rw [inFlight_goto]
    by_cases here : other = slot
    · subst here
      simpa [State.goto, State.inFlight, (inv.owner_iff c other).mpr holds, before] using order
    · have unheld : s.owner other ≠ some c := by
        rw [Ne, inv.owner_iff, holds, Option.some.injEq]
        exact fun same => here same.symm
      simpa [State.goto, State.inFlight, here, unheld] using order

theorem inv_step (coreId : ι → Fin 8) (s : State k ι π) (l : Label k ι π) (t : State k ι π)
    (inv : Inv coreId s) (stepped : s.step coreId l = some t) : Inv coreId t := by
  cases l with
  | advance c =>
      have moved := advance_moves coreId s c
      rw [Option.some.inj stepped] at moved
      cases moved with
      | shift holds before after => exact inv.shift holds before after
      | claim free outside => exact inv.claim free outside
      | take stands content => exact inv.take stands content
      | enter stands => exact inv.enter stands
      | release holds before => exact inv.release holds before
  | post slot e =>
      rw [← Option.some.inj stepped]
      refine ⟨inv.exclusive, inv.marks, ?_, inv.order⟩
      intro other
      have account := inv.account other
      by_cases here : other = slot
      · subst here
        simp [account]
      · simpa [here] using account
  | setCeiling ceiling =>
      rw [← Option.some.inj stepped]
      exact ⟨inv.exclusive, inv.marks, inv.account, inv.order⟩

theorem inv_init (coreId : ι → Fin 8) : Inv coreId (State.init : State k ι π) where
  exclusive := .none_held fun _ => rfl
  marks _ := rfl
  account _ := rfl
  order _ := rfl

end Steps

def soloKernel : QvKernel := ⟨[⟨⟨1⟩, 3⟩], indexById [⟨⟨1⟩, 3⟩], false⟩

def soloSlot : Slot soloKernel := ⟨0, Nat.one_pos⟩

/-- Two contexts find the same event; the first claims the slot and the second loses the
exchange. -/
def contended : List (Label soloKernel (Fin 2) Unit) :=
  [.post soloSlot (.emptyDyn qUserSig), .advance 0, .advance 1, .advance 0, .advance 1,
    .advance 0, .advance 1, .advance 0, .advance 1, .advance 0, .advance 0, .advance 0]

end QpRs.Qv.Smp
