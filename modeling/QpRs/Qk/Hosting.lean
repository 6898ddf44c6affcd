import QpRs.Qk.Stack
import QpRs.Lib.Hosting

/-! Active objects on the QK kernel as actors: whatever handlers QK interrupts, and wherever they
call it back, each active object takes one event at a time from its queue. -/

namespace QpRs.Qk

open Lib

variable {π : Type} {k : QkKernel}

def Plain (stack : List Frame) : Prop := ∀ p more, Frame.starting p more ∉ stack

theorem Plain.tail {frame : Frame} {stack : List Frame} (plain : Plain (frame :: stack)) :
    Plain stack :=
  fun p more member => plain p more (List.mem_cons_of_mem frame member)

theorem Plain.cons {frame : Frame} {stack : List Frame} (plain : Plain stack)
    (other : ∀ p more, frame ≠ .starting p more) : Plain (frame :: stack) := by
  intro p more member
  rcases List.mem_cons.mp member with same | later
  · exact other p more same.symm
  · exact plain p more later

theorem held_plain {stack : List Frame} (plain : Plain stack) :
    heldBehaviors stack = activePrios stack := by
  induction stack with
  | nil => rfl
  | cons frame rest ih =>
      have below := ih plain.tail
      cases frame with
      | activation p rp rt before => exact congrArg (p :: ·) below
      | loop => exact below
      | starting p more => exact absurd List.mem_cons_self (plain p more)

/-- The kernel's invariant while all active objects are started and nothing has gone wrong. -/
structure Going (k : QkKernel) (w : World π) : Prop extends Inv k w where
  clean : w.fault = none
  plain : Plain w.stack

/-- `u` comes from `w` by scheduling: at most one activation has begun, of an active object that
was not running, on the first event of its queue. -/
structure Schedules (k : QkKernel) (w u : World π) : Prop where
  going : Going k u
  begun : (activePrios u.stack = activePrios w.stack ∧
      ∀ q, (u.queues q).buf = (w.queues q).buf) ∨
    ∃ p e rest, p ∉ activePrios w.stack ∧ k.Registered p ∧ (w.queues p).buf = e :: rest ∧
      activePrios u.stack = p :: activePrios w.stack ∧
      ∀ q, (u.queues q).buf = if q = p then rest else (w.queues q).buf

section Scheduling

variable {w : World π}

theorem Schedules.still {u : World π} (going : Going k u) (stack : u.stack = w.stack)
    (queues : u.queues = w.queues) : Schedules k w u := by
  refine ⟨going, .inl ⟨by rw [stack], ?_⟩⟩
  intro q
  rw [queues]

theorem Schedules.of_eq {v u : World π} (schedules : Schedules k v u)
    (stack : activePrios v.stack = activePrios w.stack) (queues : v.queues = w.queues) :
    Schedules k w u := by
  obtain ⟨going, begun⟩ := schedules
  rw [stack, queues] at begun
  exact ⟨going, begun⟩

theorem schedules_activateNext (sound : Sound k w) (clean : w.fault = none)
    (plain : Plain w.stack) {d : ScheduleDecision} {restorePrio restoreThreshold : Nat}
    {before : Nat × Nat} (pair : (restorePrio, restoreThreshold) = topPair k w.stack)
    (same : before = (restorePrio, restoreThreshold))
    (ready : w.sched.ready.contains d.nextPrio = true) (above : restoreThreshold < d.nextPrio)
    (free : w.sched.lockCeiling < d.nextPrio) (planned : w.sched.nextPrio = d.nextPrio) :
    Schedules k w (World.activateNext k w restorePrio restoreThreshold before d) := by
  have inv := sound.activateNext clean pair same ready above free planned
  have threshold : restoreThreshold = (topPair k w.stack).2 := congrArg Prod.snd pair
  obtain ⟨idle, registered, events⟩ := sound.eligible ready (threshold ▸ above)
  obtain ⟨slot, present⟩ := Option.isSome_iff_exists.mp registered
  obtain ⟨e, rest, content⟩ := List.exists_cons_of_ne_nil events
  have unheld : d.nextPrio ∉ heldBehaviors w.stack := by
    rw [held_plain plain]
    exact idle
  have result : World.activateNext k w restorePrio restoreThreshold before d =
      { w with
        sched := w.sched.commitActivation d slot.threshold
        stack := .activation d.nextPrio restorePrio restoreThreshold before :: w.stack
        starts := w.starts ++ [⟨d.nextPrio, (topPair k w.stack).2, w.sched.lockCeiling⟩]
        queues := Function.update w.queues d.nextPrio { w.queues d.nextPrio with buf := rest }
        handled := Function.update w.handled d.nextPrio (w.handled d.nextPrio ++ [e]) } := by
    simp [World.activateNext, present, planned, World.dispatchOne, EventQueue.popFront, content,
      unheld]
  rw [result] at inv ⊢
  refine ⟨⟨inv, clean, plain.cons nofun⟩, .inr ⟨d.nextPrio, e, rest, idle, registered, content,
    rfl, ?_⟩⟩
  intro q
  by_cases here : q = d.nextPrio
  · subst here
    simp
  · simp [here]

theorem Going.withSched (going : Going k w) (sched : QkScheduler)
    (ready : sched.ready = w.sched.ready) (prio : sched.activePrio = w.sched.activePrio)
    (threshold : sched.activeThreshold = w.sched.activeThreshold) :
    Going k { w with sched := sched } :=
  ⟨going.toInv.withSched sched ready prio threshold, going.clean, going.plain⟩

theorem schedules_activate (going : Going k w) {d : ScheduleDecision}
    (ready : w.sched.ready.contains d.nextPrio = true)
    (above : w.sched.activeThreshold < d.nextPrio) (free : w.sched.lockCeiling < d.nextPrio)
    (planned : w.sched.nextPrio = d.nextPrio) (previous : d.previousPrio = w.sched.activePrio) :
    Schedules k w (World.activate k w d) := by
  have threshold : k.thresholdFor w.sched.activePrio = some w.sched.activeThreshold := by
    have known := topPair_threshold going.stacked
    rw [← going.active] at known
    exact known
  unfold World.activate
  simp only [previous, threshold]
  exact schedules_activateNext going.toSound going.clean going.plain going.active rfl ready above
    free planned

theorem schedules_dispatchOnce (going : Going k w) : Schedules k w (w.dispatchOnce k) := by
  unfold World.dispatchOnce
  cases plan : w.sched.planActivation with
  | mk decision sched =>
      cases decision with
      | none =>
          rcases QkScheduler.planAbove_none plan with ⟨-, rfl⟩
          exact .still (going.withSched _ rfl rfl rfl) rfl rfl
      | some d =>
          rcases QkScheduler.planAbove_some plan with ⟨ready, above, free, previous, rfl⟩
          have planned := going.withSched { w.sched with nextPrio := d.nextPrio } rfl rfl rfl
          have schedules := schedules_activate planned ready above free rfl previous
          exact schedules.of_eq rfl rfl

theorem schedules_runUntilIdle (going : Going k w) : Schedules k w (w.runUntilIdle k) := by
  unfold World.runUntilIdle
  cases plan : w.sched.planActivation with
  | mk decision sched =>
      cases decision with
      | none =>
          rcases QkScheduler.planAbove_none plan with ⟨-, rfl⟩
          exact .still (going.withSched _ rfl rfl rfl) rfl rfl
      | some d =>
          rcases QkScheduler.planAbove_some plan with ⟨ready, above, free, previous, rfl⟩
          have planned := going.withSched { w.sched with nextPrio := d.nextPrio } rfl rfl rfl
          have looping := planned.toInv.withStack (.loop :: w.stack) going.stacked rfl
          have started : Going k { w with
              sched := { w.sched with nextPrio := d.nextPrio }
              stack := .loop :: w.stack } := ⟨looping, going.clean, going.plain.cons nofun⟩
          have schedules := schedules_activate started ready above free rfl previous
          exact schedules.of_eq rfl rfl

theorem schedules_resume (going : Going k w) : Schedules k w (w.resume k) := by
  unfold World.resume
  cases content : w.stack with
  | nil => exact .still going rfl rfl
  | cons frame rest =>
      cases frame with
      | loop =>
          have stacked := going.stacked
          rw [content] at stacked
          have plain := going.plain
          rw [content] at plain
          have popped : Going k { w with stack := rest } :=
            ⟨going.toInv.withStack rest stacked (by rw [content]; rfl), going.clean, plain.tail⟩
          have schedules := schedules_runUntilIdle popped
          exact schedules.of_eq (by rw [content]; rfl) rfl
      | activation p rp rt before => exact .still going rfl rfl
      | starting p more => exact .still going rfl rfl

theorem schedules_finish (going : Going k w) {p restorePrio restoreThreshold : Nat}
    {before : Nat × Nat} {rest : List Frame}
    (top : w.stack = .activation p restorePrio restoreThreshold before :: rest) :
    Schedules k { w with stack := rest }
      (World.finish k { w with stack := rest } p restorePrio restoreThreshold before) := by
  have stacked := going.stacked
  have plain := going.plain
  rw [top] at stacked plain
  obtain ⟨-, pair, same, -, below⟩ := stacked
  have settled := going.toSound.settle top
  have flat : (if World.hasEvents { w with stack := rest } p = true then { w with stack := rest }
      else { w with stack := rest, sched := w.sched.markNotReady p }) =
      { w with
        stack := rest
        sched := if w.hasEvents p = true then w.sched else w.sched.markNotReady p } := by
    show (if w.hasEvents p = true then _ else _) = _
    split <;> rfl
  simp only [World.finish, flat]
  generalize (if w.hasEvents p = true then w.sched else w.sched.markNotReady p) = sched at settled
  cases plan : sched.nextAfterDispatch restoreThreshold with
  | mk decision sched' =>
      cases decision with
      | some d =>
          rcases QkScheduler.planAbove_some plan with ⟨ready, above, free, -, rfl⟩
          have planned := settled.withSched { sched with nextPrio := d.nextPrio } rfl
          have schedules := schedules_activateNext planned going.clean plain.tail pair same ready
            above free rfl
          exact schedules.of_eq rfl rfl
      | none =>
          rcases QkScheduler.planAbove_none plan with ⟨-, rfl⟩
          rcases QkScheduler.restoreActive_frame { sched with nextPrio := 0 } restorePrio
            restoreThreshold with ⟨records, switches, restored⟩
          simp only [restored]
          refine Schedules.of_eq (schedules_resume ?_) rfl rfl
          refine ⟨⟨⟨settled.stacked, settled.waiting, settled.running, settled.unused,
            settled.account, settled.starts, ?_, settled.faults⟩, pair⟩, going.clean, plain.tail⟩
          intro r member
          rcases List.mem_append.mp member with old | new
          · exact settled.returns r old
          · rw [List.mem_singleton.mp new, same]

end Scheduling

/-- Where the active objects of an application are on a kernel. -/
structure Deployment (k : QkKernel) (ι : Type) where
  place : ι → Nat
  owner : Nat → Option ι
  ident : ι → ActiveObjectId
  party : ActiveObjectId → Option ι
  owner_place : ∀ i, owner (place i) = some i
  place_owner : ∀ p i, owner p = some i → place i = p
  covers : ∀ p, k.Registered p → (owner p).isSome
  party_ident : ∀ id i, party id = some i → ident i = id
  finds : ∀ i, k.idToPrio (ident i) = some (place i)

namespace Deployment

variable {ι : Type} (D : Deployment k ι)

def view (w : World π) : View ι (DynEvent π) where
  mailbox i := (w.queues (D.place i)).buf
  running := (activePrios w.stack).filterMap D.owner

/-- The calls that handlers and outside code make here: `post` and `post_and_run`, scheduling, and
locking the scheduler. -/
def does : World π → Action π → Option (Work ι (DynEvent π))
  | _, .call (.post target e) => (D.party target).map fun i => .post i e
  | _, .call (.postAndRun target e) => (D.party target).map fun i => .post i e
  | _, .call .dispatchOnce => some .other
  | _, .call .runUntilIdle => some .other
  | _, .call (.lockScheduler _) => some .other
  | _, .call (.unlockScheduler _) => some .other
  | _, .ret => some .ret
  | _, _ => none

variable {D}

theorem place_injective {i j : ι} (same : D.place i = D.place j) : i = j := by
  have owners := D.owner_place i
  rw [same, D.owner_place j] at owners
  exact (Option.some.inj owners).symm

theorem serves_of_schedules [DecidableEq ι] {w u : World π} {v : View ι (DynEvent π)}
    (schedules : Schedules k w u) (seen : v = D.view w) : v.Serves (D.view u) := by
  subst seen
  rcases schedules.begun with ⟨stack, queues⟩ | ⟨p, e, rest, idle, registered, first, stack, queues⟩
  · have same : D.view u = D.view w := by
      simp [view, stack, queues]
    rw [same]
    exact .none
  · obtain ⟨i, owner⟩ := Option.isSome_iff_exists.mp (D.covers p registered)
    have place := D.place_owner p i owner
    have waits : i ∉ (D.view w).running := by
      intro member
      obtain ⟨q, active, owns⟩ := List.mem_filterMap.mp member
      have there := D.place_owner q i owns
      rw [← there, place] at active
      exact idle active
    have begun : D.view u = (D.view w).begin i rest := by
      have running : (D.view u).running = i :: (D.view w).running := by
        simp [view, stack, owner]
      have mailbox : (D.view u).mailbox = Function.update (D.view w).mailbox i rest := by
        funext j
        by_cases here : j = i
        · subst here
          simp [view, queues, place]
        · have apart : D.place j ≠ p := by
            intro same
            exact here (place_injective (same.trans place.symm))
          simp [view, queues, apart, here]
      unfold View.begin
      rw [← running, ← mailbox]
    rw [begun]
    exact .start (m := e) waits (by simpa [view, place] using first)

theorem post_delivers {w : World π} {target : ActiveObjectId} {i : ι}
    (known : D.party target = some i) (going : Going k w) (e : DynEvent π) :
    w.post k target e = .ok (w.deliver (D.place i) e) ∧ Going k (w.deliver (D.place i) e) := by
  have found : k.idToPrio target = some (D.place i) := by
    rw [← D.party_ident target i known]
    exact D.finds i
  have registered := k.id_registered target (D.place i) found
  obtain ⟨slot, present⟩ := Option.isSome_iff_exists.mp registered
  obtain ⟨stack, fault, -, -⟩ := deliver_stack w (D.place i) e
  refine ⟨by simp [World.post, found, present], going.toInv.deliver registered e, ?_, ?_⟩
  · rw [fault, going.clean]
  · rw [stack]
    exact going.plain

theorem view_deliver [DecidableEq ι] {w : World π} {i : ι} (going : Going k w) (e : DynEvent π) :
    D.view (w.deliver (D.place i) e) = (D.view w).after (.post i e) := by
  have registered := k.id_registered (D.ident i) (D.place i) (D.finds i)
  have stack := (deliver_stack w (D.place i) e).1
  have queues := (deliver_effect registered going.toSound e).1
  have running : (D.view (w.deliver (D.place i) e)).running = (D.view w).running := by
    simp [view, stack]
  have mailbox : (D.view (w.deliver (D.place i) e)).mailbox =
      Function.update (D.view w).mailbox i ((D.view w).mailbox i ++ [e]) := by
    funext j
    by_cases here : j = i
    · subst here
      simp [view, queues]
    · have apart : D.place j ≠ D.place i := fun same => here (place_injective same)
      simp [view, queues, apart, here]
  have after : (D.view w).after (.post i e) =
      ⟨Function.update (D.view w).mailbox i ((D.view w).mailbox i ++ [e]), (D.view w).running⟩ :=
    rfl
  rw [after, ← running, ← mailbox]

theorem step_serves [DecidableEq ι] {checks : Bool} {w w' : World π} {a : Action π}
    {work : Work ι (DynEvent π)} (going : Going k w) (does : D.does w a = some work)
    (stepped : w.step k checks a = some w') :
    Going k w' ∧ ((D.view w).after work).Serves (D.view w') := by
  rcases step_cases stepped with ⟨clean, ⟨c, rfl, -, rfl⟩ |
    ⟨p, rp, rt, before, rest, rfl, top, rfl⟩ | ⟨p, more, below, -, top, rfl⟩⟩
  · cases c with
    | post target e =>
        obtain ⟨i, known, same⟩ := Option.map_eq_some_iff.mp does
        obtain ⟨posted, after⟩ := post_delivers known going e
        subst same
        have result : w.perform k checks (.post target e) = w.deliver (D.place i) e := by
          simp [World.perform, posted]
        rw [result, ← view_deliver going e]
        exact ⟨after, .none⟩
    | postAndRun target e =>
        obtain ⟨i, known, same⟩ := Option.map_eq_some_iff.mp does
        obtain ⟨posted, after⟩ := post_delivers known going e
        subst same
        have result : w.perform k checks (.postAndRun target e) =
            (w.deliver (D.place i) e).runUntilIdle k := by
          simp [World.perform, posted, World.thenRun, after.clean]
        have schedules := schedules_runUntilIdle after
        rw [result]
        exact ⟨schedules.going, serves_of_schedules schedules (view_deliver going e).symm⟩
    | dispatchOnce =>
        obtain rfl := Option.some.inj does
        have schedules := schedules_dispatchOnce going
        exact ⟨schedules.going, serves_of_schedules schedules rfl⟩
    | runUntilIdle =>
        obtain rfl := Option.some.inj does
        have schedules := schedules_runUntilIdle going
        exact ⟨schedules.going, serves_of_schedules schedules rfl⟩
    | lockScheduler ceiling =>
        obtain rfl := Option.some.inj does
        have frame := w.sched.lock_frame ceiling
        exact ⟨going.withSched _ frame.1 frame.2.1 frame.2.2, .none⟩
    | unlockScheduler status =>
        obtain rfl := Option.some.inj does
        have frame := w.sched.unlock_frame status
        have released := going.withSched (w.sched.unlock status) frame.1 frame.2.1 frame.2.2
        cases status with
        | unlocked => exact ⟨released, .none⟩
        | locked value =>
            have schedules := schedules_dispatchOnce released
            exact ⟨schedules.going, serves_of_schedules schedules rfl⟩
    | start => cases does
    | publish signal e => cases does
    | publishAndRun signal e => cases does
    | subscribe signal prio => cases does
    | unsubscribe signal prio => cases does
    | unsubscribeAll prio => cases does
  · obtain rfl := Option.some.inj does
    have schedules := schedules_finish going top
    refine ⟨schedules.going, serves_of_schedules schedules ?_⟩
    have stacked := going.stacked
    rw [top] at stacked
    obtain ⟨i, owner⟩ := Option.isSome_iff_exists.mp (D.covers p stacked.1)
    simp [view, View.after, top, activePrios, owner]
  · exact absurd (by rw [top]; exact List.mem_cons_self) (going.plain p more)

variable (D)

/-- QK with a deployment, as a kernel of actors. -/
def kernel [DecidableEq ι] (checks : Bool) : Kernel ι (DynEvent π) (World π) (Action π) where
  step := World.step k checks
  does := D.does
  view := D.view
  Inv := Going k
  keeps _ _ _ _ going does stepped := (step_serves going does stepped).1
  serves _ _ _ _ going does stepped := (step_serves going does stepped).2

end Deployment

def hosted {ι : Type} {σ : ι → Type} (pubsub : Option PubSubTable) (state : (i : ι) → σ i) :
    Hosted ι σ (DynEvent π) (World π) := ⟨World.init pubsub, state, fun _ => []⟩

theorem hosted_reaches {ι : Type} {σ : ι → Type} {χ ω : Type} [DecidableEq ι] [DecidableEq π]
    (D : Deployment k ι) {checks : Bool} {A : Actors ι σ (DynEvent π) χ ω}
    {pubsub : Option PubSubTable} {state : (i : ι) → σ i}
    {labels : List (HostLabel ι (Action π) χ ω)} {good : Actors.Label ι χ ω → Prop}
    {h : Hosted ι σ (DynEvent π) (World π)} (within : ∀ l ∈ labels, l.Within good)
    (ran : run (Hosted.step A (D.kernel checks)) (hosted pubsub state) labels = some h) :
    Hosted.Reaches A (D.kernel checks) good ⟨state, fun _ => [], fun _ => []⟩ h := by
  have going : Going k (World.init pubsub : World π) :=
    ⟨inv_init k pubsub, rfl, fun _ _ => List.not_mem_nil⟩
  have sound : Hosted.Sound (D.kernel checks) (hosted pubsub state : Hosted ι σ (DynEvent π) _) :=
    ⟨going, fun i busy => absurd rfl busy⟩
  exact Hosted.reaches_run sound within ran

/-- Active objects on QK are actors: any run of QK, with any nesting of activations, any calls of
the scheduler by handlers and any interrupts that post, brings the active objects and their queues
to a state that they also come to as actors that run to completion one event at a time. -/
theorem qk_runs_actors {ι : Type} {σ : ι → Type} {χ ω : Type} [DecidableEq ι] [DecidableEq π]
    (k : QkKernel) (D : Deployment k ι) (checks : Bool) (A : Actors ι σ (DynEvent π) χ ω)
    (pubsub : Option PubSubTable) (state : (i : ι) → σ i)
    (labels : List (HostLabel ι (Action π) χ ω)) (good : Actors.Label ι χ ω → Prop)
    (within : ∀ l ∈ labels, l.Within good) (h : Hosted ι σ (DynEvent π) (World π))
    (ran : run (Hosted.step A (D.kernel checks)) (hosted pubsub state) labels = some h) :
    ∃ steps, (∀ l ∈ steps, good l) ∧
      run A.step ⟨state, fun _ => [], fun _ => []⟩ steps =
        some ⟨h.state, fun i => (h.world.queues (D.place i)).buf, h.todo⟩ :=
  (hosted_reaches D within ran).2

end QpRs.Qk
