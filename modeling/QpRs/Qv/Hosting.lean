import QpRs.Qv.Dispatch
import QpRs.Lib.Hosting

/-! Active objects on the cooperative kernel QV as actors. Handlers and the idle callback post; only
outside code dispatches. -/

namespace QpRs.Qv

open Lib

variable {π : Type} {k : QvKernel}

/-- No `on_start` is running, and handlers are of registered objects. -/
def Frame.Plain (k : QvKernel) : Frame → Prop
  | .handling ao => ao ∈ k.objects
  | .starting _ _ => False
  | _ => True

/-- All objects are started, nothing has gone wrong, and only the innermost call is a handler. -/
structure Going (k : QvKernel) (w : World π) : Prop where
  clean : w.fault = none
  plain : ∀ frame ∈ w.stack, frame.Plain k
  shallow : heldBehaviors w.stack.tail = []

/-- `u` comes from `w`, in which no handler runs, by scheduling: at most one handler has been
started, on the first event of the queue of its object. -/
structure Schedules (k : QvKernel) (w u : World π) : Prop where
  going : Going k u
  begun : (heldBehaviors u.stack = [] ∧ ∀ ao, (u.queues ao).buf = (w.queues ao).buf) ∨
    ∃ ao e rest, ao ∈ k.objects ∧ (w.queues ao).buf = e :: rest ∧
      heldBehaviors u.stack = [ao] ∧
      ∀ other, (u.queues other).buf = if other = ao then rest else (w.queues other).buf

section Scheduling

variable {w : World π}

theorem dispatchOnce_cases (free : heldBehaviors w.stack = []) :
    (∃ u, w.dispatchOnce k = (false, u) ∧ u.stack = w.stack ∧ u.queues = w.queues ∧
      u.fault = w.fault) ∨
    ∃ u ao e rest, w.dispatchOnce k = (true, u) ∧ u.stack = .handling ao :: w.stack ∧
      ao ∈ k.objects ∧ (w.queues ao).buf = e :: rest ∧
      u.queues = Function.update w.queues ao { w.queues ao with buf := rest } ∧
      u.fault = w.fault := by
  have idle : w.noteIdle.queues = w.queues := by
    unfold World.noteIdle
    split <;> rfl
  unfold World.dispatchOnce
  cases found : k.objects.reverse.find? w.hasEvents with
  | none => exact .inl ⟨_, rfl, stack_noteIdle, idle, fault_noteIdle⟩
  | some ao =>
      have member : ao ∈ k.objects := List.mem_reverse.mp (List.mem_of_find?_eq_some found)
      have events : w.hasEvents ao = true := List.find?_some found
      simp only
      by_cases low : ao.priority ≤ w.schedCeiling
      · rw [if_pos low]
        exact .inl ⟨_, rfl, stack_noteIdle, idle, fault_noteIdle⟩
      · rw [if_neg low]
        obtain ⟨e, rest, content⟩ := List.exists_cons_of_ne_nil ((hasEvents_iff ao).mp events)
        have queues : (w.noteNext ao.priority).queues = w.queues := by
          unfold World.noteNext
          split <;> rfl
        have stack : (w.noteNext ao.priority).stack = w.stack := stack_noteNext ao.priority
        right
        simp only [World.dispatchOne, queues, stack, EventQueue.popFront, content, free,
          List.not_mem_nil, if_false]
        exact ⟨_, ao, e, rest, rfl, rfl, member, content, rfl, fault_noteNext ao.priority⟩

theorem schedules_dispatchOnce (going : Going k w) (free : heldBehaviors w.stack = []) :
    Schedules k w (w.dispatchOnce k).2 := by
  rcases dispatchOnce_cases (k := k) free with ⟨u, result, stack, queues, fault⟩ |
    ⟨u, ao, e, rest, result, stack, member, content, queues, fault⟩
  · rw [result]
    refine ⟨⟨by rw [fault, going.clean], ?_, ?_⟩, .inl ⟨?_, ?_⟩⟩
    · rw [stack]
      exact going.plain
    · rw [stack]
      exact going.shallow
    · rw [stack, free]
    · intro ao
      rw [queues]
  · rw [result]
    refine ⟨⟨by rw [fault, going.clean], ?_, ?_⟩, .inr ⟨ao, e, rest, member, content, ?_, ?_⟩⟩
    · rw [stack]
      exact List.forall_mem_cons.mpr ⟨member, going.plain⟩
    · rw [stack]
      exact free
    · rw [stack]
      exact congrArg (ao :: ·) free
    · intro other
      rw [queues]
      by_cases here : other = ao
      · subst here
        simp
      · simp [here]

theorem schedules_runUntilIdle (going : Going k w) (free : heldBehaviors w.stack = []) :
    Schedules k w (w.runUntilIdle k) := by
  have looping : heldBehaviors (.loop :: w.stack) = [] := free
  unfold World.runUntilIdle
  rcases dispatchOnce_cases (k := k) (w := { w with stack := .loop :: w.stack }) looping with
    ⟨u, result, stack, queues, fault⟩ |
    ⟨u, ao, e, rest, result, stack, member, content, queues, fault⟩
  · rw [result]
    have clean : u.fault = none := fault.trans going.clean
    unfold World.idle
    simp only
    split
    · refine ⟨⟨clean, List.forall_mem_cons.mpr ⟨trivial, going.plain⟩, free⟩, .inl ⟨free, ?_⟩⟩
      intro ao
      exact congrArg (fun queue => (queue ao).buf) queues
    · refine ⟨⟨clean, going.plain, held_tail free⟩, .inl ⟨free, ?_⟩⟩
      intro ao
      exact congrArg (fun queue => (queue ao).buf) queues
  · rw [result]
    refine ⟨⟨fault.trans going.clean, ?_, ?_⟩, .inr ⟨ao, e, rest, member, content, ?_, ?_⟩⟩
    · rw [stack]
      exact List.forall_mem_cons.mpr
        ⟨member, List.forall_mem_cons.mpr ⟨trivial, going.plain⟩⟩
    · rw [stack]
      exact looping
    · rw [stack]
      exact congrArg (ao :: ·) looping
    · intro other
      rw [queues]
      by_cases here : other = ao
      · subst here
        simp
      · simp [here]

theorem schedules_resume (going : Going k w) (free : heldBehaviors w.stack = []) :
    Schedules k w (w.resume k) := by
  have still : Schedules k w w := ⟨going, .inl ⟨free, fun _ => rfl⟩⟩
  unfold World.resume
  cases content : w.stack with
  | nil => exact still
  | cons frame rest =>
      cases frame with
      | loop =>
          have plain := going.plain
          rw [content] at free plain
          have popped : Going k { w with stack := rest } :=
            ⟨going.clean, (List.forall_mem_cons.mp plain).2, held_tail free⟩
          obtain ⟨after, begun⟩ := schedules_runUntilIdle popped free
          exact ⟨after, begun⟩
      | handling ao => exact still
      | idling => exact still
      | starting ao more => exact still

end Scheduling

/-- Where the active objects of an application are in the registry of a kernel. -/
structure Deployment (k : QvKernel) (ι : Type) where
  place : ι → ActiveObjectRef
  owner : ActiveObjectRef → Option ι
  ident : ι → ActiveObjectId
  party : ActiveObjectId → Option ι
  owner_place : ∀ i, owner (place i) = some i
  place_owner : ∀ ao i, owner ao = some i → place i = ao
  covers : ∀ ao ∈ k.objects, (owner ao).isSome
  party_ident : ∀ id i, party id = some i → ident i = id
  finds : ∀ i, k.byId (ident i) = some (place i)

namespace Deployment

variable {ι : Type} (D : Deployment k ι)

def view (w : World π) : View ι (DynEvent π) where
  mailbox i := (w.queues (D.place i)).buf
  running := (heldBehaviors w.stack).filterMap D.owner

/-- `dispatch_once` and `run_until_idle` are called from outside only. -/
def does (w : World π) : Action π → Option (Work ι (DynEvent π))
  | .call (.post target e) => (D.party target).map fun i => .post i e
  | .call .dispatchOnce => if w.stack = [] then some .other else none
  | .call .runUntilIdle => if w.stack = [] then some .other else none
  | .call (.lockScheduler _) => some .other
  | .call .unlockScheduler => some .other
  | .ret => if w.stack.head? = some .idling then some .other else some .ret
  | _ => none

variable {D}

theorem place_injective {i j : ι} (same : D.place i = D.place j) : i = j := by
  have owners := D.owner_place i
  rw [same, D.owner_place j] at owners
  exact (Option.some.inj owners).symm

/-- What QV schedules is what a kernel of actors may do. -/
theorem serves_of_schedules [DecidableEq ι] {w u : World π} {v : View ι (DynEvent π)}
    (schedules : Schedules k w u) (mailbox : v.mailbox = (D.view w).mailbox)
    (free : v.running = []) : v.Serves (D.view u) := by
  rcases schedules.begun with ⟨stack, queues⟩ | ⟨ao, e, rest, member, first, stack, queues⟩
  · have same : D.view u = v := by
      have kept : (D.view u).mailbox = v.mailbox := by
        rw [mailbox]
        funext i
        exact queues (D.place i)
      have none_running : (D.view u).running = v.running := by
        rw [free]
        simp [view, stack]
      exact View.ext kept none_running
    rw [same]
    exact .none
  · obtain ⟨i, owner⟩ := Option.isSome_iff_exists.mp (D.covers ao member)
    have place := D.place_owner ao i owner
    have begun : D.view u = v.begin i rest := by
      have running : (D.view u).running = i :: v.running := by
        simp [view, stack, owner, free]
      have taken : (D.view u).mailbox = Function.update v.mailbox i rest := by
        rw [mailbox]
        funext j
        by_cases here : j = i
        · subst here
          simp [view, queues, place]
        · have apart : D.place j ≠ ao := by
            intro same
            exact here (place_injective (same.trans place.symm))
          simp [view, queues, apart, here]
      unfold View.begin
      rw [← running, ← taken]
    rw [begun]
    have waits : i ∉ v.running := by
      rw [free]
      exact List.not_mem_nil
    have content : v.mailbox i = e :: rest := by
      rw [mailbox]
      simpa [view, place] using first
    exact .start waits content

theorem going_push {w : World π} (going : Going k w) (ao : ActiveObjectRef) (e : DynEvent π) :
    Going k (w.push ao e) := ⟨going.clean, going.plain, going.shallow⟩

theorem view_push [DecidableEq ι] (w : World π) (i : ι) (e : DynEvent π) :
    D.view (w.push (D.place i) e) = (D.view w).after (.post i e) := by
  apply View.ext
  · funext j
    by_cases here : j = i
    · subst here
      simp [view, View.after, World.push]
    · have apart : D.place j ≠ D.place i := fun same => here (place_injective same)
      simp [view, View.after, World.push, apart, here]
  · rfl

theorem step_serves [DecidableEq ι] {checks : Bool} {w w' : World π} {a : Action π}
    {work : Work ι (DynEvent π)}
    (going : Going k w) (does : D.does w a = some work) (stepped : w.step k checks a = some w') :
    Going k w' ∧ ((D.view w).after work).Serves (D.view w') := by
  rcases step_cases stepped with ⟨clean, ⟨c, rfl, rfl⟩ | ⟨ao, rest, rfl, top, rfl⟩ |
    ⟨ao, more, rest, -, top, rfl⟩ | ⟨rest, rfl, top, rfl⟩⟩
  · cases c with
    | post target e =>
        obtain ⟨i, party, same⟩ := Option.map_eq_some_iff.mp does
        subst same
        have found : k.byId target = some (D.place i) := by
          rw [← D.party_ident target i party]
          exact D.finds i
        have result : w.perform k checks (.post target e) = w.push (D.place i) e := by
          simp [World.perform, World.post, found]
        rw [result, ← view_push]
        exact ⟨going_push going _ e, .none⟩
    | dispatchOnce =>
        obtain ⟨outside, same⟩ := Option.ite_none_right_eq_some.mp does
        obtain rfl := Option.some.inj same
        have free : heldBehaviors w.stack = [] := by rw [outside]; rfl
        have schedules := schedules_dispatchOnce going free
        have idle : ((D.view w).after .other).running = [] := by
          simp [View.after, view, free]
        exact ⟨schedules.going, serves_of_schedules schedules rfl idle⟩
    | runUntilIdle =>
        obtain ⟨outside, same⟩ := Option.ite_none_right_eq_some.mp does
        obtain rfl := Option.some.inj same
        have free : heldBehaviors w.stack = [] := by rw [outside]; rfl
        have schedules := schedules_runUntilIdle going free
        have idle : ((D.view w).after .other).running = [] := by
          simp [View.after, view, free]
        exact ⟨schedules.going, serves_of_schedules schedules rfl idle⟩
    | lockScheduler ceiling =>
        obtain rfl := Option.some.inj does
        have same : D.view (w.perform k checks (.lockScheduler ceiling)) = D.view w := by
          simp only [World.perform, World.lockScheduler]
          split <;> rfl
        rw [same]
        refine ⟨?_, .none⟩
        simp only [World.perform, World.lockScheduler]
        split
        · exact ⟨going.clean, going.plain, going.shallow⟩
        · exact going
    | unlockScheduler =>
        obtain rfl := Option.some.inj does
        have same : D.view (w.perform k checks .unlockScheduler) = D.view w := by
          simp only [World.perform, World.unlockScheduler]
          split <;> rfl
        rw [same]
        refine ⟨?_, .none⟩
        simp only [World.perform, World.unlockScheduler]
        split
        · exact ⟨going.clean, going.plain, going.shallow⟩
        · exact going
    | start => cases does
    | publish signal e => cases does
    | subscribe signal prio => cases does
    | unsubscribe signal prio => cases does
    | unsubscribeAll prio => cases does
  · have plain := going.plain
    have free := going.shallow
    rw [top] at plain free
    have member : ao ∈ k.objects := (List.forall_mem_cons.mp plain).1
    have ret : D.does w .ret = some .ret := by simp [Deployment.does, top]
    obtain rfl := Option.some.inj (ret.symm.trans does)
    have popped : Going k { w with stack := rest } :=
      ⟨going.clean, (List.forall_mem_cons.mp plain).2, held_tail free⟩
    obtain ⟨after, begun⟩ := schedules_resume popped free
    have schedules : Schedules k w (World.resume k { w with stack := rest }) := ⟨after, begun⟩
    refine ⟨after, serves_of_schedules schedules rfl ?_⟩
    obtain ⟨i, owner⟩ := Option.isSome_iff_exists.mp (D.covers ao member)
    have below : heldBehaviors rest = [] := free
    simp [View.after, view, top, heldBehaviors, owner, below]
  · exact absurd (going.plain _ (by rw [top]; exact List.mem_cons_self)) id
  · have other : D.does w .ret = some .other := by simp [Deployment.does, top]
    obtain rfl := Option.some.inj (other.symm.trans does)
    have plain := going.plain
    have shallow := going.shallow
    rw [top] at plain shallow
    refine ⟨⟨going.clean, (List.forall_mem_cons.mp plain).2, held_tail shallow⟩, ?_⟩
    have same : D.view { w with stack := rest } = D.view w := by
      simp [view, top, heldBehaviors]
    rw [same]
    exact .none

variable (D)

/-- QV with a deployment, as a kernel of actors. -/
def kernel [DecidableEq ι] (checks : Bool) : Kernel ι (DynEvent π) (World π) (Action π) where
  step := World.step k checks
  does := D.does
  view := D.view
  Inv := Going k
  keeps _ _ _ _ going does stepped := (step_serves going does stepped).1
  serves _ _ _ _ going does stepped := (step_serves going does stepped).2

end Deployment

def hosted {ι : Type} {σ : ι → Type} (pubsub : Option PubSubTable) (state : (i : ι) → σ i) :
    Hosted ι σ (DynEvent π) (World π) := ⟨World.init pubsub, state, fun _ => []⟩

theorem hosted_reaches {ι : Type} {σ : ι → Type} {χ ω : Type} [DecidableEq ι] [DecidableEq π]
    (D : Deployment k ι) {checks : Bool} {A : Actors ι σ (DynEvent π) χ ω}
    {pubsub : Option PubSubTable} {state : (i : ι) → σ i}
    {labels : List (HostLabel ι (Action π) χ ω)} {good : Actors.Label ι χ ω → Prop}
    {h : Hosted ι σ (DynEvent π) (World π)} (within : ∀ l ∈ labels, l.Within good)
    (ran : run (Hosted.step A (D.kernel checks)) (hosted pubsub state) labels = some h) :
    Hosted.Reaches A (D.kernel checks) good ⟨state, fun _ => [], fun _ => []⟩ h := by
  have going : Going k (World.init pubsub : World π) :=
    ⟨rfl, fun _ member => absurd member List.not_mem_nil, rfl⟩
  have sound : Hosted.Sound (D.kernel checks) (hosted pubsub state : Hosted ι σ (DynEvent π) _) :=
    ⟨going, fun i busy => absurd rfl busy⟩
  exact Hosted.reaches_run sound within ran

/-- Active objects on QV are actors: any run of QV brings the active objects and their queues to a
state that they also come to as actors that run to completion one event at a time. -/
theorem qv_runs_actors {ι : Type} {σ : ι → Type} {χ ω : Type} [DecidableEq ι] [DecidableEq π]
    (k : QvKernel) (D : Deployment k ι) (checks : Bool) (A : Actors ι σ (DynEvent π) χ ω)
    (pubsub : Option PubSubTable) (state : (i : ι) → σ i)
    (labels : List (HostLabel ι (Action π) χ ω)) (good : Actors.Label ι χ ω → Prop)
    (within : ∀ l ∈ labels, l.Within good) (h : Hosted ι σ (DynEvent π) (World π))
    (ran : run (Hosted.step A (D.kernel checks)) (hosted pubsub state) labels = some h) :
    ∃ steps, (∀ l ∈ steps, good l) ∧
      run A.step ⟨state, fun _ => [], fun _ => []⟩ steps =
        some ⟨h.state, fun i => (h.world.queues (D.place i)).buf, h.todo⟩ :=
  (hosted_reaches D within ran).2

end QpRs.Qv
