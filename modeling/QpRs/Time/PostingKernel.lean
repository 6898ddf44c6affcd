import QpRs.Qk.Frame
import QpRs.Qv.Kernel
import QpRs.Time.TimeEvent

/-! The two kernels as their timer wheels use them: `Kernel::post` of `qf/src/kernel.rs` and
`QkKernel::post_and_run` of `qk/src/kernel.rs`, beside what other code does with the kernel. -/

namespace QpRs

/-- A kernel that takes expired time events. `A` are the steps of other code: handlers, interrupts,
other calls. `received` is every event posted to a target so far. -/
structure PostingKernel (π W E A : Type) where
  post : W → ActiveObjectId → DynEvent π → Except E W
  /-- The latest call of `post` has returned to its caller. -/
  returned : W → Bool
  step : W → A → Option W
  registered : ActiveObjectId → Bool
  received : W → ActiveObjectId → List (DynEvent π)
  step_grows : ∀ w a w' id, step w a = some w' → received w id <+: received w' id
  post_grows : ∀ w target e w' id, post w target e = .ok w' → received w id <+: received w' id
  post_registered : ∀ w target e, registered target = true →
    ∃ w', post w target e = .ok w' ∧ received w target ++ [e] <+: received w' target
  post_unregistered : ∀ w target e, registered target = false → ∃ err, post w target e = .error err

theorem prefix_update {ι α : Type} [DecidableEq ι] (lists : ι → List α) (i j : ι) (more : List α) :
    lists j <+: Function.update lists i (lists i ++ more) j := by
  by_cases here : j = i
  · rw [here, Function.update_self]
    exact List.prefix_append _ _
  · exact (Function.update_of_ne here _ lists).symm ▸ List.prefix_rfl

namespace Qv

variable {π : Type} {k : QvKernel} {w u v : World π}

def Grows (w w' : World π) : Prop := ∀ ao, w.enqueued ao <+: w'.enqueued ao

theorem Grows.of_eq (same : v.enqueued = w.enqueued) : Grows w v :=
  fun _ => same ▸ List.prefix_rfl

theorem Grows.trans (first : Grows w u) (second : Grows u v) : Grows w v :=
  fun ao => (first ao).trans (second ao)

theorem grows_push (w : World π) (ao : ActiveObjectRef) (e : DynEvent π) : Grows w (w.push ao e) :=
  fun other => prefix_update w.enqueued ao other [e]

theorem grows_multicast (checks : Bool) (subscribers : BitVec 64) (e : DynEvent π)
    (objects : List ActiveObjectRef) (w : World π) :
    Grows w (w.multicast checks subscribers e objects) := by
  induction objects generalizing w with
  | nil => exact .of_eq rfl
  | cons ao rest ih =>
      unfold World.multicast
      split
      · exact .of_eq rfl
      · split
        · exact (grows_push w ao e).trans (ih _)
        · exact ih w

theorem grows_broadcast (e : DynEvent π) (objects : List ActiveObjectRef) (w : World π) :
    Grows w (w.broadcast e objects) := by
  induction objects generalizing w with
  | nil => exact .of_eq rfl
  | cons ao rest ih => exact (grows_push w ao e).trans (ih _)

theorem grows_publish (checks : Bool) (signal : Signal) (e : DynEvent π) :
    Grows w (w.publish k checks signal e) := by
  unfold World.publish
  split
  · split
    · exact .of_eq rfl
    · exact grows_multicast _ _ _ _ (w.emit (.publish signal))
  · exact grows_broadcast _ _ w

theorem enqueued_noteIdle : w.noteIdle.enqueued = w.enqueued := by
  unfold World.noteIdle
  split <;> rfl

theorem enqueued_noteNext (prio : Nat) : (w.noteNext prio).enqueued = w.enqueued := by
  unfold World.noteNext
  split <;> rfl

theorem enqueued_dispatchOne (ao : ActiveObjectRef) (waiting : List ActiveObjectRef) :
    (w.dispatchOne ao waiting).2.enqueued = w.enqueued := by
  unfold World.dispatchOne
  split
  · rfl
  · simp only
    split <;> rfl

theorem enqueued_dispatchOnce : (w.dispatchOnce k).2.enqueued = w.enqueued := by
  unfold World.dispatchOnce
  split
  · split
    · exact enqueued_noteIdle
    · exact (enqueued_dispatchOne _ _).trans (enqueued_noteNext _)
  · exact enqueued_noteIdle

theorem enqueued_idle : (w.idle k).enqueued = w.enqueued := by
  unfold World.idle
  split <;> rfl

theorem enqueued_runUntilIdle : (w.runUntilIdle k).enqueued = w.enqueued := by
  have dispatched := enqueued_dispatchOnce (k := k) (w := { w with stack := .loop :: w.stack })
  unfold World.runUntilIdle
  split
  · rename_i same
    rw [same] at dispatched
    exact dispatched
  · rename_i same
    rw [same] at dispatched
    exact enqueued_idle.trans dispatched

theorem enqueued_resume : (w.resume k).enqueued = w.enqueued := by
  unfold World.resume
  split
  · exact enqueued_runUntilIdle
  · rfl

theorem enqueued_startFrom (more : List ActiveObjectRef) :
    (w.startFrom more).enqueued = w.enqueued := by
  unfold World.startFrom
  split
  · rfl
  · split <;> rfl

theorem enqueued_updateTable (change : PubSubTable → Except Halt PubSubTable)
    (record : Option Record) : (w.updateTable change record).enqueued = w.enqueued := by
  unfold World.updateTable
  split
  · rfl
  · split
    · rfl
    · cases record <;> rfl

theorem grows_post {target : ActiveObjectId} {e : DynEvent π} {w' : World π}
    (posted : w.post k target e = .ok w') : Grows w w' := by
  unfold World.post at posted
  split at posted
  · cases posted
    exact grows_push w _ e
  · cases posted

theorem grows_perform (checks : Bool) (c : Call π) : Grows w (w.perform k checks c) := by
  cases c with
  | start => exact .of_eq (enqueued_startFrom _)
  | post target e =>
      cases posted : w.post k target e with
      | ok w' => simpa only [World.perform, posted] using grows_post posted
      | error err => exact .of_eq (by simp only [World.perform, posted])
  | publish signal e => exact grows_publish checks signal e
  | dispatchOnce => exact .of_eq enqueued_dispatchOnce
  | runUntilIdle => exact .of_eq enqueued_runUntilIdle
  | lockScheduler ceiling =>
      refine .of_eq ?_
      rw [World.perform, World.lockScheduler]
      split <;> rfl
  | unlockScheduler =>
      refine .of_eq ?_
      rw [World.perform, World.unlockScheduler]
      split <;> rfl
  | subscribe signal prio => exact .of_eq (enqueued_updateTable _ _)
  | unsubscribe signal prio => exact .of_eq (enqueued_updateTable _ _)
  | unsubscribeAll prio => exact .of_eq (enqueued_updateTable _ _)

theorem grows_step (checks : Bool) {a : Action π} {w' : World π}
    (stepped : w.step k checks a = some w') : Grows w w' := by
  unfold World.step at stepped
  split at stepped
  · cases stepped
  · split at stepped <;> cases stepped
    · exact grows_perform checks _
    · exact .of_eq enqueued_resume
    · exact .of_eq (enqueued_startFrom _)
    · exact .of_eq rfl

/-- Every event posted to the object with the id. -/
def received (k : QvKernel) (w : World π) (id : ActiveObjectId) : List (DynEvent π) :=
  match k.byId id with
  | some ao => w.enqueued ao
  | none => []

theorem Grows.received (grows : Grows w v) (id : ActiveObjectId) :
    Qv.received k w id <+: Qv.received k v id := by
  unfold Qv.received
  split
  · exact grows _
  · exact List.prefix_rfl

theorem received_post {target : ActiveObjectId} {ao : ActiveObjectRef}
    (found : k.byId target = some ao)
    (e : DynEvent π) :
    w.post k target e = .ok (w.push ao e) ∧
      received k (w.push ao e) target = received k w target ++ [e] := by
  simp [World.post, received, found, World.push]

/-- The kernel of `TimerWheel`; its `post` only queues. -/
def postingKernel (k : QvKernel) (checks : Bool) :
    PostingKernel π (World π) KernelError (Action π) where
  post w target e := w.post k target e
  returned w := w.fault.isNone
  step w a := w.step k checks a
  registered id := (k.byId id).isSome
  received := received k
  step_grows _ _ _ id stepped := (grows_step checks stepped).received id
  post_grows _ _ _ _ id posted := (grows_post posted).received id
  post_registered w target e found := by
    obtain ⟨ao, found⟩ := Option.isSome_iff_exists.mp found
    obtain ⟨posted, appended⟩ := received_post (w := w) found e
    exact ⟨w.push ao e, posted, appended ▸ List.prefix_rfl⟩
  post_unregistered w target e missing := by
    have missing : k.byId target = none := by simpa using missing
    exact ⟨.notFound target, by simp [World.post, missing]⟩

end Qv

namespace Qk

variable {π : Type} {k : QkKernel} {w u v : World π}

def Grows (w w' : World π) : Prop := ∀ p, w.posted p <+: w'.posted p

theorem Grows.of_eq (same : v.posted = w.posted) : Grows w v :=
  fun _ => same ▸ List.prefix_rfl

theorem Grows.trans (first : Grows w u) (second : Grows u v) : Grows w v :=
  fun p => (first p).trans (second p)

theorem posted_deliver (w : World π) (p : Nat) (e : DynEvent π) :
    (w.deliver p e).posted = Function.update w.posted p (w.posted p ++ [e]) := by
  unfold World.deliver
  simp only
  split <;> rfl

theorem grows_deliver (w : World π) (p : Nat) (e : DynEvent π) : Grows w (w.deliver p e) := by
  intro other
  rw [posted_deliver]
  exact prefix_update w.posted p other [e]

theorem grows_deliverAll (e : DynEvent π) (recipients : List Nat) (w : World π) :
    Grows w (World.deliverAll e w recipients) := by
  induction recipients generalizing w with
  | nil => exact .of_eq rfl
  | cons p rest ih => exact (grows_deliver w p e).trans (ih _)

theorem grows_publish (signal : Signal) (e : DynEvent π) : Grows w (w.publish k signal e) := by
  unfold World.publish
  split
  · simp only
    split
    · exact .of_eq rfl
    · have told : Grows w { w with sched := w.sched.emitRecord (.publish signal) } := .of_eq rfl
      exact told.trans (grows_deliverAll _ _ _)
  · exact grows_deliverAll _ _ _

theorem posted_dispatchOne (w : World π) (p : Nat) (below : List Frame) :
    (w.dispatchOne p below).posted = w.posted := by
  unfold World.dispatchOne
  split
  · rfl
  · simp only
    split <;> rfl

theorem posted_activateNext (restorePrio restoreThreshold : Nat) (before : Nat × Nat)
    (d : ScheduleDecision) :
    (w.activateNext k restorePrio restoreThreshold before d).posted = w.posted := by
  unfold World.activateNext
  split
  · rfl
  · split
    · rfl
    · exact posted_dispatchOne _ _ _

theorem posted_activate (d : ScheduleDecision) : (w.activate k d).posted = w.posted := by
  simp only [World.activate]
  split
  · rfl
  · exact posted_activateNext _ _ _ _

theorem posted_dispatchOnce : (w.dispatchOnce k).posted = w.posted := by
  unfold World.dispatchOnce
  split
  · exact posted_activate _
  · rfl

theorem posted_runUntilIdle : (w.runUntilIdle k).posted = w.posted := by
  unfold World.runUntilIdle
  split
  · exact posted_activate _
  · rfl

theorem posted_thenRun : (w.thenRun k).posted = w.posted := by
  unfold World.thenRun
  split
  · rfl
  · exact posted_runUntilIdle

theorem posted_resume : (w.resume k).posted = w.posted := by
  unfold World.resume
  split
  · exact posted_runUntilIdle
  · rfl

theorem posted_finish (p restorePrio restoreThreshold : Nat) (before : Nat × Nat) :
    (World.finish k w p restorePrio restoreThreshold before).posted = w.posted := by
  have settled : (if w.hasEvents p then w
      else { w with sched := w.sched.markNotReady p }).posted = w.posted := by
    split <;> rfl
  simp only [World.finish]
  split
  · exact (posted_activateNext _ _ _ _).trans settled
  · exact posted_resume.trans settled

theorem posted_startFrom (more : List Nat) : (w.startFrom more).posted = w.posted := by
  unfold World.startFrom
  split
  · rfl
  · split <;> rfl

theorem posted_started (p : Nat) (more : List Nat) : (w.started p more).posted = w.posted := by
  have marked : (if w.hasEvents p then { w with sched := w.sched.markReady p } else w).posted =
      w.posted := by
    split <;> rfl
  exact (posted_startFrom more).trans marked

theorem posted_updateTable (change : PubSubTable → Except Halt PubSubTable)
    (record : Option Record) : (w.updateTable change record).posted = w.posted := by
  unfold World.updateTable
  split
  · rfl
  · split <;> rfl

theorem grows_post {target : ActiveObjectId} {e : DynEvent π} {w' : World π}
    (posted : w.post k target e = .ok w') : Grows w w' := by
  obtain ⟨p, -, same⟩ := post_cases posted
  rw [same]
  exact grows_deliver w p e

theorem grows_perform (checks : Bool) (c : Call π) : Grows w (w.perform k checks c) := by
  cases c with
  | start => exact .of_eq (posted_startFrom _)
  | post target e =>
      cases posted : w.post k target e with
      | ok w' => simpa only [World.perform, posted] using grows_post posted
      | error err => exact .of_eq (by simp only [World.perform, posted])
  | postAndRun target e =>
      cases posted : w.post k target e with
      | ok w' =>
          simpa only [World.perform, posted] using (grows_post posted).trans (.of_eq posted_thenRun)
      | error err => exact .of_eq (by simp only [World.perform, posted])
  | publish signal e => exact grows_publish signal e
  | publishAndRun signal e => exact (grows_publish signal e).trans (.of_eq posted_thenRun)
  | dispatchOnce => exact .of_eq posted_dispatchOnce
  | runUntilIdle => exact .of_eq posted_runUntilIdle
  | lockScheduler ceiling => exact .of_eq rfl
  | unlockScheduler status =>
      cases status with
      | unlocked => exact .of_eq rfl
      | locked value => exact .of_eq (posted_dispatchOnce (w := { w with sched := _ }))
  | subscribe signal prio => exact .of_eq (posted_updateTable _ _)
  | unsubscribe signal prio => exact .of_eq (posted_updateTable _ _)
  | unsubscribeAll prio => exact .of_eq (posted_updateTable _ _)

theorem grows_step (checks : Bool) {a : Action π} {w' : World π}
    (stepped : w.step k checks a = some w') : Grows w w' := by
  unfold World.step at stepped
  split at stepped
  · cases stepped
  · split at stepped <;> cases stepped
    · exact grows_perform checks _
    · exact .of_eq (posted_finish _ _ _ _)
    · exact .of_eq (posted_started _ _)

/-- `post`, and then the start of `run_until_idle`. -/
def postAndRun (k : QkKernel) (w : World π) (target : ActiveObjectId) (e : DynEvent π) :
    Except QkKernelError (World π) :=
  match w.post k target e with
  | .ok w => .ok (w.thenRun k)
  | .error err => .error err

theorem grows_postAndRun {target : ActiveObjectId} {e : DynEvent π} {w' : World π}
    (posted : postAndRun k w target e = .ok w') : Grows w w' := by
  unfold postAndRun at posted
  split at posted
  · rename_i queued
    cases posted
    exact (grows_post queued).trans (.of_eq posted_thenRun)
  · cases posted

/-- Every event posted to the slot of the object with the id. -/
def received (k : QkKernel) (w : World π) (id : ActiveObjectId) : List (DynEvent π) :=
  match k.idToPrio id with
  | some p => w.posted p
  | none => []

theorem Grows.received (grows : Grows w v) (id : ActiveObjectId) :
    Qk.received k w id <+: Qk.received k v id := by
  unfold Qk.received
  split
  · exact grows _
  · exact List.prefix_rfl

theorem received_postAndRun {target : ActiveObjectId} {p : Nat} (found : k.idToPrio target = some p)
    (w : World π) (e : DynEvent π) :
    postAndRun k w target e = .ok ((w.deliver p e).thenRun k) ∧
      received k ((w.deliver p e).thenRun k) target = received k w target ++ [e] := by
  have registered := k.id_registered target p found
  obtain ⟨slot, present⟩ := Option.isSome_iff_exists.mp registered
  constructor
  · simp [postAndRun, World.post, found, present]
  · simp [received, found, posted_thenRun, posted_deliver]

/-- The kernel of `QkTimerWheel`, for a tick whose caller has left `base` on the stack: the stack is
back there when `run_until_idle` returns. -/
def postingKernel (k : QkKernel) (checks : Bool) (base : List Frame) :
    PostingKernel π (World π) QkKernelError (Action π) where
  post w target e := postAndRun k w target e
  returned w := w.fault.isNone && decide (w.stack = base)
  step w a := w.step k checks a
  registered id := (k.idToPrio id).isSome
  received := received k
  step_grows _ _ _ id stepped := (grows_step checks stepped).received id
  post_grows _ _ _ _ id posted := (grows_postAndRun posted).received id
  post_registered w target e found := by
    obtain ⟨p, found⟩ := Option.isSome_iff_exists.mp found
    obtain ⟨posted, appended⟩ := received_postAndRun found w e
    exact ⟨(w.deliver p e).thenRun k, posted, appended ▸ List.prefix_rfl⟩
  post_unregistered w target e missing := by
    have missing : k.idToPrio target = none := by simpa using missing
    exact ⟨.notFound target, by simp [postAndRun, World.post, missing]⟩

end Qk

end QpRs
