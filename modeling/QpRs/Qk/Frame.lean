import QpRs.Qk.Stack

/-! What the kernel calls of QK leave alone: the lock ceiling, which only `lock_scheduler` and
`unlock_scheduler` change, and the subscription table, which only the subscription calls change. -/

namespace QpRs.Qk

variable {π : Type} {k : QkKernel} {w u v : World π}

structure Kept (w w' : World π) : Prop where
  ceiling : w'.sched.lockCeiling = w.sched.lockCeiling
  pubsub : w'.pubsub = w.pubsub

theorem Kept.after (second : Kept u v) (first : Kept w u) : Kept w v :=
  ⟨second.ceiling.trans first.ceiling, second.pubsub.trans first.pubsub⟩

theorem ceiling_planAbove (s : QkScheduler) (threshold : Nat) :
    (s.planAbove threshold).2.lockCeiling = s.lockCeiling := by
  cases plan : s.planAbove threshold with
  | mk decision sched =>
      cases decision with
      | none => rw [(QkScheduler.planAbove_none plan).2]
      | some d => rw [(QkScheduler.planAbove_some plan).2.2.2.2]

theorem kept_deliver (w : World π) (p : Nat) (e : DynEvent π) : Kept w (w.deliver p e) := by
  unfold World.deliver
  simp only
  split <;> exact ⟨rfl, rfl⟩

theorem kept_deliverAll (e : DynEvent π) (recipients : List Nat) (w : World π) :
    Kept w (World.deliverAll e w recipients) := by
  induction recipients generalizing w with
  | nil => exact ⟨rfl, rfl⟩
  | cons p rest ih => exact (ih (w.deliver p e)).after (kept_deliver w p e)

theorem kept_post {target : ActiveObjectId} {e : DynEvent π} {w' : World π}
    (posted : w.post k target e = .ok w') : Kept w w' := by
  obtain ⟨p, -, same⟩ := post_cases posted
  rw [same]
  exact kept_deliver w p e

theorem kept_publish (signal : Signal) (e : DynEvent π) : Kept w (w.publish k signal e) := by
  unfold World.publish
  split
  · simp only
    split
    · exact ⟨rfl, rfl⟩
    · exact (kept_deliverAll _ _ _).after ⟨rfl, rfl⟩
  · exact kept_deliverAll _ _ _

theorem pubsub_dispatchOne (w : World π) (p : Nat) (below : List Frame) :
    (w.dispatchOne p below).pubsub = w.pubsub := by
  unfold World.dispatchOne
  split
  · rfl
  · simp only
    split <;> rfl

theorem kept_activateNext (restorePrio restoreThreshold : Nat) (before : Nat × Nat)
    (d : ScheduleDecision) :
    Kept w (w.activateNext k restorePrio restoreThreshold before d) := by
  unfold World.activateNext
  split
  · exact ⟨rfl, rfl⟩
  · rename_i slot present
    split
    · exact ⟨rfl, rfl⟩
    · rcases w.sched.commitActivation_frame d slot.threshold with ⟨records, switches, committed⟩
      constructor
      · simp only [committed, dispatchOne_frame]
      · simp only [pubsub_dispatchOne]

theorem kept_activate (d : ScheduleDecision) : Kept w (w.activate k d) := by
  simp only [World.activate]
  split
  · exact ⟨rfl, rfl⟩
  · exact kept_activateNext _ _ _ _

theorem kept_dispatchOnce : Kept w (w.dispatchOnce k) := by
  have kept := ceiling_planAbove w.sched w.sched.activeThreshold
  unfold World.dispatchOnce QkScheduler.planActivation
  split
  · rename_i plan
    rw [plan] at kept
    exact (kept_activate _).after ⟨kept, rfl⟩
  · rename_i plan
    rw [plan] at kept
    exact ⟨kept, rfl⟩

theorem kept_runUntilIdle : Kept w (w.runUntilIdle k) := by
  have kept := ceiling_planAbove w.sched w.sched.activeThreshold
  unfold World.runUntilIdle QkScheduler.planActivation
  split
  · rename_i plan
    rw [plan] at kept
    exact (kept_activate _).after ⟨kept, rfl⟩
  · rename_i plan
    rw [plan] at kept
    exact ⟨kept, rfl⟩

theorem kept_thenRun : Kept w (w.thenRun k) := by
  unfold World.thenRun
  split
  · exact ⟨rfl, rfl⟩
  · exact kept_runUntilIdle

theorem kept_resume : Kept w (w.resume k) := by
  unfold World.resume
  split
  · exact kept_runUntilIdle.after ⟨rfl, rfl⟩
  · exact ⟨rfl, rfl⟩

theorem kept_finish (p restorePrio restoreThreshold : Nat) (before : Nat × Nat) :
    Kept w (World.finish k w p restorePrio restoreThreshold before) := by
  have settled : Kept w (if w.hasEvents p then w
      else { w with sched := w.sched.markNotReady p }) := by
    split <;> exact ⟨rfl, rfl⟩
  simp only [World.finish]
  generalize (if w.hasEvents p then w else { w with sched := w.sched.markNotReady p }) = u
    at settled
  refine Kept.after ?_ settled
  have kept := ceiling_planAbove u.sched restoreThreshold
  unfold QkScheduler.nextAfterDispatch
  split
  · rename_i plan
    rw [plan] at kept
    exact (kept_activateNext _ _ _ _).after ⟨kept, rfl⟩
  · rename_i sched plan
    rw [plan] at kept
    rcases sched.restoreActive_frame restorePrio restoreThreshold with ⟨records, switches, restored⟩
    simp only [restored]
    exact kept_resume.after ⟨kept, rfl⟩

theorem kept_startFrom (more : List Nat) : Kept w (w.startFrom more) := by
  unfold World.startFrom
  split
  · exact ⟨rfl, rfl⟩
  · split <;> exact ⟨rfl, rfl⟩

theorem kept_started (p : Nat) (more : List Nat) : Kept w (w.started p more) := by
  have marked : Kept w (if w.hasEvents p then { w with sched := w.sched.markReady p } else w) := by
    split <;> exact ⟨rfl, rfl⟩
  exact (kept_startFrom more).after marked

theorem ceiling_updateTable (change : PubSubTable → Except Halt PubSubTable)
    (record : Option Record) :
    (w.updateTable change record).sched.lockCeiling = w.sched.lockCeiling := by
  unfold World.updateTable
  split
  · rfl
  · split
    · rfl
    · cases record <;> rfl

theorem pubsub_unlockScheduler (status : SchedStatus) :
    (w.unlockScheduler k status).pubsub = w.pubsub := by
  cases status with
  | unlocked => rfl
  | locked value => exact (kept_dispatchOnce (w := { w with sched := _ })).pubsub

/-- The kernel calls that change neither the ceiling nor the table. -/
def Call.plain : Call π → Bool
  | .lockScheduler _ | .unlockScheduler _ => false
  | .subscribe _ _ | .unsubscribe _ _ | .unsubscribeAll _ => false
  | _ => true

theorem kept_perform (checks : Bool) {c : Call π} (plain : c.plain = true) :
    Kept w (w.perform k checks c) := by
  cases c with
  | start => exact kept_startFrom k.registered
  | post target e =>
      cases posted : w.post k target e with
      | ok w' => simpa only [World.perform, posted] using kept_post posted
      | error err =>
          exact ⟨by simp only [World.perform, posted], by simp only [World.perform, posted]⟩
  | postAndRun target e =>
      cases posted : w.post k target e with
      | ok w' => simpa only [World.perform, posted] using kept_thenRun.after (kept_post posted)
      | error err =>
          exact ⟨by simp only [World.perform, posted], by simp only [World.perform, posted]⟩
  | publish signal e => exact kept_publish signal e
  | publishAndRun signal e => exact kept_thenRun.after (kept_publish signal e)
  | dispatchOnce => exact kept_dispatchOnce
  | runUntilIdle => exact kept_runUntilIdle
  | lockScheduler ceiling => cases plain
  | unlockScheduler status => cases plain
  | subscribe signal prio => cases plain
  | unsubscribe signal prio => cases plain
  | unsubscribeAll prio => cases plain

end QpRs.Qk
