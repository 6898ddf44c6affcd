import QpRs.Qk.Frame
import QpRs.Qk.Idle

/-! QK runs in which events are also posted through the handle of an active object
(`ActiveRunnable::post` and `post_lifo` in `qf/src/active.rs`), as `equeue::recall`, `RfStackAO` and
`FotaDriver` do.

A direct post changes the queue and nothing else: the kernel is not told. -/

namespace QpRs.Qk

inductive DirectAction (π : Type) where
  | kernel (a : Action π)
  | post (prio : Nat) (e : DynEvent π)
  | postLifo (prio : Nat) (e : DynEvent π)

namespace World

variable {π : Type}

/-- `object.post_lifo(event)`. The event is handled before those in the queue. -/
def pushLifo (w : World π) (p : Nat) (e : DynEvent π) : World π :=
  { w with
    queues := Function.update w.queues p ((w.queues p).pushFront e)
    posted := Function.update w.posted p (w.handled p ++ e :: (w.queues p).buf) }

/-- A direct post is made by the code that could also make a kernel call. -/
def directStep (k : QkKernel) (checks : Bool) (w : World π) : DirectAction π → Option (World π)
  | .kernel a => w.step k checks a
  | .post p e =>
      if w.fault.isSome ∨ w.stack.head? = some .loop ∨ ¬ k.Registered p then none
      else some (w.push p e)
  | .postLifo p e =>
      if w.fault.isSome ∨ w.stack.head? = some .loop ∨ ¬ k.Registered p then none
      else some (w.pushLifo p e)

end World

/-- A direct post finds the ready bit of its target set. -/
def Marked {π : Type} (w : World π) : DirectAction π → Prop
  | .kernel _ => True
  | .post p _ => w.sched.ready.contains p = true
  | .postLifo p _ => w.sched.ready.contains p = true

section Posts

variable {π : Type} {k : QkKernel} {w : World π} {p : Nat}

theorem Sound.enqueue (sound : Sound k w) (registered : k.Registered p)
    (ready : w.sched.ready.contains p = true) {q : EventQueue π} (events : q.buf ≠ []) :
    Sound k { w with
      queues := Function.update w.queues p q
      posted := Function.update w.posted p (w.handled p ++ q.buf) } where
  stacked := sound.stacked
  waiting := by
    intro other idle
    by_cases here : other = p
    · subst here
      simp [ready, events]
    · simpa [here] using sound.waiting other idle
  running := sound.running
  unused := by
    intro other unregistered
    have apart : other ≠ p := by
      intro same
      rw [same] at unregistered
      exact unregistered registered
    simpa [apart] using sound.unused other unregistered
  account := by
    intro clean other
    by_cases here : other = p
    · subst here
      simp
    · simpa [here] using sound.account clean other
  starts := sound.starts
  returns := sound.returns
  faults := sound.faults

theorem Inv.push (inv : Inv k w) (clean : w.fault = none) (registered : k.Registered p)
    (ready : w.sched.ready.contains p = true) (e : DynEvent π) : Inv k (w.push p e) := by
  have queued := inv.toSound.enqueue registered ready (q := (w.queues p).pushBack e) (by simp)
  have posted : w.handled p ++ ((w.queues p).pushBack e).buf = w.posted p ++ [e] := by
    rw [inv.account clean p, EventQueue.buf_pushBack, List.append_assoc]
  rw [posted] at queued
  exact ⟨queued, inv.active⟩

theorem Inv.pushLifo (inv : Inv k w) (registered : k.Registered p)
    (ready : w.sched.ready.contains p = true) (e : DynEvent π) : Inv k (w.pushLifo p e) := by
  have queued := inv.toSound.enqueue registered ready (q := (w.queues p).pushFront e) (by simp)
  rw [EventQueue.buf_pushFront] at queued
  exact ⟨queued, inv.active⟩

theorem directStep_cases {checks : Bool} {a : DirectAction π} {w' : World π}
    (stepped : w.directStep k checks a = some w') :
    (∃ a', a = .kernel a' ∧ w.step k checks a' = some w') ∨
    (∃ p e, a = .post p e ∧ w.fault = none ∧ k.Registered p ∧ w' = w.push p e) ∨
    ∃ p e, a = .postLifo p e ∧ w.fault = none ∧ k.Registered p ∧ w' = w.pushLifo p e := by
  cases a with
  | kernel a => exact .inl ⟨a, rfl, stepped⟩
  | post p e =>
      simp only [World.directStep, Option.ite_none_left_eq_some, not_or, not_not,
        Option.not_isSome_iff_eq_none, Option.some.injEq] at stepped
      rcases stepped with ⟨⟨clean, -, registered⟩, same⟩
      exact .inr (.inl ⟨p, e, rfl, clean, registered, same.symm⟩)
  | postLifo p e =>
      simp only [World.directStep, Option.ite_none_left_eq_some, not_or, not_not,
        Option.not_isSome_iff_eq_none, Option.some.injEq] at stepped
      rcases stepped with ⟨⟨clean, -, registered⟩, same⟩
      exact .inr (.inr ⟨p, e, rfl, clean, registered, same.symm⟩)

theorem inv_directStep (k : QkKernel) (checks : Bool) (w : World π) (a : DirectAction π)
    (w' : World π) (inv : Inv k w) (marked : Marked w a)
    (stepped : w.directStep k checks a = some w') : Inv k w' := by
  rcases directStep_cases stepped with ⟨a', rfl, stepped⟩ | ⟨p, e, rfl, clean, registered, rfl⟩ |
    ⟨p, e, rfl, clean, registered, rfl⟩
  · exact inv_step k checks w a' w' inv stepped
  · exact inv.push clean registered marked e
  · exact inv.pushLifo registered marked e

def Complete (w : World π) : Prop :=
  ∀ p, (w.queues p).buf ≠ [] → w.sched.ready.contains p = true

/-- While no active object is executing, a direct post leaves no event behind exactly when it finds
the bit set. -/
theorem direct_complete_iff {checks : Bool} {a : DirectAction π} {w' : World π} (inv : Inv k w)
    (idle : activePrios w.stack = []) (direct : ∀ a', a ≠ .kernel a')
    (stepped : w.directStep k checks a = some w') : Complete w' ↔ Marked w a := by
  have before (p : Nat) : w.sched.ready.contains p = true ↔ (w.queues p).buf ≠ [] := by
    apply inv.waiting p
    rw [idle]
    exact List.not_mem_nil
  have only {p : Nat} {q : EventQueue π} (events : q.buf ≠ []) :
      (∀ other, (Function.update w.queues p q other).buf ≠ [] →
        w.sched.ready.contains other = true) ↔ w.sched.ready.contains p = true := by
    constructor
    · intro complete
      exact complete p (by simpa using events)
    · intro ready other nonempty
      by_cases here : other = p
      · rw [here]
        exact ready
      · rw [Function.update_of_ne here] at nonempty
        exact (before other).mpr nonempty
  rcases directStep_cases stepped with ⟨a', rfl, -⟩ | ⟨p, e, rfl, -, -, rfl⟩ |
    ⟨p, e, rfl, -, -, rfl⟩
  · exact absurd rfl (direct a')
  · exact only (by simp)
  · exact only (by simp)

end Posts

section Ceiling

variable {π : Type} {k : QkKernel} {w : World π}

theorem ceiling_perform {checks : Bool} {c : Call π} (unlocked : w.sched.lockCeiling = 0)
    (other : ∀ ceiling, c ≠ .lockScheduler ceiling) :
    (w.perform k checks c).sched.lockCeiling = 0 := by
  cases kind : c.plain with
  | true => exact (kept_perform checks kind).ceiling.trans unlocked
  | false =>
      cases c with
      | lockScheduler ceiling => exact absurd rfl (other ceiling)
      | unlockScheduler status =>
          have same : w.sched.unlock status = w.sched := by
            unfold QkScheduler.unlock
            split
            · simp [unlocked]
            · rfl
          cases status with
          | unlocked => simpa only [World.perform, World.unlockScheduler, same] using unlocked
          | locked value =>
              simpa only [World.perform, World.unlockScheduler, same, kept_dispatchOnce.ceiling]
                using unlocked
      | subscribe signal prio => exact (ceiling_updateTable _ _).trans unlocked
      | unsubscribe signal prio => exact (ceiling_updateTable _ _).trans unlocked
      | unsubscribeAll prio => exact (ceiling_updateTable _ _).trans unlocked
      | _ => cases kind

def NoLock : DirectAction π → Prop
  | .kernel (.call (.lockScheduler _)) => False
  | _ => True

theorem ceiling_directStep (k : QkKernel) (checks : Bool) (w : World π) (a : DirectAction π)
    (w' : World π) (unlocked : w.sched.lockCeiling = 0) (noLock : NoLock a)
    (stepped : w.directStep k checks a = some w') : w'.sched.lockCeiling = 0 := by
  rcases directStep_cases stepped with ⟨a', rfl, stepped⟩ | ⟨p, e, rfl, clean, registered, rfl⟩ |
    ⟨p, e, rfl, clean, registered, rfl⟩
  · rcases step_cases stepped with ⟨-, ⟨c, rfl, -, rfl⟩ | ⟨p, rp, rt, before, rest, -, -, rfl⟩ |
      ⟨p, more, below, -, -, rfl⟩⟩
    · apply ceiling_perform unlocked
      intro ceiling same
      rw [same] at noLock
      exact noLock
    · exact (kept_finish p rp rt before).ceiling.trans unlocked
    · exact (kept_started p more).ceiling.trans unlocked
  · exact unlocked
  · exact unlocked

end Ceiling

/-- In every run whose direct posts find the ready bit of their target set, no event is stranded:
whenever no active object is executing, each non-empty queue has its bit set, and when
`run_until_idle` returns to code outside all handlers, the queues above the lock ceiling in force
are empty. Without `lock_scheduler` these are all queues. -/
theorem direct_posts_not_stranded {π : Type} (k : QkKernel) (pubsub : Option PubSubTable)
    (checks : Bool) (actions : List (DirectAction π)) (w : World π)
    (marked : Lib.Along (World.directStep k checks) Marked (World.init pubsub) actions)
    (ran : Lib.run (World.directStep k checks) (World.init pubsub) actions = some w) :
    (activePrios w.stack = [] → Complete w) ∧
    ∀ a w', w.directStep k checks (.kernel a) = some w' → w'.fault = none → ReturnsIdle w a w' →
      (∀ p, w'.sched.lockCeiling < p → (w'.queues p).buf = []) ∧
      ((∀ a' ∈ actions ++ [.kernel a], NoLock a') → ∀ p, (w'.queues p).buf = []) := by
  have inv := Lib.along_preserves (inv_directStep k checks) (inv_init k pubsub) marked ran
  constructor
  · intro idle p
    apply (inv.waiting p _).mpr
    rw [idle]
    exact List.not_mem_nil
  · intro a w' stepped free returns
    rcases returns_idle inv stepped free returns with ⟨drained, -, unlocked⟩
    refine ⟨drained, ?_⟩
    intro noLock p
    have quiet : Lib.Along (World.directStep k checks) (fun _ a => NoLock a) (World.init pubsub)
        actions := Lib.along_of_mem _ fun a' member => noLock a' (List.mem_append_left _ member)
    have before : w.sched.lockCeiling = 0 :=
      Lib.along_preserves (ceiling_directStep k checks) rfl quiet ran
    have after := ceiling_directStep k checks w (.kernel a) w' before (noLock _ (by simp)) stepped
    exact (unlocked after p).1

/-- The handler of priority 2 posts to itself through its handle, while its bit is set. -/
def selfPost : List (DirectAction Unit) :=
  [.kernel (.call (.post ⟨1⟩ (.emptyDyn qUserSig))), .kernel (.call .runUntilIdle),
    .postLifo 2 (.emptyDyn qUserSig), .kernel .ret]

theorem selfPost_not_stranded :
    ∃ w w' : World Unit,
      Lib.run (World.directStep pairKernel true) (World.init none) selfPost = some w ∧
      activePrios w.stack = [2] ∧ w.directStep pairKernel true (.kernel .ret) = some w' ∧
      w'.stack = [] ∧ ∀ p, (w'.queues p).buf = [] := by
  have marked : Lib.Along (World.directStep pairKernel true) Marked (World.init none) selfPost := by
    refine Lib.along_cons rfl trivial (Lib.along_cons rfl trivial (Lib.along_cons rfl ?_
      (Lib.along_cons rfl trivial trivial)))
    simp only [Marked]
    decide
  have noLock : ∀ a ∈ selfPost ++ [.kernel .ret], NoLock a := by
    simp [selfPost, NoLock]
  have kept := direct_posts_not_stranded pairKernel none true selfPost _ marked rfl
  exact ⟨_, _, rfl, by decide, rfl, by decide,
    (kept.2 .ret _ rfl (by decide) ⟨by decide, .inl (by decide)⟩).2 noLock⟩

/-- A direct post to an idle active object, then a post by the kernel: `run_until_idle` finds
nothing to do, and both events stay in the queue. -/
theorem direct_post_strands :
    ∃ w w' : World Unit,
      Lib.run (World.directStep pairKernel true) (World.init none)
        [.post 2 (.emptyDyn qUserSig), .kernel (.call (.post ⟨1⟩ (.emptyDyn qUserSig)))] = some w ∧
      w.stack = [] ∧ w.sched.lockCeiling = 0 ∧ ¬ Complete w ∧
      w.directStep pairKernel true (.kernel (.call .runUntilIdle)) = some w' ∧
      w'.stack = [] ∧ w'.fault = none ∧ (w'.queues 2).buf.length = 2 := by
  refine ⟨_, _, rfl, rfl, by decide, ?_, rfl, by decide, by decide, by decide⟩
  intro complete
  have ready := complete 2 (by decide)
  revert ready
  decide

end QpRs.Qk
