import QpRs.Qk.Stack

/-! Completeness of the ready set of QK, and what holds when `run_until_idle` returns to code
outside all handlers. -/

namespace QpRs.Qk

variable {π : Type} {k : QkKernel} {w : World π}

theorem activateNext_stack {restorePrio restoreThreshold : Nat} {before : Nat × Nat}
    {d : ScheduleDecision}
    (clean : (w.activateNext k restorePrio restoreThreshold before d).fault = none) :
    (w.activateNext k restorePrio restoreThreshold before d).stack =
      .activation d.nextPrio restorePrio restoreThreshold before :: w.stack := by
  unfold World.activateNext at clean ⊢
  cases present : k.slots d.nextPrio with
  | none => simp [present, World.fail] at clean
  | some slot =>
      by_cases planned : w.sched.nextPrio = d.nextPrio
      · simp only [planned, ne_eq, not_true_eq_false, if_false]
        rw [(dispatchOne_frame _ d.nextPrio w.stack).2]
      · simp [present, planned, World.fail] at clean

theorem activate_stack {d : ScheduleDecision} (clean : (w.activate k d).fault = none) :
    ∃ frame, (w.activate k d).stack = frame :: w.stack := by
  unfold World.activate at clean ⊢
  cases threshold : k.thresholdFor d.previousPrio with
  | none => simp [threshold, World.fail] at clean
  | some t =>
      simp only [threshold] at clean ⊢
      exact ⟨_, activateNext_stack clean⟩

theorem dispatchOnce_stack (clean : (w.dispatchOnce k).fault = none) :
    w.stack <:+ (w.dispatchOnce k).stack := by
  unfold World.dispatchOnce at clean ⊢
  cases plan : w.sched.planActivation with
  | mk decision sched =>
      cases decision with
      | none => exact List.suffix_rfl
      | some d =>
          simp only [plan] at clean ⊢
          rcases activate_stack clean with ⟨frame, pushed⟩
          rw [pushed]
          exact List.suffix_cons frame w.stack

/-- `run_until_idle` returns at once only if no ready priority passes threshold and ceiling. -/
theorem runUntilIdle_stack (clean : (w.runUntilIdle k).fault = none) :
    (∃ frame, (w.runUntilIdle k).stack = frame :: .loop :: w.stack) ∨
      (w.runUntilIdle k = { w with sched := { w.sched with nextPrio := 0 } } ∧
        ∀ p, w.sched.ready.contains p = true →
          p ≤ w.sched.activeThreshold ∨ p ≤ w.sched.lockCeiling) := by
  unfold World.runUntilIdle at clean ⊢
  cases plan : w.sched.planActivation with
  | mk decision sched =>
      cases decision with
      | none =>
          rcases QkScheduler.planAbove_none plan with ⟨blocked, rfl⟩
          exact .inr ⟨rfl, blocked⟩
      | some d =>
          simp only [plan] at clean ⊢
          exact .inl (activate_stack clean)

theorem runUntilIdle_suffix (clean : (w.runUntilIdle k).fault = none) :
    w.stack <:+ (w.runUntilIdle k).stack := by
  rcases runUntilIdle_stack clean with ⟨frame, pushed⟩ | ⟨same, -⟩
  · rw [pushed]
    exact (List.suffix_cons _ _).trans (List.suffix_cons _ _)
  · have stack : (w.runUntilIdle k).stack = w.stack := by rw [same]
    exact stack ▸ List.suffix_rfl

theorem deliverAll_frame (e : DynEvent π) (recipients : List Nat) (w : World π) :
    (World.deliverAll e w recipients).stack = w.stack := by
  induction recipients generalizing w with
  | nil => rfl
  | cons p rest ih =>
      simp only [World.deliverAll]
      rw [ih, (deliver_stack w p e).1]

theorem publish_stack (signal : Signal) (e : DynEvent π) :
    (w.publish k signal e).stack = w.stack := by
  unfold World.publish
  cases w.pubsub with
  | none => exact deliverAll_frame _ _ _
  | some table =>
      cases found : table.subscribers signal with
      | error halt => simp [found, World.fail]
      | ok subscribers =>
          simp only [found]
          rw [deliverAll_frame]

theorem post_stack {target : ActiveObjectId} {e : DynEvent π} {w' : World π}
    (posted : w.post k target e = .ok w') : w'.stack = w.stack := by
  obtain ⟨p, -, same⟩ := post_cases posted
  rw [same]
  exact (deliver_stack w p e).1

theorem thenRun_suffix (clean : (w.thenRun k).fault = none) : w.stack <:+ (w.thenRun k).stack := by
  unfold World.thenRun at clean ⊢
  split
  · exact List.suffix_rfl
  · rename_i free
    simp only [free] at clean
    exact runUntilIdle_suffix clean

theorem startFrom_suffix (more : List Nat) : w.stack <:+ (w.startFrom more).stack := by
  cases more with
  | nil => exact List.suffix_rfl
  | cons p rest =>
      simp only [World.startFrom]
      split
      · exact List.suffix_rfl
      · exact List.suffix_cons _ _

theorem started_suffix (w : World π) (p : Nat) (more : List Nat) :
    w.stack <:+ (w.started p more).stack := by
  unfold World.started
  split
  · exact startFrom_suffix (w := { w with sched := w.sched.markReady p }) more
  · exact startFrom_suffix more

theorem updateTable_stack (change : PubSubTable → Except Halt PubSubTable)
    (record : Option Record) : (w.updateTable change record).stack = w.stack := by
  unfold World.updateTable
  cases w.pubsub with
  | none => rfl
  | some table => cases changed : change table <;> simp [changed, World.fail]

theorem perform_suffix (checks : Bool) (c : Call π) (clean : (w.perform k checks c).fault = none) :
    w.stack <:+ (w.perform k checks c).stack := by
  cases c with
  | start => exact startFrom_suffix k.registered
  | post target e =>
      cases posted : w.post k target e with
      | ok w' => simp only [World.perform, posted, post_stack posted, List.suffix_rfl]
      | error err => simp only [World.perform, posted, List.suffix_rfl]
  | postAndRun target e =>
      cases posted : w.post k target e with
      | ok w' =>
          simp only [World.perform, posted] at clean ⊢
          rw [← post_stack posted]
          exact thenRun_suffix clean
      | error err => simp only [World.perform, posted, List.suffix_rfl]
  | publish signal e =>
      simp only [World.perform, publish_stack, List.suffix_rfl]
  | publishAndRun signal e =>
      have grown := thenRun_suffix (w := w.publish k signal e) clean
      rw [publish_stack] at grown
      exact grown
  | dispatchOnce => exact dispatchOnce_stack clean
  | runUntilIdle => exact runUntilIdle_suffix clean
  | lockScheduler ceiling => exact List.suffix_rfl
  | unlockScheduler status =>
      cases status with
      | unlocked => exact List.suffix_rfl
      | locked value => exact dispatchOnce_stack (w := { w with sched := _ }) clean
  | subscribe signal prio => simp only [World.perform, updateTable_stack, List.suffix_rfl]
  | unsubscribe signal prio => simp only [World.perform, updateTable_stack, List.suffix_rfl]
  | unsubscribeAll prio => simp only [World.perform, updateTable_stack, List.suffix_rfl]

/-- The step in which a `run_until_idle` that was called outside all handlers returns: it is either
still in progress, as the outermost frame, or it finds nothing to do. -/
def ReturnsIdle (w : World π) (a : Action π) (w' : World π) : Prop :=
  w'.stack = [] ∧
    (w.stack.getLast? = some .loop ∨ (w.stack = [] ∧ a = .call .runUntilIdle))

/-- What holds when `run_until_idle` finds nothing to do and no handler is running. -/
theorem runUntilIdle_idle (inv : Inv k w) (empty : w.stack = [])
    (clean : (w.runUntilIdle k).fault = none) (back : (w.runUntilIdle k).stack = []) :
    (∀ p, (w.runUntilIdle k).sched.lockCeiling < p → ((w.runUntilIdle k).queues p).buf = []) ∧
      (w.runUntilIdle k).sched.hasReadyToRun = false := by
  rcases runUntilIdle_stack clean with ⟨frame, pushed⟩ | ⟨same, blocked⟩
  · rw [pushed] at back
    cases back
  · have flat : w.sched.activeThreshold = 0 := by
      have pair := inv.active
      rw [empty] at pair
      exact congrArg Prod.snd pair
    rw [same]
    constructor
    · intro p high
      by_contra events
      have ready := (inv.waiting p (by rw [empty]; simp [activePrios])).mpr events
      rcases blocked p ready with low | low
      · simp only at high
        omega
      · simp only at high
        omega
    · unfold QkScheduler.hasReadyToRun
      cases highest : w.sched.ready.max with
      | none => rfl
      | some p =>
          have := blocked p (ReadySet.max_spec highest).1
          simp only [Bool.decide_and, Bool.and_eq_false_iff, decide_eq_false_iff_not]
          omega

/-- If `run_until_idle` is the outermost frame and the return of a handler leaves no frame, then the
handler was the last one and `run_until_idle` has nothing more to do. -/
theorem finish_idle {p restorePrio restoreThreshold : Nat} {before : Nat × Nat} {rest : List Frame}
    {w' : World π} (inv : Inv k w) (clean : w.fault = none)
    (top : w.stack = .activation p restorePrio restoreThreshold before :: rest)
    (outer : w.stack.getLast? = some .loop)
    (finished : w' =
      World.finish k { w with stack := rest } p restorePrio restoreThreshold before)
    (free : w'.fault = none) (back : w'.stack = []) :
    ∃ u : World π, Inv k u ∧ u.stack = [] ∧ w' = u.runUntilIdle k := by
  rcases finish_cases inv clean top with ⟨d, u, same, -⟩ | ⟨u, same, restored, -, stack⟩
  · rw [finished, same] at free back
    rw [activateNext_stack free] at back
    cases back
  · rw [same] at finished
    cases rest with
    | nil => simp [top] at outer
    | cons frame rest =>
        unfold World.resume at finished
        rw [stack] at finished
        cases frame with
        | loop =>
            have stacked := restored.stacked
            rw [stack] at stacked
            have popped := restored.withStack rest stacked (by rw [stack]; rfl)
            refine ⟨{ u with stack := rest }, popped, ?_, finished⟩
            rw [finished] at free back
            have kept := runUntilIdle_suffix free
            rw [back] at kept
            exact List.suffix_nil.mp kept
        | _ =>
            rw [finished, stack] at back
            cases back

theorem returns_idle {checks : Bool} {a : Action π} {w' : World π} (inv : Inv k w)
    (stepped : w.step k checks a = some w') (free : w'.fault = none)
    (returns : ReturnsIdle w a w') :
    (∀ p, w'.sched.lockCeiling < p → (w'.queues p).buf = []) ∧
      w'.sched.hasReadyToRun = false ∧
      (w'.sched.lockCeiling = 0 →
        ∀ p, (w'.queues p).buf = [] ∧ w'.handled p = w'.posted p) := by
  have after := inv_step k checks w a w' inv stepped
  -- In both cases the step ends with the head of the loop and an empty stack.
  have looped : ∃ u : World π, Inv k u ∧ u.stack = [] ∧ w' = u.runUntilIdle k := by
    rcases returns with ⟨back, outer | ⟨empty, rfl⟩⟩
    · rcases step_cases stepped with ⟨clean, ⟨c, -, -, rfl⟩ |
        ⟨p, rp, rt, before, rest, -, top, same⟩ | ⟨p, more, below, -, top, rfl⟩⟩
      · have kept := perform_suffix checks c free
        rw [back] at kept
        rw [List.suffix_nil.mp kept] at outer
        cases outer
      · exact finish_idle inv clean top outer same free back
      · have kept := started_suffix { w with stack := below } p more
        rw [back] at kept
        have gone : below = [] := List.suffix_nil.mp kept
        rw [top, gone] at outer
        simp at outer
    · rcases step_cases stepped with ⟨-, ⟨c, same, -, rfl⟩ | ⟨p, rp, rt, before, rest, same, -⟩ |
        ⟨p, more, below, same, -⟩⟩
      · cases same
        exact ⟨w, inv, empty, rfl⟩
      · cases same
      · cases same
  rcases looped with ⟨u, sound, empty, rfl⟩
  rcases runUntilIdle_idle sound empty free returns.1 with ⟨drained, quiet⟩
  refine ⟨drained, quiet, ?_⟩
  intro unlocked p
  have none : ((u.runUntilIdle k).queues p).buf = [] := by
    by_cases zero : p = 0
    · apply after.unused p
      intro registered
      rcases Option.isSome_iff_exists.mp registered with ⟨slot, present⟩
      have := k.slot_positive p slot present
      omega
    · apply drained p
      omega
  refine ⟨none, ?_⟩
  rw [after.account free p, none, List.append_nil]

/-- The ready set of QK is complete, and `run_until_idle` runs to idle. Whenever no active object is
executing, a priority is ready exactly when its queue has an event; each event put into a queue is
handled once and in order or still waits there; and when `run_until_idle` returns to code outside
all handlers, no active object above the lock ceiling in force has an event. -/
theorem ready_and_idle (k : QkKernel) (pubsub : Option PubSubTable) (checks : Bool)
    (actions : List (Action π)) (w : World π)
    (ran : Lib.run (World.step k checks) (World.init pubsub) actions = some w)
    (clean : w.fault = none) :
    (activePrios w.stack = [] →
      ∀ p, w.sched.ready.contains p = true ↔ (w.queues p).buf ≠ []) ∧
    (∀ p, w.posted p = w.handled p ++ (w.queues p).buf) ∧
    ∀ a w', w.step k checks a = some w' → w'.fault = none → ReturnsIdle w a w' →
      (∀ p, w'.sched.lockCeiling < p → (w'.queues p).buf = []) ∧
        w'.sched.hasReadyToRun = false ∧
        (w'.sched.lockCeiling = 0 →
          ∀ p, (w'.queues p).buf = [] ∧ w'.handled p = w'.posted p) := by
  have inv := Lib.run_preserves (inv_step k checks) (inv_init k pubsub) ran
  refine ⟨?_, inv.account clean, ?_⟩
  · intro idle p
    apply inv.waiting p
    rw [idle]
    exact List.not_mem_nil
  · intro a w' stepped free returns
    exact returns_idle inv stepped free returns

/-- Both queues of `pairKernel` are filled before `run_until_idle`, and it empties them. -/
theorem pair_ready_and_idle :
    ∃ w w' : World Unit, Lib.run (World.step pairKernel true) (World.init none)
        [.call (.post ⟨1⟩ (.emptyDyn qUserSig)), .call (.post ⟨2⟩ (.emptyDyn qUserSig)),
          .call .runUntilIdle, .ret] = some w ∧
      w.step pairKernel true .ret = some w' ∧ w'.sched.lockCeiling = 0 ∧
      ∀ p, (w'.queues p).buf = [] ∧ w'.handled p = w'.posted p := by
  refine ⟨_, _, rfl, rfl, by decide, ?_⟩
  exact ((ready_and_idle pairKernel none true
    [.call (.post ⟨1⟩ (.emptyDyn qUserSig)), .call (.post ⟨2⟩ (.emptyDyn qUserSig)),
      .call .runUntilIdle, .ret] _ rfl rfl).2.2 .ret _ rfl rfl ⟨rfl, .inl rfl⟩).2.2 (by decide)

/-- The handler of priority 5 locks the scheduler and returns: `run_until_idle`, called from idle
with ceiling 0, returns with the event of priority 2 still queued. -/
theorem locked_handler_leaves_work :
    ∃ w w' : World Unit, Lib.run (World.step pairKernel true) (World.init none)
        [.call (.post ⟨1⟩ (.emptyDyn qUserSig)), .call (.post ⟨2⟩ (.emptyDyn qUserSig))] = some w ∧
      w.stack = [] ∧ w.sched.lockCeiling = 0 ∧
      Lib.run (World.step pairKernel true) w
        [.call .runUntilIdle, .call (.lockScheduler 10), .ret] = some w' ∧
      w'.stack = [] ∧ w'.fault = none ∧ (w'.queues 2).buf ≠ [] := by
  refine ⟨_, _, rfl, rfl, by decide, rfl, by decide, by decide, by decide⟩

end QpRs.Qk
