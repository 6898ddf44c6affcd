import QpRs.Qv.Dispatch

/-! Cooperative dispatch in QV: the ceiling in force by the calls made so far, the scheduler records
by the events dispatched, and what every run of kernel calls keeps. -/

namespace QpRs.Qv

variable {π : Type}

/-- The ceiling after an action: `lock_scheduler` raises it, `unlock_scheduler` clears it. -/
def underCall (ceiling : Nat) : Action π → Nat
  | .call (.lockScheduler c) => max ceiling c
  | .call .unlockScheduler => 0
  | _ => ceiling

def ceilingAfter (actions : List (Action π)) : Nat := actions.foldl underCall 0

def isSwitch : Record → Bool
  | .next _ _ => true
  | .idle _ => true
  | _ => false

def World.switches (w : World π) : List Record := w.records.filter isSwitch

/-- What a step says of the events dispatched: it dispatches one or none, under the ceiling it
found, and `SCHED_NEXT` names the object of that event, if it has another priority than the last. A
step that locks a behavior twice dispatches nothing and ends the run. -/
inductive Reports (w w' : World π) : Prop where
  | quiet (events : w'.dispatches = w.dispatches) (records : w'.switches = w.switches)
  | idled (events : w'.dispatches = w.dispatches) (busy : w.prevPrio ≠ 0)
      (records : w'.switches = w.switches ++ [.idle w.prevPrio])
  | dispatched (d : Dispatch π) (events : w'.dispatches = w.dispatches ++ [d])
      (ceiling : d.ceiling = w.schedCeiling)
      (records : w'.switches = w.switches ++
        if d.ao.priority ≠ w.prevPrio then [.next d.ao.priority w.prevPrio] else [])
  | stuck (ao : ActiveObjectRef) (events : w'.dispatches = w.dispatches)
      (fault : w'.fault = some (.deadlock ao))

/-- What a call that neither dispatches nor locks leaves as it is. -/
structure Kept (w w' : World π) : Prop where
  dispatches : w'.dispatches = w.dispatches
  switches : w'.switches = w.switches
  ceiling : w'.schedCeiling = w.schedCeiling

section Calls

variable {k : QvKernel} {w w' : World π}

theorem Kept.trans {u : World π} (first : Kept w u) (later : Kept u w') : Kept w w' :=
  ⟨later.dispatches.trans first.dispatches, later.switches.trans first.switches,
    later.ceiling.trans first.ceiling⟩

theorem switches_emit (record : Record) :
    (w.emit record).switches = w.switches ++ if isSwitch record then [record] else [] := by
  simp [World.switches, World.emit, List.filter_append, List.filter_cons]

theorem kept_emit {record : Record} (other : isSwitch record = false) : Kept w (w.emit record) := by
  refine ⟨rfl, ?_, rfl⟩
  rw [switches_emit, other]
  exact List.append_nil _

theorem kept_multicast (checks : Bool) (subscribers : BitVec 64) (e : DynEvent π)
    (objects : List ActiveObjectRef) : Kept w (w.multicast checks subscribers e objects) := by
  induction objects generalizing w with
  | nil => exact ⟨rfl, rfl, rfl⟩
  | cons ao rest ih =>
      unfold World.multicast
      split
      · exact ⟨rfl, rfl, rfl⟩
      · split
        · exact Kept.trans (u := w.push ao e) ⟨rfl, rfl, rfl⟩ ih
        · exact ih

theorem kept_broadcast (e : DynEvent π) (objects : List ActiveObjectRef) :
    Kept w (w.broadcast e objects) := by
  induction objects generalizing w with
  | nil => exact ⟨rfl, rfl, rfl⟩
  | cons ao rest ih => exact Kept.trans (u := w.push ao e) ⟨rfl, rfl, rfl⟩ ih

theorem kept_publish (checks : Bool) (signal : Signal) (e : DynEvent π) :
    Kept w (w.publish k checks signal e) := by
  have told : Kept w (w.emit (.publish signal)) := kept_emit rfl
  unfold World.publish
  split
  · split
    · exact told.trans ⟨rfl, rfl, rfl⟩
    · exact told.trans (kept_multicast checks _ _ _)
  · exact kept_broadcast _ _

theorem kept_updateTable (change : PubSubTable → Except Halt PubSubTable) {record : Option Record}
    (other : ∀ r ∈ record, isSwitch r = false) : Kept w (w.updateTable change record) := by
  unfold World.updateTable
  split
  · exact ⟨rfl, rfl, rfl⟩
  · split
    · exact ⟨rfl, rfl, rfl⟩
    · rename_i table _
      have changed : Kept w { w with pubsub := some table } := ⟨rfl, rfl, rfl⟩
      cases record with
      | none => exact changed
      | some r => exact changed.trans (kept_emit (other r rfl))

theorem kept_startFrom (rest : List ActiveObjectRef) : Kept w (w.startFrom rest) := by
  unfold World.startFrom
  split
  · exact ⟨rfl, rfl, rfl⟩
  · split <;> exact ⟨rfl, rfl, rfl⟩

theorem Kept.reports (kept : Kept w w') : Reports w w' := .quiet kept.dispatches kept.switches

theorem reports_noteIdle : Reports w w.noteIdle := by
  unfold World.noteIdle
  by_cases busy : w.prevPrio ≠ 0
  · rw [if_pos busy]
    exact .idled rfl busy (switches_emit _)
  · rw [if_neg busy]
    exact .quiet rfl rfl

theorem switches_noteNext (prio : Nat) : (w.noteNext prio).switches =
    w.switches ++ if prio ≠ w.prevPrio then [.next prio w.prevPrio] else [] := by
  unfold World.noteNext
  by_cases moved : prio ≠ w.prevPrio
  · rw [if_pos moved, if_pos moved]
    exact switches_emit _
  · rw [if_neg moved, if_neg moved]
    exact (List.append_nil _).symm

theorem dispatches_noteNext (prio : Nat) : (w.noteNext prio).dispatches = w.dispatches := by
  unfold World.noteNext
  split <;> rfl

theorem ceiling_noteIdle : w.noteIdle.schedCeiling = w.schedCeiling := by
  unfold World.noteIdle
  split <;> rfl

theorem reports_dispatchOnce :
    Reports w (w.dispatchOnce k).2 ∧ (w.dispatchOnce k).2.schedCeiling = w.schedCeiling := by
  unfold World.dispatchOnce
  cases found : k.objects.reverse.find? w.hasEvents with
  | none => exact ⟨reports_noteIdle, ceiling_noteIdle⟩
  | some ao =>
      simp only
      by_cases low : ao.priority ≤ w.schedCeiling
      · rw [if_pos low]
        exact ⟨reports_noteIdle, ceiling_noteIdle⟩
      · rw [if_neg low]
        -- The selected object has an event, so its handler is started.
        have queued : ((w.noteNext ao.priority).queues ao).buf ≠ [] := by
          rw [← hasEvents_iff, hasEvents_noteNext]
          exact List.find?_some found
        unfold World.dispatchOne
        cases queue : ((w.noteNext ao.priority).queues ao).buf with
        | nil => exact absurd queue queued
        | cons e rest =>
            simp only [EventQueue.popFront, queue]
            split
            · exact ⟨.stuck ao (dispatches_noteNext _) rfl, schedCeiling_noteNext _⟩
            · have ceiling := schedCeiling_noteNext (w := w) ao.priority
              refine ⟨.dispatched ⟨ao, e, _, e :: rest, k.objects.filter w.hasEvents⟩ ?_ ceiling ?_,
                ceiling⟩
              · exact congrArg (· ++ _) (dispatches_noteNext _)
              · exact switches_noteNext (w := w) ao.priority

theorem reports_runUntilIdle :
    Reports w (w.runUntilIdle k) ∧ (w.runUntilIdle k).schedCeiling = w.schedCeiling := by
  have once := reports_dispatchOnce (k := k) (w := { w with stack := .loop :: w.stack })
  have told (next : World π) (reports : Reports { w with stack := .loop :: w.stack } next)
      (stack : List Frame) : Reports w { next with stack := stack } := by
    cases reports with
    | quiet events records => exact .quiet events records
    | idled events busy records => exact .idled events busy records
    | dispatched d events ceiling records => exact .dispatched d events ceiling records
    | stuck ao events fault => exact .stuck ao events fault
  unfold World.runUntilIdle
  split
  · rename_i next same
    rw [same] at once
    exact ⟨told next once.1 next.stack, once.2⟩
  · rename_i next same
    rw [same] at once
    unfold World.idle
    split
    · exact ⟨told next once.1 _, once.2⟩
    · exact ⟨told next once.1 _, once.2⟩

theorem reports_resume (rest : List Frame) :
    Reports w (World.resume k { w with stack := rest }) ∧
      (World.resume k { w with stack := rest }).schedCeiling = w.schedCeiling := by
  unfold World.resume
  split
  · rename_i below _
    have ran := reports_runUntilIdle (k := k) (w := { w with stack := below })
    refine ⟨?_, ran.2⟩
    cases ran.1 with
    | quiet events records => exact .quiet events records
    | idled events busy records => exact .idled events busy records
    | dispatched d events ceiling records => exact .dispatched d events ceiling records
    | stuck ao events fault => exact .stuck ao events fault
  · exact ⟨.quiet rfl rfl, rfl⟩

theorem reports_perform (checks : Bool) (c : Call π) : Reports w (w.perform k checks c) ∧
    (w.perform k checks c).schedCeiling = underCall w.schedCeiling (.call c) := by
  have told {w' : World π} (kept : Kept w w') : Reports w w' ∧ w'.schedCeiling = w.schedCeiling :=
    ⟨kept.reports, kept.ceiling⟩
  cases c with
  | start => exact told (kept_startFrom k.objects)
  | post target e =>
      simp only [World.perform, World.post]
      cases k.byId target with
      | none => exact told ⟨rfl, rfl, rfl⟩
      | some ao => exact told ⟨rfl, rfl, rfl⟩
  | publish signal e => exact told (kept_publish checks signal e)
  | dispatchOnce => exact reports_dispatchOnce
  | runUntilIdle => exact reports_runUntilIdle
  | lockScheduler ceiling =>
      simp only [World.perform, World.lockScheduler, underCall]
      split
      · rename_i higher
        refine ⟨.quiet rfl (kept_emit (w := { w with schedCeiling := ceiling }) rfl).switches, ?_⟩
        exact (Nat.max_eq_right higher.le).symm
      · rename_i lower
        exact ⟨.quiet rfl rfl, (Nat.max_eq_left (Nat.le_of_not_lt lower)).symm⟩
  | unlockScheduler =>
      simp only [World.perform, World.unlockScheduler, underCall]
      split
      · exact ⟨.quiet rfl (kept_emit (w := { w with schedCeiling := 0 }) rfl).switches, rfl⟩
      · rename_i open_
        exact ⟨.quiet rfl rfl, not_not.mp open_⟩
  | subscribe signal prio => exact told (kept_updateTable _ (by simp [isSwitch]))
  | unsubscribe signal prio => exact told (kept_updateTable _ (by simp [isSwitch]))
  | unsubscribeAll prio => exact told (kept_updateTable _ (by simp))

end Calls

theorem reports_step {k : QvKernel} {checks : Bool} {w w' : World π} {a : Action π}
    (stepped : w.step k checks a = some w') :
    Reports w w' ∧ w'.schedCeiling = underCall w.schedCeiling a := by
  rcases step_cases stepped with ⟨-, ⟨c, rfl, rfl⟩ | ⟨ao, rest, rfl, -, rfl⟩ |
    ⟨ao, more, rest, rfl, -, rfl⟩ | ⟨rest, rfl, -, rfl⟩⟩
  · exact reports_perform checks c
  · exact reports_resume rest
  · have kept := kept_startFrom (w := { w with stack := rest }) more
    exact ⟨.quiet kept.dispatches kept.switches, kept.ceiling⟩
  · exact ⟨.quiet rfl rfl, rfl⟩

theorem ceiling_run {k : QvKernel} {checks : Bool} {w w' : World π} {actions : List (Action π)}
    (ran : Lib.run (World.step k checks) w actions = some w') :
    w'.schedCeiling = actions.foldl underCall w.schedCeiling := by
  induction actions generalizing w with
  | nil =>
      cases ran
      rfl
  | cons a rest ih =>
      obtain ⟨u, stepped, later⟩ := Lib.run_cons ran
      rw [ih later, List.foldl_cons, (reports_step stepped).2]

/-- Cooperative dispatch. In every run of kernel calls, from outside and from handlers, each
dispatched event is the front of the queue of the highest active object with events, above the
ceiling in force; each active object has handled the events put into its queue in order and once,
but for those still queued; the loop of `run_until_idle` ends only when no active object above the
ceiling has an event, and an idle callback that makes no calls returns in such a state too; and the
scheduler records form a chain. The ceiling in force is what the locks and unlocks so far make it,
and each `SCHED_NEXT` goes with the dispatch of an event of the object that it names. -/
theorem cooperative_dispatch (b : KernelBuilder) (distinct : b.Distinct) (checks : Bool)
    (actions : List (Action π)) (w : World π)
    (ran : Lib.run (World.step b.build checks) (World.init b.pubsub) actions = some w) :
    (∀ d ∈ w.dispatches, Selected d) ∧
    (w.Unstuck → ∀ ao, w.enqueued ao = w.handled ao ++ (w.queues ao).buf) ∧
    (Lib.Along (World.step b.build checks) FromOutside (World.init b.pubsub) actions →
      w.Unstuck) ∧
    (∀ a w', w.step b.build checks a = some w' → LoopEnds w a w' →
      Drained b.build w' ∧
        ∀ rest, w'.stack = .idling :: rest → Drained b.build { w' with stack := rest }) ∧
    Chained w.records ∧
    w.schedCeiling = ceilingAfter actions ∧
    (∀ a w', w.step b.build checks a = some w' → Reports w w') := by
  have ordered := build_ordered distinct
  have inv := Lib.run_preserves (inv_step ordered checks) (inv_init b.pubsub) ran
  refine ⟨inv.selected, inv.account, ?_, ?_, inv.chained, ceiling_run ran,
    fun a w' stepped => (reports_step stepped).1⟩
  · intro outside
    exact (Lib.along_preserves (shallow_step b.build checks) (shallow_init b.pubsub) outside ran).1
  · intro a w' stepped ends
    have drained := loopEnds_drained ordered stepped ends
    exact ⟨drained, fun rest _ => drained⟩

def pairBuilder : KernelBuilder :=
  ((KernelBuilder.new false).register ⟨⟨2⟩, 5⟩).register ⟨⟨1⟩, 2⟩

/-- Under a ceiling of 3 priority 5 handles a post and what its handler publishes; priority 2
handles its two events after the unlock. -/
def pairRun : List (Action Unit) :=
  [.call (.post ⟨1⟩ (.emptyDyn qUserSig)), .call (.post ⟨2⟩ (.emptyDyn qUserSig)),
    .call (.lockScheduler 3), .call .runUntilIdle, .call (.publish ⟨9⟩ (.emptyDyn ⟨9⟩)), .ret, .ret,
    .call .unlockScheduler, .call .runUntilIdle, .ret]

theorem pair_cooperative_dispatch :
    ∃ w w' : World Unit,
      Lib.run (World.step pairBuilder.build true) (World.init pairBuilder.pubsub) pairRun = some w ∧
      w.dispatches.map (fun d => (d.ao.priority, d.ceiling)) = [(5, 3), (5, 3), (2, 0), (2, 0)] ∧
      w.switches = [.next 5 0, .idle 5, .next 2 0] ∧ (∀ d ∈ w.dispatches, Selected d) ∧
      w.schedCeiling = ceilingAfter pairRun ∧
      w.step pairBuilder.build true .ret = some w' ∧ Drained pairBuilder.build w' := by
  have distinct : pairBuilder.Distinct := ⟨by decide, by decide⟩
  have dispatched := cooperative_dispatch pairBuilder distinct true pairRun _ rfl
  refine ⟨_, _, rfl, by decide, by decide, dispatched.1, dispatched.2.2.2.2.2.1, rfl, ?_⟩
  exact (dispatched.2.2.2.1 .ret _ rfl (.inl (by decide))).1

end QpRs.Qv
