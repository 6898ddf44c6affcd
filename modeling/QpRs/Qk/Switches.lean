import QpRs.Lib.Switching
import QpRs.Qk.Stack
import Mathlib.Logic.Relation

/-! Context switches of QK on one core (`commit_activation` and `restore_active` of
`qk/src/scheduler.rs`): the calls of the context-switch hook and the `NEXT` and `IDLE` records, over
any nesting of activations. -/

namespace QpRs.Qk

open QpRs.Lib

/-- The priorities before and after, of a `NEXT` or an `IDLE` record. -/
def switchOf : Record → Option (Nat × Nat)
  | .next prio previous => some (previous, prio)
  | .idle previous => some (previous, 0)
  | _ => none

/-- The hook calls form a chain from 0 to the active priority, and the records say the same. -/
structure Reports (s : QkScheduler) : Prop where
  chained : Chained 0 s.switches
  present : holder 0 s.switches = s.activePrio
  recorded : s.records.filterMap switchOf = s.switches

/-- One operation of the kernel on its scheduler. -/
inductive Operated (s : QkScheduler) : QkScheduler → Prop where
  | marked (ready : ReadySet) : Operated s { s with ready := ready }
  | planned (next : Nat) : Operated s { s with nextPrio := next }
  | locked (ceiling : Nat) : Operated s (s.lock ceiling).2
  | unlocked (status : SchedStatus) : Operated s (s.unlock status)
  | recorded (record : Record) (plain : switchOf record = none) : Operated s (s.emitRecord record)
  | committed (d : ScheduleDecision) (threshold : Nat) : Operated s (s.commitActivation d threshold)
  | restored (prio threshold : Nat) : Operated s (s.restoreActive prio threshold)

/-- What the kernel does to its scheduler between two points of a run. -/
abbrev Moves : QkScheduler → QkScheduler → Prop := Relation.ReflTransGen Operated

section Scheduler

variable {s u : QkScheduler}

theorem Operated.tells (operated : Operated s u) : s.switches <+: u.switches := by
  cases operated with
  | marked ready => exact List.prefix_rfl
  | planned next => exact List.prefix_rfl
  | locked ceiling =>
      unfold QkScheduler.lock
      split <;> exact List.prefix_rfl
  | unlocked status =>
      unfold QkScheduler.unlock
      split
      · split <;> exact List.prefix_rfl
      · exact List.prefix_rfl
  | recorded record plain => exact List.prefix_rfl
  | committed d threshold =>
      unfold QkScheduler.commitActivation
      simp only
      split
      · exact List.prefix_append _ _
      · exact List.prefix_rfl
  | restored prio threshold =>
      unfold QkScheduler.restoreActive
      simp only
      split
      · split
        · exact List.prefix_append _ _
        · exact List.prefix_rfl
      · split
        · exact List.prefix_append _ _
        · exact List.prefix_rfl

theorem Moves.tells (moves : Moves s u) : s.switches <+: u.switches := by
  induction moves with
  | refl => exact List.prefix_rfl
  | tail _ operated ih => exact ih.trans operated.tells

theorem Reports.change (reports : Reports s) {next : Nat} (other : s.activePrio ≠ next)
    {record : Record} (same : switchOf record = some (s.activePrio, next))
    (threshold nextPrio : Nat) :
    Reports (QkScheduler.emitContextSw
      (QkScheduler.emitRecord
        { s with activePrio := next, activeThreshold := threshold, nextPrio := nextPrio } record)
      s.activePrio next) where
  chained := reports.chained.change reports.present other
  present := by
    show holder 0 (s.switches ++ [(s.activePrio, next)]) = next
    rw [holder_append]
    rfl
  recorded := by
    show (s.records ++ [record]).filterMap switchOf = s.switches ++ [(s.activePrio, next)]
    rw [List.filterMap_append, reports.recorded]
    simp [same]

theorem Reports.plain (reports : Reports s) {record : Record} (plain : switchOf record = none) :
    (s.records ++ [record]).filterMap switchOf = s.switches := by
  rw [List.filterMap_append, reports.recorded]
  simp [plain]

theorem Reports.operated (reports : Reports s) (operated : Operated s u) : Reports u := by
  cases operated with
  | marked ready => exact ⟨reports.chained, reports.present, reports.recorded⟩
  | planned next => exact ⟨reports.chained, reports.present, reports.recorded⟩
  | locked ceiling =>
      unfold QkScheduler.lock
      split
      · exact ⟨reports.chained, reports.present, reports.plain rfl⟩
      · exact reports
  | unlocked status =>
      unfold QkScheduler.unlock
      split
      · split
        · exact ⟨reports.chained, reports.present, reports.plain rfl⟩
        · exact reports
      · exact reports
  | recorded record plain => exact ⟨reports.chained, reports.present, reports.plain plain⟩
  | committed d threshold =>
      unfold QkScheduler.commitActivation
      simp only
      split
      · rename_i other
        exact reports.change other.symm rfl threshold 0
      · rename_i same
        rw [ne_eq, Decidable.not_not] at same
        exact ⟨reports.chained, reports.present.trans same.symm, reports.recorded⟩
  | restored prio threshold =>
      unfold QkScheduler.restoreActive
      simp only
      split
      · rename_i idle
        subst idle
        split
        · rename_i other
          exact reports.change other rfl threshold 0
        · rename_i same
          rw [ne_eq, Decidable.not_not] at same
          exact ⟨reports.chained, reports.present.trans same, reports.recorded⟩
      · split
        · rename_i other
          exact reports.change other.symm rfl threshold 0
        · rename_i same
          rw [ne_eq, Decidable.not_not] at same
          exact ⟨reports.chained, reports.present.trans same.symm, reports.recorded⟩

theorem Reports.moves (reports : Reports s) (moves : Moves s u) : Reports u := by
  induction moves with
  | refl => exact reports
  | tail _ operated ih => exact ih.operated operated

theorem Moves.one (operated : Operated s u) : Moves s u := .single operated

theorem moves_planAbove (s : QkScheduler) (threshold : Nat) :
    Moves s (s.planAbove threshold).2 := by
  unfold QkScheduler.planAbove
  split
  · split
    · exact .one (.planned _)
    · exact .one (.planned _)
  · exact .one (.planned _)

end Scheduler

section Kernel

variable {π : Type} {k : QkKernel} {w u : World π}

theorem moves_deliver (w : World π) (p : Nat) (e : DynEvent π) :
    Moves w.sched (w.deliver p e).sched := by
  unfold World.deliver
  simp only
  split
  · exact .one (.marked _)
  · exact .refl

theorem moves_deliverAll (e : DynEvent π) (recipients : List Nat) (w : World π) :
    Moves w.sched (World.deliverAll e w recipients).sched := by
  induction recipients generalizing w with
  | nil => exact .refl
  | cons p rest ih => exact (moves_deliver w p e).trans (ih (w.deliver p e))

theorem moves_post {target : ActiveObjectId} {e : DynEvent π} (posted : w.post k target e = .ok u) :
    Moves w.sched u.sched := by
  obtain ⟨p, -, same⟩ := post_cases posted
  rw [same]
  exact moves_deliver w p e

theorem moves_publish (signal : Signal) (e : DynEvent π) :
    Moves w.sched (w.publish k signal e).sched := by
  unfold World.publish
  split
  · have told : Moves w.sched (w.sched.emitRecord (.publish signal)) := .one (.recorded _ rfl)
    simp only
    split
    · exact told
    · exact told.trans (moves_deliverAll _ _ { w with sched := _ })
  · exact moves_deliverAll _ _ w

theorem moves_activateNext (restorePrio restoreThreshold : Nat) (before : Nat × Nat)
    (d : ScheduleDecision) :
    Moves w.sched (w.activateNext k restorePrio restoreThreshold before d).sched := by
  unfold World.activateNext
  split
  · exact .refl
  · split
    · exact .refl
    · rw [(dispatchOne_frame _ _ _).1]
      exact .one (.committed _ _)

theorem moves_activate (d : ScheduleDecision) : Moves w.sched (w.activate k d).sched := by
  simp only [World.activate]
  split
  · exact .refl
  · exact moves_activateNext _ _ _ _

theorem moves_dispatchOnce : Moves w.sched (w.dispatchOnce k).sched := by
  have planned := moves_planAbove w.sched w.sched.activeThreshold
  unfold World.dispatchOnce QkScheduler.planActivation
  split
  · rename_i plan
    rw [plan] at planned
    exact planned.trans (moves_activate (w := { w with sched := _ }) _)
  · rename_i plan
    rw [plan] at planned
    exact planned

theorem moves_runUntilIdle : Moves w.sched (w.runUntilIdle k).sched := by
  have planned := moves_planAbove w.sched w.sched.activeThreshold
  unfold World.runUntilIdle QkScheduler.planActivation
  split
  · rename_i plan
    rw [plan] at planned
    exact planned.trans (moves_activate (w := { w with sched := _, stack := _ }) _)
  · rename_i plan
    rw [plan] at planned
    exact planned

theorem moves_thenRun : Moves w.sched (w.thenRun k).sched := by
  unfold World.thenRun
  split
  · exact .refl
  · exact moves_runUntilIdle

theorem moves_resume : Moves w.sched (w.resume k).sched := by
  unfold World.resume
  split
  · rename_i rest top
    exact moves_runUntilIdle (w := { w with stack := rest })
  · exact .refl

theorem moves_finish (p restorePrio restoreThreshold : Nat) (before : Nat × Nat) :
    Moves w.sched (World.finish k w p restorePrio restoreThreshold before).sched := by
  have settled : Moves w.sched (if w.hasEvents p then w
      else { w with sched := w.sched.markNotReady p }).sched := by
    split
    · exact .refl
    · exact .one (.marked _)
  simp only [World.finish]
  generalize (if w.hasEvents p then w else { w with sched := w.sched.markNotReady p }) = u
    at settled
  have planned := moves_planAbove u.sched restoreThreshold
  apply settled.trans
  unfold QkScheduler.nextAfterDispatch
  split
  · rename_i plan
    rw [plan] at planned
    exact planned.trans (moves_activateNext (w := { u with sched := _ }) _ _ _ _)
  · rename_i plan
    rw [plan] at planned
    apply (planned.tail (.restored restorePrio restoreThreshold)).trans
    exact moves_resume (w := { u with sched := _, returns := _ })

theorem sched_startFrom (more : List Nat) : (w.startFrom more).sched = w.sched := by
  unfold World.startFrom
  split
  · rfl
  · split <;> rfl

theorem moves_started (p : Nat) (more : List Nat) :
    Moves w.sched (w.started p more).sched := by
  unfold World.started
  rw [sched_startFrom]
  split
  · exact .one (.marked _)
  · exact .refl

theorem moves_updateTable (change : PubSubTable → Except Halt PubSubTable) {record : Option Record}
    (plain : ∀ r, record = some r → switchOf r = none) :
    Moves w.sched (w.updateTable change record).sched := by
  unfold World.updateTable
  split
  · exact .refl
  · split
    · exact .refl
    · cases record with
      | none => exact .refl
      | some r => exact .one (.recorded r (plain r rfl))

theorem moves_perform (checks : Bool) (c : Call π) :
    Moves w.sched (w.perform k checks c).sched := by
  cases c with
  | start =>
      rw [World.perform, sched_startFrom]
  | post target e =>
      cases posted : w.post k target e with
      | ok w' => simpa only [World.perform, posted] using moves_post posted
      | error err => simpa only [World.perform, posted] using Relation.ReflTransGen.refl
  | postAndRun target e =>
      cases posted : w.post k target e with
      | ok w' => simpa only [World.perform, posted] using (moves_post posted).trans moves_thenRun
      | error err => simpa only [World.perform, posted] using Relation.ReflTransGen.refl
  | publish signal e => exact moves_publish signal e
  | publishAndRun signal e => exact (moves_publish signal e).trans moves_thenRun
  | dispatchOnce => exact moves_dispatchOnce
  | runUntilIdle => exact moves_runUntilIdle
  | lockScheduler ceiling => exact .one (.locked ceiling)
  | unlockScheduler status =>
      have released : Moves w.sched (w.sched.unlock status) := .one (.unlocked status)
      cases status with
      | unlocked => exact released
      | locked value => exact released.trans (moves_dispatchOnce (w := { w with sched := _ }))
  | subscribe signal prio =>
      apply moves_updateTable
      intro r same
      cases same
      rfl
  | unsubscribe signal prio =>
      apply moves_updateTable
      intro r same
      cases same
      rfl
  | unsubscribeAll prio =>
      apply moves_updateTable
      intro r same
      cases same

theorem moves_step {checks : Bool} {a : Action π} (stepped : w.step k checks a = some u) :
    Moves w.sched u.sched := by
  rcases step_cases stepped with ⟨-, ⟨c, -, -, rfl⟩ | ⟨p, rp, rt, before, rest, -, -, rfl⟩ |
    ⟨p, more, below, -, -, rfl⟩⟩
  · exact moves_perform checks c
  · exact moves_finish (w := { w with stack := rest }) p rp rt before
  · exact moves_started (w := { w with stack := below }) p more

end Kernel

/-- A run of the kernel with a clock. `calls` are the calls of the context-switch hook with their
times, and `busy` is how long the handlers of each priority ran, 0 for none. -/
structure Metered (π : Type) where
  world : World π
  now : Nat
  calls : List ((Nat × Nat) × Nat)
  busy : Nat → Nat

def runningPrio (stack : List Frame) : Nat := (activePrios stack).headD 0

namespace Metered

variable {π : Type}

def init (pubsub : Option PubSubTable) : Metered π := ⟨.init pubsub, 0, [], fun _ => 0⟩

/-- The running code goes on for some time and then takes a step. -/
def step (k : QkKernel) (checks : Bool) (m : Metered π) : Action π × Nat → Option (Metered π)
  | (a, elapsed) =>
      let running := runningPrio m.world.stack
      let now := m.now + elapsed
      (m.world.step k checks a).map fun w =>
        { world := w
          now := now
          calls := m.calls ++ (w.sched.switches.drop m.world.sched.switches.length).map (·, now)
          busy := Function.update m.busy running (m.busy running + elapsed) }

/-- The hook calls so far are those of the scheduler, and the time between them is the time that
the handlers ran. -/
structure Metes (m : Metered π) : Prop where
  told : m.calls.map Prod.fst = m.world.sched.switches
  past : Until m.now m.calls
  accounts : ∀ p, spent p 0 0 m.calls m.now = m.busy p

end Metered

section Metered

variable {π : Type} {k : QkKernel} {checks : Bool} {m n : Metered π}

theorem topPair_running (k : QkKernel) (stack : List Frame) :
    (topPair k stack).1 = runningPrio stack := by
  unfold topPair runningPrio
  cases activePrios stack <;> rfl

theorem Inv.holder {w : World π} (inv : Inv k w) (reports : Reports w.sched) :
    holder 0 w.sched.switches = runningPrio w.stack := by
  rw [reports.present, ← topPair_running k, ← inv.active]

theorem Metered.step_cases {l : Action π × Nat} (stepped : m.step k checks l = some n) :
    ∃ w, m.world.step k checks l.1 = some w ∧ n.world = w ∧ n.now = m.now + l.2 ∧
      n.calls = m.calls ++
        (w.sched.switches.drop m.world.sched.switches.length).map (·, m.now + l.2) ∧
      n.busy = Function.update m.busy (runningPrio m.world.stack)
        (m.busy (runningPrio m.world.stack) + l.2) := by
  obtain ⟨w, moved, rfl⟩ := Option.map_eq_some_iff.mp stepped
  exact ⟨w, moved, rfl, rfl, rfl, rfl⟩

theorem Metered.Metes.step {l : Action π × Nat} (metes : m.Metes) (inv : Inv k m.world)
    (reports : Reports m.world.sched) (stepped : m.step k checks l = some n) : n.Metes := by
  obtain ⟨w, moved, world, now, calls, busy⟩ := Metered.step_cases stepped
  have tells := (moves_step moved).tells
  have past : Until (m.now + l.2) m.calls := metes.past.later (Nat.le_add_right _ _)
  refine ⟨?_, ?_, ?_⟩
  · rw [calls, world, List.map_append, metes.told, List.map_map]
    obtain ⟨more, grown⟩ := tells
    rw [← grown, List.drop_left]
    exact congrArg (m.world.sched.switches ++ ·) (List.map_id more)
  · rw [calls, now]
    exact past.append_now _
  · intro p
    rw [calls, now, spent_append_now, spent_later p 0 (Nat.zero_le _) metes.past, metes.told,
      inv.holder reports, metes.accounts p, busy]
    by_cases here : runningPrio m.world.stack = p
    · rw [if_pos here, here, Function.update_self]
    · have other : p ≠ runningPrio m.world.stack := fun same => here same.symm
      rw [if_neg here, Function.update_of_ne other, Nat.add_zero]

end Metered

theorem reports_new : Reports (QkScheduler.new.configureActive 0 0) := ⟨trivial, rfl, rfl⟩

/-- Context switches of QK. In every state of every run the hook calls form a chain from priority 0
in which previous and next differ, the `NEXT` and `IDLE` records say the same, the next of the
latest call is the priority whose handler runs, 0 if none does, and the time between the calls is
the time that the handlers of each priority ran. -/
theorem context_switches_chain {π : Type} (k : QkKernel) (pubsub : Option PubSubTable)
    (checks : Bool) (actions : List (Action π × Nat)) (m : Metered π)
    (ran : run (Metered.step k checks) (Metered.init pubsub) actions = some m) :
    let switches := m.world.sched.switches
    Chained 0 switches ∧ m.world.sched.records.filterMap switchOf = switches ∧
      holder 0 switches = runningPrio m.world.stack ∧
      m.calls.map Prod.fst = switches ∧ ∀ p, spent p 0 0 m.calls m.now = m.busy p := by
  intro switches
  have preserved (m : Metered π) (l : Action π × Nat) (n : Metered π)
      (held : Inv k m.world ∧ Reports m.world.sched ∧ m.Metes)
      (stepped : m.step k checks l = some n) :
      Inv k n.world ∧ Reports n.world.sched ∧ n.Metes := by
    obtain ⟨inv, reports, metes⟩ := held
    obtain ⟨w, moved, world, -⟩ := Metered.step_cases stepped
    rw [← world] at moved
    exact ⟨inv_step k checks m.world l.1 n.world inv moved, reports.moves (moves_step moved),
      metes.step inv reports stepped⟩
  have start : Inv k (Metered.init pubsub : Metered π).world ∧
      Reports (Metered.init pubsub : Metered π).world.sched ∧
      (Metered.init pubsub : Metered π).Metes := by
    refine ⟨inv_init k pubsub, reports_new, rfl, nofun, ?_⟩
    intro p
    simp [Metered.init, spent]
  obtain ⟨inv, reports, metes⟩ := run_preserves preserved start ran
  exact ⟨reports.chained, reports.recorded, inv.holder reports, metes.told, metes.accounts⟩

/-- The handler of priority 2 runs for 3 ticks, is preempted by priority 5 for 4, and runs on for
2. -/
theorem preemption_chain :
    ∃ m : Metered Unit, run (Metered.step pairKernel true) (Metered.init none)
        [(.call (.post ⟨1⟩ (.emptyDyn qUserSig)), 1), (.call .runUntilIdle, 0),
          (.call (.postAndRun ⟨2⟩ (.emptyDyn qUserSig)), 3), (.ret, 4), (.ret, 2)] = some m ∧
      m.world.sched.switches = [(0, 2), (2, 5), (5, 2), (2, 0)] ∧
      Chained 0 m.world.sched.switches ∧ spent 2 0 0 m.calls m.now = 5 ∧
      spent 5 0 0 m.calls m.now = 4 := by
  refine ⟨_, rfl, by decide, ?_⟩
  let actions : List (Action Unit × Nat) :=
    [(.call (.post ⟨1⟩ (.emptyDyn qUserSig)), 1), (.call .runUntilIdle, 0),
      (.call (.postAndRun ⟨2⟩ (.emptyDyn qUserSig)), 3), (.ret, 4), (.ret, 2)]
  have chain := context_switches_chain pairKernel none true actions _ rfl
  exact ⟨chain.1, (chain.2.2.2.2 2).trans rfl, (chain.2.2.2.2 5).trans rfl⟩

end QpRs.Qk
