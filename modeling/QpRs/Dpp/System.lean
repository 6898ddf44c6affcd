import QpRs.Dpp.Philo
import QpRs.Lib.Actors
import Mathlib.Tactic.IntervalCases

/-! The dining philosophers as a system of actors (`build_runtime` of `examples/dpp/src/main.rs`):
a dispatch of a state machine takes one event and sends what it posts.

From outside come the polls of the timers by `tick`, and the events that the command channel posts
(`RxCmd::Event` of `examples/dpp/src/qspy.rs`): any signal, to any active object, without
payload. -/

namespace QpRs.Dpp

open Hsm Lib

inductive Party where
  | table
  | philo (i : Fin nPhilo)
  deriving DecidableEq, Repr

def Party.id : Party → ActiveObjectId
  | .table => tableId
  | .philo i => philoId i

def Party.ofId (id : ActiveObjectId) : Option Party :=
  if id = tableId then some .table else (msgIndex ⟨id⟩).map .philo

theorem Party.ofId_id (p : Party) : Party.ofId p.id = some p := by
  cases p with
  | table => rfl
  | philo i =>
      have other : philoId i ≠ tableId := by
        intro same
        have := congrArg ActiveObjectId.val same
        simp [philoId, tableId, philoBaseId] at this
        omega
      have index : msgIndex ⟨philoId i⟩ = some i := by
        simp [msgIndex, philoId]
      simp [Party.ofId, Party.id, other, index]

/-- A post to an id that is not registered fails, and the error is dropped. -/
def route (posts : List (ActiveObjectId × Event)) : List (Party × Event) :=
  posts.filterMap fun post => (Party.ofId post.1).map fun p => (p, post.2)

@[simp] theorem route_nil : route [] = [] := rfl

@[simp] theorem route_cons (p : Party) (e : Event) (rest : List (ActiveObjectId × Event)) :
    route ((p.id, e) :: rest) = (p, e) :: route rest := by
  simp [route, Party.ofId_id]

abbrev Local : Party → Type
  | .table => TableHsm
  | .philo _ => PhiloHsm

inductive Outside where
  | tick
  | command (signal : Signal)
  deriving DecidableEq, Repr

/-- Enough for the two levels of states of the machines here. -/
def dispatchFuel : Nat := 8

def tableDispatch (traced : Bool) (m : TableHsm) (e : Event) : Except Halt TableHsm :=
  QHsm.dispatchTraced tableHandler traced dispatchFuel { m with sm := { m.sm with posts := [] } } e

def philoDispatch (traced : Bool) (answers : Answers) (m : PhiloHsm) (e : Event) :
    Except Halt PhiloHsm :=
  QHsm.dispatchTraced (philoHandler answers) traced dispatchFuel
    { m with sm := { m.sm with posts := [] } } e

/-- `tick` polls the timer of a philosopher. -/
def pollTimer (i : Fin nPhilo) (m : PhiloHsm) : PhiloHsm × Option Event :=
  let polled := m.sm.timer.poll TableMsg
  let due := polled.1.filter fun post => post.1 = philoId i
  ({ m with sm := { m.sm with timer := polled.2 } }, due.map Prod.snd)

def dining (traced : Bool) : Actors Party Local Event Answers Outside where
  handle
    | .table, _, m, e => (tableDispatch traced m e).toOption.map fun m => (m, route m.sm.posts)
    | .philo _, answers, m, e =>
        (philoDispatch traced answers m e).toOption.map fun m => (m, route m.sm.posts)
  outside
    | .table, .tick, _ => none
    | .table, .command signal, m => some (m, some (.emptyDyn signal))
    | .philo i, .tick, m => some (pollTimer i m)
    | .philo _, .command signal, m => some (m, some (.emptyDyn signal))

def tableInit (traced : Bool) : Except Halt TableHsm :=
  QHsm.initTraced tableHandler traced dispatchFuel (.new .new tableInitial)

def philoInit (traced : Bool) (answers : Answers) (i : Fin nPhilo) : Except Halt PhiloHsm :=
  QHsm.initTraced (philoHandler answers) traced dispatchFuel (.new (.new i) philoInitial)

abbrev Dining := Actors.Config Party Local Event

/-- All state machines have taken their initial transition, and no event has been posted. -/
def start (traced : Bool) (answers : Fin nPhilo → Answers) : Dining where
  state
    | .table => (tableInit traced).toOption.getD (.new .new tableInitial)
    | .philo i => (philoInit traced (answers i) i).toOption.getD (.new (.new i) philoInitial)
  mailbox _ := []
  outbox _ := []

section Flat

/-- The table without its hierarchy: the next state and data for an event. -/
def tableNext (s : TableState) (t : TableData) (e : Event) : TableState × TableData :=
  match s, e.signal.val with
  | .serving, 1 => (.serving, t.serveAll)
  | .serving, 3 => (.serving, t.serveAll)
  | .serving, 5 => (.serving, t.withMsg e .handleDone)
  | .serving, 6 => (.paused, t.emitPaused 1)
  | .serving, 11 => (.serving, t.withMsg e .handleHungry)
  | .paused, 1 => (.paused, t.emitPaused 1)
  | .paused, 2 => (.paused, t.emitPaused 0)
  | .paused, 3 => (.serving, (t.emitPaused 0).serveAll)
  | .paused, 5 => (.paused, t.withMsg e .handlePausedDone)
  | .paused, 7 => (.serving, (t.emitPaused 0).serveAll)
  | .paused, 11 => (.paused, t.withMsg e .setHungry)
  | _, _ => (s, t)

/-- A philosopher without the algorithm of its state machine. -/
def philoNext (answers : Answers) (s : PhiloState) (p : PhiloData) (e : Event) :
    PhiloState × PhiloData :=
  match s, e.signal.val with
  | .thinking, 10 =>
      if answers.probe.getD 0 ≠ 0 then (.thinking, p)
      else (.hungry, (p.disarmTimer.postTable hungrySig).logState "hungry")
  | .hungry, 4 => (.eating, (p.armTimer (PhiloData.eatTicks answers.rng)).logState "eating")
  | .eating, 10 =>
      (.thinking, (((p.disarmTimer.postTable doneSig).armTimer
        (PhiloData.thinkTicks answers.rng)).logState "thinking"))
  | .thinking, 1 =>
      (.thinking, (p.armTimer (PhiloData.thinkTicks answers.rng)).logState "thinking")
  | .hungry, 1 => (.hungry, (p.postTable hungrySig).logState "hungry")
  | .eating, 1 => (.eating, (p.armTimer (PhiloData.eatTicks answers.rng)).logState "eating")
  | .thinking, 2 => (.thinking, p.disarmTimer)
  | .eating, 2 => (.eating, p.disarmTimer.postTable doneSig)
  | _, _ => (s, p)

theorem table_dispatch (traced : Bool) {m : TableHsm} {s : TableState} (here : m.state.get = some s)
    (leaf : s ≠ .active) (e : Event) :
    ∃ n, tableDispatch traced m e = .ok n ∧
      n.state.get = some (tableNext s { m.sm with posts := [] } e).1 ∧
      n.sm = (tableNext s { m.sm with posts := [] } e).2 := by
  obtain ⟨⟨state, copy, agree⟩, temp, sm, history, calls, records⟩ := m
  obtain ⟨⟨⟨signal⟩, pool, count⟩, payload⟩ := e
  cases here
  -- The handlers name signals below 12; all others go up to the top.
  by_cases low : signal < 12
  · cases s with
    | active => exact absurd rfl leaf
    | serving => interval_cases signal <;> cases traced <;> exact ⟨_, rfl, rfl, rfl⟩
    | paused => interval_cases signal <;> cases traced <;> exact ⟨_, rfl, rfl, rfl⟩
  · obtain ⟨k, rfl⟩ : ∃ k, signal = k + 12 := ⟨signal - 12, by omega⟩
    cases s with
    | active => exact absurd rfl leaf
    | serving => cases traced <;> exact ⟨_, rfl, rfl, rfl⟩
    | paused => cases traced <;> exact ⟨_, rfl, rfl, rfl⟩

theorem philo_dispatch (traced : Bool) (answers : Answers) {m : PhiloHsm} {s : PhiloState}
    (here : m.state.get = some s) (e : Event) :
    ∃ n, philoDispatch traced answers m e = .ok n ∧
      n.state.get = some (philoNext answers s { m.sm with posts := [] } e).1 ∧
      n.sm = (philoNext answers s { m.sm with posts := [] } e).2 := by
  obtain ⟨⟨state, copy, agree⟩, temp, sm, history, calls, records⟩ := m
  obtain ⟨⟨⟨signal⟩, pool, count⟩, payload⟩ := e
  cases here
  have timeout (tp : Option Nat) : tp = none ∨ tp = some 0 ∨ ∃ k, tp = some (k + 1) := by
    cases tp with
    | none => exact .inl rfl
    | some value =>
        cases value with
        | zero => exact .inr (.inl rfl)
        | succ k => exact .inr (.inr ⟨k, rfl⟩)
  obtain ⟨rng, probe⟩ := answers
  by_cases low : signal < 12
  · rcases timeout probe with rfl | rfl | ⟨k, rfl⟩ <;> cases s <;> interval_cases signal <;>
      cases traced <;> exact ⟨_, rfl, rfl, rfl⟩
  · obtain ⟨k, rfl⟩ : ∃ k, signal = k + 12 := ⟨signal - 12, by omega⟩
    cases s <;> cases traced <;> exact ⟨_, rfl, rfl, rfl⟩

theorem start_table (traced : Bool) (answers : Fin nPhilo → Answers) :
    ((start traced answers).state .table).state.get = some .serving ∧
      ((start traced answers).state .table).sm = TableData.new.serveAll := by
  cases traced <;> exact ⟨rfl, rfl⟩

theorem start_philo (traced : Bool) (answers : Fin nPhilo → Answers) (i : Fin nPhilo) :
    ((start traced answers).state (.philo i)).state.get = some .thinking ∧
      ((start traced answers).state (.philo i)).sm =
        ((PhiloData.new i).armTimer (PhiloData.thinkTicks (answers i).rng)).logState
          "thinking" := by
  cases traced <;> exact ⟨rfl, rfl⟩

end Flat

end QpRs.Dpp
