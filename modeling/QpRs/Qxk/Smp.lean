import QpRs.Lib.Claims
import QpRs.Lib.Run
import QpRs.Qxk.Kernel

/-! The QXK scheduler with the `smp` feature (`qxk/src/scheduler.rs`), and up to eight cores that
run `dispatch_once` over it, one scheduler call at a time.

Each core has a stack of unfinished `dispatch_once` calls; a new one starts on an idle core or
inside a running handler. Whether an active object has events and what a thread returns is left
open, and so are the calls that handlers and interrupts make to the scheduler. -/

namespace QpRs.Qxk.Smp

abbrev CoreId := Fin 8

/-- The free mark in `executing_aos` and `executing_threads`. -/
def noCore : Nat := 0xFF

structure CoreState where
  activePrio : Nat
  activeThread : Option ThreadId
  nextPrio : Nat
  nextThread : Option ThreadId
  deriving DecidableEq, Repr

structure QxkScheduler where
  lockCeiling : Nat
  aoReady : ReadySet
  threadReady : ThreadReadyQueue
  cores : CoreId → CoreState
  executingAos : Nat → Nat
  executingThreads : ThreadId → Nat
  records : List Record

namespace QxkScheduler

def new : QxkScheduler where
  lockCeiling := 0
  aoReady := .empty
  threadReady := []
  cores := fun _ => ⟨0, none, 0, none⟩
  executingAos := fun _ => noCore
  executingThreads := fun _ => noCore
  records := []

def emitTrace (s : QxkScheduler) (record : Record) : QxkScheduler :=
  { s with records := s.records ++ [record] }

def setCore (s : QxkScheduler) (c : CoreId) (core : CoreState) : QxkScheduler :=
  { s with cores := Function.update s.cores c core }

def lock (s : QxkScheduler) (ceiling : Nat) : SchedStatus × QxkScheduler :=
  if ceiling > s.lockCeiling then
    (.locked s.lockCeiling, emitTrace { s with lockCeiling := ceiling } (.lock ceiling))
  else (.unlocked, s)

def unlock (s : QxkScheduler) : SchedStatus → QxkScheduler
  | .locked value =>
      if s.lockCeiling > value then
        emitTrace { s with lockCeiling := value } (.unlock s.lockCeiling value)
      else s
  | .unlocked => s

def markAoReady (s : QxkScheduler) (prio : Nat) : QxkScheduler :=
  { s with aoReady := s.aoReady.insert prio }

def markAoNotReady (s : QxkScheduler) (prio : Nat) : QxkScheduler :=
  { s with aoReady := s.aoReady.remove prio }

def markThreadReady (s : QxkScheduler) (id : ThreadId) (priority : Nat) : QxkScheduler :=
  { s with threadReady := s.threadReady.insert id priority }

def markThreadNotReady (s : QxkScheduler) (id : ThreadId) : QxkScheduler :=
  { s with threadReady := s.threadReady.remove id }

def blockThread (s : QxkScheduler) (id : ThreadId) : QxkScheduler :=
  { s with threadReady := s.threadReady.remove id }

def unblockThread (s : QxkScheduler) (id : ThreadId) (priority : Nat) : QxkScheduler :=
  { s with threadReady := s.threadReady.insert id priority }

def aoRunning (s : QxkScheduler) (c : CoreId) (prio : Nat) : Bool :=
  ((List.finRange 8).any fun other =>
    other ≠ c && ((s.cores other).activePrio == prio || (s.cores other).nextPrio == prio)) ||
    s.executingAos prio != noCore

def threadRunning (s : QxkScheduler) (c : CoreId) (id : ThreadId) : Bool :=
  ((List.finRange 8).any fun other =>
    other ≠ c && ((s.cores other).activeThread == some id ||
      (s.cores other).nextThread == some id)) ||
    s.executingThreads id != noCore

def priorities : List Nat := (List.range' 1 63).reverse

def aoEligible (s : QxkScheduler) (c : CoreId) (prio : Nat) : Bool :=
  s.aoReady.contains prio && prio > s.lockCeiling && !s.aoRunning c prio

/-- `plan_next` when no active object is found. -/
def planThread (s : QxkScheduler) (c : CoreId) : ScheduleMode × QxkScheduler :=
  match s.threadReady.find? fun entry => !s.threadRunning c entry.1 with
  | some (id, priority) =>
      (.extendedThread id priority,
        (s.setCore c { s.cores c with nextPrio := 0, nextThread := some id }).emitTrace
          (.threadNext id priority))
  | none =>
      (.idle, (s.setCore c { s.cores c with nextPrio := 0, nextThread := none }).emitTrace .idle)

def planNext (s : QxkScheduler) (c : CoreId) : ScheduleMode × QxkScheduler :=
  match priorities.find? (s.aoEligible c) with
  | some prio =>
      (.activeObject prio,
        (s.setCore c { s.cores c with nextPrio := prio, nextThread := none }).emitTrace
          (.next prio))
  | none => s.planThread c

def setActive (s : QxkScheduler) (c : CoreId) : ScheduleMode → QxkScheduler
  | .activeObject priority =>
      let s := s.setCore c ⟨priority, none, 0, none⟩
      if priority > 0 then
        { s with executingAos := Function.update s.executingAos priority c.val }
      else s
  | .extendedThread id _ =>
      let s := s.setCore c ⟨0, some id, 0, none⟩
      { s with executingThreads := Function.update s.executingThreads id c.val }
  | .idle => s.setCore c ⟨0, none, 0, none⟩

def completeExecution (s : QxkScheduler) (c : CoreId) : ScheduleMode → QxkScheduler
  | .activeObject priority =>
      let s := if 0 < priority ∧ priority < 64 then
          { s with executingAos := Function.update s.executingAos priority noCore }
        else s
      if (s.cores c).activePrio = priority then s.setCore c { s.cores c with activePrio := 0 }
      else s
  | .extendedThread id _ =>
      let s := { s with executingThreads := Function.update s.executingThreads id noCore }
      if (s.cores c).activeThread = some id then
        s.setCore c { s.cores c with activeThread := none }
      else s
  | .idle => s

end QxkScheduler

/-- The calls that handlers, threads and interrupts make to the scheduler. -/
inductive SchedCall where
  | lock (ceiling : Nat)
  | unlock (status : SchedStatus)
  | markAoReady (prio : Nat)
  | markAoNotReady (prio : Nat)
  | markThreadReady (id : ThreadId) (priority : Nat)
  | markThreadNotReady (id : ThreadId)
  | blockThread (id : ThreadId)
  | unblockThread (id : ThreadId) (priority : Nat)
  deriving DecidableEq, Repr

def QxkScheduler.perform (s : QxkScheduler) : SchedCall → QxkScheduler
  | .lock ceiling => (s.lock ceiling).2
  | .unlock status => s.unlock status
  | .markAoReady prio => s.markAoReady prio
  | .markAoNotReady prio => s.markAoNotReady prio
  | .markThreadReady id priority => s.markThreadReady id priority
  | .markThreadNotReady id => s.markThreadNotReady id
  | .blockThread id => s.blockThread id
  | .unblockThread id priority => s.unblockThread id priority

/-- Where a `dispatch_once` is: after `plan_next`, after `set_active`, in the handler, after the
handler, after `complete_execution`. -/
inductive Phase where
  | planned
  | active
  | running
  | returned
  | completed
  deriving DecidableEq, Repr

/-- The phases between `set_active` and `complete_execution`. -/
def Phase.executing : Phase → Bool
  | .active | .running | .returned => true
  | _ => false

structure Dispatch where
  mode : ScheduleMode
  phase : Phase
  deriving DecidableEq, Repr

structure State where
  sched : QxkScheduler
  frames : CoreId → List Dispatch

def State.init : State := ⟨.new, fun _ => []⟩

/-- The steps of a core. A dispatch without a handler to run (nothing ready, no event, no such
thread) completes from `active`. -/
inductive Step where
  | plan
  | setActive
  | enter
  | ret
  | clear
  | complete
  | finish (action : ThreadAction)

inductive Label where
  | core (c : CoreId) (a : Step)
  | call (c : SchedCall)

namespace State

def setTop (s : State) (c : CoreId) (top : Dispatch) (below : List Dispatch) : State :=
  { s with frames := Function.update s.frames c (top :: below) }

/-- What follows `complete_execution` in `dispatch_once`. -/
def afterPoll (sched : QxkScheduler) : ScheduleMode → ThreadAction → QxkScheduler
  | .extendedThread id priority, .yield => sched.markThreadReady id priority
  | .extendedThread id _, .terminated => sched.markThreadNotReady id
  | _, _ => sched

def stepCore (s : State) (c : CoreId) (a : Step) : Option State :=
  match a, s.frames c with
  | .plan, [] =>
      let (mode, sched) := s.sched.planNext c
      some ({ s with sched := sched }.setTop c ⟨mode, .planned⟩ [])
  | .plan, ⟨m, .running⟩ :: below =>
      let (mode, sched) := s.sched.planNext c
      some ({ s with sched := sched }.setTop c ⟨mode, .planned⟩ (⟨m, .running⟩ :: below))
  | .setActive, ⟨mode, .planned⟩ :: below =>
      some ({ s with sched := s.sched.setActive c mode }.setTop c ⟨mode, .active⟩ below)
  | .enter, ⟨.activeObject p, .active⟩ :: below =>
      some (s.setTop c ⟨.activeObject p, .running⟩ below)
  | .enter, ⟨.extendedThread id p, .active⟩ :: below =>
      some (s.setTop c ⟨.extendedThread id p, .running⟩ below)
  | .ret, ⟨mode, .running⟩ :: below => some (s.setTop c ⟨mode, .returned⟩ below)
  | .clear, ⟨.activeObject p, .returned⟩ :: _ => some { s with sched := s.sched.markAoNotReady p }
  | .complete, ⟨mode, .active⟩ :: below =>
      some ({ s with sched := s.sched.completeExecution c mode }.setTop c ⟨mode, .completed⟩ below)
  | .complete, ⟨mode, .returned⟩ :: below =>
      some ({ s with sched := s.sched.completeExecution c mode }.setTop c ⟨mode, .completed⟩ below)
  | .finish action, ⟨mode, .completed⟩ :: below =>
      some { sched := afterPoll s.sched mode action, frames := Function.update s.frames c below }
  | _, _ => none

def step (s : State) : Label → Option State
  | .core c a => s.stepCore c a
  | .call c => some { s with sched := s.sched.perform c }

end State

inductive Task where
  | ao (prio : Nat)
  | thread (id : ThreadId)
  deriving DecidableEq, Repr

def task : ScheduleMode → Option Task
  | .activeObject prio => some (.ao prio)
  | .extendedThread id _ => some (.thread id)
  | .idle => none

def running (frames : List Dispatch) (t : Task) : Nat :=
  frames.countP fun d => task d.mode = some t ∧ d.phase = .running

def Dispatch.holds (d : Dispatch) : Option Task := if d.phase.executing then task d.mode else none

def coreOf (mark : Nat) : Option CoreId := if inside : mark < 8 then some ⟨mark, inside⟩ else none

def CoreState.reserved (core : CoreState) : Option Task :=
  if core.nextPrio ≠ 0 then some (.ao core.nextPrio) else core.nextThread.map .thread

/-- The executing marks, the tasks set active on each core, and the `next` fields of each core. -/
def State.claims (s : State) : Lib.Claims CoreId Task where
  mark
    | .ao prio => coreOf (s.sched.executingAos prio)
    | .thread id => coreOf (s.sched.executingThreads id)
  held c := (s.frames c).filterMap Dispatch.holds
  reserved c := (s.sched.cores c).reserved

/-- Every task has at most one holder, a planned dispatch has reserved its task, and a dispatch is
nested in a running handler. -/
structure Inv (s : State) : Prop where
  exclusive : s.claims.Exclusive
  nested : ∀ c, ∀ d ∈ (s.frames c).tail, d.phase = .running
  planned : ∀ c mode below, s.frames c = ⟨mode, .planned⟩ :: below →
    (s.sched.cores c).reserved = task mode
  inRange : ∀ c, ∀ d ∈ s.frames c, ∀ prio, d.mode = .activeObject prio → 0 < prio ∧ prio < 64

section Steps

variable {s t : State} {c : CoreId}

theorem coreOf_val (c : CoreId) : coreOf c.val = some c := by simp [coreOf]

theorem coreOf_noCore : coreOf noCore = none := by simp [coreOf, noCore]

/-- `plan_next` reserves the task that it returns: one that no core has set active and no other core
has reserved. -/
theorem planNext_spec (s : State) (c : CoreId) :
    (∃ core records, (s.sched.planNext c).2 =
        { s.sched with cores := Function.update s.sched.cores c core, records := records } ∧
      core.reserved = task (s.sched.planNext c).1) ∧
    (∀ prio, (s.sched.planNext c).1 = .activeObject prio → 0 < prio ∧ prio < 64) ∧
    ∀ t, task (s.sched.planNext c).1 = some t →
      s.claims.mark t = none ∧ ∀ c', c' ≠ c → s.claims.reserved c' ≠ some t := by
  unfold QxkScheduler.planNext
  cases found : QxkScheduler.priorities.find? (s.sched.aoEligible c) with
  | some prio =>
      have member := List.mem_of_find?_eq_some found
      have chosen := List.find?_some found
      simp only [QxkScheduler.priorities, List.mem_reverse, List.mem_range'_1] at member
      simp only [QxkScheduler.aoEligible, QxkScheduler.aoRunning, Bool.and_eq_true,
        Bool.not_eq_true', Bool.or_eq_false_iff, List.any_eq_false, List.mem_finRange,
        bne_eq_false_iff_eq] at chosen
      have positive : prio ≠ 0 := by omega
      refine ⟨⟨_, _, rfl, by simp [CoreState.reserved, task, positive]⟩, ?_, ?_⟩
      · intro prio' same
        cases same
        omega
      · intro t same
        cases same
        refine ⟨by simp [State.claims, chosen.2.2, coreOf_noCore], ?_⟩
        intro c' other reserved
        apply chosen.2.1 c' trivial
        simp only [State.claims, CoreState.reserved] at reserved
        split at reserved
        · cases reserved
          simp [other]
        · simp at reserved
  | none =>
      simp only [QxkScheduler.planThread]
      cases ready : s.sched.threadReady.find? fun entry => !s.sched.threadRunning c entry.1 with
      | some entry =>
          have chosen := List.find?_some ready
          simp only [QxkScheduler.threadRunning, Bool.not_eq_true', Bool.or_eq_false_iff,
            List.any_eq_false, List.mem_finRange, bne_eq_false_iff_eq] at chosen
          refine ⟨⟨_, _, rfl, by simp [CoreState.reserved, task]⟩, by simp, ?_⟩
          intro t same
          cases same
          refine ⟨by simp [State.claims, chosen.2, coreOf_noCore], ?_⟩
          intro c' other reserved
          apply chosen.1 c' trivial
          simp only [State.claims, CoreState.reserved] at reserved
          split at reserved
          · simp at reserved
          · simp only [Option.map_eq_some_iff, Task.thread.injEq] at reserved
            rcases reserved with ⟨id, next, rfl⟩
            simp [other, next]
      | none => exact ⟨⟨_, _, rfl, by simp [CoreState.reserved, task]⟩, by simp, by simp [task]⟩

/-- What a step of a core does. -/
inductive Moves (s : State) (c : CoreId) : State → Prop where
  | plan (idle : ∀ top ∈ (s.frames c).head?, top.phase = .running) :
      Moves s c ({ s with sched := (s.sched.planNext c).2 }.setTop c
        ⟨(s.sched.planNext c).1, .planned⟩ (s.frames c))
  | setActive {mode : ScheduleMode} {below : List Dispatch}
      (stack : s.frames c = ⟨mode, .planned⟩ :: below) :
      Moves s c ({ s with sched := s.sched.setActive c mode }.setTop c ⟨mode, .active⟩ below)
  | shift {mode : ScheduleMode} {phase phase' : Phase} {below : List Dispatch}
      (stack : s.frames c = ⟨mode, phase⟩ :: below)
      (before : phase.executing = true) (after : phase'.executing = true) :
      Moves s c (s.setTop c ⟨mode, phase'⟩ below)
  | clear (prio : Nat) : Moves s c { s with sched := s.sched.markAoNotReady prio }
  | complete {mode : ScheduleMode} {phase : Phase} {below : List Dispatch}
      (stack : s.frames c = ⟨mode, phase⟩ :: below) (before : phase.executing = true) :
      Moves s c ({ s with sched := s.sched.completeExecution c mode }.setTop c
        ⟨mode, .completed⟩ below)
  | finish {mode : ScheduleMode} {below : List Dispatch} (action : ThreadAction)
      (stack : s.frames c = ⟨mode, .completed⟩ :: below) :
      Moves s c ⟨State.afterPoll s.sched mode action, Function.update s.frames c below⟩

theorem stepCore_moves {a : Step} (stepped : s.stepCore c a = some t) : Moves s c t := by
  revert stepped
  fun_cases State.stepCore s c a with
  | case1 stack mode sched planned =>
      intro same
      cases same
      have moved : Moves s c _ := .plan (by simp [stack])
      simpa only [planned, stack] using moved
  | case2 m below stack mode sched planned =>
      intro same
      cases same
      have moved : Moves s c _ := .plan (by simp [stack])
      simpa only [planned, stack] using moved
  | case3 mode below stack =>
      intro same
      cases same
      exact .setActive stack
  | case4 p below stack =>
      intro same
      cases same
      exact .shift stack rfl rfl
  | case5 id p below stack =>
      intro same
      cases same
      exact .shift stack rfl rfl
  | case6 mode below stack =>
      intro same
      cases same
      exact .shift stack rfl rfl
  | case7 p below stack =>
      intro same
      cases same
      exact .clear p
  | case8 mode below stack =>
      intro same
      cases same
      exact .complete stack rfl
  | case9 mode below stack =>
      intro same
      cases same
      exact .complete stack rfl
  | case10 action mode below stack =>
      intro same
      cases same
      exact .finish action stack
  | case11 =>
      intro same
      cases same

theorem exclusive_of_core {sched : QxkScheduler} {frames : List Dispatch}
    {claims : Lib.Claims CoreId Task} (exclusive : claims.Exclusive)
    (cores : ∀ c', c' ≠ c → sched.cores c' = s.sched.cores c')
    (mark : (State.claims ⟨sched, s.frames⟩).mark = claims.mark)
    (held : Function.update s.claims.held c (frames.filterMap Dispatch.holds) = claims.held)
    (reserved : Function.update s.claims.reserved c (sched.cores c).reserved = claims.reserved) :
    (State.claims ⟨sched, Function.update s.frames c frames⟩).Exclusive := by
  have same : State.claims ⟨sched, Function.update s.frames c frames⟩ = claims := by
    apply Lib.Claims.ext
    · exact mark
    · rw [← held]
      funext c'
      by_cases here : c' = c
      · subst here
        simp [State.claims]
      · simp [State.claims, here]
    · rw [← reserved]
      funext c'
      by_cases here : c' = c
      · subst here
        simp [State.claims]
      · simp [State.claims, here, cores c' here]
  rw [same]
  exact exclusive

theorem mark_ao {sched : QxkScheduler} {frames : CoreId → List Dispatch} {prio mark : Nat}
    (aos : sched.executingAos = Function.update s.sched.executingAos prio mark)
    (threads : sched.executingThreads = s.sched.executingThreads) :
    (State.claims ⟨sched, frames⟩).mark =
      Function.update s.claims.mark (.ao prio) (coreOf mark) := by
  funext t
  cases t with
  | ao prio' =>
      by_cases here : prio' = prio
      · subst here
        simp [State.claims, aos]
      · simp [State.claims, aos, here]
  | thread id => simp [State.claims, threads]

theorem mark_thread {sched : QxkScheduler} {frames : CoreId → List Dispatch} {id : ThreadId}
    {mark : Nat} (aos : sched.executingAos = s.sched.executingAos)
    (threads : sched.executingThreads = Function.update s.sched.executingThreads id mark) :
    (State.claims ⟨sched, frames⟩).mark =
      Function.update s.claims.mark (.thread id) (coreOf mark) := by
  funext t
  cases t with
  | ao prio => simp [State.claims, aos]
  | thread id' =>
      by_cases here : id' = id
      · subst here
        simp [State.claims, threads]
      · simp [State.claims, threads, here]

theorem Inv.of_core (inv : Inv s) {sched : QxkScheduler} {frames : List Dispatch}
    (cores : ∀ c', c' ≠ c → sched.cores c' = s.sched.cores c')
    (nested : ∀ d ∈ frames.tail, d.phase = .running)
    (planned : ∀ mode below, frames = ⟨mode, .planned⟩ :: below →
      (sched.cores c).reserved = task mode)
    (inRange : ∀ d ∈ frames, ∀ prio, d.mode = .activeObject prio → 0 < prio ∧ prio < 64)
    (exclusive : (State.claims ⟨sched, Function.update s.frames c frames⟩).Exclusive) :
    Inv ⟨sched, Function.update s.frames c frames⟩ where
  exclusive := exclusive
  nested c' := by
    by_cases here : c' = c
    · subst here
      simpa using nested
    · simpa [here] using inv.nested c'
  planned c' := by
    by_cases here : c' = c
    · subst here
      simpa using planned
    · simpa [here, cores c' here] using inv.planned c'
  inRange c' := by
    by_cases here : c' = c
    · subst here
      simpa using inRange
    · simpa [here] using inv.inRange c'

theorem Inv.setTop (inv : Inv s) {mode : ScheduleMode} {phase phase' : Phase}
    {below : List Dispatch} {sched : QxkScheduler} (stack : s.frames c = ⟨mode, phase⟩ :: below)
    (moved : phase' ≠ .planned) (cores : ∀ c', c' ≠ c → sched.cores c' = s.sched.cores c')
    (exclusive : (State.claims
      ⟨sched, Function.update s.frames c (⟨mode, phase'⟩ :: below)⟩).Exclusive) :
    Inv (({ s with sched := sched } : State).setTop c ⟨mode, phase'⟩ below) := by
  have nested := inv.nested c
  have inRange := inv.inRange c
  simp only [stack, List.tail_cons, List.mem_cons, forall_eq_or_imp] at nested inRange
  apply inv.of_core cores
  · simpa using nested
  · intro mode' below' same
    simp only [List.cons.injEq, Dispatch.mk.injEq] at same
    exact absurd same.1.2 moved
  · simpa using inRange
  · exact exclusive

theorem Inv.plan (inv : Inv s) (idle : ∀ top ∈ (s.frames c).head?, top.phase = .running) :
    Inv ({ s with sched := (s.sched.planNext c).2 }.setTop c
      ⟨(s.sched.planNext c).1, .planned⟩ (s.frames c)) := by
  rcases planNext_spec s c with ⟨⟨core, records, planned, reserves⟩, inRange, available⟩
  rw [planned]
  have cores (c' : CoreId) (other : c' ≠ c) :
      Function.update s.sched.cores c core c' = s.sched.cores c' := Function.update_of_ne other _ _
  apply inv.of_core cores
  · intro d member
    simp only [List.tail_cons] at member
    cases stack : s.frames c with
    | nil => simp [stack] at member
    | cons top below =>
        rw [stack] at member
        rcases List.mem_cons.mp member with rfl | deeper
        · exact idle d (by simp [stack])
        · exact inv.nested c d (by simpa [stack] using deeper)
  · intro mode below same
    simp only [List.cons.injEq, Dispatch.mk.injEq] at same
    simp only [Function.update_self, reserves, same.1.1]
  · intro d member prio mode
    rcases List.mem_cons.mp member with rfl | deeper
    · exact inRange prio mode
    · exact inv.inRange c d deeper prio mode
  · have claims := inv.exclusive.reserve (k := c) (task (s.sched.planNext c).1)
      (fun t found => (available t found).1) (fun t found => (available t found).2)
    apply exclusive_of_core claims cores
    · rfl
    · simp [State.claims, Dispatch.holds, Phase.executing]
    · simp [reserves]

/-- `set_active` turns the reservation of a planned dispatch into a mark. -/
theorem Inv.setActive (inv : Inv s) {mode : ScheduleMode} {below : List Dispatch}
    (stack : s.frames c = ⟨mode, .planned⟩ :: below) :
    Inv ({ s with sched := s.sched.setActive c mode }.setTop c ⟨mode, .active⟩ below) := by
  have planned := inv.planned c mode below stack
  have free (t : Task) (same : task mode = some t) := inv.exclusive.free c t (planned.trans same)
  have others (t : Task) (same : task mode = some t) (c' : CoreId) (other : c' ≠ c) :
      s.claims.reserved c' ≠ some t := by
    intro found
    exact other (inv.exclusive.apart c' c t found (planned.trans same))
  have cores (c' : CoreId) (other : c' ≠ c) :
      (s.sched.setActive c mode).cores c' = s.sched.cores c' := by
    cases mode with
    | activeObject p =>
        simp only [QxkScheduler.setActive, QxkScheduler.setCore]
        split <;> simp [other]
    | extendedThread id p => simp [QxkScheduler.setActive, QxkScheduler.setCore, other]
    | idle => simp [QxkScheduler.setActive, QxkScheduler.setCore, other]
  apply inv.setTop stack (by simp) cores
  cases mode with
  | activeObject p =>
      have positive := (inv.inRange c ⟨.activeObject p, .planned⟩ (by simp [stack]) p rfl).1
      have claims := inv.exclusive.take (k := c) (t := .ao p) (free _ rfl) (others _ rfl)
      apply exclusive_of_core claims cores
      · rw [← coreOf_val c]
        exact mark_ao (by simp [QxkScheduler.setActive, QxkScheduler.setCore, positive])
          (by simp [QxkScheduler.setActive, QxkScheduler.setCore, positive])
      · simp [State.claims, stack, Dispatch.holds, Phase.executing, task]
      · simp [QxkScheduler.setActive, positive, QxkScheduler.setCore,
          CoreState.reserved]
  | extendedThread id p =>
      have claims := inv.exclusive.take (k := c) (t := .thread id) (free _ rfl) (others _ rfl)
      apply exclusive_of_core claims cores
      · rw [← coreOf_val c]
        exact mark_thread rfl rfl
      · simp [State.claims, stack, Dispatch.holds, Phase.executing, task]
      · simp [QxkScheduler.setActive, QxkScheduler.setCore, CoreState.reserved]
  | idle =>
      have claims := inv.exclusive.reserve (k := c) none (by simp) (by simp)
      apply exclusive_of_core claims cores
      · rfl
      · simp [State.claims, stack, Dispatch.holds, Phase.executing, task]
      · simp [QxkScheduler.setActive, QxkScheduler.setCore, CoreState.reserved]

theorem Inv.shift (inv : Inv s) {mode : ScheduleMode} {phase phase' : Phase}
    {below : List Dispatch} (stack : s.frames c = ⟨mode, phase⟩ :: below)
    (before : phase.executing = true) (after : phase'.executing = true) :
    Inv (s.setTop c ⟨mode, phase'⟩ below) := by
  apply inv.setTop stack _ fun _ _ => rfl
  · apply exclusive_of_core inv.exclusive fun _ _ => rfl
    · rfl
    · have same : Dispatch.holds ⟨mode, phase'⟩ = Dispatch.holds ⟨mode, phase⟩ := by
        simp [Dispatch.holds, before, after]
      simp [State.claims, stack, List.filterMap_cons, same]
    · exact Function.update_eq_self c _
  · intro planned
    rw [planned] at after
    cases after

theorem Inv.complete (inv : Inv s) {mode : ScheduleMode} {phase : Phase} {below : List Dispatch}
    (stack : s.frames c = ⟨mode, phase⟩ :: below) (before : phase.executing = true) :
    Inv ({ s with sched := s.sched.completeExecution c mode }.setTop c
      ⟨mode, .completed⟩ below) := by
  have cores (c' : CoreId) (other : c' ≠ c) :
      (s.sched.completeExecution c mode).cores c' = s.sched.cores c' := by
    cases mode <;> simp only [QxkScheduler.completeExecution, QxkScheduler.setCore] <;>
      repeat' split
    all_goals simp [other]
  have reserved : ((s.sched.completeExecution c mode).cores c).reserved =
      (s.sched.cores c).reserved := by
    cases mode <;> simp only [QxkScheduler.completeExecution, QxkScheduler.setCore] <;>
      repeat' split
    all_goals simp [CoreState.reserved]
  apply inv.setTop stack (by simp) cores
  cases mode with
  | activeObject p =>
      have inside := inv.inRange c ⟨.activeObject p, phase⟩ (by simp [stack]) p rfl
      have holds : (s.claims.held c).Perm (.ao p :: below.filterMap Dispatch.holds) := by
        simp [State.claims, stack, Dispatch.holds, before, task]
      have claims := inv.exclusive.release holds
      apply exclusive_of_core claims cores
      · rw [← coreOf_noCore]
        simp only [QxkScheduler.completeExecution, inside, and_self, if_true, QxkScheduler.setCore]
        split <;> exact mark_ao rfl rfl
      · simp [Dispatch.holds, Phase.executing]
      · simp [reserved, State.claims]
  | extendedThread id p =>
      have holds : (s.claims.held c).Perm (.thread id :: below.filterMap Dispatch.holds) := by
        simp [State.claims, stack, Dispatch.holds, before, task]
      have claims := inv.exclusive.release holds
      apply exclusive_of_core claims cores
      · rw [← coreOf_noCore]
        simp only [QxkScheduler.completeExecution, QxkScheduler.setCore]
        split <;> exact mark_thread rfl rfl
      · simp [Dispatch.holds, Phase.executing]
      · simp [reserved, State.claims]
  | idle =>
      apply exclusive_of_core inv.exclusive cores
      · rfl
      · have none : Dispatch.holds ⟨.idle, phase⟩ = none := by simp [Dispatch.holds, task]
        have done : Dispatch.holds ⟨.idle, .completed⟩ = Option.none := rfl
        simp [State.claims, stack, none, done]
      · simp [reserved, State.claims]

theorem Inv.finish (inv : Inv s) {mode : ScheduleMode} {below : List Dispatch}
    (action : ThreadAction) (stack : s.frames c = ⟨mode, .completed⟩ :: below) :
    Inv ⟨State.afterPoll s.sched mode action, Function.update s.frames c below⟩ := by
  have nested := inv.nested c
  have inRange := inv.inRange c
  simp only [stack, List.tail_cons, List.mem_cons, forall_eq_or_imp] at nested inRange
  have cores : (State.afterPoll s.sched mode action).cores = s.sched.cores := by
    unfold State.afterPoll
    split <;> rfl
  have same (c' : CoreId) (_ : c' ≠ c) := congrFun cores c'
  apply inv.of_core same
  · intro d member
    exact nested d (List.mem_of_mem_tail member)
  · intro mode' below' same
    have planned := nested ⟨mode', .planned⟩ (by simp [same])
    cases planned
  · exact inRange.2
  · apply exclusive_of_core inv.exclusive same
    · unfold State.afterPoll
      split <;> rfl
    · simp [State.claims, stack, Dispatch.holds, Phase.executing]
    · rw [cores]
      exact Function.update_eq_self c _

theorem Inv.withSched (inv : Inv s) {sched : QxkScheduler} (cores : sched.cores = s.sched.cores)
    (aos : sched.executingAos = s.sched.executingAos)
    (threads : sched.executingThreads = s.sched.executingThreads) :
    Inv { s with sched := sched } where
  exclusive := by
    have same : State.claims { s with sched := sched } = s.claims := by
      unfold State.claims
      simp only [cores, aos, threads]
    rw [same]
    exact inv.exclusive
  nested := inv.nested
  planned c mode below stack := by
    rw [cores]
    exact inv.planned c mode below stack
  inRange := inv.inRange

theorem Inv.perform (inv : Inv s) (call : SchedCall) :
    Inv { s with sched := s.sched.perform call } := by
  cases call with
  | lock ceiling =>
      simp only [QxkScheduler.perform, QxkScheduler.lock]
      split <;> exact inv.withSched rfl rfl rfl
  | unlock status =>
      simp only [QxkScheduler.perform, QxkScheduler.unlock]
      repeat' split
      all_goals exact inv.withSched rfl rfl rfl
  | markAoReady prio => exact inv.withSched rfl rfl rfl
  | markAoNotReady prio => exact inv.withSched rfl rfl rfl
  | markThreadReady id priority => exact inv.withSched rfl rfl rfl
  | markThreadNotReady id => exact inv.withSched rfl rfl rfl
  | blockThread id => exact inv.withSched rfl rfl rfl
  | unblockThread id priority => exact inv.withSched rfl rfl rfl

theorem inv_step (s : State) (l : Label) (t : State) (inv : Inv s) (stepped : s.step l = some t) :
    Inv t := by
  cases l with
  | core c a =>
      cases stepCore_moves stepped with
      | plan idle => exact inv.plan idle
      | setActive stack => exact inv.setActive stack
      | shift stack before after => exact inv.shift stack before after
      | clear prio => exact inv.perform (.markAoNotReady prio)
      | complete stack before => exact inv.complete stack before
      | finish action stack => exact inv.finish action stack
  | call c =>
      rw [← Option.some.inj stepped]
      exact inv.perform c

theorem inv_init : Inv State.init where
  exclusive := by
    have none : State.init.claims = ⟨fun _ => none, fun _ => [], fun _ => none⟩ := by
      apply Lib.Claims.ext
      · funext t
        cases t <;> rfl
      · rfl
      · rfl
    rw [none]
    exact .none_held fun _ => rfl
  nested c d member := by cases member
  planned c mode below stack := by cases stack
  inRange c d member := by cases member

theorem running_le (frames : List Dispatch) (t : Task) :
    running frames t ≤ (frames.filterMap Dispatch.holds).count t := by
  induction frames with
  | nil => simp [running]
  | cons d rest ih =>
      unfold running at ih ⊢
      rw [List.countP_cons, List.filterMap_cons]
      by_cases inside : task d.mode = some t ∧ d.phase = .running
      · have holds : d.holds = some t := by
          simp [Dispatch.holds, inside.1, inside.2, Phase.executing]
        simp only [inside, and_self, decide_true, if_true, holds, List.count_cons_self]
        omega
      · simp only [inside, decide_false, Bool.false_eq_true, if_false, Nat.add_zero]
        split
        · exact ih
        · exact ih.trans (List.count_le_count_cons)

end Steps

/-- No handler runs twice at a time, on one core or on two. -/
theorem smp_exclusive (labels : List Label) (s : State)
    (ran : Lib.run State.step State.init labels = some s) (t : Task) :
    (∀ c, running (s.frames c) t ≤ 1) ∧
    ∀ c c', 0 < running (s.frames c) t → 0 < running (s.frames c') t → c = c' := by
  have inv := Lib.run_preserves inv_step inv_init ran
  constructor
  · intro c
    have once := (List.nodup_iff_count_le_one.mp (inv.exclusive.nodup c)) t
    exact (running_le (s.frames c) t).trans once
  · intro c c' here there
    have holder {c : CoreId} (inside : 0 < running (s.frames c) t) : t ∈ s.claims.held c :=
      List.count_pos_iff.mp (inside.trans_le (running_le (s.frames c) t))
    exact inv.exclusive.unique (holder here) (holder there)

section Cores

local instance someCore : NeZero 8 := ⟨by decide⟩

/-- Core 0 dispatches thread 1 inside the handler of priority 2, while core 1 runs priority 1. -/
def nestedThread : List Label :=
  [.call (.markAoReady 2), .call (.markAoReady 1), .call (.markThreadReady ⟨1⟩ 5),
    .core 0 .plan, .core 1 .plan, .core 0 .setActive, .core 1 .setActive, .core 0 .enter,
    .core 1 .enter, .core 0 .plan, .core 0 .setActive, .core 0 .enter]

end Cores

theorem nestedThread_smp_exclusive :
    ∃ s : State, Lib.run State.step State.init nestedThread = some s ∧
      running (s.frames 0) (.ao 2) = 1 ∧ running (s.frames 0) (.thread ⟨1⟩) = 1 ∧
      running (s.frames 1) (.ao 1) = 1 ∧
      ∀ c, 0 < running (s.frames c) (.thread ⟨1⟩) → c = 0 := by
  refine ⟨_, rfl, by decide, by decide, by decide, ?_⟩
  intro c inside
  exact (smp_exclusive nestedThread _ rfl (.thread ⟨1⟩)).2 c 0 inside (by decide)

end QpRs.Qxk.Smp
