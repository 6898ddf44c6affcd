import QpRs.Qxk.Work

/-! What `plan_next` selects under a scheduler lock, in both builds of the QXK scheduler.

`lock` is documented to keep back the tasks at or below the ceiling, and extended threads rank below
all active objects. `raises` records the calls of `lock` that raised the ceiling, with the thread
that made them; no thread is recorded for a handler of an active object or an interrupt. -/

namespace QpRs.Qxk.Planning

open Smp (SchedCall CoreId)

abbrev Raise := Nat × Option ThreadId

/-- The thread that raised the ceiling to its value, at the last time. -/
def raiser (raises : List Raise) (ceiling : Nat) : Option ThreadId :=
  (raises.find? fun raise => raise.1 = ceiling).bind Prod.snd

def noteRaise (raises : List Raise) (ceiling : Nat) (caller : Option ThreadId) :
    SchedCall → List Raise
  | .lock value => if value > ceiling then (value, caller) :: raises else raises
  | _ => raises

/-- No task at or below the ceiling, other than the thread that raised it. -/
def Within (ceiling : Nat) (holder : Option ThreadId) : ScheduleMode → Prop
  | .activeObject prio => ceiling < prio
  | .extendedThread id _ => ceiling = 0 ∨ holder = some id
  | .idle => True

theorem within_thread_iff (ceiling : Nat) (holder : Option ThreadId)
    (found : Option (ThreadId × Nat)) :
    Within ceiling holder (found.elim .idle fun entry => .extendedThread entry.1 entry.2) ↔
      ceiling = 0 ∨ ∀ entry ∈ found, holder = some entry.1 := by
  cases found with
  | none => simp [Within]
  | some entry => simp [Within]

section Single

structure State where
  sched : QxkScheduler
  raises : List Raise

def State.init : State := ⟨.new, []⟩

inductive Op where
  | call (caller : Option ThreadId) (c : SchedCall)
  | planNext
  | setActive (mode : ScheduleMode)
  | completeExecution (mode : ScheduleMode)

def State.step (s : State) : Op → State
  | .call caller c =>
      ⟨s.sched.perform c, noteRaise s.raises s.sched.lockCeiling caller c⟩
  | .planNext => { s with sched := s.sched.planNext.2 }
  | .setActive mode => { s with sched := s.sched.setActive mode }
  | .completeExecution mode => { s with sched := s.sched.completeExecution mode }

def State.reached (ops : List Op) : State := ops.foldl State.step State.init

/-- The ceiling is down, an active object above it is ready, or the first ready thread raised it. -/
def Clear (s : State) : Prop :=
  s.sched.lockCeiling = 0 ∨
  (∃ prio, s.sched.lockCeiling < prio ∧ s.sched.aoReady.contains prio = true) ∨
  ∀ entry ∈ s.sched.threadReady.max, raiser s.raises s.sched.lockCeiling = some entry.1

theorem planThread_eq (s : QxkScheduler) :
    s.planThread.1 = s.threadReady.max.elim .idle fun entry => .extendedThread entry.1 entry.2 := by
  unfold QxkScheduler.planThread
  cases s.threadReady.max <;> rfl

theorem planNext_within_iff (s : State) :
    Within s.sched.lockCeiling (raiser s.raises s.sched.lockCeiling) s.sched.planNext.1 ↔
      Clear s := by
  have threads := within_thread_iff s.sched.lockCeiling (raiser s.raises s.sched.lockCeiling)
    s.sched.threadReady.max
  rw [← planThread_eq] at threads
  unfold QxkScheduler.planNext Clear
  cases highest : s.sched.aoReady.max with
  | none =>
      have absent := ReadySet.max_none highest
      simpa [absent] using threads
  | some prio =>
      have spec := ReadySet.max_spec highest
      by_cases above : prio > s.sched.lockCeiling
      · simp only [above, if_true, Within, true_iff]
        exact .inr (.inl ⟨prio, above, spec.1⟩)
      · have blocked : ¬ ∃ prio, s.sched.lockCeiling < prio ∧
            s.sched.aoReady.contains prio = true := by
          intro ready
          rcases ready with ⟨prio', higher, present⟩
          have bounded := spec.2 prio' present
          omega
        simpa [above, blocked] using threads

end Single

section Multi

structure SmpState where
  sched : Smp.QxkScheduler
  raises : List Raise

def SmpState.init : SmpState := ⟨.new, []⟩

inductive SmpOp where
  | call (caller : Option ThreadId) (c : SchedCall)
  | planNext (c : CoreId)
  | setActive (c : CoreId) (mode : ScheduleMode)
  | completeExecution (c : CoreId) (mode : ScheduleMode)

def SmpState.step (s : SmpState) : SmpOp → SmpState
  | .call caller c =>
      ⟨s.sched.perform c, noteRaise s.raises s.sched.lockCeiling caller c⟩
  | .planNext c => { s with sched := (s.sched.planNext c).2 }
  | .setActive c mode => { s with sched := s.sched.setActive c mode }
  | .completeExecution c mode => { s with sched := s.sched.completeExecution c mode }

def SmpState.reached (ops : List SmpOp) : SmpState := ops.foldl SmpState.step SmpState.init

/-- As `Clear`, for what a core may take: neither running nor selected elsewhere. -/
def SmpClear (s : SmpState) (c : CoreId) : Prop :=
  s.sched.lockCeiling = 0 ∨
  (∃ prio, s.sched.aoEligible c prio = true) ∨
  ∀ entry ∈ s.sched.threadReady.find? (fun entry => !s.sched.threadRunning c entry.1),
    raiser s.raises s.sched.lockCeiling = some entry.1

theorem planThread_smp_eq (s : Smp.QxkScheduler) (c : CoreId) :
    (s.planThread c).1 = (s.threadReady.find? fun entry => !s.threadRunning c entry.1).elim .idle
      fun entry => .extendedThread entry.1 entry.2 := by
  unfold Smp.QxkScheduler.planThread
  cases s.threadReady.find? fun entry => !s.threadRunning c entry.1 <;> rfl

theorem mem_priorities {s : Smp.QxkScheduler} {c : CoreId} {prio : Nat}
    (eligible : s.aoEligible c prio = true) : prio ∈ Smp.QxkScheduler.priorities := by
  simp only [Smp.QxkScheduler.aoEligible, Bool.and_eq_true, decide_eq_true_eq,
    ReadySet.contains_eq] at eligible
  have inRange := BitVec.lt_of_getLsbD eligible.1.1
  simp only [Smp.QxkScheduler.priorities, List.mem_reverse, List.mem_range'_1]
  omega

theorem planNext_smp_within_iff (s : SmpState) (c : CoreId) :
    Within s.sched.lockCeiling (raiser s.raises s.sched.lockCeiling) (s.sched.planNext c).1 ↔
      SmpClear s c := by
  have threads := within_thread_iff s.sched.lockCeiling (raiser s.raises s.sched.lockCeiling)
    (s.sched.threadReady.find? fun entry => !s.sched.threadRunning c entry.1)
  rw [← planThread_smp_eq] at threads
  unfold Smp.QxkScheduler.planNext SmpClear
  cases found : Smp.QxkScheduler.priorities.find? (s.sched.aoEligible c) with
  | none =>
      have blocked : ¬ ∃ prio, s.sched.aoEligible c prio = true := by
        intro ready
        rcases ready with ⟨prio, eligible⟩
        exact List.find?_eq_none.mp found prio (mem_priorities eligible) eligible
      simpa [blocked] using threads
  | some prio =>
      have eligible := List.find?_some found
      have above : s.sched.lockCeiling < prio := by
        simp only [Smp.QxkScheduler.aoEligible, Bool.and_eq_true, decide_eq_true_eq] at eligible
        exact eligible.1.2
      simp only [Within, above, true_iff]
      exact .inr (.inl ⟨prio, eligible⟩)

end Multi

/-- In every state that a sequence of calls reaches, `plan_next` keeps to the ceiling exactly when
the ceiling is down, an active object above it can be taken, or no ready thread other than the one
that raised it comes first. -/
theorem plan_within_ceiling (ops : List Op) (smpOps : List SmpOp) (c : CoreId) :
    (Within (State.reached ops).sched.lockCeiling
        (raiser (State.reached ops).raises (State.reached ops).sched.lockCeiling)
        (State.reached ops).sched.planNext.1 ↔ Clear (State.reached ops)) ∧
    (Within (SmpState.reached smpOps).sched.lockCeiling
        (raiser (SmpState.reached smpOps).raises (SmpState.reached smpOps).sched.lockCeiling)
        ((SmpState.reached smpOps).sched.planNext c).1 ↔ SmpClear (SmpState.reached smpOps) c) :=
  ⟨planNext_within_iff (State.reached ops), planNext_smp_within_iff (SmpState.reached smpOps) c⟩

/-- Thread 2 locks the scheduler at 10; `plan_next` selects thread 1. -/
theorem thread_selected_below_ceiling :
    (∃ ops : List Op,
      (State.reached ops).sched.lockCeiling = 10 ∧
      raiser (State.reached ops).raises 10 = some ⟨2⟩ ∧
      (State.reached ops).sched.planNext.1 = .extendedThread ⟨1⟩ 5 ∧
      ¬ Within 10 (some ⟨2⟩) (State.reached ops).sched.planNext.1) ∧
    ∃ ops : List SmpOp,
      (SmpState.reached ops).sched.lockCeiling = 10 ∧
      raiser (SmpState.reached ops).raises 10 = some ⟨2⟩ ∧
      ((SmpState.reached ops).sched.planNext 0).1 = .extendedThread ⟨1⟩ 5 ∧
      ¬ Within 10 (some ⟨2⟩) ((SmpState.reached ops).sched.planNext 0).1 := by
  constructor
  · refine ⟨[.call none (.markThreadReady ⟨2⟩ 3), .call (some ⟨2⟩) (.lock 10),
      .call none (.markThreadReady ⟨1⟩ 5)], by decide, by decide, by decide, ?_⟩
    intro within
    rcases within with down | same
    · cases down
    · cases same
  · refine ⟨[.call none (.markThreadReady ⟨2⟩ 3), .call (some ⟨2⟩) (.lock 10),
      .call none (.markThreadReady ⟨1⟩ 5)], by decide, by decide, by decide, ?_⟩
    intro within
    rcases within with down | same
    · cases down
    · cases same

end QpRs.Qxk.Planning
