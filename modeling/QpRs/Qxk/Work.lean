import QpRs.Qxk.Smp

/-! `has_work` of the QXK scheduler (`qxk/src/scheduler.rs`) beside `plan_next`, on both builds. -/

namespace QpRs.Qxk

open QpRs.Lib

inductive SchedulerCall where
  | ready (c : Smp.SchedCall)
  | planNext
  | setActive (mode : ScheduleMode)
  | completeExecution (mode : ScheduleMode)
  deriving DecidableEq, Repr

namespace QxkScheduler

def perform (s : QxkScheduler) : Smp.SchedCall → QxkScheduler
  | .lock ceiling => (s.lock ceiling).2
  | .unlock status => s.unlock status
  | .markAoReady prio => s.markAoReady prio
  | .markAoNotReady prio => s.markAoNotReady prio
  | .markThreadReady id priority => s.markThreadReady id priority
  | .markThreadNotReady id => s.markThreadNotReady id
  | .blockThread id => s.blockThread id
  | .unblockThread id priority => s.unblockThread id priority

def step (s : QxkScheduler) : SchedulerCall → Option QxkScheduler
  | .ready c => some (s.perform c)
  | .planNext => some s.planNext.2
  | .setActive mode => some (s.setActive mode)
  | .completeExecution mode => some (s.completeExecution mode)

/-- `has_work` says whether `plan_next` would find something. -/
def Agrees (s : QxkScheduler) : Prop := s.hasWork = true ↔ s.planNext.1 ≠ .idle

/-- Active objects are ready, all at or below the lock ceiling, and no thread is. -/
def Masked (s : QxkScheduler) : Prop :=
  s.threadReady = [] ∧ ∃ prio, s.aoReady.max = some prio ∧ prio ≤ s.lockCeiling

theorem planThread_idle (s : QxkScheduler) : s.planThread.1 = .idle ↔ s.threadReady = [] := by
  unfold planThread ThreadReadyQueue.max
  cases s.threadReady with
  | nil => simp
  | cons entry rest => simp

theorem planNext_idle (s : QxkScheduler) :
    s.planNext.1 = .idle ↔
      (∀ prio, s.aoReady.max = some prio → prio ≤ s.lockCeiling) ∧ s.threadReady = [] := by
  unfold planNext
  cases highest : s.aoReady.max with
  | none => simp [planThread_idle]
  | some prio =>
      by_cases above : prio > s.lockCeiling
      · simp [above]
      · have masked : prio ≤ s.lockCeiling := Nat.le_of_not_lt above
        simp [above, planThread_idle, masked]

theorem hasWork_iff (s : QxkScheduler) :
    s.hasWork = true ↔ (∃ prio, s.aoReady.max = some prio) ∨ s.threadReady ≠ [] := by
  simp [hasWork, Option.isSome_iff_exists]

theorem agrees_iff (s : QxkScheduler) : s.Agrees ↔ ¬s.Masked := by
  unfold Agrees Masked
  rw [hasWork_iff, Ne, Ne, planNext_idle]
  cases highest : s.aoReady.max with
  | none => simp
  | some prio =>
      by_cases above : prio > s.lockCeiling
      · have unmasked : ¬prio ≤ s.lockCeiling := Nat.not_le_of_lt above
        simp [unmasked]
      · have masked : prio ≤ s.lockCeiling := Nat.le_of_not_lt above
        simp [masked]

end QxkScheduler

namespace Smp.QxkScheduler

def hasWork (s : QxkScheduler) (c : CoreId) : Bool :=
  priorities.any (s.aoEligible c) || s.threadReady.any fun entry => !s.threadRunning c entry.1

def step (s : QxkScheduler) : CoreId × SchedulerCall → Option QxkScheduler
  | (_, .ready call) => some (s.perform call)
  | (c, .planNext) => some (s.planNext c).2
  | (c, .setActive mode) => some (s.setActive c mode)
  | (c, .completeExecution mode) => some (s.completeExecution c mode)

def Agrees (s : QxkScheduler) (c : CoreId) : Prop :=
  s.hasWork c = true ↔ (s.planNext c).1 ≠ .idle

theorem any_iff_find {α : Type} (p : α → Bool) (l : List α) :
    l.any p = true ↔ ∃ a, l.find? p = some a := by
  rw [List.any_eq_true, ← Option.isSome_iff_exists, List.find?_isSome]

theorem planThread_idle (s : QxkScheduler) (c : CoreId) :
    (s.planThread c).1 = .idle ↔
      (s.threadReady.find? fun entry => !s.threadRunning c entry.1) = none := by
  unfold planThread
  cases s.threadReady.find? fun entry => !s.threadRunning c entry.1 with
  | none => simp
  | some entry => simp

theorem agrees (s : QxkScheduler) (c : CoreId) : s.Agrees c := by
  rw [Agrees, hasWork, Bool.or_eq_true, any_iff_find, any_iff_find, planNext]
  cases priorities.find? (s.aoEligible c) with
  | some prio => simp
  | none =>
      simp only [ne_eq, planThread_idle]
      cases s.threadReady.find? fun entry => !s.threadRunning c entry.1 with
      | none => simp
      | some entry => simp

end Smp.QxkScheduler

/-- `has_work` beside `plan_next` in every state that scheduler calls lead to. On the single-core
build they agree exactly when it is not so that active objects are ready, all of them at or below
the lock ceiling, and no thread is; with the `smp` feature they agree always, on every core. -/
theorem has_work_agrees (calls : List SchedulerCall)
    (coreCalls : List (Smp.CoreId × SchedulerCall)) :
    (∀ s : QxkScheduler, run QxkScheduler.step .new calls = some s → (s.Agrees ↔ ¬s.Masked)) ∧
    ∀ s : Smp.QxkScheduler, run Smp.QxkScheduler.step .new coreCalls = some s →
      ∀ c, s.Agrees c :=
  ⟨fun s _ => s.agrees_iff, fun s _ c => s.agrees c⟩

theorem some_work_agrees :
    (∃ s, run QxkScheduler.step .new [.ready (.lock 3), .ready (.markAoReady 5)] = some s ∧
      s.Agrees) ∧
    ∃ s, run Smp.QxkScheduler.step .new
        [(0, .ready (.markAoReady 5)), (1, .planNext)] = some s ∧ s.Agrees 0 := by
  obtain ⟨single, cores⟩ := has_work_agrees [.ready (.lock 3), .ready (.markAoReady 5)]
    [(0, .ready (.markAoReady 5)), (1, .planNext)]
  refine ⟨⟨_, rfl, (single _ rfl).mpr ?_⟩, _, rfl, cores _ rfl 0⟩
  rintro ⟨-, prio, highest, masked⟩
  have five : some 5 = some prio := highest
  cases five
  exact absurd masked (by decide)

/-- An active object is ready below the lock ceiling: there is work, and nothing to plan. -/
theorem masked_work_disagrees :
    ∃ s, run QxkScheduler.step .new [.ready (.lock 10), .ready (.markAoReady 5)] = some s ∧
      s.hasWork = true ∧ s.planNext.1 = .idle ∧ ¬s.Agrees := by
  refine ⟨_, rfl, by decide, by decide, ?_⟩
  intro agrees
  exact agrees.mp (by decide) (by decide)

end QpRs.Qxk
