import QpRs.Active

/-! The single-core scheduler of QK (`qk/src/scheduler.rs`, without the `smp` feature).

`records` and `switches` are what the trace hook and the context-switch hook receive when they are
installed; the kernel emits its own records through the same trace hook. -/

namespace QpRs.Qk

inductive SchedStatus where
  | locked (ceiling : Nat)
  | unlocked
  deriving DecidableEq, Repr

structure QkScheduler where
  lockCeiling : Nat
  activePrio : Nat
  activeThreshold : Nat
  nextPrio : Nat
  ready : ReadySet
  records : List Record
  switches : List (Nat × Nat)
  deriving DecidableEq

structure ScheduleDecision where
  nextPrio : Nat
  previousPrio : Nat
  deriving DecidableEq, Repr

namespace QkScheduler

def new : QkScheduler where
  lockCeiling := 0
  activePrio := 0
  activeThreshold := 0
  nextPrio := 0
  ready := .empty
  records := []
  switches := []

def emitRecord (s : QkScheduler) (record : Record) : QkScheduler :=
  { s with records := s.records ++ [record] }

def emitContextSw (s : QkScheduler) (prev next : Nat) : QkScheduler :=
  { s with switches := s.switches ++ [(prev, next)] }

def lock (s : QkScheduler) (ceiling : Nat) : SchedStatus × QkScheduler :=
  if ceiling > s.lockCeiling then
    (.locked s.lockCeiling,
      emitRecord { s with lockCeiling := ceiling } (.lock s.lockCeiling ceiling))
  else (.unlocked, s)

def unlock (s : QkScheduler) : SchedStatus → QkScheduler
  | .locked value =>
      if s.lockCeiling > value then
        emitRecord { s with lockCeiling := value } (.unlock s.lockCeiling value)
      else s
  | .unlocked => s

def markReady (s : QkScheduler) (prio : Nat) : QkScheduler :=
  { s with ready := s.ready.insert prio }

def markNotReady (s : QkScheduler) (prio : Nat) : QkScheduler :=
  { s with ready := s.ready.remove prio }

def configureActive (s : QkScheduler) (prio threshold : Nat) : QkScheduler :=
  { s with activePrio := prio, activeThreshold := threshold }

/-- The body shared by `plan_activation` and `next_after_dispatch`, which differ in the
threshold. -/
def planAbove (s : QkScheduler) (threshold : Nat) : Option ScheduleDecision × QkScheduler :=
  match s.ready.max with
  | some prio =>
      if prio > threshold ∧ prio > s.lockCeiling then
        (some ⟨prio, s.activePrio⟩, { s with nextPrio := prio })
      else (none, { s with nextPrio := 0 })
  | none => (none, { s with nextPrio := 0 })

def planActivation (s : QkScheduler) : Option ScheduleDecision × QkScheduler :=
  s.planAbove s.activeThreshold

def nextAfterDispatch (s : QkScheduler) (initialThreshold : Nat) :
    Option ScheduleDecision × QkScheduler :=
  s.planAbove initialThreshold

def hasReadyToRun (s : QkScheduler) : Bool :=
  match s.ready.max with
  | some prio => prio > s.activeThreshold ∧ prio > s.lockCeiling
  | none => false

/-- The `debug_assert` on `next_prio` is left to the caller. -/
def commitActivation (s : QkScheduler) (decision : ScheduleDecision) (nextThreshold : Nat) :
    QkScheduler :=
  let previous := s.activePrio
  let s := { s with
    activePrio := decision.nextPrio, activeThreshold := nextThreshold, nextPrio := 0 }
  if decision.nextPrio ≠ previous then
    emitContextSw (emitRecord s (.next decision.nextPrio previous)) previous decision.nextPrio
  else s

def restoreActive (s : QkScheduler) (prio threshold : Nat) : QkScheduler :=
  let previous := s.activePrio
  let s := { s with activePrio := prio, activeThreshold := threshold, nextPrio := 0 }
  if prio = 0 then
    if previous ≠ 0 then emitContextSw (emitRecord s (.idle previous)) previous 0 else s
  else if prio ≠ previous then
    emitContextSw (emitRecord s (.next prio previous)) previous prio
  else s

theorem planAbove_some {s s' : QkScheduler} {threshold : Nat} {d : ScheduleDecision}
    (planned : s.planAbove threshold = (some d, s')) :
    s.ready.contains d.nextPrio = true ∧ threshold < d.nextPrio ∧ s.lockCeiling < d.nextPrio ∧
      d.previousPrio = s.activePrio ∧ s' = { s with nextPrio := d.nextPrio } := by
  unfold planAbove at planned
  cases highest : s.ready.max with
  | none => simp [highest] at planned
  | some prio =>
      by_cases above : prio > threshold ∧ prio > s.lockCeiling
      · simp only [highest, if_pos above, Prod.mk.injEq, Option.some.injEq] at planned
        rcases planned with ⟨rfl, rfl⟩
        exact ⟨(ReadySet.max_spec highest).1, above.1, above.2, rfl, rfl⟩
      · simp only [highest, if_neg above, Prod.mk.injEq] at planned
        exact absurd planned.1 (by simp)

theorem planAbove_none {s s' : QkScheduler} {threshold : Nat}
    (planned : s.planAbove threshold = (none, s')) :
    (∀ p, s.ready.contains p = true → p ≤ threshold ∨ p ≤ s.lockCeiling) ∧
      s' = { s with nextPrio := 0 } := by
  unfold planAbove at planned
  cases highest : s.ready.max with
  | none =>
      simp only [highest, Prod.mk.injEq, true_and] at planned
      refine ⟨?_, planned.symm⟩
      intro p present
      rw [ReadySet.max_none highest p] at present
      cases present
  | some prio =>
      by_cases above : prio > threshold ∧ prio > s.lockCeiling
      · simp [highest, if_pos above] at planned
      · simp only [highest, if_neg above, Prod.mk.injEq, true_and] at planned
        refine ⟨?_, planned.symm⟩
        intro p present
        have := (ReadySet.max_spec highest).2 p present
        omega

section Frames

variable (s : QkScheduler)

theorem planAbove_ready (threshold : Nat) : (s.planAbove threshold).2.ready = s.ready := by
  cases planned : s.planAbove threshold with
  | mk decision sched =>
      cases decision with
      | none => rw [(planAbove_none planned).2]
      | some d => rw [(planAbove_some planned).2.2.2.2]

theorem commitActivation_frame (d : ScheduleDecision) (t : Nat) :
    ∃ records switches, s.commitActivation d t = { s with
      activePrio := d.nextPrio, activeThreshold := t, nextPrio := 0,
      records := records, switches := switches } := by
  by_cases same : d.nextPrio = s.activePrio
  · exact ⟨s.records, s.switches, by simp [commitActivation, same]⟩
  · exact ⟨_, _, by simp only [commitActivation, ne_eq, same, not_false_eq_true, if_true]; rfl⟩

theorem restoreActive_frame (p t : Nat) :
    ∃ records switches, s.restoreActive p t = { s with
      activePrio := p, activeThreshold := t, nextPrio := 0,
      records := records, switches := switches } := by
  by_cases idle : p = 0
  · by_cases none : s.activePrio = 0
    · exact ⟨s.records, s.switches, by simp [restoreActive, idle, none]⟩
    · exact ⟨_, _, by simp only [restoreActive, idle, ne_eq, none, not_false_eq_true, if_true]; rfl⟩
  · by_cases same : p = s.activePrio
    · subst same
      exact ⟨s.records, s.switches, by simp [restoreActive, idle]⟩
    · exact ⟨_, _, by
        simp only [restoreActive, idle, ne_eq, same, not_false_eq_true, if_true, if_false]; rfl⟩

theorem lock_frame (ceiling : Nat) :
    (s.lock ceiling).2.ready = s.ready ∧ (s.lock ceiling).2.activePrio = s.activePrio ∧
      (s.lock ceiling).2.activeThreshold = s.activeThreshold := by
  unfold lock
  by_cases raises : ceiling > s.lockCeiling
  · simp [raises, emitRecord]
  · simp [raises]

theorem unlock_frame (status : SchedStatus) :
    (s.unlock status).ready = s.ready ∧ (s.unlock status).activePrio = s.activePrio ∧
      (s.unlock status).activeThreshold = s.activeThreshold := by
  cases status with
  | unlocked => exact ⟨rfl, rfl, rfl⟩
  | locked value =>
      unfold unlock
      by_cases held : s.lockCeiling > value
      · simp [held, emitRecord]
      · simp [held]

end Frames

end QkScheduler

end QpRs.Qk
