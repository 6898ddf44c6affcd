import QpRs.Qk.Kernel
import QpRs.Lib.Claims
import QpRs.Lib.Run

/-! The QK scheduler with the `smp` feature (`qk/src/scheduler.rs`), and up to eight cores that run
`activate` over it, one scheduler call at a time.

Each core has a stack of unfinished `activate` calls. A nested dispatch may start on a core between
any two steps: a running handler can make it, and so can an interrupt. Whether a queue has events
is left open, so ready bits come and go freely. -/

namespace QpRs.Qk.Smp

abbrev CoreId := Fin 8

/-- The free mark in `executing_cores`. -/
def noCore : Nat := 0xFF

structure CoreState where
  activePrio : Nat
  activeThreshold : Nat
  nextPrio : Nat
  deriving DecidableEq, Repr

structure QkScheduler where
  lockCeiling : Nat
  cores : CoreId → CoreState
  ready : ReadySet
  executingCores : Nat → Nat
  records : List Record
  switches : List (Nat × Nat)

namespace QkScheduler

def new : QkScheduler where
  lockCeiling := 0
  cores := fun _ => ⟨0, 0, 0⟩
  ready := .empty
  executingCores := fun _ => noCore
  records := []
  switches := []

def setCore (s : QkScheduler) (c : CoreId) (core : CoreState) : QkScheduler :=
  { s with cores := Function.update s.cores c core }

def emitSwitch (s : QkScheduler) (record : Record) (prev next : Nat) : QkScheduler :=
  { s with records := s.records ++ [record], switches := s.switches ++ [(prev, next)] }

def alreadyRunning (s : QkScheduler) (c : CoreId) (prio : Nat) : Bool :=
  ((List.finRange 8).any fun other =>
    other ≠ c && ((s.cores other).activePrio == prio || (s.cores other).nextPrio == prio)) ||
    s.executingCores prio != noCore

def eligible (s : QkScheduler) (c : CoreId) (threshold prio : Nat) : Bool :=
  s.ready.contains prio && prio > threshold && prio > s.lockCeiling && !s.alreadyRunning c prio

def priorities : List Nat := (List.range' 1 63).reverse

/-- The body shared by `plan_activation` and `next_after_dispatch`, which differ in the
threshold. -/
def planAbove (s : QkScheduler) (c : CoreId) (threshold : Nat) :
    Option ScheduleDecision × QkScheduler :=
  match priorities.find? (s.eligible c threshold) with
  | some candidate =>
      (some ⟨candidate, (s.cores c).activePrio⟩,
        s.setCore c { s.cores c with nextPrio := candidate })
  | none => (none, s.setCore c { s.cores c with nextPrio := 0 })

def planActivation (s : QkScheduler) (c : CoreId) : Option ScheduleDecision × QkScheduler :=
  s.planAbove c (s.cores c).activeThreshold

def nextAfterDispatch (s : QkScheduler) (c : CoreId) (initialThreshold : Nat) :
    Option ScheduleDecision × QkScheduler :=
  s.planAbove c initialThreshold

def hasReadyToRun (s : QkScheduler) (c : CoreId) : Bool :=
  priorities.any (s.eligible c (s.cores c).activeThreshold)

/-- The `debug_assert` on `next_prio` is left to the caller. -/
def commitActivation (s : QkScheduler) (c : CoreId) (decision : ScheduleDecision)
    (nextThreshold : Nat) : QkScheduler :=
  let previous := (s.cores c).activePrio
  let s := s.setCore c ⟨decision.nextPrio, nextThreshold, 0⟩
  let s := if 0 < decision.nextPrio ∧ decision.nextPrio < 64 then
      { s with executingCores := Function.update s.executingCores decision.nextPrio c.val }
    else s
  if decision.nextPrio ≠ previous then
    s.emitSwitch (.next decision.nextPrio previous) previous decision.nextPrio
  else s

def restoreActive (s : QkScheduler) (c : CoreId) (prio threshold : Nat) : QkScheduler :=
  let previous := (s.cores c).activePrio
  let s := s.setCore c ⟨prio, threshold, 0⟩
  if prio = 0 then
    if previous ≠ 0 then s.emitSwitch (.idle previous) previous 0 else s
  else if prio ≠ previous then s.emitSwitch (.next prio previous) previous prio
  else s

def completeExecution (s : QkScheduler) (prio : Nat) : QkScheduler :=
  if 0 < prio ∧ prio < 64 then
    { s with executingCores := Function.update s.executingCores prio noCore }
  else s

def lock (s : QkScheduler) (ceiling : Nat) : QkScheduler :=
  if ceiling > s.lockCeiling then
    { s with lockCeiling := ceiling, records := s.records ++ [.lock s.lockCeiling ceiling] }
  else s

def unlock (s : QkScheduler) : SchedStatus → QkScheduler
  | .locked value =>
      if s.lockCeiling > value then
        { s with lockCeiling := value, records := s.records ++ [.unlock s.lockCeiling value] }
      else s
  | .unlocked => s

def markReady (s : QkScheduler) (prio : Nat) : QkScheduler :=
  { s with ready := s.ready.insert prio }

def markNotReady (s : QkScheduler) (prio : Nat) : QkScheduler :=
  { s with ready := s.ready.remove prio }

end QkScheduler

inductive Phase where
  | planned
  | committed
  | running
  | returned
  | completed
  | restoring
  deriving DecidableEq, Repr

/-- The phases between `commit_activation` and `complete_execution`. -/
def Phase.executing : Phase → Bool
  | .committed | .running | .returned => true
  | _ => false

structure Activation where
  prio : Nat
  restorePrio : Nat
  restoreThreshold : Nat
  phase : Phase
  deriving DecidableEq, Repr

structure State where
  sched : QkScheduler
  frames : CoreId → List Activation

def State.init : State := ⟨.new, fun _ => []⟩

/-- The steps of a core. -/
inductive Step where
  | plan
  | commit
  | enter
  | ret
  | clear
  | complete
  | next
  | restore
  deriving DecidableEq, Repr

inductive Label where
  | core (c : CoreId) (a : Step)
  | markReady (prio : Nat)
  | lock (ceiling : Nat)
  | unlock (status : SchedStatus)
  deriving DecidableEq, Repr

namespace State

def atPhase (s : State) (c : CoreId) (phase : Phase)
    (go : Activation → List Activation → Option State) : Option State :=
  match s.frames c with
  | [] => none
  | top :: below => if top.phase = phase then go top below else none

def setTop (s : State) (c : CoreId) (top : Activation) (below : List Activation) : State :=
  { s with frames := Function.update s.frames c (top :: below) }

/-- The behavior of `prio` is locked while its handler runs. -/
def behaviorHeld (s : State) (prio : Nat) : Bool :=
  (List.finRange 8).any fun c => (s.frames c).any fun a => a.prio = prio ∧ a.phase = .running

/-- `debug` says whether `debug_assert` is compiled in; a failed assertion stops the program. -/
def stepCore (k : QkKernel) (debug : Bool) (s : State) (c : CoreId) : Step → Option State
  | .plan =>
      match s.sched.planActivation c with
      | (some d, sched) =>
          (k.thresholdFor d.previousPrio).map fun threshold =>
            { s with sched := sched }.setTop c ⟨d.nextPrio, d.previousPrio, threshold, .planned⟩
              (s.frames c)
      | (none, sched) => some { s with sched := sched }
  | .commit => s.atPhase c .planned fun top below =>
      if debug ∧ (s.sched.cores c).nextPrio ≠ top.prio then none
      else
        (k.slots top.prio).map fun slot =>
          { s with
            sched := s.sched.commitActivation c ⟨top.prio, top.restorePrio⟩ slot.threshold }.setTop
              c { top with phase := .committed } below
  | .enter => s.atPhase c .committed fun top below =>
      if s.behaviorHeld top.prio then none
      else some (s.setTop c { top with phase := .running } below)
  | .ret => s.atPhase c .running fun top below =>
      some (s.setTop c { top with phase := .returned } below)
  | .clear => s.atPhase c .returned fun top _ =>
      some { s with sched := s.sched.markNotReady top.prio }
  | .complete => s.atPhase c .returned fun top below =>
      some ({ s with sched := s.sched.completeExecution top.prio }.setTop
        c { top with phase := .completed } below)
  | .next => s.atPhase c .completed fun top below =>
      match s.sched.nextAfterDispatch c top.restoreThreshold with
      | (some d, sched) =>
          some ({ s with sched := sched }.setTop
            c { top with prio := d.nextPrio, phase := .planned } below)
      | (none, sched) =>
          some ({ s with sched := sched }.setTop c { top with phase := .restoring } below)
  | .restore => s.atPhase c .restoring fun top below =>
      some { s with
        sched := s.sched.restoreActive c top.restorePrio top.restoreThreshold
        frames := Function.update s.frames c below }

def step (k : QkKernel) (debug : Bool) (s : State) : Label → Option State
  | .core c a => s.stepCore k debug c a
  | .markReady prio => some { s with sched := s.sched.markReady prio }
  | .lock ceiling => some { s with sched := s.sched.lock ceiling }
  | .unlock status => some { s with sched := s.sched.unlock status }

end State

/-- How often a priority is between `commit_activation` and `complete_execution` on one core. -/
def held (frames : List Activation) (p : Nat) : Nat :=
  frames.countP fun a => a.prio = p ∧ a.phase.executing

/-- What a commit relies on: the decision it commits is still the one that the core has reserved.
With `debug_assert` compiled in, the program stops otherwise. -/
def Reserved (debug : Bool) (s : State) : Label → Prop
  | .core c .commit => debug = false → ∀ top below, s.frames c = top :: below →
      top.phase = .planned → (s.sched.cores c).nextPrio = top.prio
  | _ => True

/-- `executing_cores` names the one core that holds a priority, and `next_prio` of a core reserves a
priority that no core holds and no other core reserves. -/
structure Exclusive (s : State) : Prop where
  inRange : ∀ c, ∀ a ∈ s.frames c, 0 < a.prio ∧ a.prio < 64
  valid : ∀ p, s.sched.executingCores p = noCore ∨ ∃ c : CoreId, s.sched.executingCores p = c.val
  counted : ∀ c p, held (s.frames c) p = if s.sched.executingCores p = c.val then 1 else 0
  reserved : ∀ c, (s.sched.cores c).nextPrio ≠ 0 → ∃ top below, s.frames c = top :: below ∧
    top.phase = .planned ∧ top.prio = (s.sched.cores c).nextPrio
  free : ∀ c, (s.sched.cores c).nextPrio ≠ 0 →
    s.sched.executingCores (s.sched.cores c).nextPrio = noCore
  apart : ∀ c c', (s.sched.cores c).nextPrio ≠ 0 →
    (s.sched.cores c).nextPrio = (s.sched.cores c').nextPrio → c = c'

theorem core_ne_noCore (c : CoreId) : c.val ≠ noCore := by
  have := c.isLt
  unfold noCore
  omega

theorem exclusive_init : Exclusive State.init := by
  refine ⟨?_, ?_, ?_, ?_, ?_, ?_⟩
  · intro c a member
    cases member
  · intro p
    exact .inl rfl
  · intro c p
    have other : State.init.sched.executingCores p ≠ c.val := (core_ne_noCore c).symm
    rw [if_neg other]
    rfl
  · intro c next
    exact absurd rfl next
  · intro c next
    exact absurd rfl next
  · intro c c' next
    exact absurd rfl next

/-! The state as exclusive claims on the priorities. -/

def coreOf (mark : Nat) : Option CoreId := if inside : mark < 8 then some ⟨mark, inside⟩ else none

def Activation.holds (a : Activation) : Option Nat :=
  if a.phase.executing then some a.prio else none

def CoreState.reserved (core : CoreState) : Option Nat :=
  if core.nextPrio ≠ 0 then some core.nextPrio else none

/-- The marks of `executing_cores`, what each core holds, and the `next_prio` of each core. -/
def State.claims (s : State) : Lib.Claims CoreId Nat where
  mark p := coreOf (s.sched.executingCores p)
  held c := (s.frames c).filterMap Activation.holds
  reserved c := (s.sched.cores c).reserved

theorem coreOf_eq_some {mark : Nat} {c : CoreId} : coreOf mark = some c ↔ mark = c.val := by
  have bound := c.isLt
  simp only [coreOf, Option.dite_none_right_eq_some, Option.some.injEq, Fin.ext_iff]
  constructor
  · intro found
    exact found.2
  · intro same
    exact ⟨by omega, same⟩

theorem reserved_eq_some {core : CoreState} {p : Nat} :
    core.reserved = some p ↔ core.nextPrio ≠ 0 ∧ core.nextPrio = p := by
  simp only [CoreState.reserved, Option.ite_none_right_eq_some, Option.some.injEq]

theorem held_cons (a : Activation) (frames : List Activation) (p : Nat) :
    held (a :: frames) p =
      held frames p + if a.prio = p ∧ a.phase.executing = true then 1 else 0 := by
  simp [held, List.countP_cons]

theorem count_holds (frames : List Activation) (p : Nat) :
    (frames.filterMap Activation.holds).count p = held frames p := by
  induction frames with
  | nil => rfl
  | cons a rest ih =>
      rw [held_cons, ← ih]
      by_cases executing : a.phase.executing = true
      · simp [Activation.holds, executing, List.count_cons]
      · simp [Activation.holds, executing]

section Steps

variable {s t : State} {c : CoreId}

theorem mark_free {p : Nat} (free : s.sched.executingCores p = noCore) :
    s.claims.mark p = none := by
  simp only [State.claims, free]
  rfl

theorem Exclusive.claims (inv : Exclusive s) : s.claims.Exclusive where
  counted c p := by
    have counted := inv.counted c p
    rw [← count_holds] at counted
    simpa only [State.claims, coreOf_eq_some] using counted
  free c p reserved := by
    rcases reserved_eq_some.mp reserved with ⟨planned, rfl⟩
    exact mark_free (inv.free c planned)
  apart c c' p first second := by
    rcases reserved_eq_some.mp first with ⟨planned, rfl⟩
    exact inv.apart c c' planned (reserved_eq_some.mp second).2.symm

theorem Exclusive.of_claims
    (reserved : ∀ c, (s.sched.cores c).nextPrio ≠ 0 → ∃ top below, s.frames c = top :: below ∧
      top.phase = .planned ∧ top.prio = (s.sched.cores c).nextPrio)
    (valid : ∀ p, s.sched.executingCores p = noCore ∨
      ∃ c : CoreId, s.sched.executingCores p = c.val)
    (claims : s.claims.Exclusive)
    (inRange : ∀ c, ∀ a ∈ s.frames c, 0 < a.prio ∧ a.prio < 64) : Exclusive s where
  inRange := inRange
  valid := valid
  counted c p := by
    have counted := claims.counted c p
    simpa only [State.claims, coreOf_eq_some, count_holds] using counted
  reserved := reserved
  free c planned := by
    have free := claims.free c _ (reserved_eq_some.mpr ⟨planned, rfl⟩)
    rcases valid (s.sched.cores c).nextPrio with unheld | ⟨core, held⟩
    · exact unheld
    · have marked : s.claims.mark (s.sched.cores c).nextPrio = some core :=
        coreOf_eq_some.mpr held
      rw [free] at marked
      cases marked
  apart c c' planned same := by
    apply claims.apart c c' _ (reserved_eq_some.mpr ⟨planned, rfl⟩)
    exact reserved_eq_some.mpr ⟨by rwa [same] at planned, same.symm⟩

theorem Exclusive.next_zero (inv : Exclusive s) {top : Activation} {below : List Activation}
    (stack : s.frames c = top :: below) (phase : top.phase ≠ .planned) :
    (s.sched.cores c).nextPrio = 0 := by
  by_contra next
  rcases inv.reserved c next with ⟨top', below', stack', phase', -⟩
  rw [stack] at stack'
  cases stack'
  exact phase phase'

/-- The innermost activation of a core, or the core's place in the scheduler, has changed. `claims`
says what that does to the marks, the held priorities and the reservations. -/
theorem Exclusive.of_core (inv : Exclusive s) {sched : QkScheduler} {frames : List Activation}
    {claims : Lib.Claims CoreId Nat} (exclusive : claims.Exclusive)
    (mark : (fun p => coreOf (sched.executingCores p)) = claims.mark)
    (held : Function.update s.claims.held c (frames.filterMap Activation.holds) = claims.held)
    (reserved : Function.update s.claims.reserved c (sched.cores c).reserved = claims.reserved)
    (cores : ∀ c', c' ≠ c → sched.cores c' = s.sched.cores c')
    (valid : ∀ p, sched.executingCores p = noCore ∨ ∃ c : CoreId, sched.executingCores p = c.val)
    (inRange : ∀ a ∈ frames, 0 < a.prio ∧ a.prio < 64)
    (next : (sched.cores c).nextPrio ≠ 0 → ∃ top below, frames = top :: below ∧
      top.phase = .planned ∧ top.prio = (sched.cores c).nextPrio) :
    Exclusive ⟨sched, Function.update s.frames c frames⟩ := by
  refine Exclusive.of_claims ?_ valid ?_ ?_
  · intro c' planned
    by_cases here : c' = c
    · subst here
      simpa using next planned
    · simp only [cores c' here] at planned
      simpa [here, cores c' here] using inv.reserved c' planned
  · have same : State.claims ⟨sched, Function.update s.frames c frames⟩ = claims := by
      apply Lib.Claims.ext
      · exact mark
      · rw [← held]
        funext c'
        by_cases here : c' = c
        · subst here
          simp [State.claims]
        · simp [State.claims, here]
      · rw [← reserved]
        funext c'
        by_cases here : c' = c
        · subst here
          simp [State.claims]
        · simp [State.claims, here, cores c' here]
    rw [same]
    exact exclusive
  · intro c' a member
    by_cases here : c' = c
    · subst here
      exact inRange a (by simpa using member)
    · exact inv.inRange c' a (by simpa [here] using member)

theorem Exclusive.advance (inv : Exclusive s) {sched : QkScheduler} {frames : List Activation}
    (same : sched.executingCores = s.sched.executingCores)
    (kept : frames.filterMap Activation.holds = (s.frames c).filterMap Activation.holds)
    (cores : ∀ c', c' ≠ c → sched.cores c' = s.sched.cores c')
    (inRange : ∀ a ∈ frames, 0 < a.prio ∧ a.prio < 64)
    (next : (sched.cores c).nextPrio ≠ 0 →
      (∃ top below, frames = top :: below ∧ top.phase = .planned ∧
        top.prio = (sched.cores c).nextPrio) ∧
      s.sched.executingCores (sched.cores c).nextPrio = noCore ∧
      ∀ c', c' ≠ c → (s.sched.cores c').nextPrio ≠ (sched.cores c).nextPrio) :
    Exclusive ⟨sched, Function.update s.frames c frames⟩ := by
  have reserves := inv.claims.reserve (k := c) (sched.cores c).reserved
    (by
      intro p choice
      rcases reserved_eq_some.mp choice with ⟨positive, rfl⟩
      exact mark_free (next positive).2.1)
    (by
      intro p choice c' other taken
      rcases reserved_eq_some.mp choice with ⟨positive, rfl⟩
      exact (next positive).2.2 c' other (reserved_eq_some.mp taken).2)
  refine inv.of_core reserves ?_ ?_ rfl cores ?_ inRange fun positive => (next positive).1
  · simp only [same]
    rfl
  · rw [kept]
    exact Function.update_eq_self c s.claims.held
  · rw [same]
    exact inv.valid

theorem planAbove_some {sched sched' : QkScheduler} {threshold : Nat} {d : ScheduleDecision}
    (planned : sched.planAbove c threshold = (some d, sched')) :
    0 < d.nextPrio ∧ d.nextPrio < 64 ∧ sched.executingCores d.nextPrio = noCore ∧
      (∀ c', c' ≠ c → (sched.cores c').nextPrio ≠ d.nextPrio) ∧
      d.previousPrio = (sched.cores c).activePrio ∧
      sched' = sched.setCore c { sched.cores c with nextPrio := d.nextPrio } := by
  unfold QkScheduler.planAbove at planned
  cases found : QkScheduler.priorities.find? (sched.eligible c threshold) with
  | none => simp [found] at planned
  | some candidate =>
      simp only [found, Prod.mk.injEq, Option.some.injEq] at planned
      rcases planned with ⟨rfl, rfl⟩
      have member := List.mem_of_find?_eq_some found
      have chosen := List.find?_some found
      simp only [QkScheduler.priorities, List.mem_reverse, List.mem_range'_1] at member
      simp only [QkScheduler.eligible, QkScheduler.alreadyRunning, Bool.and_eq_true,
        Bool.not_eq_true', Bool.or_eq_false_iff, List.any_eq_false, List.mem_finRange,
        bne_eq_false_iff_eq] at chosen
      have low : 0 < candidate := by omega
      have high : candidate < 64 := by omega
      refine ⟨low, high, chosen.2.2, ?_, rfl, rfl⟩
      intro c' other same
      apply chosen.2.1 c' trivial
      simp [other, same]

theorem planAbove_none {sched sched' : QkScheduler} {threshold : Nat}
    (planned : sched.planAbove c threshold = (none, sched')) :
    sched' = sched.setCore c { sched.cores c with nextPrio := 0 } := by
  unfold QkScheduler.planAbove at planned
  cases found : QkScheduler.priorities.find? (sched.eligible c threshold) with
  | none =>
      simp only [found, Prod.mk.injEq, true_and] at planned
      exact planned.symm
  | some candidate => simp [found] at planned

theorem atPhase_some {phase : Phase} {go : Activation → List Activation → Option State}
    (went : s.atPhase c phase go = some t) :
    ∃ top below, s.frames c = top :: below ∧ top.phase = phase ∧ go top below = some t := by
  unfold State.atPhase at went
  cases stack : s.frames c with
  | nil => simp [stack] at went
  | cons top below =>
      by_cases here : top.phase = phase
      · simp only [stack, if_pos here] at went
        exact ⟨top, below, rfl, here, went⟩
      · simp [stack, here] at went

theorem setTop_others {sched : QkScheduler} {core : CoreState} {top : Activation}
    {below : List Activation} (c' : CoreId) (other : c' ≠ c) :
    (({ s with sched := sched.setCore c core } : State).setTop c top below).frames c' =
        s.frames c' ∧
      (({ s with sched := sched.setCore c core } : State).setTop c top below).sched.cores c' =
        sched.cores c' := by
  simp [State.setTop, QkScheduler.setCore, other]

theorem range_setTop {top : Activation} {below : List Activation}
    (range : ∀ a ∈ top :: below, 0 < a.prio ∧ a.prio < 64) (phase : Phase) :
    ∀ a ∈ { top with phase := phase } :: below, 0 < a.prio ∧ a.prio < 64 := by
  intro a member
  rcases List.mem_cons.mp member with rfl | member
  · exact range top List.mem_cons_self
  · exact range a (List.mem_cons_of_mem top member)

theorem valid_update (inv : Exclusive s) {mark : Nat}
    (known : mark = noCore ∨ ∃ c : CoreId, mark = c.val) (p q : Nat) :
    Function.update s.sched.executingCores p mark q = noCore ∨
      ∃ c : CoreId, Function.update s.sched.executingCores p mark q = c.val := by
  by_cases here : q = p
  · subst here
    rwa [Function.update_self]
  · rw [Function.update_of_ne here]
    exact inv.valid q

theorem Exclusive.shift (inv : Exclusive s) {top : Activation} {below : List Activation}
    {phase : Phase} (stack : s.frames c = top :: below) (was : top.phase ≠ .planned)
    (kind : phase.executing = top.phase.executing) :
    Exclusive (s.setTop c { top with phase := phase } below) := by
  have idle := inv.next_zero stack was
  have range := inv.inRange c
  rw [stack] at range
  refine inv.advance rfl ?_ (fun _ _ => rfl) (range_setTop range phase) ?_
  · simp [stack, Activation.holds, kind, List.filterMap_cons]
  · intro next
    exact absurd idle next

theorem Exclusive.plan (inv : Exclusive s) {threshold restorePrio restoreThreshold : Nat}
    {d : ScheduleDecision} {sched : QkScheduler}
    (planned : s.sched.planAbove c threshold = (some d, sched)) (below : List Activation)
    (range : ∀ a ∈ below, 0 < a.prio ∧ a.prio < 64)
    (kept : below.filterMap Activation.holds = (s.frames c).filterMap Activation.holds) :
    Exclusive (({ s with sched := sched } : State).setTop c
      ⟨d.nextPrio, restorePrio, restoreThreshold, .planned⟩ below) := by
  rcases planAbove_some planned with ⟨low, high, unheld, unreserved, -, rfl⟩
  refine inv.advance ?_ kept ?_ ?_ ?_
  · rfl
  · intro c' other
    simp [QkScheduler.setCore, other]
  · intro a member
    rcases List.mem_cons.mp member with rfl | member
    · exact ⟨low, high⟩
    · exact range a member
  · intro next
    simp only [QkScheduler.setCore, Function.update_self]
    exact ⟨⟨_, _, rfl, rfl, rfl⟩, unheld, unreserved⟩

theorem commitActivation_frame (sched : QkScheduler) (c : CoreId) (d : ScheduleDecision)
    (threshold : Nat) (inside : 0 < d.nextPrio ∧ d.nextPrio < 64) :
    ∃ records switches, sched.commitActivation c d threshold =
      { sched with
        cores := Function.update sched.cores c ⟨d.nextPrio, threshold, 0⟩
        executingCores := Function.update sched.executingCores d.nextPrio c.val
        records := records, switches := switches } := by
  simp only [QkScheduler.commitActivation, if_pos inside]
  by_cases moved : d.nextPrio ≠ (sched.cores c).activePrio
  · rw [if_pos moved]
    exact ⟨_, _, rfl⟩
  · rw [if_neg moved]
    exact ⟨_, _, rfl⟩

theorem Exclusive.commit (inv : Exclusive s) {top : Activation} {below : List Activation}
    {threshold : Nat} (stack : s.frames c = top :: below) (phase : top.phase = .planned)
    (still : (s.sched.cores c).nextPrio = top.prio) :
    Exclusive (({ s with
      sched := s.sched.commitActivation c ⟨top.prio, top.restorePrio⟩ threshold } : State).setTop
        c { top with phase := .committed } below) := by
  have range := inv.inRange c
  rw [stack] at range
  rcases range top List.mem_cons_self with ⟨low, high⟩
  have reserved : s.claims.reserved c = some top.prio :=
    reserved_eq_some.mpr ⟨by omega, still⟩
  have unheld := inv.claims.free c top.prio reserved
  have takes := inv.claims.take (k := c) unheld fun c' other taken =>
    other (inv.claims.apart c' c top.prio taken reserved)
  rcases commitActivation_frame s.sched c ⟨top.prio, top.restorePrio⟩ threshold ⟨low, high⟩ with
    ⟨records, switches, committed⟩
  rw [committed]
  apply inv.of_core takes
  · rw [← coreOf_eq_some.mpr rfl]
    exact Function.comp_update coreOf s.sched.executingCores top.prio c.val
  · simp [State.claims, stack, Activation.holds, phase, Phase.executing]
  · simp [CoreState.reserved]
  · intro c' other
    simp [other]
  · exact valid_update inv (.inr ⟨c, rfl⟩) top.prio
  · exact range_setTop range .committed
  · intro next
    simp at next

theorem Exclusive.complete (inv : Exclusive s) {top : Activation} {below : List Activation}
    (stack : s.frames c = top :: below) (phase : top.phase = .returned) :
    Exclusive (({ s with sched := s.sched.completeExecution top.prio } : State).setTop
      c { top with phase := .completed } below) := by
  have range := inv.inRange c
  rw [stack] at range
  rcases range top List.mem_cons_self with ⟨low, high⟩
  have idle := inv.next_zero stack (by simp [phase])
  have holds : (s.claims.held c).Perm (top.prio :: below.filterMap Activation.holds) := by
    simp [State.claims, stack, Activation.holds, phase, Phase.executing]
  simp only [QkScheduler.completeExecution, low, high, and_self, if_true]
  apply inv.of_core (inv.claims.release holds)
  · exact Function.comp_update coreOf s.sched.executingCores top.prio noCore
  · simp [Activation.holds, Phase.executing]
  · exact Function.update_eq_self c s.claims.reserved
  · exact fun _ _ => rfl
  · exact valid_update inv (.inl rfl) top.prio
  · exact range_setTop range .completed
  · intro next
    exact absurd idle next

theorem Exclusive.withSched (inv : Exclusive s) (sched : QkScheduler)
    (cores : sched.cores = s.sched.cores)
    (executing : sched.executingCores = s.sched.executingCores) :
    Exclusive { s with sched := sched } := by
  refine ⟨inv.inRange, ?_, ?_, ?_, ?_, ?_⟩
  · simp only [executing]
    exact inv.valid
  · simp only [executing]
    exact inv.counted
  · simp only [cores]
    exact inv.reserved
  · simp only [cores, executing]
    exact inv.free
  · simp only [cores]
    exact inv.apart

theorem Exclusive.drop (inv : Exclusive s) (sched : QkScheduler) (core : CoreState)
    (frames : List Activation) (cores : sched.cores = Function.update s.sched.cores c core)
    (executing : sched.executingCores = s.sched.executingCores) (unplanned : core.nextPrio = 0)
    (range : ∀ a ∈ frames, 0 < a.prio ∧ a.prio < 64)
    (kept : frames.filterMap Activation.holds = (s.frames c).filterMap Activation.holds) :
    Exclusive { s with sched := sched, frames := Function.update s.frames c frames } := by
  apply inv.advance executing kept
  · intro c' other
    rw [cores, Function.update_of_ne other]
  · exact range
  · intro next
    simp [cores, unplanned] at next

theorem restoreActive_cores (sched : QkScheduler) (prio threshold : Nat) :
    (sched.restoreActive c prio threshold).cores =
      Function.update sched.cores c ⟨prio, threshold, 0⟩ := by
  simp only [QkScheduler.restoreActive, QkScheduler.setCore, QkScheduler.emitSwitch]
  split <;> split <;> rfl

theorem restoreActive_executing (sched : QkScheduler) (prio threshold : Nat) :
    (sched.restoreActive c prio threshold).executingCores = sched.executingCores := by
  simp only [QkScheduler.restoreActive, QkScheduler.setCore, QkScheduler.emitSwitch]
  split <;> split <;> rfl

/-- What a step of a core does, with the decision of the scheduler taken apart. -/
inductive Moves (debug : Bool) (s : State) (c : CoreId) : Step → State → Prop where
  | idle : Moves debug s c .plan
      { s with sched := s.sched.setCore c { s.sched.cores c with nextPrio := 0 } }
  | plan {threshold restorePrio restoreThreshold : Nat} {d : ScheduleDecision}
      {sched : QkScheduler} (planned : s.sched.planAbove c threshold = (some d, sched)) :
      Moves debug s c .plan (({ s with sched := sched } : State).setTop c
        ⟨d.nextPrio, restorePrio, restoreThreshold, .planned⟩ (s.frames c))
  | commit {top : Activation} {below : List Activation} {threshold : Nat}
      (stack : s.frames c = top :: below) (phase : top.phase = .planned)
      (asserted : debug = true → (s.sched.cores c).nextPrio = top.prio) :
      Moves debug s c .commit (({ s with
        sched := s.sched.commitActivation c ⟨top.prio, top.restorePrio⟩ threshold } : State).setTop
          c { top with phase := .committed } below)
  | enter {top : Activation} {below : List Activation} (stack : s.frames c = top :: below)
      (phase : top.phase = .committed) :
      Moves debug s c .enter (s.setTop c { top with phase := .running } below)
  | ret {top : Activation} {below : List Activation} (stack : s.frames c = top :: below)
      (phase : top.phase = .running) :
      Moves debug s c .ret (s.setTop c { top with phase := .returned } below)
  | clear (prio : Nat) : Moves debug s c .clear { s with sched := s.sched.markNotReady prio }
  | complete {top : Activation} {below : List Activation} (stack : s.frames c = top :: below)
      (phase : top.phase = .returned) :
      Moves debug s c .complete (({ s with
        sched := s.sched.completeExecution top.prio } : State).setTop
          c { top with phase := .completed } below)
  | next {top : Activation} {below : List Activation} {threshold : Nat} {d : ScheduleDecision}
      {sched : QkScheduler} (stack : s.frames c = top :: below) (phase : top.phase = .completed)
      (planned : s.sched.planAbove c threshold = (some d, sched)) :
      Moves debug s c .next (({ s with sched := sched } : State).setTop c
        { top with prio := d.nextPrio, phase := .planned } below)
  | last {top : Activation} {below : List Activation} (stack : s.frames c = top :: below)
      (phase : top.phase = .completed) :
      Moves debug s c .next (({ s with
        sched := s.sched.setCore c { s.sched.cores c with nextPrio := 0 } } : State).setTop
          c { top with phase := .restoring } below)
  | restore {top : Activation} {below : List Activation} (stack : s.frames c = top :: below)
      (phase : top.phase = .restoring) :
      Moves debug s c .restore { s with
        sched := s.sched.restoreActive c top.restorePrio top.restoreThreshold
        frames := Function.update s.frames c below }

theorem stepCore_moves {k : QkKernel} {debug : Bool} {a : Step}
    (stepped : s.stepCore k debug c a = some t) : Moves debug s c a t := by
  cases a with
  | plan =>
      simp only [State.stepCore] at stepped
      cases plan : s.sched.planActivation c with
      | mk decision sched =>
          cases decision with
          | none =>
              simp only [plan, Option.some.injEq] at stepped
              rw [← stepped, planAbove_none plan]
              exact .idle
          | some d =>
              simp only [plan] at stepped
              rcases Option.map_eq_some_iff.mp stepped with ⟨threshold, -, rfl⟩
              exact .plan plan
  | commit =>
      rcases atPhase_some stepped with ⟨top, below, stack, phase, went⟩
      split at went
      · cases went
      · rename_i passed
        rcases Option.map_eq_some_iff.mp went with ⟨slot, -, rfl⟩
        refine .commit stack phase ?_
        intro on
        by_contra differs
        exact passed ⟨on, differs⟩
  | enter =>
      rcases atPhase_some stepped with ⟨top, below, stack, phase, went⟩
      split at went
      · cases went
      · rw [← Option.some.inj went]
        exact .enter stack phase
  | ret =>
      rcases atPhase_some stepped with ⟨top, below, stack, phase, went⟩
      rw [← Option.some.inj went]
      exact .ret stack phase
  | clear =>
      rcases atPhase_some stepped with ⟨top, below, -, -, went⟩
      rw [← Option.some.inj went]
      exact .clear top.prio
  | complete =>
      rcases atPhase_some stepped with ⟨top, below, stack, phase, went⟩
      rw [← Option.some.inj went]
      exact .complete stack phase
  | next =>
      rcases atPhase_some stepped with ⟨top, below, stack, phase, went⟩
      cases plan : s.sched.nextAfterDispatch c top.restoreThreshold with
      | mk decision sched =>
          cases decision with
          | none =>
              simp only [plan, Option.some.injEq] at went
              rw [← went, planAbove_none plan]
              exact .last stack phase
          | some d =>
              simp only [plan, Option.some.injEq] at went
              rw [← went]
              exact .next stack phase plan
  | restore =>
      rcases atPhase_some stepped with ⟨top, below, stack, phase, went⟩
      rw [← Option.some.inj went]
      exact .restore stack phase

theorem exclusive_core {debug : Bool} {a : Step} (inv : Exclusive s)
    (kept : Reserved debug s (.core c a)) (moved : Moves debug s c a t) : Exclusive t := by
  cases moved with
  | idle =>
      have same : Function.update s.frames c (s.frames c) = s.frames :=
        Function.update_eq_self c s.frames
      have dropped := inv.drop (s.sched.setCore c { s.sched.cores c with nextPrio := 0 })
        _ (s.frames c) rfl rfl rfl (inv.inRange c) rfl
      rw [same] at dropped
      exact dropped
  | plan planned => exact inv.plan planned (s.frames c) (inv.inRange c) rfl
  | @commit top below threshold stack phase asserted =>
      apply inv.commit stack phase
      cases debug with
      | true => exact asserted rfl
      | false => exact kept rfl top below stack phase
  | enter stack phase =>
      exact inv.shift stack (by simp [phase]) (by simp [phase, Phase.executing])
  | ret stack phase =>
      exact inv.shift stack (by simp [phase]) (by simp [phase, Phase.executing])
  | clear prio => exact inv.withSched _ rfl rfl
  | complete stack phase => exact inv.complete stack phase
  | @next top below threshold d sched stack phase planned =>
      have range := inv.inRange c
      rw [stack] at range
      apply inv.plan planned below
      · intro a member
        exact range a (List.mem_cons_of_mem top member)
      · simp [stack, Activation.holds, phase, Phase.executing]
  | @last top below stack phase =>
      have range := inv.inRange c
      rw [stack] at range
      apply inv.drop (s.sched.setCore c { s.sched.cores c with nextPrio := 0 }) _
        ({ top with phase := .restoring } :: below) rfl rfl rfl (range_setTop range .restoring)
      · simp [stack, Activation.holds, phase, Phase.executing]
  | @restore top below stack phase =>
      have range := inv.inRange c
      rw [stack] at range
      apply inv.drop _ _ below (restoreActive_cores _ _ _) (restoreActive_executing _ _ _) rfl
      · intro a member
        exact range a (List.mem_cons_of_mem top member)
      · simp [stack, Activation.holds, phase, Phase.executing]

theorem exclusive_step (k : QkKernel) (debug : Bool) (s : State) (l : Label) (t : State)
    (inv : Exclusive s) (kept : Reserved debug s l) (stepped : s.step k debug l = some t) :
    Exclusive t := by
  cases l with
  | core c a => exact exclusive_core inv kept (stepCore_moves stepped)
  | markReady prio =>
      rw [← Option.some.inj stepped]
      exact inv.withSched _ rfl rfl
  | lock ceiling =>
      rw [← Option.some.inj stepped]
      unfold QkScheduler.lock
      split <;> exact inv.withSched _ rfl rfl
  | unlock status =>
      rw [← Option.some.inj stepped]
      cases status with
      | unlocked => exact inv.withSched _ rfl rfl
      | locked value =>
          simp only [QkScheduler.unlock]
          split <;> exact inv.withSched _ rfl rfl

end Steps

/-- Mutual exclusion on eight cores, in every run whose commits find their reservation: a priority
is between `commit_activation` and `complete_execution` at most once over all cores and nestings,
and so is its handler; and `executing_cores` differs from the free mark exactly then. -/
theorem mutual_exclusion (k : QkKernel) (debug : Bool) (labels : List Label) (t : State)
    (kept : Lib.Along (State.step k debug) (Reserved debug) State.init labels)
    (ran : Lib.run (State.step k debug) State.init labels = some t) (p : Nat) :
    (∀ c, held (t.frames c) p ≤ 1) ∧
      (∀ c c', 0 < held (t.frames c) p → 0 < held (t.frames c') p → c = c') ∧
      (t.sched.executingCores p ≠ noCore ↔ ∃ c, 0 < held (t.frames c) p) := by
  have inv := Lib.along_preserves (exclusive_step k debug) exclusive_init kept ran
  have holder (c : CoreId) : 0 < held (t.frames c) p ↔ t.sched.executingCores p = c.val := by
    rw [inv.counted c p]
    split
    · simpa
    · simpa
  refine ⟨?_, ?_, ?_⟩
  · intro c
    rw [inv.counted c p]
    split <;> omega
  · intro c c' first second
    have same := ((holder c).mp first).symm.trans ((holder c').mp second)
    exact Fin.ext same
  · constructor
    · intro taken
      rcases inv.valid p with free | ⟨c, core⟩
      · exact absurd free taken
      · exact ⟨c, (holder c).mpr core⟩
    · rintro ⟨c, first⟩
      rw [(holder c).mp first]
      exact core_ne_noCore c

/-! A dispatch that starts on a core only while the core is idle or inside a handler always finds
its reservation: the condition of `mutual_exclusion` is about interrupts that dispatch. -/

/-- No dispatch starts on a core that has planned an activation and not yet committed it. -/
def Unbroken (s : State) : Label → Prop
  | .core c .plan => ∀ top below, s.frames c = top :: below → top.phase ≠ .planned
  | _ => True

/-- Only the innermost activation of a core may be planned, and then it is the reserved one. -/
def Matched (s : State) : Prop :=
  ∀ c top below, s.frames c = top :: below →
    (top.phase = .planned → (s.sched.cores c).nextPrio = top.prio) ∧
      ∀ a ∈ below, a.phase ≠ .planned

section Nesting

variable {s t : State} {c : CoreId}

theorem Matched.of_core (matched : Matched s)
    (others : ∀ c', c' ≠ c → t.frames c' = s.frames c' ∧ t.sched.cores c' = s.sched.cores c')
    (here : ∀ top below, t.frames c = top :: below →
      (top.phase = .planned → (t.sched.cores c).nextPrio = top.prio) ∧
        ∀ a ∈ below, a.phase ≠ .planned) : Matched t := by
  intro c' top below stack
  by_cases core : c' = c
  · subst core
    exact here top below stack
  · rw [(others c' core).1] at stack
    rw [(others c' core).2]
    exact matched c' top below stack

theorem Matched.setTop (matched : Matched s) {top top' : Activation} {below : List Activation}
    {sched : QkScheduler} (stack : s.frames c = top :: below) (moved : top'.phase ≠ .planned)
    (cores : ∀ c', c' ≠ c → sched.cores c' = s.sched.cores c') :
    Matched (({ s with sched := sched } : State).setTop c top' below) := by
  apply matched.of_core (c := c)
  · intro c' other
    exact ⟨by simp [State.setTop, other], cores c' other⟩
  · intro top₁ below₁ same
    simp only [State.setTop, Function.update_self, List.cons.injEq] at same
    rcases same with ⟨rfl, rfl⟩
    exact ⟨fun planned => absurd planned moved, (matched c top below stack).2⟩

theorem Matched.withSched (matched : Matched s) (sched : QkScheduler)
    (cores : sched.cores = s.sched.cores) : Matched { s with sched := sched } := by
  apply matched.of_core (c := 0)
  · intro c' other
    exact ⟨rfl, by simp only [cores]⟩
  · simp only [cores]
    exact matched 0

theorem commitActivation_others (sched : QkScheduler) (d : ScheduleDecision) (threshold : Nat)
    (c' : CoreId) (other : c' ≠ c) :
    (sched.commitActivation c d threshold).cores c' = sched.cores c' := by
  simp only [QkScheduler.commitActivation, QkScheduler.setCore, QkScheduler.emitSwitch]
  split <;> split <;> simp [other]

theorem matched_core {debug : Bool} {a : Step} (matched : Matched s)
    (unbroken : Unbroken s (.core c a)) (moved : Moves debug s c a t) : Matched t := by
  cases moved with
  | idle =>
      apply matched.of_core (c := c)
      · intro c' other
        simp [QkScheduler.setCore, other]
      · intro top rest stack
        refine ⟨?_, (matched c top rest stack).2⟩
        intro planned
        exact absurd planned (unbroken top rest stack)
  | plan planned =>
      rcases planAbove_some planned with ⟨-, -, -, -, -, rfl⟩
      apply matched.of_core (c := c) setTop_others
      intro top rest stack
      simp only [State.setTop, Function.update_self, List.cons.injEq] at stack
      rcases stack with ⟨rfl, rfl⟩
      refine ⟨fun _ => by simp [State.setTop, QkScheduler.setCore], ?_⟩
      intro a member
      cases stack : s.frames c with
      | nil => simp [stack] at member
      | cons top rest =>
          rw [stack] at member
          rcases List.mem_cons.mp member with rfl | deeper
          · exact unbroken a rest stack
          · exact (matched c top rest stack).2 a deeper
  | commit stack => exact matched.setTop stack (by simp) (commitActivation_others _ _ _)
  | enter stack => exact matched.setTop stack (by simp) fun _ _ => rfl
  | ret stack => exact matched.setTop stack (by simp) fun _ _ => rfl
  | clear prio => exact matched.withSched _ rfl
  | complete stack =>
      apply matched.setTop stack (by simp)
      intro c' _
      simp only [QkScheduler.completeExecution]
      split <;> rfl
  | @next top below threshold d sched stack phase planned =>
      rcases planAbove_some planned with ⟨-, -, -, -, -, rfl⟩
      apply matched.of_core (c := c) setTop_others
      intro top' below' stack'
      simp only [State.setTop, Function.update_self, List.cons.injEq] at stack'
      rcases stack' with ⟨rfl, rfl⟩
      exact ⟨fun _ => by simp [State.setTop, QkScheduler.setCore], (matched c top below stack).2⟩
  | last stack =>
      apply matched.setTop stack (by simp)
      intro c' other
      simp [QkScheduler.setCore, other]
  | @restore top below stack phase =>
      have rest := (matched c top below stack).2
      apply matched.of_core (c := c)
      · intro c' other
        simp [restoreActive_cores, other]
      · intro top' below' stack'
        simp only [Function.update_self] at stack'
        subst stack'
        refine ⟨?_, fun a member => rest a (List.mem_cons_of_mem top' member)⟩
        intro planned
        exact absurd planned (rest top' List.mem_cons_self)

theorem matched_step (k : QkKernel) (debug : Bool) (s : State) (l : Label) (t : State)
    (matched : Matched s) (unbroken : Unbroken s l) (stepped : s.step k debug l = some t) :
    Matched t := by
  cases l with
  | core c a => exact matched_core matched unbroken (stepCore_moves stepped)
  | markReady prio =>
      rw [← Option.some.inj stepped]
      exact matched.withSched _ rfl
  | lock ceiling =>
      rw [← Option.some.inj stepped]
      apply matched.withSched
      unfold QkScheduler.lock
      split <;> rfl
  | unlock status =>
      rw [← Option.some.inj stepped]
      apply matched.withSched
      unfold QkScheduler.unlock
      repeat' split
      all_goals rfl

end Nesting

theorem unbroken_reserved (k : QkKernel) (debug : Bool) (labels : List Label)
    (unbroken : Lib.Along (State.step k debug) Unbroken State.init labels) :
    Lib.Along (State.step k debug) (Reserved debug) State.init labels := by
  apply Lib.along_weaken (matched_step k debug) _ _ unbroken
  · intro s l matched _
    cases l with
    | core c a =>
        cases a <;> try trivial
        intro _ top below stack planned
        exact (matched c top below stack).1 planned
    | markReady prio => trivial
    | lock ceiling => trivial
    | unlock status => trivial
  · intro c top below stack
    cases stack

/-- Core 0 is inside the handler of priority 2 when an event for priority 5 comes. Core 0 dispatches
it on top while core 1 finds nothing to run, and core 1 takes the next one. -/
def enterLow : List Label :=
  [.markReady 2, .core 0 .plan, .core 0 .commit, .core 0 .enter, .markReady 5, .core 0 .plan,
    .core 1 .plan, .core 0 .commit, .core 0 .enter, .core 1 .plan, .core 0 .ret, .core 0 .clear,
    .core 0 .complete, .core 0 .next, .core 0 .restore, .markReady 5, .core 1 .plan,
    .core 1 .commit, .core 1 .enter]

theorem enterLow_mutual_exclusion :
    ∃ t : State, Lib.run (State.step pairKernel false) State.init enterLow = some t ∧
      held (t.frames 0) 2 = 1 ∧ held (t.frames 1) 5 = 1 ∧ t.sched.executingCores 5 ≠ noCore ∧
      (∀ c, 0 < held (t.frames c) 2 → c = 0) ∧ ∀ c, 0 < held (t.frames c) 5 → c = 1 := by
  have reserved : Lib.Along (State.step pairKernel false) (Reserved false) State.init enterLow := by
    refine Lib.along_cons rfl trivial (Lib.along_cons rfl trivial (Lib.along_cons rfl ?_
      (Lib.along_cons rfl trivial (Lib.along_cons rfl trivial (Lib.along_cons rfl trivial
      (Lib.along_cons rfl trivial (Lib.along_cons rfl ?_ (Lib.along_cons rfl trivial
      (Lib.along_cons rfl trivial (Lib.along_cons rfl trivial (Lib.along_cons rfl trivial
      (Lib.along_cons rfl trivial (Lib.along_cons rfl trivial (Lib.along_cons rfl trivial
      (Lib.along_cons rfl trivial (Lib.along_cons rfl trivial (Lib.along_cons rfl ?_
      (Lib.along_cons rfl trivial trivial))))))))))))))))))
    all_goals
      intro _ top below stack _
      cases stack
      decide
  have low := mutual_exclusion pairKernel false enterLow _ reserved rfl 2
  have high := mutual_exclusion pairKernel false enterLow _ reserved rfl 5
  refine ⟨_, rfl, by decide, by decide, high.2.2.mpr ⟨1, by decide⟩, ?_, ?_⟩
  · exact fun c inside => low.2.1 c 0 inside (by decide)
  · exact fun c inside => high.2.1 c 1 inside (by decide)

def dispatchLow : List Label :=
  [.core 0 .plan, .core 0 .commit, .core 0 .enter, .core 0 .ret, .core 0 .clear,
    .core 0 .complete, .core 0 .next, .core 0 .restore]

/-- An interrupt dispatches priority 2 on core 0 between the plan and the commit of an earlier
dispatch there. The reservation is gone, core 1 takes the priority as well, and the mark is cleared
while core 0 has not completed. -/
theorem interrupted_plan_not_exclusive :
    ∃ t : State, Lib.run (State.step pairKernel false) State.init
        ([.markReady 2, .core 0 .plan] ++ dispatchLow ++
          [.markReady 2, .core 1 .plan, .core 1 .commit, .core 0 .commit, .core 1 .enter,
            .core 1 .ret, .core 1 .complete]) = some t ∧
      t.sched.executingCores 2 = noCore ∧ 0 < held (t.frames 0) 2 := by
  exact ⟨_, rfl, by decide, by decide⟩

end QpRs.Qk.Smp
