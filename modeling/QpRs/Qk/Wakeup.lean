import QpRs.Qk.Kernel
import QpRs.Lib.Run

/-! Posting contexts beside a dispatching context (`QkKernel::post`, `publish` and `activate` in
`qk/src/kernel.rs`), with each lock-protected call one atomic step.

The contexts of `ι` are interrupts or other cores; a post made by a handler is a post of such a
context that runs while the handler does. `post` reads `has_events`, pushes and marks in three
steps, and `activate` reads `has_events` and clears the bit in two. -/

namespace QpRs.Qk.Wakeup

variable {ι π : Type}

/-- A context inside `post` or `publish`; `rest` are the recipients after the current one. -/
inductive Poster (π : Type) where
  | idle
  | next (p : Nat) (rest : List Nat) (e : DynEvent π)
  | checked (p : Nat) (wasEmpty : Bool) (rest : List Nat) (e : DynEvent π)
  | pushed (p : Nat) (rest : List Nat) (e : DynEvent π)

inductive Phase where
  | planned
  | committed
  | running
  | checking
  | clearing
  | leaving
  | restoring
  deriving DecidableEq, Repr

/-- One `activate` of the dispatching context. -/
structure Activation where
  prio : Nat
  restorePrio : Nat
  restoreThreshold : Nat
  phase : Phase
  deriving DecidableEq, Repr

structure State (ι π : Type) where
  sched : QkScheduler
  queues : Nat → EventQueue π
  posters : ι → Poster π
  stack : List Activation

def State.init : State ι π where
  sched := QkScheduler.new.configureActive 0 0
  queues := fun _ => .new
  posters := fun _ => .idle
  stack := []

/-- The steps of a posting context. -/
inductive Post (π : Type) where
  /-- `post`, once the target's priority is looked up. -/
  | post (target : ActiveObjectId) (e : DynEvent π)
  /-- `publish`, with the bitmap that `subscribers` has returned. -/
  | publish (subscribers : BitVec 64) (e : DynEvent π)
  | check
  | push
  | mark

/-- The steps of the dispatching context. -/
inductive Dispatch where
  | plan
  | commit
  | pop
  | ret
  | inspect
  | clear
  | next
  | restore
  | lock (ceiling : Nat)
  | unlock (status : SchedStatus)
  deriving DecidableEq, Repr

inductive Label (ι π : Type) where
  | poster (i : ι) (a : Post π)
  | dispatcher (a : Dispatch)

/-- The loop of `publish` at its next recipient. -/
def Poster.goOn (rest : List Nat) (e : DynEvent π) : Poster π :=
  match rest with
  | [] => .idle
  | p :: rest => .next p rest e

namespace State

def atPhase (s : State ι π) (phase : Phase)
    (go : Activation → List Activation → Option (State ι π)) : Option (State ι π) :=
  match s.stack with
  | [] => none
  | top :: below => if top.phase = phase then go top below else none

def setPhase (s : State ι π) (top : Activation) (below : List Activation) (phase : Phase) :
    State ι π :=
  { s with stack := { top with phase := phase } :: below }

/-- `activate`, one scheduler or queue call at a time. `debug` says whether `debug_assert` is
compiled in; a failed assertion stops the program. -/
def stepDispatcher (k : QkKernel) (debug : Bool) (s : State ι π) : Dispatch → Option (State ι π)
  | .plan =>
      -- `dispatch_once` is called outside all handlers or by the running one.
      if s.stack.all fun a => a.phase = .running then
        match s.sched.planActivation with
        | (some d, sched) =>
            (k.thresholdFor d.previousPrio).map fun threshold =>
              { s with
                sched := sched
                stack := ⟨d.nextPrio, d.previousPrio, threshold, .planned⟩ :: s.stack }
        | (none, sched) => some { s with sched := sched }
      else none
  | .commit => s.atPhase .planned fun top below =>
      (k.slots top.prio).map fun slot =>
        { s.setPhase top below .committed with
          sched := s.sched.commitActivation ⟨top.prio, top.restorePrio⟩ slot.threshold }
  | .pop => s.atPhase .committed fun top below =>
      match (s.queues top.prio).popFront with
      | (some _, rest) =>
          some { s.setPhase top below .running with
            queues := Function.update s.queues top.prio rest }
      | (none, _) => if debug then none else some (s.setPhase top below .checking)
  | .ret => s.atPhase .running fun top below => some (s.setPhase top below .checking)
  | .inspect => s.atPhase .checking fun top below =>
      some (s.setPhase top below (if (s.queues top.prio).isEmpty then .clearing else .leaving))
  | .clear => s.atPhase .clearing fun top below =>
      some { s.setPhase top below .leaving with sched := s.sched.markNotReady top.prio }
  | .next => s.atPhase .leaving fun top below =>
      match s.sched.nextAfterDispatch top.restoreThreshold with
      | (some d, sched) =>
          some { s with
            sched := sched
            stack := { top with prio := d.nextPrio, phase := .planned } :: below }
      | (none, sched) => some { s.setPhase top below .restoring with sched := sched }
  | .restore => s.atPhase .restoring fun top below =>
      some { s with
        sched := s.sched.restoreActive top.restorePrio top.restoreThreshold
        stack := below }
  | .lock ceiling => some { s with sched := (s.sched.lock ceiling).2 }
  | .unlock status => some { s with sched := s.sched.unlock status }

variable [DecidableEq ι]

def setPoster (s : State ι π) (i : ι) (poster : Poster π) : State ι π :=
  { s with posters := Function.update s.posters i poster }

def stepPoster (k : QkKernel) (s : State ι π) (i : ι) (a : Post π) : Option (State ι π) :=
  match a, s.posters i with
  | .post target e, .idle =>
      (k.idToPrio target).map fun p => s.setPoster i (.next p [] e)
  | .publish subscribers e, .idle =>
      let recipients := k.registered.filter fun p => (subscribers &&& (1#64 <<< p)) != 0#64
      some (s.setPoster i (.goOn recipients e))
  | .check, .next p rest e => some (s.setPoster i (.checked p (s.queues p).isEmpty rest e))
  | .push, .checked p wasEmpty rest e =>
      let s := { s with queues := Function.update s.queues p ((s.queues p).pushBack e) }
      some (s.setPoster i (if wasEmpty then .pushed p rest e else .goOn rest e))
  | .mark, .pushed p rest e =>
      let s := { s with sched := s.sched.markReady p }
      some (s.setPoster i (.goOn rest e))
  | _, _ => none

def step (k : QkKernel) (debug : Bool) (s : State ι π) : Label ι π → Option (State ι π)
  | .poster i a => s.stepPoster k i a
  | .dispatcher a => s.stepDispatcher k debug a

end State

/-- Some context has pushed to `p` and is about to mark it ready. -/
def MarkPending (s : State ι π) (p : Nat) : Prop := ∃ i rest e, s.posters i = .pushed p rest e

/-- A context is between the first and the last step of a delivery to `p`, or the dispatching
context is inside `activate` for `p`. -/
def InProgress (s : State ι π) (p : Nat) : Prop :=
  (∃ i, (∃ rest e, s.posters i = .next p rest e) ∨
      (∃ wasEmpty rest e, s.posters i = .checked p wasEmpty rest e) ∨
      ∃ rest e, s.posters i = .pushed p rest e) ∨
    ∃ a ∈ s.stack, a.prio = p

/-- Every queued event is covered by the ready bit or by a context about to set it. -/
def Covered (s : State ι π) : Prop :=
  ∀ p, (s.queues p).buf ≠ [] → s.sched.ready.contains p = true ∨ MarkPending s p

/-- What the two unprotected windows must not meet: a push that will not mark, made after the bit
was cleared, and a clearing of the bit after an event has arrived. -/
def Undisturbed (s : State ι π) : Label ι π → Prop
  | .poster i .push => ∀ p rest e, s.posters i = .checked p false rest e →
      s.sched.ready.contains p = true ∨ MarkPending s p
  | .dispatcher .clear => ∀ top below, s.stack = top :: below → top.phase = .clearing →
      (s.queues top.prio).buf = [] ∨ MarkPending s top.prio
  | _ => True

def Poster.targets : Poster π → List Nat
  | .idle => []
  | .next p rest _ => p :: rest
  | .checked p _ rest _ => p :: rest
  | .pushed p rest _ => p :: rest

theorem targets_goOn (rest : List Nat) (e : DynEvent π) : (Poster.goOn rest e).targets = rest := by
  cases rest <;> rfl

theorem goOn_not_pushed (rest : List Nat) (e : DynEvent π) (p : Nat) (rest' : List Nat)
    (e' : DynEvent π) : Poster.goOn rest e ≠ .pushed p rest' e' := by
  cases rest <;> simp [Poster.goOn]

theorem atPhase_some {s t : State ι π} {phase : Phase}
    {go : Activation → List Activation → Option (State ι π)} (went : s.atPhase phase go = some t) :
    ∃ top below, s.stack = top :: below ∧ top.phase = phase ∧ go top below = some t := by
  unfold State.atPhase at went
  cases stack : s.stack with
  | nil => simp [stack] at went
  | cons top below =>
      by_cases here : top.phase = phase
      · simp only [stack, if_pos here] at went
        exact ⟨top, below, rfl, here, went⟩
      · simp [stack, here] at went

/-- A step that takes no event into a queue and clears no bit. -/
structure Quiet (s t : State ι π) : Prop where
  queues : ∀ p, (t.queues p).buf ≠ [] → (s.queues p).buf ≠ []
  ready : t.sched.ready = s.sched.ready
  posters : t.posters = s.posters

theorem Quiet.covered {s t : State ι π} (quiet : Quiet s t) (covered : Covered s) : Covered t := by
  intro p events
  unfold MarkPending
  rw [quiet.ready, quiet.posters]
  exact covered p (quiet.queues p events)

theorem popFront_shrinks (queues : Nat → EventQueue π) (p q : Nat)
    (events : ((Function.update queues p (queues p).popFront.2) q).buf ≠ []) :
    (queues q).buf ≠ [] := by
  by_cases here : q = p
  · subst here
    simp only [Function.update_self, EventQueue.popFront] at events
    cases content : (queues q).buf with
    | nil => simp [content] at events
    | cons e rest => simp
  · rwa [Function.update_of_ne here] at events

section Dispatcher

variable {k : QkKernel} {debug : Bool} {s t : State ι π}

theorem plan_quiet (stepped : s.stepDispatcher k debug .plan = some t) : Quiet s t := by
  simp only [State.stepDispatcher] at stepped
  have kept : s.sched.planActivation.2.ready = s.sched.ready := s.sched.planAbove_ready _
  split at stepped
  · cases plan : s.sched.planActivation with
    | mk decision sched =>
        rw [plan] at kept
        cases decision with
        | none =>
            simp only [plan, Option.some.injEq] at stepped
            rw [← stepped]
            exact ⟨fun _ events => events, kept, rfl⟩
        | some d =>
            simp only [plan] at stepped
            rcases Option.map_eq_some_iff.mp stepped with ⟨threshold, -, rfl⟩
            exact ⟨fun _ events => events, kept, rfl⟩
  · cases stepped

theorem pop_quiet (stepped : s.stepDispatcher k debug .pop = some t) : Quiet s t := by
  rcases atPhase_some stepped with ⟨top, below, -, -, went⟩
  have shrinks := popFront_shrinks s.queues top.prio
  cases popped : (s.queues top.prio).popFront with
  | mk event rest =>
      rw [popped] at shrinks
      cases event with
      | some e =>
          simp only [popped, Option.some.injEq] at went
          rw [← went]
          exact ⟨shrinks, rfl, rfl⟩
      | none =>
          simp only [popped] at went
          split at went
          · cases went
          · rw [← Option.some.inj went]
            exact ⟨fun _ events => events, rfl, rfl⟩

theorem next_quiet (stepped : s.stepDispatcher k debug .next = some t) : Quiet s t := by
  rcases atPhase_some stepped with ⟨top, below, -, -, went⟩
  have kept : (s.sched.nextAfterDispatch top.restoreThreshold).2.ready = s.sched.ready :=
    s.sched.planAbove_ready _
  cases plan : s.sched.nextAfterDispatch top.restoreThreshold with
  | mk decision sched =>
      rw [plan] at kept
      cases decision <;>
        simp only [plan, Option.some.injEq] at went <;>
        rw [← went] <;>
        exact ⟨fun _ events => events, kept, rfl⟩

theorem dispatcher_cases {a : Dispatch} (stepped : s.stepDispatcher k debug a = some t) :
    (a ≠ .clear ∧ Quiet s t) ∨ ∃ top below, a = .clear ∧ s.stack = top :: below ∧
      top.phase = .clearing ∧
      t = { s.setPhase top below .leaving with sched := s.sched.markNotReady top.prio } := by
  cases a with
  | clear =>
      rcases atPhase_some stepped with ⟨top, below, stack, phase, went⟩
      exact .inr ⟨top, below, rfl, stack, phase, (Option.some.inj went).symm⟩
  | plan => exact .inl ⟨by simp, plan_quiet stepped⟩
  | commit =>
      refine .inl ⟨by simp, ?_⟩
      rcases atPhase_some stepped with ⟨top, below, -, -, went⟩
      rcases Option.map_eq_some_iff.mp went with ⟨slot, -, rfl⟩
      rcases s.sched.commitActivation_frame ⟨top.prio, top.restorePrio⟩ slot.threshold with
        ⟨records, switches, committed⟩
      refine ⟨fun _ events => events, ?_, rfl⟩
      simp only [committed]
  | pop => exact .inl ⟨by simp, pop_quiet stepped⟩
  | ret =>
      refine .inl ⟨by simp, ?_⟩
      rcases atPhase_some stepped with ⟨top, below, -, -, went⟩
      rw [← Option.some.inj went]
      exact ⟨fun _ events => events, rfl, rfl⟩
  | inspect =>
      refine .inl ⟨by simp, ?_⟩
      rcases atPhase_some stepped with ⟨top, below, -, -, went⟩
      rw [← Option.some.inj went]
      exact ⟨fun _ events => events, rfl, rfl⟩
  | next => exact .inl ⟨by simp, next_quiet stepped⟩
  | restore =>
      refine .inl ⟨by simp, ?_⟩
      rcases atPhase_some stepped with ⟨top, below, -, -, went⟩
      rcases s.sched.restoreActive_frame top.restorePrio top.restoreThreshold with
        ⟨records, switches, restored⟩
      rw [← Option.some.inj went, restored]
      exact ⟨fun _ events => events, rfl, rfl⟩
  | lock ceiling =>
      refine .inl ⟨by simp, ?_⟩
      rw [← Option.some.inj stepped]
      exact ⟨fun _ events => events, (s.sched.lock_frame ceiling).1, rfl⟩
  | unlock status =>
      refine .inl ⟨by simp, ?_⟩
      rw [← Option.some.inj stepped]
      exact ⟨fun _ events => events, (s.sched.unlock_frame status).1, rfl⟩

end Dispatcher

section Runs

variable [DecidableEq ι] {k : QkKernel} {s t : State ι π}

/-- Every recipient that a context still has to serve is registered. -/
def Aimed (k : QkKernel) (s : State ι π) : Prop := ∀ i, ∀ p ∈ (s.posters i).targets, k.Registered p

theorem poster_cases {i : ι} {a : Post π} (aimed : Aimed k s)
    (stepped : s.stepPoster k i a = some t) :
    (∃ poster, t = s.setPoster i poster ∧ (∀ p rest e, s.posters i ≠ .pushed p rest e) ∧
        (∀ p ∈ poster.targets, k.Registered p) ∧ a ≠ .push) ∨
      (∃ p wasEmpty rest e, a = .push ∧ s.posters i = .checked p wasEmpty rest e ∧
        t = State.setPoster
          { s with queues := Function.update s.queues p ((s.queues p).pushBack e) } i
          (if wasEmpty then .pushed p rest e else .goOn rest e)) ∨
      ∃ p rest e, a = .mark ∧ s.posters i = .pushed p rest e ∧
        t = State.setPoster { s with sched := s.sched.markReady p } i (.goOn rest e) := by
  have goals := aimed i
  unfold State.stepPoster at stepped
  cases a with
  | post target e =>
      cases poster : s.posters i with
      | idle =>
          simp only [poster] at stepped
          rcases Option.map_eq_some_iff.mp stepped with ⟨p, found, rfl⟩
          refine .inl ⟨_, rfl, by simp, ?_, by simp⟩
          intro q member
          rw [List.mem_singleton.mp member]
          exact k.id_registered target p found
      | _ => simp [poster] at stepped
  | publish subscribers e =>
      cases poster : s.posters i with
      | idle =>
          simp only [poster, Option.some.injEq] at stepped
          refine .inl ⟨_, stepped.symm, by simp, ?_, by simp⟩
          intro p member
          rw [targets_goOn] at member
          exact mem_registered (List.mem_filter.mp member).1
      | _ => simp [poster] at stepped
  | check =>
      cases poster : s.posters i with
      | next p rest e =>
          simp only [poster, Option.some.injEq] at stepped
          rw [poster] at goals
          exact .inl ⟨_, stepped.symm, by simp, goals, by simp⟩
      | _ => simp [poster] at stepped
  | push =>
      cases poster : s.posters i with
      | checked p wasEmpty rest e =>
          simp only [poster, Option.some.injEq] at stepped
          exact .inr (.inl ⟨p, wasEmpty, rest, e, rfl, rfl, stepped.symm⟩)
      | _ => simp [poster] at stepped
  | mark =>
      cases poster : s.posters i with
      | pushed p rest e =>
          simp only [poster, Option.some.injEq] at stepped
          exact .inr (.inr ⟨p, rest, e, rfl, rfl, stepped.symm⟩)
      | _ => simp [poster] at stepped

theorem aimed_setPoster (aimed : Aimed k s) (i : ι) (poster : Poster π)
    (registered : ∀ p ∈ poster.targets, k.Registered p) : Aimed k (s.setPoster i poster) := by
  intro j p member
  by_cases here : j = i
  · subst here
    simp only [State.setPoster, Function.update_self] at member
    exact registered p member
  · simp only [State.setPoster, Function.update_of_ne here] at member
    exact aimed j p member

theorem aimed_step (debug : Bool) (s : State ι π) (l : Label ι π) (t : State ι π)
    (aimed : Aimed k s) (stepped : s.step k debug l = some t) : Aimed k t := by
  cases l with
  | dispatcher a =>
      rcases dispatcher_cases stepped with ⟨-, quiet⟩ | ⟨top, below, -, -, -, rfl⟩
      · unfold Aimed
        rw [quiet.posters]
        exact aimed
      · exact aimed
  | poster i a =>
      rcases poster_cases aimed stepped with ⟨poster, rfl, -, registered, -⟩ |
        ⟨p, wasEmpty, rest, e, -, was, rfl⟩ | ⟨p, rest, e, -, was, rfl⟩
      · exact aimed_setPoster aimed i poster registered
      · have goals := aimed i
        rw [was] at goals
        apply aimed_setPoster (s := { s with queues := _ }) aimed
        cases wasEmpty with
        | true => exact goals
        | false =>
            intro q member
            simp only [Bool.false_eq_true, if_false, targets_goOn] at member
            exact goals q (List.mem_cons_of_mem p member)
      · have goals := aimed i
        rw [was] at goals
        apply aimed_setPoster (s := { s with sched := _ }) aimed
        intro q member
        rw [targets_goOn] at member
        exact goals q (List.mem_cons_of_mem p member)

theorem markPending_setPoster {i : ι} {p : Nat} (pending : MarkPending s p)
    (moved : ∀ rest e, s.posters i ≠ .pushed p rest e) (poster : Poster π) :
    MarkPending (s.setPoster i poster) p := by
  rcases pending with ⟨j, rest, e, pushed⟩
  have apart : j ≠ i := by
    rintro rfl
    exact moved rest e pushed
  refine ⟨j, rest, e, ?_⟩
  simp only [State.setPoster, Function.update_of_ne apart, pushed]

omit [DecidableEq ι] in
theorem covered_clear {top : Activation} {below : List Activation} (covered : Covered s) :
    Covered { s.setPhase top below .leaving with sched := s.sched.markNotReady top.prio } ↔
      (s.queues top.prio).buf = [] ∨ MarkPending s top.prio := by
  have content (q : Nat) := ReadySet.contains_remove s.sched.ready top.prio q
  constructor
  · intro after
    by_cases empty : (s.queues top.prio).buf = []
    · exact .inl empty
    · rcases after top.prio empty with ready | pending
      · have gone := content top.prio
        simp only [QkScheduler.markNotReady] at ready
        rw [ready] at gone
        simp at gone
      · exact .inr pending
  · intro safe p events
    by_cases here : p = top.prio
    · subst here
      rcases safe with empty | pending
      · exact absurd empty events
      · exact .inr pending
    · rcases covered p events with ready | pending
      · left
        have kept := content p
        simp only [here, ne_eq, not_false_eq_true, decide_true, Bool.true_and, ready] at kept
        exact kept
      · exact .inr pending

theorem covered_push {i : ι} {p : Nat} {wasEmpty : Bool} {rest : List Nat} {e : DynEvent π}
    (covered : Covered s) (was : s.posters i = .checked p wasEmpty rest e) :
    Covered (State.setPoster
        { s with queues := Function.update s.queues p ((s.queues p).pushBack e) } i
        (if wasEmpty then .pushed p rest e else .goOn rest e)) ↔
      (wasEmpty = false → s.sched.ready.contains p = true ∨ MarkPending s p) := by
  have moved (q : Nat) (rest' : List Nat) (e' : DynEvent π) :
      s.posters i ≠ .pushed q rest' e' := by simp [was]
  constructor
  · intro after unmarked
    subst unmarked
    have events : ((Function.update s.queues p ((s.queues p).pushBack e)) p).buf ≠ [] := by simp
    rcases after p events with ready | ⟨j, rest', e', pushed⟩
    · exact .inl ready
    · right
      by_cases here : j = i
      · subst here
        simp only [State.setPoster, Bool.false_eq_true, if_false, Function.update_self] at pushed
        exact absurd pushed (goOn_not_pushed rest e p rest' e')
      · simp only [State.setPoster, Function.update_of_ne here] at pushed
        exact ⟨j, rest', e', pushed⟩
  · intro safe q events
    by_cases here : q = p
    · subst here
      cases wasEmpty with
      | true =>
          right
          exact ⟨i, rest, e, by simp [State.setPoster]⟩
      | false =>
          rcases safe rfl with ready | pending
          · exact .inl ready
          · exact .inr (markPending_setPoster (s := { s with queues := _ }) pending (moved q) _)
    · have queued : (s.queues q).buf ≠ [] := by
        simpa [State.setPoster, Function.update_of_ne here] using events
      rcases covered q queued with ready | pending
      · exact .inl ready
      · exact .inr (markPending_setPoster (s := { s with queues := _ }) pending (moved q) _)

theorem covered_mark {i : ι} {p : Nat} {rest : List Nat} {e : DynEvent π} (covered : Covered s)
    (inRange : p < 64) (was : s.posters i = .pushed p rest e) :
    Covered (State.setPoster { s with sched := s.sched.markReady p } i (.goOn rest e)) := by
  have content (q : Nat) := ReadySet.contains_insert s.sched.ready inRange q
  intro q events
  by_cases here : q = p
  · left
    have set := content q
    simp only [here, decide_true, Bool.true_or] at set
    rw [here]
    exact set
  · rcases covered q events with ready | pending
    · left
      have kept := content q
      simp only [ready, Bool.or_true] at kept
      exact kept
    · right
      apply markPending_setPoster (s := { s with sched := _ }) pending
      intro rest' e' same
      rw [was] at same
      cases same
      exact here rfl

/-- The condition on the two windows is exactly what one step needs to keep every event covered. -/
theorem covered_step_iff (debug : Bool) (l : Label ι π) (aimed : Aimed k s) (covered : Covered s)
    (stepped : s.step k debug l = some t) : Covered t ↔ Undisturbed s l := by
  cases l with
  | dispatcher a =>
      rcases dispatcher_cases stepped with ⟨other, quiet⟩ | ⟨top, below, rfl, stack, phase, rfl⟩
      · have free : Undisturbed s (.dispatcher a) := by
          cases a with
          | clear => exact absurd rfl other
          | _ => trivial
        exact iff_of_true (quiet.covered covered) free
      · rw [covered_clear covered]
        constructor
        · intro safe top' below' stack' _
          rw [stack] at stack'
          cases stack'
          exact safe
        · intro free
          exact free top below stack phase
  | poster i a =>
      rcases poster_cases aimed stepped with ⟨poster, rfl, moved, -, other⟩ |
        ⟨p, wasEmpty, rest, e, rfl, was, rfl⟩ | ⟨p, rest, e, rfl, was, rfl⟩
      · have free : Undisturbed s (.poster i a) := by
          cases a with
          | push => exact absurd rfl other
          | _ => trivial
        refine iff_of_true ?_ free
        intro p events
        rcases covered p events with ready | pending
        · exact .inl ready
        · exact .inr (markPending_setPoster pending (moved p) poster)
      · rw [covered_push covered was]
        constructor
        · intro safe p' rest' e' was'
          rw [was] at was'
          cases was'
          exact safe rfl
        · intro free unmarked
          subst unmarked
          exact free p rest e was
      · have registered : k.Registered p := by
          apply aimed i
          rw [was]
          exact List.mem_cons_self
        exact iff_of_true (covered_mark covered (registered_lt registered) was) trivial

end Runs

/-- No lost wakeup in QK, in every run whose steps avoid the two windows: where no context is in the
middle of a delivery or of an activation for `p`, a queued event of `p` has its ready bit set. -/
theorem no_lost_wakeup [DecidableEq ι] (k : QkKernel) (debug : Bool) (labels : List (Label ι π))
    (t : State ι π) (undisturbed : Lib.Along (State.step k debug) Undisturbed State.init labels)
    (ran : Lib.run (State.step k debug) State.init labels = some t) (p : Nat)
    (idle : ¬ InProgress t p) (queued : (t.queues p).buf ≠ []) :
    t.sched.ready.contains p = true := by
  have kept (s : State ι π) (l : Label ι π) (u : State ι π) (inv : Aimed k s ∧ Covered s)
      (free : Undisturbed s l) (stepped : s.step k debug l = some u) : Aimed k u ∧ Covered u :=
    ⟨aimed_step debug s l u inv.1 stepped,
      (covered_step_iff debug l inv.1 inv.2 stepped).mpr free⟩
  have start : Aimed k (State.init : State ι π) ∧ Covered (State.init : State ι π) := by
    constructor
    · intro i p member
      cases member
    · intro p events
      exact absurd rfl events
  have inv := Lib.along_preserves kept start undisturbed ran
  rcases inv.2 p queued with ready | ⟨i, rest, e, pushed⟩
  · exact ready
  · exact absurd (.inl ⟨i, .inr (.inr ⟨rest, e, pushed⟩)⟩) idle

def postLow : List (Label Unit Unit) :=
  [.poster () (.post ⟨1⟩ (.emptyDyn qUserSig)), .poster () .check, .poster () .push,
    .poster () .mark]

def pushLow (i : Bool) : List (Label Bool Unit) :=
  [.poster i (.post ⟨1⟩ (.emptyDyn qUserSig)), .poster i .check, .poster i .push]

/-- `activate` handles one event. A second context pushes before its `mark_not_ready` and marks
after its end; the third push finds the queue not empty and the bit set. -/
def postsBeside : List (Label Bool Unit) :=
  pushLow true ++ [.poster true .mark, .dispatcher .plan, .dispatcher .commit, .dispatcher .pop,
    .dispatcher .ret, .dispatcher .inspect] ++ pushLow false ++ [.dispatcher .clear,
    .dispatcher .next, .dispatcher .restore, .poster false .mark] ++ pushLow true

theorem postsBeside_undisturbed :
    Lib.Along (State.step pairKernel true) Undisturbed State.init postsBeside := by
  refine Lib.along_cons rfl trivial (Lib.along_cons rfl trivial (Lib.along_cons rfl ?_
    (Lib.along_cons rfl trivial (Lib.along_cons rfl trivial (Lib.along_cons rfl trivial
    (Lib.along_cons rfl trivial (Lib.along_cons rfl trivial (Lib.along_cons rfl trivial
    (Lib.along_cons rfl trivial (Lib.along_cons rfl trivial (Lib.along_cons rfl ?_
    (Lib.along_cons rfl ?_ (Lib.along_cons rfl trivial (Lib.along_cons rfl trivial
    (Lib.along_cons rfl trivial (Lib.along_cons rfl trivial (Lib.along_cons rfl trivial
    (Lib.along_cons rfl ?_ trivial))))))))))))))))))
  · intro p rest e checked
    cases checked
  · intro p rest e checked
    cases checked
  · intro top below stack phase
    cases stack
    exact .inr ⟨false, [], _, rfl⟩
  · intro p rest e checked
    cases checked
    exact .inl (by decide)

theorem post_no_lost_wakeup :
    ∃ t : State Bool Unit, Lib.run (State.step pairKernel true) State.init postsBeside = some t ∧
      (t.queues 2).buf.length = 2 ∧ t.sched.ready.contains 2 = true := by
  refine ⟨_, rfl, by decide, ?_⟩
  refine no_lost_wakeup pairKernel true postsBeside _ postsBeside_undisturbed rfl 2 ?_ (by decide)
  rintro (⟨i, ⟨rest, e, same⟩ | ⟨wasEmpty, rest, e, same⟩ | ⟨rest, e, same⟩⟩ | ⟨a, member, -⟩)
  · cases i <;> cases same
  · cases i <;> cases same
  · cases i <;> cases same
  · cases member

/-- The second post falls between `has_events` and `mark_not_ready` of the dispatching context: its
event stays queued with the ready bit clear. -/
theorem post_lost :
    ∃ t : State Unit Unit, Lib.run (State.step pairKernel true) State.init
        (postLow ++ [.dispatcher .plan, .dispatcher .commit, .dispatcher .pop, .dispatcher .ret,
          .dispatcher .inspect] ++ postLow ++
          [.dispatcher .clear, .dispatcher .next, .dispatcher .restore]) = some t ∧
      ¬ InProgress t 2 ∧ (t.queues 2).buf ≠ [] ∧ t.sched.ready.contains 2 = false := by
  refine ⟨_, rfl, ?_, by decide, by decide⟩
  rintro (⟨i, ⟨rest, e, same⟩ | ⟨wasEmpty, rest, e, same⟩ | ⟨rest, e, same⟩⟩ | ⟨a, member, -⟩)
  · cases same
  · cases same
  · cases same
  · cases member

end QpRs.Qk.Wakeup
