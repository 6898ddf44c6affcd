import QpRs.Qxk.Kernel

/-! Run-to-completion of active objects in QXK: when a dispatch nested in the handler of an active
object runs higher active objects only. -/

namespace QpRs.Qxk

variable {π : Type}

/-- Inside handlers of active objects, only an active object above all of them runs. -/
def RunToCompletion (s : Selection) : Prop :=
  match s.mode with
  | .activeObject q => q ∉ s.inside ∧ ∀ p ∈ s.inside, p < q
  | .extendedThread _ _ => s.inside = []
  | .idle => True

/-- An active object above `p` and above the ceiling has an event. -/
def HigherWork (w : World π) (p : Nat) : Prop :=
  ∃ q, p < q ∧ w.sched.lockCeiling < q ∧ (w.queues q).buf ≠ []

/-- A dispatch from inside the handler of `p` has higher work, or the handler has locked the
scheduler at its own priority or above and no thread is ready. -/
def Justified (w : World π) : Action π → Prop
  | .plan => ∀ p rest, aoPrios w.stack = p :: rest →
      HigherWork w p ∨ p ≤ w.sched.lockCeiling ∧ w.sched.threadReady = []
  | _ => True

/-- An active object that is not running is ready exactly when it has events; a running one stays
ready, and it is above those whose handlers it interrupts. -/
structure Sound (k : QxkKernel) (w : World π) : Prop where
  nested : (aoPrios w.stack).Pairwise (· > ·)
  waiting : ∀ p, p ∉ aoPrios w.stack →
    (w.sched.aoReady.contains p = true ↔ (w.queues p).buf ≠ [])
  running : ∀ p, p ∈ aoPrios w.stack → w.sched.aoReady.contains p = true
  unused : ∀ p, k.aoSlots p = none → (w.queues p).buf = []
  selected : ∀ s ∈ w.selections, RunToCompletion s

section Plan

variable {k : QxkKernel} {w : World π}

theorem planThread_mode (s : QxkScheduler) :
    (s.threadReady = [] ∧ s.planThread.1 = .idle) ∨
      s.threadReady ≠ [] ∧ ∃ id priority, s.planThread.1 = .extendedThread id priority := by
  unfold QxkScheduler.planThread ThreadReadyQueue.max
  cases s.threadReady with
  | nil => exact .inl ⟨rfl, rfl⟩
  | cons entry rest => exact .inr ⟨by simp, entry.1, entry.2, rfl⟩

theorem Sound.innermost (sound : Sound k w) {p : Nat} {rest : List Nat}
    (inside : aoPrios w.stack = p :: rest) {r : Nat} (member : r ∈ p :: rest) : r ≤ p := by
  have nested := sound.nested
  rw [inside] at nested
  rcases List.mem_cons.mp member with rfl | deeper
  · exact Nat.le_refl _
  · exact Nat.le_of_lt (List.rel_of_pairwise_cons nested deeper)

theorem Sound.not_running_above (sound : Sound k w) {p : Nat} {rest : List Nat}
    (inside : aoPrios w.stack = p :: rest) {q : Nat} (above : p < q) : q ∉ aoPrios w.stack := by
  rw [inside]
  intro member
  have := sound.innermost inside member
  omega

/-- `plan_next` selects within the bounds of run-to-completion exactly at a justified dispatch. -/
theorem plan_justified_iff (sound : Sound k w) :
    RunToCompletion ⟨w.sched.planNext.1, aoPrios w.stack⟩ ↔ Justified w .plan := by
  unfold Justified
  cases inside : aoPrios w.stack with
  | nil =>
      constructor
      · intro _ p rest same
        cases same
      · intro _
        unfold RunToCompletion
        split <;> simp
  | cons p rest =>
      have bit : w.sched.aoReady.contains p = true := by
        apply sound.running
        rw [inside]
        exact List.mem_cons_self
      cases highest : w.sched.aoReady.max with
      | none => simp [ReadySet.max_none highest p] at bit
      | some m =>
          rcases ReadySet.max_spec highest with ⟨ready, top⟩
          have reaches := top p bit
          have caught (q : Nat) (above : p < q) (queued : (w.queues q).buf ≠ []) : q ≤ m :=
            top q ((sound.waiting q (sound.not_running_above inside above)).mpr queued)
          by_cases free : m > w.sched.lockCeiling
          · have mode : w.sched.planNext.1 = .activeObject m := by
              simp [QxkScheduler.planNext, highest, free]
            simp only [RunToCompletion, mode]
            constructor
            · rintro ⟨-, higher⟩ p' rest' same
              cases same
              have above := higher p List.mem_cons_self
              have queued := (sound.waiting m (sound.not_running_above inside above)).mp ready
              exact .inl ⟨m, above, free, queued⟩
            · intro justified
              have above : p < m := by
                rcases justified p rest rfl with ⟨q, above, -, queued⟩ | ⟨locked, -⟩
                · have := caught q above queued
                  omega
                · omega
              refine ⟨?_, ?_⟩
              · rw [← inside]
                exact sound.not_running_above inside above
              · intro r member
                have := sound.innermost inside member
                omega
          · have mode : w.sched.planNext.1 = w.sched.planThread.1 := by
              simp [QxkScheduler.planNext, highest, free]
            -- The active object of `p` is held back by the ceiling, and so is every ready one.
            rw [mode]
            rcases planThread_mode w.sched with ⟨empty, idle⟩ | ⟨waiting, id, priority, thread⟩
            · simp only [RunToCompletion, idle, true_iff]
              rintro p' rest' same
              cases same
              exact .inr ⟨by omega, empty⟩
            · simp only [RunToCompletion, thread, reduceCtorEq, false_iff]
              intro justified
              rcases justified p rest rfl with ⟨q, above, high, queued⟩ | ⟨-, empty⟩
              · have := caught q above queued
                omega
              · exact waiting empty

end Plan

section Steps

variable {k : QxkKernel} {w w' : World π}

theorem Sound.congr (sound : Sound k w) (stack : aoPrios w'.stack = aoPrios w.stack)
    (ready : w'.sched.aoReady = w.sched.aoReady) (queues : w'.queues = w.queues)
    (selections : w'.selections = w.selections) : Sound k w' where
  nested := by
    rw [stack]
    exact sound.nested
  waiting := by
    rw [stack, ready, queues]
    exact sound.waiting
  running := by
    rw [stack, ready]
    exact sound.running
  unused := by
    rw [queues]
    exact sound.unused
  selected := by
    rw [selections]
    exact sound.selected

theorem hasEvents_iff (p : Nat) : w.hasEvents p = true ↔ (w.queues p).buf ≠ [] := by
  simp [World.hasEvents, ← EventQueue.isEmpty_iff]

theorem slot_lt {p : Nat} (registered : (k.aoSlots p).isSome) : p < 64 := by
  have := k.slot_inRange p registered
  unfold maxAoPriority at this
  omega

theorem mem_registered {p : Nat} (member : p ∈ k.registered) : (k.aoSlots p).isSome := by
  unfold QxkKernel.registered at member
  exact (List.mem_filter.mp member).2

theorem Sound.markAoReady (sound : Sound k w) {p : Nat} (registered : (k.aoSlots p).isSome)
    (queued : (w.queues p).buf ≠ []) :
    Sound k { w with sched := w.sched.markAoReady p } where
  nested := sound.nested
  waiting := by
    intro q idle
    rw [QxkScheduler.markAoReady, ReadySet.contains_insert _ (slot_lt registered)]
    by_cases here : q = p
    · subst here
      simpa using queued
    · simpa [here] using sound.waiting q idle
  running := by
    intro q active
    rw [QxkScheduler.markAoReady, ReadySet.contains_insert _ (slot_lt registered)]
    simp [sound.running q active]
  unused := sound.unused
  selected := sound.selected

theorem Sound.deliver (sound : Sound k w) {p : Nat} (registered : (k.aoSlots p).isSome)
    (e : DynEvent π) : Sound k (w.deliver p e) := by
  have queue (q : Nat) : (Function.update w.queues p ((w.queues p).pushBack e) q).buf =
      if q = p then (w.queues p).buf ++ [e] else (w.queues q).buf := by
    by_cases here : q = p
    · subst here
      simp
    · simp [here]
  unfold World.deliver
  by_cases events : w.hasEvents p = true
  · have nonempty := (hasEvents_iff p).mp events
    simp only [events, Bool.not_true, Bool.false_eq_true, if_false]
    refine ⟨sound.nested, ?_, sound.running, ?_, sound.selected⟩
    · intro q idle
      rw [queue, sound.waiting q idle]
      split
      · rename_i here
        simp [here, nonempty]
      · rfl
    · intro q absent
      rw [queue, if_neg, sound.unused q absent]
      rintro rfl
      simp [absent] at registered
  · have empty : (w.queues p).buf = [] := by
      by_contra nonempty
      exact events ((hasEvents_iff p).mpr nonempty)
    simp only [events, Bool.not_false, if_true]
    refine ⟨sound.nested, ?_, ?_, ?_, sound.selected⟩
    · intro q idle
      rw [QxkScheduler.markAoReady, ReadySet.contains_insert _ (slot_lt registered), queue]
      by_cases here : q = p
      · simp [here]
      · simpa [here] using sound.waiting q idle
    · intro q active
      rw [QxkScheduler.markAoReady, ReadySet.contains_insert _ (slot_lt registered)]
      simp [sound.running q active]
    · intro q absent
      rw [queue, if_neg, sound.unused q absent]
      rintro rfl
      simp [absent] at registered

theorem Sound.deliverAll (sound : Sound k w) (e : DynEvent π) {prios : List Nat}
    (registered : ∀ p ∈ prios, (k.aoSlots p).isSome) : Sound k (w.deliverAll e prios) := by
  induction prios generalizing w with
  | nil => exact sound
  | cons p rest ih =>
      apply ih (sound.deliver (registered p List.mem_cons_self) e)
      intro q member
      exact registered q (List.mem_cons_of_mem p member)

theorem Sound.postAo (sound : Sound k w) {target : ActiveObjectId} {e : DynEvent π}
    (posted : w.postAo k target e = .ok w') : Sound k w' := by
  unfold World.postAo at posted
  split at posted
  · cases posted
  · rename_i p _
    split at posted
    · cases posted
      exact sound.congr rfl rfl rfl rfl
    · rename_i slot found
      cases posted
      exact sound.deliver (by simp [found]) e

theorem Sound.startAos (sound : Sound k w) {prios : List Nat}
    (registered : ∀ p ∈ prios, (k.aoSlots p).isSome) : Sound k (w.startAos prios) := by
  induction prios generalizing w with
  | nil => exact sound
  | cons p rest ih =>
      have later (q : Nat) (member : q ∈ rest) := registered q (List.mem_cons_of_mem p member)
      unfold World.startAos
      by_cases events : w.hasEvents p = true
      · rw [if_pos events]
        exact ih (sound.markAoReady (registered p List.mem_cons_self)
          ((hasEvents_iff p).mp events)) later
      · rw [if_neg events]
        exact ih sound later

theorem Sound.startThreads (sound : Sound k w) (configs : List ThreadConfig) :
    Sound k (w.startThreads configs) := by
  induction configs generalizing w with
  | nil => exact sound
  | cons c rest ih =>
      unfold World.startThreads
      split
      · split
        · exact ih (sound.congr rfl rfl rfl rfl)
        · exact ih sound
      · exact ih sound

theorem Sound.finishAo (sound : Sound k w) {p : Nat} {rest : List Frame}
    (top : w.stack = .ao p :: rest) : Sound k (World.finishAo { w with stack := rest } p) := by
  have nested := sound.nested
  rw [top, aoPrios] at nested
  have gone : p ∉ aoPrios rest := by
    intro member
    exact Nat.lt_irrefl p (List.rel_of_pairwise_cons nested member)
  have ready : w.sched.aoReady.contains p = true := by
    apply sound.running
    rw [top]
    exact List.mem_cons_self
  have others (q : Nat) (here : q ≠ p) : q ∈ aoPrios w.stack ↔ q ∈ aoPrios rest := by
    rw [top]
    simp [aoPrios, here]
  unfold World.finishAo
  by_cases events : w.hasEvents p = true
  · have same : World.hasEvents { w with stack := rest } p = true := events
    rw [if_pos same]
    refine ⟨nested.of_cons, ?_, ?_, sound.unused, sound.selected⟩
    · intro q idle
      by_cases here : q = p
      · subst here
        simpa [ready] using (hasEvents_iff q).mp events
      · exact sound.waiting q fun member => idle ((others q here).mp member)
    · intro q active
      apply sound.running
      rw [top]
      exact List.mem_cons_of_mem p active
  · have same : ¬ World.hasEvents { w with stack := rest } p = true := events
    rw [if_neg same]
    have empty : (w.queues p).buf = [] := by
      by_contra nonempty
      exact events ((hasEvents_iff p).mpr nonempty)
    refine ⟨nested.of_cons, ?_, ?_, sound.unused, sound.selected⟩
    · intro q idle
      simp only [QxkScheduler.markAoNotReady, ReadySet.contains_remove]
      by_cases here : q = p
      · subst here
        simp [empty]
      · simpa [here] using sound.waiting q fun member => idle ((others q here).mp member)
    · intro q active
      have here : q ≠ p := by
        rintro rfl
        exact gone active
      simp only [QxkScheduler.markAoNotReady, ReadySet.contains_remove]
      simp [here, sound.running q ((others q here).mpr active)]

theorem planNext_aoReady (s : QxkScheduler) : s.planNext.2.aoReady = s.aoReady := by
  have thread : s.planThread.2.aoReady = s.aoReady := by
    unfold QxkScheduler.planThread
    split <;> rfl
  unfold QxkScheduler.planNext
  split
  · split
    · rfl
    · exact thread
  · exact thread

theorem setActive_aoReady (s : QxkScheduler) (mode : ScheduleMode) :
    (s.setActive mode).aoReady = s.aoReady := by
  cases mode <;> rfl

theorem planNext_ready {s : QxkScheduler} {p : Nat} (mode : s.planNext.1 = .activeObject p) :
    s.aoReady.contains p = true := by
  have thread : s.planThread.1 ≠ .activeObject p := by
    rcases planThread_mode s with ⟨-, idle⟩ | ⟨-, id, priority, selected⟩
    · simp [idle]
    · simp [selected]
  unfold QxkScheduler.planNext at mode
  split at mode
  · rename_i prio highest
    split at mode
    · cases mode
      exact (ReadySet.max_spec highest).1
    · exact absurd mode thread
  · exact absurd mode thread

theorem Sound.dispatchAo (sound : Sound k w) {debug : Bool} {p : Nat}
    (ready : w.sched.aoReady.contains p = true) (outside : p ∉ aoPrios w.stack)
    (above : ∀ q ∈ aoPrios w.stack, q < p) : Sound k (w.dispatchAo k debug p) := by
  have queued := (sound.waiting p outside).mp ready
  unfold World.dispatchAo
  cases slot : k.aoSlots p with
  | none => exact absurd (sound.unused p slot) queued
  | some object =>
      cases queue : (w.queues p).buf with
      | nil => exact absurd queue queued
      | cons e rest =>
          simp only [EventQueue.popFront, queue, if_neg outside]
          refine ⟨.cons above sound.nested, ?_, ?_, ?_, sound.selected⟩
          · intro q idle
            simp only [aoPrios, List.mem_cons, not_or] at idle
            simpa [idle.1] using sound.waiting q idle.2
          · intro q active
            rcases List.mem_cons.mp active with rfl | deeper
            · exact ready
            · exact sound.running q deeper
          · intro q absent
            have here : q ≠ p := by
              rintro rfl
              simp [slot] at absent
            simpa [here] using sound.unused q absent

theorem Sound.dispatchThread (sound : Sound k w) (id : ThreadId) (priority : Nat)
    {idle : List Frame} (same : aoPrios idle = aoPrios w.stack) :
    Sound k (w.dispatchThread id priority idle) := by
  unfold World.dispatchThread
  split
  · exact sound.congr same rfl rfl rfl
  · split
    · exact sound.congr rfl rfl rfl rfl
    · split
      · exact sound.congr rfl rfl rfl rfl
      · exact sound.congr rfl rfl rfl rfl

theorem Sound.dispatchOnce (sound : Sound k w) (justified : Justified w .plan) (debug : Bool)
    {idle : List Frame} (same : aoPrios idle = aoPrios w.stack) :
    Sound k (w.dispatchOnce k debug idle) := by
  have selection := (plan_justified_iff sound).mpr justified
  have planned : Sound k { w with
      sched := w.sched.planNext.2.setActive w.sched.planNext.1
      selections := w.selections ++ [⟨w.sched.planNext.1, aoPrios w.stack⟩] } := by
    have ready : (w.sched.planNext.2.setActive w.sched.planNext.1).aoReady = w.sched.aoReady := by
      rw [setActive_aoReady, planNext_aoReady]
    refine ⟨sound.nested, ?_, ?_, sound.unused, ?_⟩
    · simp only [ready]
      exact sound.waiting
    · simp only [ready]
      exact sound.running
    · intro s member
      rcases List.mem_append.mp member with old | new
      · exact sound.selected s old
      · rw [List.mem_singleton.mp new]
        exact selection
  unfold World.dispatchOnce
  simp only
  cases mode : w.sched.planNext.1 with
  | activeObject p =>
      rw [mode] at planned selection
      apply planned.dispatchAo
      · simp only [setActive_aoReady, planNext_aoReady]
        exact planNext_ready mode
      · exact selection.1
      · exact selection.2
  | extendedThread id priority =>
      rw [mode] at planned
      exact planned.dispatchThread id priority same
  | idle =>
      rw [mode] at planned
      exact planned.congr same rfl rfl rfl

theorem Sound.perform (sound : Sound k w) (c : Call π) : Sound k (w.perform k c) := by
  cases c with
  | start =>
      apply Sound.startThreads
      exact sound.startAos fun p member => mem_registered member
  | postAo target e =>
      simp only [World.perform]
      cases posted : w.postAo k target e with
      | ok next => exact sound.postAo posted
      | error _ => exact sound
  | postAoAndRun target e =>
      simp only [World.perform]
      cases posted : w.postAo k target e with
      | ok next =>
          simp only
          split
          · exact sound.postAo posted
          · exact (sound.postAo posted).congr rfl rfl rfl rfl
      | error _ => exact sound
  | publishAo signal e => exact sound.deliverAll _ fun p member => mem_registered member
  | dispatchOnce => exact sound.congr rfl rfl rfl rfl
  | runUntilIdle => exact sound.congr rfl rfl rfl rfl
  | lockScheduler ceiling =>
      have locked : (w.sched.lock ceiling).2.aoReady = w.sched.aoReady := by
        unfold QxkScheduler.lock
        split <;> rfl
      exact sound.congr rfl locked rfl rfl
  | unlockScheduler status =>
      have unlocked : (w.sched.unlock status).aoReady = w.sched.aoReady := by
        unfold QxkScheduler.unlock
        split
        · split <;> rfl
        · rfl
      simp only [World.perform, World.unlockScheduler]
      split
      · exact sound.congr rfl unlocked rfl rfl
      · exact sound.congr rfl unlocked rfl rfl
  | blockThread id => exact sound.congr rfl rfl rfl rfl
  | unblockThread id priority => exact sound.congr rfl rfl rfl rfl

theorem Sound.finishThread (sound : Sound k w) {id : ThreadId} {priority : Nat} {rest : List Frame}
    (top : w.stack = .thread id priority :: rest) (action : ThreadAction) :
    Sound k (World.finishThread { w with stack := rest } id priority action) := by
  have same : aoPrios rest = aoPrios w.stack := by
    rw [top]
    rfl
  cases action <;> exact sound.congr same rfl rfl rfl

end Steps

theorem step_cases {k : QxkKernel} {debug : Bool} {w w' : World π} {a : Action π}
    (stepped : w.step k debug a = some w') :
    (∃ c, a = .call c ∧ w' = w.perform k c) ∨
    (∃ rest, a = .plan ∧ w.stack = .once :: rest ∧
      w' = World.dispatchOnce k { w with stack := rest } debug rest) ∨
    (∃ rest, a = .plan ∧ w.stack = .loop :: rest ∧ w' = w.dispatchOnce k debug rest) ∨
    (∃ p rest, a = .aoRet ∧ w.stack = .ao p :: rest ∧
      w' = World.finishAo { w with stack := rest } p) ∨
    (∃ action id priority rest, a = .threadRet action ∧ w.stack = .thread id priority :: rest ∧
      w' = World.finishThread { w with stack := rest } id priority action) := by
  unfold World.step at stepped
  split at stepped
  · cases stepped
  · cases a with
    | call c =>
        left
        refine ⟨c, rfl, ?_⟩
        simp only at stepped
        split at stepped
        · exact (Option.some.inj stepped).symm
        · cases stepped
    | plan =>
        right
        split at stepped <;> simp_all
    | aoRet =>
        right
        split at stepped <;> simp_all
    | threadRet action =>
        right
        split at stepped <;> simp_all

theorem sound_step (k : QxkKernel) (debug : Bool) (w : World π) (a : Action π) (w' : World π)
    (sound : Sound k w) (justified : Justified w a) (stepped : w.step k debug a = some w') :
    Sound k w' := by
  rcases step_cases stepped with ⟨c, -, rfl⟩ | ⟨rest, rfl, top, rfl⟩ | ⟨rest, rfl, top, rfl⟩ |
    ⟨p, rest, -, top, rfl⟩ | ⟨action, id, priority, rest, -, top, rfl⟩
  · exact sound.perform c
  · have same : aoPrios rest = aoPrios w.stack := by
      rw [top]
      rfl
    have popped : Sound k { w with stack := rest } := sound.congr same rfl rfl rfl
    apply popped.dispatchOnce _ debug rfl
    intro p below inside
    exact justified p below (same ▸ inside)
  · apply sound.dispatchOnce justified debug
    rw [top]
    rfl
  · exact sound.finishAo top
  · exact sound.finishThread top action

theorem sound_init (k : QxkKernel) : Sound k (World.init k : World π) where
  nested := .nil
  waiting := by simp [World.init, aoPrios, EventQueue.new, QxkScheduler.new]
  running := by simp [World.init, aoPrios]
  unused := by simp [World.init, EventQueue.new]
  selected := by simp [World.init]

/-- Run-to-completion on one core, in every run whose nested dispatches are justified: a running
active object is never selected again, and a dispatch from inside the handler of an active object
runs higher active objects only. -/
theorem run_to_completion (k : QxkKernel) (debug : Bool) (actions : List (Action π)) (w : World π)
    (justified : Lib.Along (World.step k debug) Justified (World.init k) actions)
    (ran : Lib.run (World.step k debug) (World.init k) actions = some w) :
    ∀ s ∈ w.selections, RunToCompletion s :=
  (Lib.along_preserves (sound_step k debug) (sound_init k) justified ran).selected

def pairKernel : QxkKernel :=
  match (do
      let b ← QxkKernelBuilder.new.registerAo ⟨⟨1⟩, 2⟩
      let b ← b.registerAo ⟨⟨2⟩, 5⟩
      QxkKernel.build b) with
  | .ok k => k
  | .error _ => .none []

def preempting : List (Action Unit) :=
  [.call (.postAo ⟨1⟩ (.emptyDyn qUserSig)), .call .dispatchOnce, .plan,
    .call (.postAo ⟨2⟩ (.emptyDyn qUserSig)), .call .dispatchOnce, .plan]

theorem pair_run_to_completion :
    ∃ w : World Unit, Lib.run (World.step pairKernel true) (World.init pairKernel) preempting =
        some w ∧
      w.selections = [⟨.activeObject 2, []⟩, ⟨.activeObject 5, [2]⟩] ∧
      ∀ s ∈ w.selections, RunToCompletion s := by
  have justified :
      Lib.Along (World.step pairKernel true) Justified (World.init pairKernel) preempting := by
    refine Lib.along_cons rfl trivial (Lib.along_cons rfl trivial (Lib.along_cons rfl ?_
      (Lib.along_cons rfl trivial (Lib.along_cons rfl trivial (Lib.along_cons rfl ?_ trivial)))))
    · intro p rest inside
      cases inside
    · intro p rest inside
      cases inside
      exact .inl ⟨5, by decide, by decide, by decide⟩
  refine ⟨_, rfl, by decide, ?_⟩
  exact run_to_completion pairKernel true preempting _ justified rfl

/-- The handler of priority 2 posts to its own active object and runs the kernel: `plan_next`
selects priority 2 again, and the kernel waits for the behavior that the handler holds. -/
theorem self_post_reenters :
    ∃ w : World Unit, Lib.run (World.step pairKernel false) (World.init pairKernel)
        [.call (.postAo ⟨1⟩ (.emptyDyn qUserSig)), .call .dispatchOnce, .plan,
          .call (.postAoAndRun ⟨1⟩ (.emptyDyn qUserSig)), .plan] = some w ∧
      w.fault = some (.aoDeadlock 2) ∧ ∃ s ∈ w.selections, ¬ RunToCompletion s := by
  refine ⟨_, rfl, by decide, ⟨.activeObject 2, [2]⟩, by decide, ?_⟩
  intro complete
  exact complete.1 List.mem_cons_self

end QpRs.Qxk
