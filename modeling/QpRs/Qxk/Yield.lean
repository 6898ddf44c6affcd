import QpRs.Qxk.Nesting

/-! What `ThreadAction::Yield` does in QXK (`dispatch_once` of `qxk/src/kernel.rs` and
`ThreadReadyQueue` of `qxk/src/scheduler.rs`): which thread is dispatched next. -/

namespace QpRs.Qxk

open QpRs.Lib

namespace ThreadReadyQueue

/-- Highest priority first, every thread once. -/
structure Ordered (q : ThreadReadyQueue) : Prop where
  sorted : q.Pairwise fun x y => y.2 ≤ x.2
  once : (q.map Prod.fst).Nodup

/-- The lists that `insert` may leave: its sort does not say in which order equal priorities
come. -/
def Inserted (q : ThreadReadyQueue) (id : ThreadId) (priority : Nat) (q' : ThreadReadyQueue) :
    Prop :=
  if q.Holds id then q' = q
  else q'.Perm (q ++ [(id, priority)]) ∧ q'.Pairwise fun x y => y.2 ≤ x.2

/-- What the kernel does to the list: nothing, or calls of `insert` and `remove`. -/
inductive Requeued (q : ThreadReadyQueue) : ThreadReadyQueue → Prop where
  | same : Requeued q q
  | inserted {q' : ThreadReadyQueue} (id : ThreadId) (priority : Nat) (before : Requeued q q') :
      Requeued q (q'.insert id priority)
  | removed {q' : ThreadReadyQueue} (id : ThreadId) (before : Requeued q q') :
      Requeued q (q'.remove id)

variable {q q' : ThreadReadyQueue} {id : ThreadId} {priority : Nat}

theorem any_iff_holds (q : ThreadReadyQueue) (id : ThreadId) :
    (q.any fun entry => entry.1 = id) = true ↔ q.Holds id := by
  simp [Holds]

theorem insert_present (present : q.Holds id) (priority : Nat) : q.insert id priority = q :=
  if_pos ((any_iff_holds q id).mpr present)

theorem inserted_present (present : q.Holds id) (priority : Nat) : q.Inserted id priority q := by
  unfold Inserted
  rw [if_pos present]

theorem inserted_insert (q : ThreadReadyQueue) (id : ThreadId) (priority : Nat) :
    q.Inserted id priority (q.insert id priority) := by
  unfold Inserted
  split
  · rename_i present
    exact insert_present present priority
  · rename_i absent
    rw [insert, if_neg (mt (any_iff_holds q id).mp absent)]
    have total : Std.Total fun x y : ThreadId × Nat => y.2 ≤ x.2 :=
      ⟨fun x y => Nat.le_total y.2 x.2⟩
    have trans : IsTrans (ThreadId × Nat) fun x y => y.2 ≤ x.2 :=
      ⟨fun x y z first second => Nat.le_trans second first⟩
    exact ⟨List.perm_insertionSort _ _, List.pairwise_insertionSort _ _⟩

theorem Ordered.inserted (ordered : q.Ordered) (inserted : q.Inserted id priority q') :
    q'.Ordered := by
  unfold Inserted at inserted
  split at inserted
  · rw [inserted]
    exact ordered
  · rename_i absent
    refine ⟨inserted.2, ?_⟩
    rw [(inserted.1.map Prod.fst).nodup_iff, List.map_append]
    apply List.nodup_append.mpr
    refine ⟨ordered.once, List.nodup_singleton _, ?_⟩
    intro a member b other
    rw [List.map_singleton, List.mem_singleton] at other
    rintro rfl
    rw [other] at member
    exact absent member

theorem Ordered.remove (ordered : q.Ordered) (id : ThreadId) : (q.remove id).Ordered :=
  ⟨ordered.sorted.filter _, ordered.once.sublist (List.filter_sublist.map _)⟩

theorem Ordered.requeued (ordered : q.Ordered) (requeued : q.Requeued q') : q'.Ordered := by
  induction requeued with
  | same => exact ordered
  | inserted id priority before ih => exact ih.inserted (inserted_insert _ id priority)
  | removed id before ih => exact ih.remove id

theorem Requeued.trans {q'' : ThreadReadyQueue} (first : q.Requeued q') (second : q'.Requeued q'') :
    q.Requeued q'' := by
  induction second with
  | same => exact first
  | inserted id priority before ih => exact ih.inserted id priority
  | removed id before ih => exact ih.removed id

theorem Requeued.of_eq (same : q' = q) : q.Requeued q' := same ▸ .same

end ThreadReadyQueue

section Runs

variable {π : Type} {k : QxkKernel} {w : World π}

open ThreadReadyQueue

theorem threadReady_deliver (w : World π) (p : Nat) (e : DynEvent π) :
    (w.deliver p e).sched.threadReady = w.sched.threadReady := by
  unfold World.deliver
  simp only
  split <;> rfl

theorem threadReady_deliverAll (e : DynEvent π) (prios : List Nat) (w : World π) :
    (World.deliverAll e w prios).sched.threadReady = w.sched.threadReady := by
  induction prios generalizing w with
  | nil => rfl
  | cons p rest ih => exact (ih (w.deliver p e)).trans (threadReady_deliver w p e)

theorem threadReady_postAo {target : ActiveObjectId} {e : DynEvent π} {w' : World π}
    (posted : World.postAo k w target e = .ok w') :
    w'.sched.threadReady = w.sched.threadReady := by
  unfold World.postAo at posted
  split at posted
  · cases posted
  · split at posted
    · cases posted
      rfl
    · cases posted
      exact threadReady_deliver w _ e

theorem threadReady_finishAo (p : Nat) :
    (w.finishAo p).sched.threadReady = w.sched.threadReady := by
  unfold World.finishAo
  split <;> rfl

theorem threadReady_dispatchAo (debug : Bool) (p : Nat) :
    (w.dispatchAo k debug p).sched.threadReady = w.sched.threadReady := by
  unfold World.dispatchAo
  split
  · rfl
  · split
    · split
      · rfl
      · exact threadReady_finishAo p
    · simp only
      split <;> rfl

theorem threadReady_startAos (prios : List Nat) (w : World π) :
    (World.startAos w prios).sched.threadReady = w.sched.threadReady := by
  induction prios generalizing w with
  | nil => rfl
  | cons p rest ih =>
      unfold World.startAos
      rw [ih]
      split <;> rfl

theorem requeued_startThreads (configs : List ThreadConfig) (w : World π) :
    w.sched.threadReady.Requeued (World.startThreads w configs).sched.threadReady := by
  induction configs generalizing w with
  | nil => exact .same
  | cons c rest ih =>
      unfold World.startThreads
      split
      · rename_i t found
        split
        · have marked : w.sched.threadReady.Requeued
              (w.sched.markThreadReady t.id t.priority).threadReady := .inserted _ _ .same
          exact marked.trans (ih { w with sched := _ })
        · exact ih w
      · exact ih w

theorem requeued_dispatchThread (id : ThreadId) (priority : Nat) (idle : List Frame) :
    w.sched.threadReady.Requeued (w.dispatchThread id priority idle).sched.threadReady := by
  unfold World.dispatchThread
  split
  · exact .removed id .same
  · split
    · exact .same
    · split
      · exact .same
      · exact .removed id .same

theorem planNext_threadReady (s : QxkScheduler) : s.planNext.2.threadReady = s.threadReady := by
  unfold QxkScheduler.planNext QxkScheduler.planThread
  split
  · split
    · rfl
    · split <;> rfl
  · split <;> rfl

theorem setActive_threadReady (s : QxkScheduler) (mode : ScheduleMode) :
    (s.setActive mode).threadReady = s.threadReady := by
  cases mode <;> rfl

theorem requeued_dispatchOnce (debug : Bool) (idle : List Frame) :
    w.sched.threadReady.Requeued (w.dispatchOnce k debug idle).sched.threadReady := by
  have planned : (w.sched.planNext.2.setActive w.sched.planNext.1).threadReady =
      w.sched.threadReady := by
    rw [setActive_threadReady, planNext_threadReady]
  simp only [World.dispatchOnce]
  split
  · apply Requeued.of_eq
    rw [threadReady_dispatchAo]
    exact planned
  · exact (Requeued.of_eq planned).trans
      (requeued_dispatchThread (w := { w with sched := _, selections := _ }) _ _ idle)
  · exact .of_eq planned

theorem requeued_finishThread (id : ThreadId) (priority : Nat) (action : ThreadAction) :
    w.sched.threadReady.Requeued (w.finishThread id priority action).sched.threadReady := by
  cases action with
  | «continue» => exact .same
  | blocked => exact .same
  | yield => exact .inserted id priority .same
  | terminated => exact .removed id .same

theorem threadReady_lock (s : QxkScheduler) (ceiling : Nat) :
    (s.lock ceiling).2.threadReady = s.threadReady := by
  unfold QxkScheduler.lock
  split <;> rfl

theorem threadReady_unlock (s : QxkScheduler) (status : SchedStatus) :
    (s.unlock status).threadReady = s.threadReady := by
  unfold QxkScheduler.unlock
  split
  · split <;> rfl
  · rfl

theorem requeued_perform (c : Call π) :
    w.sched.threadReady.Requeued (w.perform k c).sched.threadReady := by
  cases c with
  | start =>
      have started := requeued_startThreads k.threadConfigs (World.startAos w k.registered)
      rwa [threadReady_startAos] at started
  | postAo target e =>
      cases posted : World.postAo k w target e with
      | ok w' => simpa only [World.perform, posted] using Requeued.of_eq (threadReady_postAo posted)
      | error err => simpa only [World.perform, posted] using Requeued.same
  | postAoAndRun target e =>
      cases posted : World.postAo k w target e with
      | ok w' =>
          have kept := Requeued.of_eq (threadReady_postAo posted)
          simp only [World.perform, posted]
          split <;> exact kept
      | error err => simpa only [World.perform, posted] using Requeued.same
  | publishAo signal e => exact .of_eq (threadReady_deliverAll _ _ w)
  | dispatchOnce => exact .same
  | runUntilIdle => exact .same
  | lockScheduler ceiling => exact .of_eq (threadReady_lock w.sched ceiling)
  | unlockScheduler status =>
      simp only [World.perform, World.unlockScheduler]
      split <;> exact .of_eq (threadReady_unlock w.sched status)
  | blockThread id => exact .removed id .same
  | unblockThread id priority => exact .inserted id priority .same

theorem requeued_step {debug : Bool} {a : Action π} {w' : World π}
    (stepped : w.step k debug a = some w') :
    w.sched.threadReady.Requeued w'.sched.threadReady := by
  rcases step_cases stepped with ⟨c, -, rfl⟩ | ⟨rest, -, -, rfl⟩ | ⟨rest, -, -, rfl⟩ |
    ⟨p, rest, -, -, rfl⟩ | ⟨action, id, priority, rest, -, -, rfl⟩
  · exact requeued_perform c
  · exact requeued_dispatchOnce (w := { w with stack := rest }) debug rest
  · exact requeued_dispatchOnce debug rest
  · exact .of_eq (threadReady_finishAo (w := { w with stack := rest }) p)
  · exact requeued_finishThread (w := { w with stack := rest }) id priority action

theorem ordered_run {debug : Bool} {actions : List (Action π)}
    (ran : run (World.step k debug) (World.init k) actions = some w) :
    w.sched.threadReady.Ordered := by
  have preserved (u : World π) (a : Action π) (v : World π) (ordered : u.sched.threadReady.Ordered)
      (stepped : u.step k debug a = some v) : v.sched.threadReady.Ordered :=
    ordered.requeued (requeued_step stepped)
  have start : (World.init k : World π).sched.threadReady.Ordered := ⟨.nil, List.nodup_nil⟩
  exact run_preserves preserved start ran

end Runs

/-- No active object above the lock ceiling is ready. -/
def Quiet (s : QxkScheduler) : Prop := ∀ prio, s.aoReady.max = some prio → prio ≤ s.lockCeiling

/-- Another ready thread has the priority, and none has a higher one. -/
structure Rivals (q : ThreadReadyQueue) (id : ThreadId) (priority : Nat) : Prop where
  equal : ∃ other, other ≠ id ∧ (other, priority) ∈ q
  highest : ∀ entry ∈ q, entry.2 ≤ priority

/-- After the `mark_thread_ready` of a yielding thread, in whichever order its sort leaves equal
priorities, the next thread dispatched is another one. -/
def PassesOn (s : QxkScheduler) (id : ThreadId) (priority : Nat) : Prop :=
  ∀ q, s.threadReady.Inserted id priority q →
    ∃ next p, next ≠ id ∧ { s with threadReady := q }.planNext.1 = .extendedThread next p

/-- The yielding thread is ready already, with another thread before it. -/
def Behind (q : ThreadReadyQueue) (id : ThreadId) : Prop :=
  q.Holds id ∧ q.head?.map Prod.fst ≠ some id

def topThreads (q : ThreadReadyQueue) : List (ThreadId × Nat) :=
  q.filter fun entry => q.all fun other => other.2 ≤ entry.2

section Yielding

variable {s : QxkScheduler} {q : ThreadReadyQueue} {id : ThreadId} {priority : Nat}

theorem planNext_quiet (quiet : Quiet s) : s.planNext = s.planThread := by
  unfold QxkScheduler.planNext
  cases highest : s.aoReady.max with
  | none => rfl
  | some prio =>
      have below : ¬prio > s.lockCeiling := Nat.not_lt_of_le (quiet prio highest)
      simp only [if_neg below]

theorem planNext_mode (quiet : Quiet s) : s.planNext.1 =
    s.threadReady.head?.elim .idle fun entry => .extendedThread entry.1 entry.2 := by
  rw [planNext_quiet quiet]
  unfold QxkScheduler.planThread ThreadReadyQueue.max
  cases s.threadReady.head? <;> rfl

theorem planNext_first (quiet : Quiet s) {entry : ThreadId × Nat}
    (first : s.threadReady.head? = some entry) :
    s.planNext = (.extendedThread entry.1 entry.2,
      s.emitTrace (.threadNext entry.1 entry.2)) := by
  rw [planNext_quiet quiet]
  unfold QxkScheduler.planThread ThreadReadyQueue.max
  rw [first]

theorem passesOn_iff (quiet : Quiet s) (ordered : s.threadReady.Ordered)
    (rivals : Rivals s.threadReady id priority) :
    PassesOn s id priority ↔ Behind s.threadReady id := by
  have planned (q : ThreadReadyQueue) : { s with threadReady := q }.planNext.1 =
      q.head?.elim .idle fun entry => .extendedThread entry.1 entry.2 :=
    planNext_mode (s := { s with threadReady := q }) quiet
  constructor
  · intro passes
    by_cases present : s.threadReady.Holds id
    · refine ⟨present, ?_⟩
      obtain ⟨next, p, other, dispatched⟩ :=
        passes s.threadReady (ThreadReadyQueue.inserted_present present priority)
      rw [planned] at dispatched
      intro first
      obtain ⟨entry, head, rfl⟩ := Option.map_eq_some_iff.mp first
      rw [head] at dispatched
      cases dispatched
      exact other rfl
    · -- The sort may leave the yielding thread at the front.
      obtain ⟨next, p, other, dispatched⟩ := passes ((id, priority) :: s.threadReady) (by
        unfold ThreadReadyQueue.Inserted
        rw [if_neg present]
        exact ⟨(List.perm_append_singleton _ _).symm, .cons rivals.highest ordered.sorted⟩)
      rw [planned] at dispatched
      cases dispatched
      exact absurd rfl other
  · rintro ⟨present, first⟩ q inserted
    unfold ThreadReadyQueue.Inserted at inserted
    rw [if_pos present] at inserted
    subst inserted
    rw [planned]
    obtain ⟨other, -, member⟩ := rivals.equal
    cases head : s.threadReady.head? with
    | none =>
        rw [List.head?_eq_none_iff.mp head] at member
        cases member
    | some entry =>
        refine ⟨entry.1, entry.2, ?_, rfl⟩
        rintro rfl
        exact first (by rw [head]; rfl)

end Yielding

section Rounds

variable {π : Type} {k : QxkKernel} {debug : Bool} {w w' : World π} {entry : ThreadId × Nat}

/-- The steps of one `dispatch_once` whose thread returns `Yield` and does nothing else: in a
`run_until_idle`, or called by the running code. -/
inductive YieldPass (w : World π) : List (Action π) → Prop where
  | looped (below : List Frame) (top : w.stack = .loop :: below) :
      YieldPass w [.plan, .threadRet .yield]
  | called (allowed : World.allows (.dispatchOnce : Call π) w.stack = true) :
      YieldPass w [.call .dispatchOnce, .plan, .threadRet .yield]

def Runnable (w : World π) (id : ThreadId) : Prop :=
  (∃ t, w.threads id = some t ∧ t.handler = true) ∧ id ∉ polledThreads w.stack

/-- What a pass leaves, beside the thread that ran and the record of the dispatch. -/
structure Passed (w w' : World π) (entry : ThreadId × Nat) : Prop where
  ready : w'.sched.threadReady = w.sched.threadReady
  aos : w'.sched.aoReady = w.sched.aoReady
  ceiling : w'.sched.lockCeiling = w.sched.lockCeiling
  stack : w'.stack = w.stack
  clean : w'.fault = none
  runnable : Runnable w' entry.1
  selections : w'.selections.map Selection.mode =
    w.selections.map Selection.mode ++ [.extendedThread entry.1 entry.2]

def dispatched (w w' : World π) : List ScheduleMode :=
  (w'.selections.map Selection.mode).drop w.selections.length

/-- The first ready thread has been dispatched, up to its handler. -/
def polled (w : World π) (entry : ThreadId × Nat) (t : ExtendedThread) : World π :=
  { w with
    sched := (w.sched.emitTrace (.threadNext entry.1 entry.2)).setActive
      (.extendedThread entry.1 entry.2)
    selections := w.selections ++ [⟨.extendedThread entry.1 entry.2, aoPrios w.stack⟩]
    threads := Function.update w.threads entry.1
      (some { t with state := .running, iteration := t.iteration + 1 })
    stack := .thread entry.1 entry.2 :: w.stack }

theorem dispatchOnce_first (quiet : Quiet w.sched) (first : w.sched.threadReady.head? = some entry)
    {t : ExtendedThread} (found : w.threads entry.1 = some t) (handler : t.handler = true)
    (free : entry.1 ∉ polledThreads w.stack) (idle : List Frame) :
    w.dispatchOnce k debug idle = polled w entry t := by
  simp only [World.dispatchOnce, planNext_first quiet first, World.dispatchThread, found,
    if_neg free,
    if_pos handler, polled]

theorem holds_first {q : ThreadReadyQueue} (first : q.head? = some entry) : q.Holds entry.1 :=
  List.mem_map_of_mem (List.mem_of_head? first)

theorem passed_yield (clean : w.fault = none) (first : w.sched.threadReady.head? = some entry)
    {t : ExtendedThread} (handler : t.handler = true) (free : entry.1 ∉ polledThreads w.stack) :
    Passed w (World.finishThread { polled w entry t with stack := w.stack } entry.1 entry.2 .yield)
      entry where
  ready := ThreadReadyQueue.insert_present (holds_first first) entry.2
  aos := rfl
  ceiling := rfl
  stack := rfl
  clean := clean
  runnable := by
    refine ⟨?_, free⟩
    simp [World.finishThread, polled, handler]
  selections := List.map_append

theorem yieldPass_step (k : QxkKernel) (debug : Bool) (clean : w.fault = none)
    (quiet : Quiet w.sched)
    (first : w.sched.threadReady.head? = some entry) (runnable : Runnable w entry.1)
    {pass : List (Action π)} (passes : YieldPass w pass) :
    ∃ w', run (World.step k debug) w pass = some w' ∧ Passed w w' entry := by
  obtain ⟨⟨t, found, handler⟩, free⟩ := runnable
  have planned (idle : List Frame) : w.dispatchOnce k debug idle = polled w entry t :=
    dispatchOnce_first quiet first found handler free idle
  have enabled : w.fault.isSome = false := by rw [clean]; rfl
  have returned : World.step k debug (polled w entry t) (.threadRet .yield) =
      some (World.finishThread { polled w entry t with stack := w.stack }
        entry.1 entry.2 .yield) := by
    simp [World.step, clean, polled]
  refine ⟨_, ?_, passed_yield clean first handler free⟩
  cases passes with
  | looped below top =>
      have stepped : World.step k debug w .plan = some (polled w entry t) := by
        simp [World.step, clean, top, planned below]
      simp [run, stepped, returned]
  | called allowed =>
      have called : World.step k debug w (.call .dispatchOnce) =
          some { w with stack := .once :: w.stack } := by
        simp [World.step, clean, allowed, World.perform]
      have stepped : World.step k debug { w with stack := .once :: w.stack } .plan =
          some (polled w entry t) := by
        show (if w.fault.isSome then none else some (w.dispatchOnce k debug w.stack)) = _
        rw [enabled, planned w.stack]
        rfl
      simp [run, called, stepped, returned]

theorem YieldPass.of_stack {pass : List (Action π)} (passes : YieldPass w pass)
    (same : w'.stack = w.stack) : YieldPass w' pass := by
  cases passes with
  | looped below top => exact .looped below (same.trans top)
  | called allowed => exact .called (same ▸ allowed)

theorem yieldPasses_run (k : QxkKernel) (debug : Bool) (n : Nat) (clean : w.fault = none)
    (quiet : Quiet w.sched)
    (first : w.sched.threadReady.head? = some entry) (runnable : Runnable w entry.1)
    {pass : List (Action π)} (passes : YieldPass w pass) :
    ∃ w', run (World.step k debug) w (List.replicate n pass).flatten = some w' ∧
      w'.selections.map Selection.mode = w.selections.map Selection.mode ++
        List.replicate n (.extendedThread entry.1 entry.2) := by
  induction n generalizing w with
  | zero => exact ⟨w, rfl, (List.append_nil _).symm⟩
  | succ n ih =>
      obtain ⟨u, stepped, passed⟩ :=
        yieldPass_step k debug clean quiet first runnable passes
      have still : Quiet u.sched := by
        intro prio highest
        rw [passed.aos] at highest
        rw [passed.ceiling]
        exact quiet prio highest
      obtain ⟨w', ran, selections⟩ := ih passed.clean still (passed.ready ▸ first) passed.runnable
        (passes.of_stack passed.stack)
      refine ⟨w', ?_, ?_⟩
      · rw [List.replicate_succ, List.flatten_cons, run_append, stepped]
        exact ran
      · rw [selections, passed.selections, List.append_assoc, List.replicate_succ]
        rfl

theorem mem_topThreads {q : ThreadReadyQueue} :
    entry ∈ topThreads q ↔ entry ∈ q ∧ ∀ other ∈ q, other.2 ≤ entry.2 := by
  simp [topThreads]

theorem nodup_topThreads {q : ThreadReadyQueue} (ordered : q.Ordered) : (topThreads q).Nodup :=
  (List.Nodup.of_map Prod.fst ordered.once).filter _

theorem first_topThreads {q : ThreadReadyQueue} (ordered : q.Ordered)
    (first : q.head? = some entry) : entry ∈ topThreads q := by
  obtain ⟨rest, rfl⟩ := List.head?_eq_some_iff.mp first
  apply mem_topThreads.mpr
  refine ⟨List.mem_cons_self, ?_⟩
  intro other member
  rcases List.mem_cons.mp member with rfl | later
  · exact Nat.le_refl _
  · exact List.rel_of_pairwise_cons ordered.sorted later

/-- A round of passes reaches every thread of the highest priority when there is only one. -/
theorem round_reaches_iff (ordered : w.sched.threadReady.Ordered) (clean : w.fault = none)
    (quiet : Quiet w.sched) (runnable : ∀ e ∈ topThreads w.sched.threadReady, Runnable w e.1)
    {pass : List (Action π)} (passes : YieldPass w pass)
    (ran : run (World.step k debug) w
      (List.replicate (topThreads w.sched.threadReady).length pass).flatten = some w') :
    (∀ e ∈ topThreads w.sched.threadReady, .extendedThread e.1 e.2 ∈ dispatched w w') ↔
      (topThreads w.sched.threadReady).length ≤ 1 := by
  cases first : w.sched.threadReady.head? with
  | none => simp [List.head?_eq_none_iff.mp first, topThreads]
  | some entry =>
      have top := first_topThreads ordered first
      obtain ⟨u, ran', selections⟩ := yieldPasses_run k debug
        (topThreads w.sched.threadReady).length clean quiet first (runnable entry top) passes
      rw [ran] at ran'
      cases ran'
      have only : dispatched w w' = List.replicate (topThreads w.sched.threadReady).length
          (.extendedThread entry.1 entry.2) := by
        have length : w.selections.length = (w.selections.map Selection.mode).length := by simp
        rw [dispatched, selections, length, List.drop_left]
      rw [only]
      constructor
      · intro reached
        have same (e : ThreadId × Nat) (member : e ∈ topThreads w.sched.threadReady) :
            e = entry := by
          have mode := List.eq_of_mem_replicate (reached e member)
          injection mode with id priority
          exact Prod.ext id priority
        have all := List.eq_replicate_of_mem same
        have once := nodup_topThreads ordered
        rw [all] at once
        exact List.nodup_replicate.mp once
      · intro single e member
        have one : (topThreads w.sched.threadReady).length = 1 :=
          Nat.le_antisymm single (List.length_pos_of_mem top)
        obtain ⟨x, alone⟩ := List.length_eq_one_iff.mp one
        rw [alone, List.mem_singleton] at top member
        rw [alone, member, top]
        exact List.mem_cons_self

end Rounds

/-- What a yield leads to. Every run keeps the ready list in order. When a thread returns `Yield`
while another ready thread has its priority and none a higher one, the next thread dispatched is
another one, whatever the order among equals, if and only if the yielding thread is in the ready
list behind another; and when threads of the highest ready priority only yield, a round of as many
dispatches as there are of them reaches each of them if and only if there is only one. -/
theorem yield_passes_on_iff {π : Type} (k : QxkKernel) (debug : Bool) :
    (∀ (actions : List (Action π)) (w : World π),
      run (World.step k debug) (World.init k) actions = some w → w.sched.threadReady.Ordered) ∧
    ∀ w : World π, w.sched.threadReady.Ordered → Quiet w.sched →
      (∀ id priority rest w', w.stack = .thread id priority :: rest →
        w.step k debug (.threadRet .yield) = some w' → Rivals w.sched.threadReady id priority →
        w.sched.threadReady.Inserted id priority w'.sched.threadReady ∧
          w'.sched = { w.sched with threadReady := w'.sched.threadReady } ∧
          (PassesOn w.sched id priority ↔ Behind w.sched.threadReady id)) ∧
      ∀ (pass : List (Action π)) (w' : World π), w.fault = none → YieldPass w pass →
        (∀ e ∈ topThreads w.sched.threadReady, Runnable w e.1) →
        run (World.step k debug) w
          (List.replicate (topThreads w.sched.threadReady).length pass).flatten = some w' →
        ((∀ e ∈ topThreads w.sched.threadReady, .extendedThread e.1 e.2 ∈ dispatched w w') ↔
          (topThreads w.sched.threadReady).length ≤ 1) := by
  refine ⟨fun actions w ran => ordered_run ran, ?_⟩
  intro w ordered quiet
  constructor
  · intro id priority rest w' top stepped rivals
    rcases step_cases stepped with ⟨c, same, -⟩ | ⟨_, same, -⟩ | ⟨_, same, -⟩ | ⟨_, _, same, -⟩ |
      ⟨action, id', priority', rest', same, top', rfl⟩
    any_goals cases same
    rw [top] at top'
    cases top'
    exact ⟨ThreadReadyQueue.inserted_insert _ id priority, rfl, passesOn_iff quiet ordered rivals⟩
  · intro pass w' clean passes runnable ran
    exact round_reaches_iff ordered clean quiet runnable passes ran

def twoThreads (priority : Nat) : QxkKernel :=
  match (do
      let b ← QxkKernelBuilder.new.registerThread ⟨⟨1⟩, 5⟩
      let b ← b.registerThread ⟨⟨2⟩, priority⟩
      QxkKernel.build b) with
  | .ok k => k
  | .error _ => .none []

/-- The handler of thread 1 goes behind thread 2 of its priority before it yields; and when thread 2
has a lower priority, a round of yields is one dispatch of thread 1. -/
theorem yields_pass_on :
    (∃ w w' : World Unit, run (World.step (twoThreads 5) true) (World.init (twoThreads 5))
        [.call .start, .call .runUntilIdle, .plan, .call (.blockThread ⟨1⟩),
          .call (.unblockThread ⟨1⟩ 5)] = some w ∧
      w.step (twoThreads 5) true (.threadRet .yield) = some w' ∧ PassesOn w.sched ⟨1⟩ 5) ∧
    ∃ w w' : World Unit, run (World.step (twoThreads 3) true) (World.init (twoThreads 3))
        [.call .start, .call .runUntilIdle] = some w ∧
      run (World.step (twoThreads 3) true) w [.plan, .threadRet .yield] = some w' ∧
      .extendedThread ⟨1⟩ 5 ∈ dispatched w w' := by
  constructor
  · let actions : List (Action Unit) :=
      [.call .start, .call .runUntilIdle, .plan, .call (.blockThread ⟨1⟩),
        .call (.unblockThread ⟨1⟩ 5)]
    have general := @yield_passes_on_iff Unit (twoThreads 5) true
    refine ⟨_, _, rfl, rfl, ?_⟩
    have ordered := general.1 actions _ rfl
    have yielded := (general.2 _ ordered nofun).1 ⟨1⟩ 5 _ _ rfl rfl
      ⟨⟨⟨2⟩, by decide, by decide⟩, by decide⟩
    exact yielded.2.2.mpr ⟨by decide, by decide⟩
  · have general := @yield_passes_on_iff Unit (twoThreads 3) true
    refine ⟨_, _, rfl, rfl, ?_⟩
    have ordered := general.1 [.call .start, .call .runUntilIdle] _ rfl
    have round := (general.2 _ ordered nofun).2 [.plan, .threadRet .yield] _ rfl (.looped _ rfl)
      (fun e member => List.mem_singleton.mp member ▸ ⟨⟨_, rfl, rfl⟩, by decide⟩) rfl
    exact round.mpr (by decide) (⟨1⟩, 5) (by decide)

/-- Both threads have priority 5. Thread 1 yields and is dispatched again, and so on: thread 2 never
is. -/
theorem yielding_thread_runs_again :
    ∃ w w' : World Unit, run (World.step (twoThreads 5) true) (World.init (twoThreads 5))
        [.call .start, .call .runUntilIdle, .plan] = some w ∧
      run (World.step (twoThreads 5) true) w
        [.threadRet .yield, .plan, .threadRet .yield, .plan] = some w' ∧
      w.stack = [.thread ⟨1⟩ 5, .loop] ∧ Quiet w.sched ∧ Rivals w.sched.threadReady ⟨1⟩ 5 ∧
      ¬PassesOn w.sched ⟨1⟩ 5 ∧
      w'.selections.map Selection.mode =
        [.extendedThread ⟨1⟩ 5, .extendedThread ⟨1⟩ 5, .extendedThread ⟨1⟩ 5] := by
  refine ⟨_, _, rfl, rfl, rfl, nofun, ⟨⟨⟨2⟩, by decide, by decide⟩, by decide⟩, ?_, by decide⟩
  intro passes
  obtain ⟨next, p, other, dispatched⟩ :=
    passes _ (ThreadReadyQueue.inserted_present (by decide) 5)
  cases dispatched
  exact other rfl

end QpRs.Qxk
