import QpRs.Qxk.Accounting

/-! Which waiters the signals of a semaphore reach (`Semaphore::signal` of
`qxk/src/primitives.rs`). -/

namespace QpRs.Qxk

open QpRs.Lib

namespace WaitVec

theorem bestFrom_highest (seen rest : WaitVec) (best : Nat) {v : WaitVec} (split : v = seen ++ rest)
    {w : WaitingThread} (found : v[best]? = some w)
    (highest : ∀ other ∈ seen, other.priority ≤ w.priority) :
    ∃ w', v[bestFrom rest seen.length best w.priority]? = some w' ∧
      ∀ other ∈ v, other.priority ≤ w'.priority := by
  induction rest generalizing seen best w with
  | nil =>
      rw [List.append_nil] at split
      exact ⟨w, found, split ▸ highest⟩
  | cons next rest ih =>
      have grown : v = (seen ++ [next]) ++ rest := by
        rw [split, List.append_assoc]
        rfl
      have length : (seen ++ [next]).length = seen.length + 1 := by simp
      unfold bestFrom
      rw [← length]
      split
      · rename_i higher
        apply ih (seen ++ [next]) seen.length grown
        · rw [split, List.getElem?_append_right (Nat.le_refl _), Nat.sub_self]
          rfl
        · intro other member
          rcases List.mem_append.mp member with before | now
          · have := highest other before
            omega
          · rw [List.mem_singleton.mp now]
      · rename_i lower
        apply ih (seen ++ [next]) best grown found
        intro other member
        rcases List.mem_append.mp member with before | now
        · exact highest other before
        · rw [List.mem_singleton.mp now]
          omega

theorem takeHighest_highest {v rest : WaitVec} {w : WaitingThread}
    (taken : v.takeHighest = some (w, rest)) : ∀ other ∈ v, other.priority ≤ w.priority := by
  cases v with
  | nil => cases taken
  | cons first others =>
      have split : first :: others = [first] ++ others := rfl
      obtain ⟨best, found, highest⟩ := bestFrom_highest [first] others 0 split rfl (by simp)
      simp only [takeHighest, swapRemove, List.length_singleton] at taken found
      rw [found] at taken
      split at taken
      · rename_i same _
        cases same
        cases taken
        exact highest
      · cases taken

theorem takeHighest_some {v : WaitVec} (listed : v ≠ []) :
    ∃ w rest, v.takeHighest = some (w, rest) := by
  cases taken : v.takeHighest with
  | none => exact absurd (takeHighest_none taken) listed
  | some entry => exact ⟨entry.1, entry.2, rfl⟩

end WaitVec

/-- The signal succeeds and takes a waiter of maximal priority off the list, and exactly its thread
becomes ready. -/
structure Delivers (s : SemaphoreInner) (sched : QxkScheduler) (w : WaitingThread) : Prop where
  ok : (s.signal sched).1 = .ok ()
  listed : s.waiting.Perm (w :: (s.signal sched).2.1.waiting)
  highest : ∀ other ∈ s.waiting, other.priority ≤ w.priority
  ready : ∀ t, (s.signal sched).2.2.threadReady.Holds t ↔ t = w.id ∨ sched.threadReady.Holds t
  only : (s.signal sched).2.2 = sched.unblockThread w.id w.priority

/-- From `r` to `r'`, `n` entries were taken off the list, and exactly their threads became
ready. -/
def TakenBetween (r r' : SemRun) (n : Nat) : Prop :=
  ∃ woken : WaitVec, woken.length = n ∧ r.sem.waiting.Perm (woken ++ r'.sem.waiting) ∧
    ∀ t, r'.sched.threadReady.Holds t ↔ t ∈ ids woken ∨ r.sched.threadReady.Holds t

/-- From `r` to `r'`, `n` different threads were taken off the list, and exactly these became
ready. -/
def WokenBetween (r r' : SemRun) (n : Nat) : Prop :=
  ∃ woken : List ThreadId, woken.Nodup ∧ woken.length = n ∧
    (ids r.sem.waiting).Perm (woken ++ ids r'.sem.waiting) ∧
    ∀ t, r'.sched.threadReady.Holds t ↔ t ∈ woken ∨ r.sched.threadReady.Holds t

section Signal

variable {s : SemaphoreInner} {sched : QxkScheduler} {r r' u : SemRun} {n m k : Nat}

theorem signal_full (sched : QxkScheduler) (full : s.maxCount ≤ s.count) :
    s.signal sched = (.error .overflow, s, sched) := by
  simp [SemaphoreInner.signal, SemaphoreInner.enterSignal, full]

theorem signal_wakes (sched : QxkScheduler) (room : s.count < s.maxCount) {w : WaitingThread}
    {rest : WaitVec}
    (taken : s.waiting.takeHighest = some (w, rest)) :
    s.signal sched = (.ok (), { s with count := s.count + 1, waiting := rest },
      sched.unblockThread w.id w.priority) := by
  have below : ¬s.count ≥ s.maxCount := Nat.not_le_of_lt room
  simp [SemaphoreInner.signal, SemaphoreInner.enterSignal, below, taken]

theorem signal_nobody (sched : QxkScheduler) (room : s.count < s.maxCount)
    (empty : s.waiting = []) :
    s.signal sched = (.ok (), { s with count := s.count + 1 }, sched) := by
  have below : ¬s.count ≥ s.maxCount := Nat.not_le_of_lt room
  simp [SemaphoreInner.signal, SemaphoreInner.enterSignal, below, empty, WaitVec.takeHighest]

theorem delivers_iff (waits : s.waiting ≠ []) :
    (∃ w, Delivers s sched w) ↔ s.count < s.maxCount := by
  constructor
  · rintro ⟨w, delivers⟩
    by_contra full
    have refused := delivers.ok
    rw [signal_full sched (Nat.le_of_not_lt full)] at refused
    cases refused
  · intro room
    obtain ⟨w, rest, taken⟩ := WaitVec.takeHighest_some waits
    have signalled := signal_wakes sched room taken
    refine ⟨w, by rw [signalled], ?_, WaitVec.takeHighest_highest taken, ?_, by rw [signalled]⟩
    · rw [signalled]
      exact WaitVec.takeHighest_perm taken
    · intro t
      rw [signalled]
      exact ThreadReadyQueue.holds_insert sched.threadReady w.id w.priority t

theorem TakenBetween.refl (same : r'.sem.waiting = r.sem.waiting) (ready : r'.sched = r.sched) :
    TakenBetween r r' 0 :=
  ⟨[], rfl, by rw [same]; exact .refl _, by simp [ready, ids]⟩

theorem TakenBetween.trans (first : TakenBetween r u n) (second : TakenBetween u r' m) :
    TakenBetween r r' (n + m) := by
  obtain ⟨early, long, taken, ready⟩ := first
  obtain ⟨late, short, left, readied⟩ := second
  refine ⟨early ++ late, by rw [List.length_append, long, short], ?_, ?_⟩
  · rw [List.append_assoc]
    exact taken.trans (left.append_left early)
  · intro t
    rw [readied t, ready t, ids, ids, ids, List.map_append, List.mem_append]
    tauto

theorem TakenBetween.length (woken : TakenBetween r r' n) :
    r.sem.waiting.length = n + r'.sem.waiting.length := by
  obtain ⟨early, rfl, taken, -⟩ := woken
  rw [taken.length_eq, List.length_append]

theorem signal_woken (r : SemRun) :
    (r.call .signal).sem.maxCount = r.sem.maxCount ∧
      (r.call .signal).sem.count =
        (if r.sem.count < r.sem.maxCount then r.sem.count + 1 else r.sem.count) ∧
      TakenBetween r (r.call .signal)
        (min (min 1 (r.sem.maxCount - r.sem.count)) r.sem.waiting.length) := by
  have sem : (r.call .signal).sem = (r.sem.signal r.sched).2.1 := rfl
  have sched : (r.call .signal).sched = (r.sem.signal r.sched).2.2 := rfl
  by_cases room : r.sem.count < r.sem.maxCount
  · have one : min 1 (r.sem.maxCount - r.sem.count) = 1 := by omega
    rw [one, if_pos room]
    by_cases empty : r.sem.waiting = []
    · rw [signal_nobody r.sched room empty] at sem sched
      rw [sem]
      refine ⟨rfl, rfl, ?_⟩
      rw [empty]
      exact .refl (by rw [sem]) sched
    · obtain ⟨w, rest, taken⟩ := WaitVec.takeHighest_some empty
      have listed := WaitVec.takeHighest_perm taken
      rw [signal_wakes r.sched room taken] at sem sched
      have length : min 1 r.sem.waiting.length = 1 := by
        rw [listed.length_eq, List.length_cons]
        omega
      rw [length, sem]
      refine ⟨rfl, rfl, [w], rfl, ?_, ?_⟩
      · rw [sem]
        exact listed
      · intro t
        rw [sched, ids, List.map_singleton, List.mem_singleton]
        exact ThreadReadyQueue.holds_insert r.sched.threadReady w.id w.priority t
  · have none : min (min 1 (r.sem.maxCount - r.sem.count)) r.sem.waiting.length = 0 := by omega
    rw [none, if_neg room]
    rw [signal_full r.sched (Nat.le_of_not_lt room)] at sem sched
    rw [sem]
    exact ⟨rfl, rfl, .refl (congrArg SemaphoreInner.waiting sem) sched⟩

theorem signals_woken (k : Nat) (r r' : SemRun)
    (ran : run SemRun.step r (List.replicate k .signal) = some r') :
    TakenBetween r r' (min (min k (r.sem.maxCount - r.sem.count)) r.sem.waiting.length) := by
  induction k generalizing r with
  | zero =>
      rw [← Option.some.inj ran]
      have none : min (min 0 (r.sem.maxCount - r.sem.count)) r.sem.waiting.length = 0 := by omega
      rw [none]
      exact .refl rfl rfl
  | succ k ih =>
      obtain ⟨u, stepped, later⟩ := run_cons ran
      cases Option.some.inj stepped
      obtain ⟨limit, count, first⟩ := signal_woken r
      have both := first.trans (ih _ later)
      have left := first.length
      rw [limit, count] at both
      have total :
          min (min 1 (r.sem.maxCount - r.sem.count)) r.sem.waiting.length +
              min (min k (r.sem.maxCount -
                (if r.sem.count < r.sem.maxCount then r.sem.count + 1 else r.sem.count)))
                (r.call .signal).sem.waiting.length =
            min (min (k + 1) (r.sem.maxCount - r.sem.count)) r.sem.waiting.length := by
        split <;> omega
      rwa [total] at both

theorem call_acquires {c : SemCall} (available : 0 < r.sem.count) (other : c ≠ .signal) :
    (r.call c).acquired = r.acquired + 1 := by
  cases c with
  | signal => exact absurd rfl other
  | tryWait thread => simp [SemRun.call, SemaphoreInner.tryWait, available]
  | wait thread priority =>
      simp [SemRun.call, SemaphoreInner.wait, SemaphoreInner.enterWait, available, Except.isOk,
        Except.toBool]
  | waitTimeout thread =>
      simp [SemRun.call, SemaphoreInner.waitTimeout, SemaphoreInner.tryWait, available,
        Except.isOk, Except.toBool]

theorem acquired_mono {calls : List SemCall} (ran : run SemRun.step r calls = some r') :
    r.acquired ≤ r'.acquired := by
  have preserved (u : SemRun) (c : SemCall) (v : SemRun) (grown : r.acquired ≤ u.acquired)
      (stepped : u.step c = some v) : r.acquired ≤ v.acquired := by
    rw [← Option.some.inj stepped]
    cases c with
    | signal => exact grown
    | _ => exact Nat.le_trans grown (Nat.le_add_right _ _)
  exact run_preserves preserved (Nat.le_refl _) ran

theorem only_signals {calls : List SemCall} (available : 0 < r.sem.count)
    (ran : run SemRun.step r calls = some r') (none : r'.acquired = r.acquired) :
    calls = List.replicate calls.length .signal := by
  induction calls generalizing r with
  | nil => rfl
  | cons c more ih =>
      obtain ⟨u, stepped, later⟩ := run_cons ran
      cases Option.some.inj stepped
      by_cases signal : c = .signal
      · subst signal
        have kept : (r.call .signal).acquired = r.acquired := rfl
        have count := (signal_woken r).2.1
        rw [List.length_cons, List.replicate_succ, ← ih _ later (none.trans kept.symm)]
        rw [count]
        split <;> omega
      · have acquired := call_acquires available signal
        have grown := acquired_mono later
        omega

theorem Tries.maxCount {s' : SemaphoreInner} {entry : List ThreadId} {acquired : Bool}
    (tried : Tries s s' entry acquired) : s'.maxCount = s.maxCount := by
  cases tried with
  | acquired limit count waiting => exact limit
  | failed limit same empty waiting => exact limit

theorem maxCount_run {calls : List SemCall} (ran : run SemRun.step r calls = some r') :
    r'.sem.maxCount = r.sem.maxCount := by
  have preserved (u : SemRun) (c : SemCall) (v : SemRun)
      (same : u.sem.maxCount = r.sem.maxCount) (stepped : u.step c = some v) :
      v.sem.maxCount = r.sem.maxCount := by
    rw [← Option.some.inj stepped]
    cases c with
    | signal => exact (signal_woken u).1.trans same
    | tryWait thread => exact (tryWait_tries u.sem).maxCount.trans same
    | wait thread priority => exact (wait_tries u.sem thread priority u.sched).maxCount.trans same
    | waitTimeout thread => exact (waitTimeout_tries u.sem).maxCount.trans same
  exact run_preserves preserved rfl ran

theorem all_signals {later : List SemCall} (positive : 1 ≤ r.sem.maxCount)
    (ran : run SemRun.step r (.signal :: later) = some r') (none : r'.acquired = r.acquired) :
    SemCall.signal :: later = List.replicate (later.length + 1) .signal := by
  obtain ⟨u, stepped, rest⟩ := run_cons ran
  cases Option.some.inj stepped
  have available : 0 < (r.call .signal).sem.count := by
    rw [(signal_woken r).2.1]
    split <;> omega
  rw [List.replicate_succ, ← only_signals available rest none]

theorem TakenBetween.woken (taken : TakenBetween r r' n) (once : (ids r.sem.waiting).Nodup) :
    WokenBetween r r' n := by
  obtain ⟨woken, length, listed, ready⟩ := taken
  have split : (ids r.sem.waiting).Perm (ids woken ++ ids r'.sem.waiting) := by
    rw [ids, ids, ids, ← List.map_append]
    exact listed.map WaitingThread.id
  have apart := List.nodup_append.mp (split.nodup_iff.mp once)
  exact ⟨ids woken, apart.1, by rw [ids, List.length_map, length], split, ready⟩

theorem WokenBetween.length (woken : WokenBetween r r' n) :
    r.sem.waiting.length = n + r'.sem.waiting.length := by
  obtain ⟨threads, -, rfl, listed, -⟩ := woken
  simpa [ids] using listed.length_eq

theorem woken_iff (once : (ids r.sem.waiting).Nodup)
    (ran : run SemRun.step r (List.replicate k .signal) = some r') :
    WokenBetween r r' (min k r.sem.waiting.length) ↔
      min k r.sem.waiting.length ≤ r.sem.maxCount - r.sem.count := by
  have taken := signals_woken k r r' ran
  constructor
  · intro expected
    have left := taken.length
    have right := expected.length
    omega
  · intro room
    have same : min (min k (r.sem.maxCount - r.sem.count)) r.sem.waiting.length =
        min k r.sem.waiting.length := by omega
    rw [same] at taken
    exact taken.woken once

theorem waiting_nodup {initialCount maxCount : Nat} {sched : QxkScheduler} {calls : List SemCall}
    (fresh : Along SemRun.step Fresh (SemRun.init initialCount maxCount sched) calls)
    (ran : run SemRun.step (SemRun.init initialCount maxCount sched) calls = some r) :
    (ids r.sem.waiting).Nodup :=
  (List.nodup_append.mp (single_run fresh ran)).2.1

end Signal

/-- Which signals reach the waiters. After any calls, a signal with threads on the list succeeds,
takes a waiter of maximal priority off it and makes exactly that thread ready if and only if the
count is below its limit. If no thread is on the list twice, as when none calls `wait` while it is
on it, signals without an acquisition between them wake as many threads as wait, or as there are
signals, if and only if the count has room for that many units. -/
theorem signal_reaches_waiter (initialCount maxCount : Nat) (positive : 1 ≤ maxCount)
    (sched : QxkScheduler) (calls : List SemCall) (r : SemRun)
    (ran : run SemRun.step (SemRun.init initialCount maxCount sched) calls = some r) :
    (r.sem.waiting ≠ [] → ((∃ w, Delivers r.sem r.sched w) ↔ r.sem.count < maxCount)) ∧
      (Along SemRun.step Fresh (SemRun.init initialCount maxCount sched) calls →
        (ids r.sem.waiting).Nodup) ∧
      ((ids r.sem.waiting).Nodup → ∀ (later : List SemCall) (r' : SemRun),
        run SemRun.step r (.signal :: later) = some r' → r'.acquired = r.acquired →
          let wakes := min ((SemCall.signal :: later).count .signal) r.sem.waiting.length
          (WokenBetween r r' wakes ↔ wakes ≤ maxCount - r.sem.count)) := by
  have limit : r.sem.maxCount = maxCount := maxCount_run ran
  refine ⟨fun waits => ?_, fun fresh => waiting_nodup fresh ran, fun once later r' signalled none =>
    ?_⟩
  · rw [delivers_iff waits, limit]
  · rw [← limit] at positive
    have signals := all_signals positive signalled none
    rw [signals] at signalled ⊢
    rw [List.count_replicate_self, ← limit]
    exact woken_iff once signalled

/-- Three threads wait on a semaphore of limit 2: two signals wake the two highest. -/
theorem two_signals_reach :
    ∃ r r' : SemRun, run SemRun.step (SemRun.init 0 2 .new)
        [.wait ⟨1⟩ 3, .wait ⟨2⟩ 5, .wait ⟨3⟩ 4] = some r ∧
      run SemRun.step r [.signal, .signal] = some r' ∧ r'.woken = [⟨2⟩, ⟨3⟩] ∧
      (∃ w, Delivers r.sem r.sched w) ∧ WokenBetween r r' 2 := by
  have reaches := signal_reaches_waiter 0 2 (by decide) .new
    [.wait ⟨1⟩ 3, .wait ⟨2⟩ 5, .wait ⟨3⟩ 4] _ rfl
  have fresh : Along SemRun.step Fresh (SemRun.init 0 2 .new)
      [.wait ⟨1⟩ 3, .wait ⟨2⟩ 5, .wait ⟨3⟩ 4] := by decide
  refine ⟨_, _, rfl, rfl, by decide, (reaches.1 (by decide)).mpr (by decide), ?_⟩
  exact (reaches.2.2 (reaches.2.1 fresh) [.signal] _ rfl rfl).mpr (by decide)

/-- Two threads wait on a binary semaphore. The first signal wakes one of them, which has not
retried when the second signal is refused: the other thread stays on the list. -/
theorem second_signal_refused :
    ∃ r r' : SemRun, run SemRun.step (SemRun.init 0 1 .new)
        [.wait ⟨1⟩ 3, .wait ⟨2⟩ 5, .signal] = some r ∧ r.sem.waiting = [⟨⟨1⟩, 3⟩] ∧
      r.step .signal = some r' ∧ (r.sem.signal r.sched).1 = .error .overflow ∧
      r'.sem.waiting = [⟨⟨1⟩, 3⟩] ∧ (¬∃ w, Delivers r.sem r.sched w) ∧
      ¬r'.sched.threadReady.Holds ⟨1⟩ := by
  refine ⟨_, _, rfl, by decide, rfl, rfl, by decide, ?_, by decide⟩
  rintro ⟨w, delivers⟩
  cases delivers.ok

end QpRs.Qxk
