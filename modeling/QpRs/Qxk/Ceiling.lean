import QpRs.Lib.Run
import QpRs.Lib.SavedMax
import QpRs.Qxk.Primitives

/-! The ceiling of the QXK scheduler under priority-ceiling mutexes (`qxk/src/primitives.rs`), with
each call as one step.

A mutex with a ceiling saves the ceiling that its `lock` raised and restores it at `unlock`;
`try_lock` takes the mutex and leaves the scheduler alone. -/

namespace QpRs.Qxk

variable {ι : Type}

structure CeilingRun (ι : Type) where
  mutexes : ι → MutexInner
  sched : QxkScheduler

inductive CeilingCall (ι : Type) where
  | tryLock (i : ι) (thread : ThreadId)
  | lock (i : ι) (thread : ThreadId) (priority : Nat)
  | unlock (i : ι) (thread : ThreadId)

namespace CeilingRun

def init (ceilings : ι → Option Nat) : CeilingRun ι :=
  ⟨fun i => { MutexInner.new with ceiling := ceilings i }, .new⟩

variable [DecidableEq ι]

def set (r : CeilingRun ι) (i : ι) (m : MutexInner) (sched : QxkScheduler) : CeilingRun ι :=
  ⟨Function.update r.mutexes i m, sched⟩

def call (r : CeilingRun ι) : CeilingCall ι → CeilingRun ι
  | .tryLock i thread => r.set i ((r.mutexes i).tryLock thread).2 r.sched
  | .lock i thread priority =>
      let (_, mutex, sched) := (r.mutexes i).lock thread priority r.sched
      r.set i mutex sched
  | .unlock i thread =>
      let (_, mutex, sched) := (r.mutexes i).unlock thread r.sched
      r.set i mutex sched

def step (r : CeilingRun ι) (c : CeilingCall ι) : Option (CeilingRun ι) := some (r.call c)

end CeilingRun

/-- The ceiling of a mutex that is held; a mutex without a ceiling counts as 0. -/
def heldCeiling (m : MutexInner) : Nat := if m.locked then m.ceiling.getD 0 else 0

/-- The ceiling that `unlock` would restore. -/
def savedCeiling (m : MutexInner) : Option Nat :=
  match m.ceilingSchedStatus with
  | some (.locked previous) => some previous
  | _ => none

/-- The scheduler's ceiling is the maximum over the mutexes that are held. -/
def CeilingRun.Exact [Fintype ι] (r : CeilingRun ι) : Prop :=
  r.sched.lockCeiling = Finset.univ.sup fun i => heldCeiling (r.mutexes i)

/-- A mutex is not taken by `try_lock` above the ceiling in force, and one that raised the ceiling
is released when no other held mutex has a ceiling above the one it saved. -/
def Ordered (r : CeilingRun ι) : CeilingCall ι → Prop
  | .tryLock i _ =>
      (r.mutexes i).locked = true ∨ (r.mutexes i).ceiling.getD 0 ≤ r.sched.lockCeiling
  | .lock _ _ _ => True
  | .unlock i thread => (r.mutexes i).owner = some thread →
      ∀ previous, savedCeiling (r.mutexes i) = some previous →
        ∀ j, j ≠ i → heldCeiling (r.mutexes j) ≤ previous

/-- A mutex with an owner is locked, and a free one has no status saved. -/
structure Tidy (m : MutexInner) : Prop where
  owned : ∀ thread, m.owner = some thread → m.locked = true
  free : m.locked = false → m.ceilingSchedStatus = none

structure CeilingSound [Fintype ι] (r : CeilingRun ι) : Prop where
  tidy : ∀ i, Tidy (r.mutexes i)
  max : Lib.SavedMax r.sched.lockCeiling (fun i => heldCeiling (r.mutexes i))
    (fun i => savedCeiling (r.mutexes i))

section Mutex

variable {m : MutexInner}

theorem Tidy.unsaved (tidy : Tidy m) (free : m.locked = false) :
    heldCeiling m = 0 ∧ savedCeiling m = none := by
  simp [heldCeiling, savedCeiling, free, tidy.free free]

theorem tryLock_taken (thread : ThreadId) (taken : m.locked = true) : (m.tryLock thread).2 = m := by
  simp [MutexInner.tryLock, taken]

theorem tryLock_free (tidy : Tidy m) (thread : ThreadId) (free : m.locked = false) :
    Tidy (m.tryLock thread).2 ∧ savedCeiling (m.tryLock thread).2 = none ∧
      heldCeiling (m.tryLock thread).2 = m.ceiling.getD 0 := by
  have unsaved := (tidy.unsaved free).2
  simp only [MutexInner.tryLock, free, Bool.not_false, if_true]
  refine ⟨⟨fun _ _ => rfl, ?_⟩, unsaved, rfl⟩
  intro unlocked
  cases unlocked

/-- What `lock` does to a mutex and to the ceiling in force. -/
inductive CeilingMove (m m' : MutexInner) (top top' : Nat) : Prop where
  | keeps (held : heldCeiling m' = heldCeiling m) (saved : savedCeiling m' = savedCeiling m)
      (same : top' = top)
  | joins (free : m.locked = false) (low : heldCeiling m' ≤ top) (saved : savedCeiling m' = none)
      (same : top' = top)
  | raises (free : m.locked = false) (high : top < heldCeiling m')
      (saved : savedCeiling m' = some top) (raised : top' = heldCeiling m')

theorem lock_moves (tidy : Tidy m) (thread : ThreadId) (priority : Nat) (sched : QxkScheduler) :
    Tidy (m.lock thread priority sched).2.1 ∧
      CeilingMove m (m.lock thread priority sched).2.1 sched.lockCeiling
        (m.lock thread priority sched).2.2.lockCeiling := by
  unfold MutexInner.lock MutexInner.enterLock
  cases taken : m.locked with
  | true =>
      simp only [Bool.not_true, Bool.false_eq_true, if_false]
      refine ⟨⟨fun _ _ => rfl, ?_⟩, .keeps ?_ rfl rfl⟩
      · intro unlocked
        cases unlocked
      · simp [heldCeiling, taken]
  | false =>
      have unsaved := (tidy.unsaved taken).2
      simp only [Bool.not_false, if_true]
      cases ceiling : m.ceiling with
      | none =>
          refine ⟨⟨fun _ _ => rfl, ?_⟩, .joins taken ?_ unsaved rfl⟩
          · intro unlocked
            cases unlocked
          · simp [heldCeiling]
      | some c =>
          refine ⟨⟨fun _ _ => rfl, ?_⟩, ?_⟩
          · intro unlocked
            cases unlocked
          · by_cases raises : c > sched.lockCeiling
            · simp only [QxkScheduler.lock, if_pos raises]
              exact .raises taken
                (by simpa [heldCeiling, MutexInner.storeStatus] using raises) rfl rfl
            · simp only [QxkScheduler.lock, if_neg raises]
              exact .joins taken
                (by simpa [heldCeiling, MutexInner.storeStatus] using raises) rfl rfl

theorem unlock_lockCeiling (sched : QxkScheduler) (status : Option SchedStatus) :
    (status.elim sched sched.unlock).lockCeiling =
      match status with
      | some (.locked previous) => min sched.lockCeiling previous
      | _ => sched.lockCeiling := by
  cases status with
  | none => rfl
  | some status =>
      cases status with
      | unlocked => rfl
      | locked previous =>
          simp only [Option.elim, QxkScheduler.unlock]
          split
          · simp only [QxkScheduler.emitTrace]
            omega
          · omega

theorem unlock_keeps (thread : ThreadId) (sched : QxkScheduler) (other : m.owner ≠ some thread) :
    (m.unlock thread sched).2 = (m, sched) := by
  unfold MutexInner.unlock MutexInner.enterUnlock
  rw [if_pos other]

theorem unlock_leaves (thread : ThreadId) (sched : QxkScheduler) (owner : m.owner = some thread) :
    Tidy (m.unlock thread sched).2.1 ∧ heldCeiling (m.unlock thread sched).2.1 = 0 ∧
      savedCeiling (m.unlock thread sched).2.1 = none ∧
      (m.unlock thread sched).2.2.lockCeiling =
        (savedCeiling m).elim sched.lockCeiling fun previous => min sched.lockCeiling previous := by
  have restored := unlock_lockCeiling sched m.ceilingSchedStatus
  have woken (w : Option WaitingThread) (after : QxkScheduler) :
      (w.elim after fun w => after.unblockThread w.id w.priority).lockCeiling =
        after.lockCeiling := by
    cases w <;> rfl
  have saved : (savedCeiling m).elim sched.lockCeiling
      (fun previous => min sched.lockCeiling previous) =
      match m.ceilingSchedStatus with
      | some (.locked previous) => min sched.lockCeiling previous
      | _ => sched.lockCeiling := by
    unfold savedCeiling
    split <;> rfl
  unfold MutexInner.unlock MutexInner.enterUnlock
  rw [saved]
  simp only [owner, ne_eq, not_true_eq_false, if_false]
  cases m.waiting.takeHighest with
  | none => exact ⟨⟨by simp, fun _ => rfl⟩, rfl, rfl, by rw [woken, restored]⟩
  | some entry => exact ⟨⟨by simp, fun _ => rfl⟩, rfl, rfl, by rw [woken, restored]⟩

end Mutex

section Steps

variable [Fintype ι] [DecidableEq ι] {r : CeilingRun ι} {i : ι} {m : MutexInner}
  {sched : QxkScheduler}

omit [Fintype ι] in
theorem view_set {α : Type} (view : MutexInner → α) :
    (fun j => view ((r.set i m sched).mutexes j)) =
      Function.update (fun j => view (r.mutexes j)) i (view m) := by
  funext j
  by_cases here : j = i
  · subst here
    simp [CeilingRun.set]
  · simp [CeilingRun.set, here]

theorem CeilingSound.set (sound : CeilingSound r) (tidy : Tidy m)
    (max : Lib.SavedMax sched.lockCeiling
      (Function.update (fun j => heldCeiling (r.mutexes j)) i (heldCeiling m))
      (Function.update (fun j => savedCeiling (r.mutexes j)) i (savedCeiling m))) :
    CeilingSound (r.set i m sched) := by
  constructor
  · intro j
    by_cases here : j = i
    · subst here
      simpa [CeilingRun.set] using tidy
    · simpa [CeilingRun.set, here] using sound.tidy j
  · rw [view_set heldCeiling, view_set savedCeiling]
    exact max

omit [DecidableEq ι] in
theorem not_exact {j : ι} (above : r.sched.lockCeiling < heldCeiling (r.mutexes j)) :
    ¬ r.Exact := by
  intro exact
  have covered : heldCeiling (r.mutexes j) ≤ Finset.univ.sup fun j => heldCeiling (r.mutexes j) :=
    Finset.le_sup (f := fun j => heldCeiling (r.mutexes j)) (Finset.mem_univ j)
  unfold CeilingRun.Exact at exact
  omega

theorem CeilingSound.keeps (sound : CeilingSound r) (tidy : Tidy m)
    (held : heldCeiling m = heldCeiling (r.mutexes i))
    (saved : savedCeiling m = savedCeiling (r.mutexes i))
    (same : sched.lockCeiling = r.sched.lockCeiling) : CeilingSound (r.set i m sched) := by
  apply sound.set tidy
  rw [held, saved, same]
  have unmoved {α : Type} (f : ι → α) : Function.update f i (f i) = f :=
    Function.update_eq_self i f
  rw [unmoved fun j => heldCeiling (r.mutexes j), unmoved fun j => savedCeiling (r.mutexes j)]
  exact sound.max

theorem CeilingSound.joins (sound : CeilingSound r) (tidy : Tidy m)
    (before : savedCeiling (r.mutexes i) = none) (saved : savedCeiling m = none)
    (low : heldCeiling m ≤ r.sched.lockCeiling) (same : sched.lockCeiling = r.sched.lockCeiling) :
    CeilingSound (r.set i m sched) := by
  apply sound.set tidy
  rw [same, saved]
  have unmoved : Function.update (fun j => savedCeiling (r.mutexes j)) i none =
      fun j => savedCeiling (r.mutexes j) := by
    rw [← before]
    exact Function.update_eq_self i fun j => savedCeiling (r.mutexes j)
  rw [unmoved]
  exact sound.max.replace before low

theorem CeilingSound.raises (sound : CeilingSound r) (tidy : Tidy m)
    (free : (r.mutexes i).locked = false) (high : r.sched.lockCeiling < heldCeiling m)
    (saved : savedCeiling m = some r.sched.lockCeiling)
    (raised : sched.lockCeiling = heldCeiling m) : CeilingSound (r.set i m sched) := by
  apply sound.set tidy
  rw [raised, saved]
  exact sound.max.raise ((sound.tidy i).unsaved free).2 high

/-- `try_lock` keeps the ceiling exact when it does not take a mutex above it, and only then. -/
theorem CeilingSound.tryLock (sound : CeilingSound r) (i : ι) (thread : ThreadId) :
    (Ordered r (.tryLock i thread) → CeilingSound (r.call (.tryLock i thread))) ∧
      ((r.call (.tryLock i thread)).Exact → Ordered r (.tryLock i thread)) := by
  cases taken : (r.mutexes i).locked with
  | true =>
      refine ⟨fun _ => ?_, fun _ => .inl taken⟩
      simp only [CeilingRun.call, tryLock_taken thread taken]
      exact sound.keeps (sound.tidy i) rfl rfl rfl
  | false =>
      rcases tryLock_free (sound.tidy i) thread taken with ⟨tidy, unsaved, held⟩
      constructor
      · intro ordered
        rcases ordered with locked | low
        · rw [taken] at locked
          cases locked
        · exact sound.joins tidy ((sound.tidy i).unsaved taken).2 unsaved (held ▸ low) rfl
      · intro exact
        right
        by_contra high
        apply not_exact (j := i) _ exact
        simp only [CeilingRun.call, CeilingRun.set, Function.update_self, held]
        omega

theorem CeilingSound.lock (sound : CeilingSound r) (i : ι) (thread : ThreadId) (priority : Nat) :
    CeilingSound (r.call (.lock i thread priority)) := by
  rcases lock_moves (sound.tidy i) thread priority r.sched with ⟨tidy, moved⟩
  cases moved with
  | keeps held saved same => exact sound.keeps tidy held saved same
  | joins free low saved same =>
      exact sound.joins tidy ((sound.tidy i).unsaved free).2 saved low same
  | raises free high saved raised => exact sound.raises tidy free high saved raised

/-- `unlock` of a mutex that raised the ceiling restores the ceiling it saved, which is exact when
no other held mutex is above it, and only then. -/
theorem CeilingSound.unlock (sound : CeilingSound r) (i : ι) (thread : ThreadId) :
    (Ordered r (.unlock i thread) → CeilingSound (r.call (.unlock i thread))) ∧
      ((r.call (.unlock i thread)).Exact → Ordered r (.unlock i thread)) := by
  by_cases owner : (r.mutexes i).owner = some thread
  · rcases unlock_leaves thread r.sched owner with ⟨tidy, held, unsaved, restored⟩
    cases saved : savedCeiling (r.mutexes i) with
    | none =>
        rw [saved] at restored
        constructor
        · intro _
          exact sound.joins tidy saved unsaved (held ▸ Nat.zero_le _) restored
        · intro _ _ previous found
          rw [saved] at found
          cases found
    | some previous =>
        have below := (sound.max.raised i previous saved).1
        have within := sound.max.le_top i
        rw [saved] at restored
        have lowered : ((r.mutexes i).unlock thread r.sched).2.2.lockCeiling = previous := by
          simp only [restored, Option.elim]
          omega
        constructor
        · intro ordered
          have after : CeilingSound (r.set i ((r.mutexes i).unlock thread r.sched).2.1
              ((r.mutexes i).unlock thread r.sched).2.2) := by
            apply sound.set tidy
            rw [held, unsaved, lowered]
            exact sound.max.restore saved (ordered owner previous saved)
          exact after
        · intro exact _ found same j other
          rw [saved] at same
          cases same
          by_contra above
          apply not_exact (j := j) _ exact
          simp only [CeilingRun.call, CeilingRun.set, Function.update_of_ne other, lowered]
          omega
  · refine ⟨fun _ => ?_, fun _ held => absurd held owner⟩
    simp only [CeilingRun.call, unlock_keeps thread r.sched owner]
    exact sound.keeps (sound.tidy i) rfl rfl rfl

theorem CeilingSound.call (sound : CeilingSound r) (c : CeilingCall ι) (ordered : Ordered r c) :
    CeilingSound (r.call c) := by
  cases c with
  | tryLock i thread => exact (sound.tryLock i thread).1 ordered
  | lock i thread priority => exact sound.lock i thread priority
  | unlock i thread => exact (sound.unlock i thread).1 ordered

/-- A call that starts with an exact ceiling ends with one exactly when it is in order. -/
theorem exact_call_iff (sound : CeilingSound r) (c : CeilingCall ι) :
    (r.call c).Exact ↔ Ordered r c := by
  refine ⟨?_, fun ordered => (sound.call c ordered).max.exact⟩
  cases c with
  | tryLock i thread => exact (sound.tryLock i thread).2
  | lock i thread priority => exact fun _ => trivial
  | unlock i thread => exact (sound.unlock i thread).2

end Steps

theorem ceilingSound_init [Fintype ι] (ceilings : ι → Option Nat) :
    CeilingSound (CeilingRun.init ceilings) where
  tidy i := by
    refine ⟨?_, fun _ => rfl⟩
    intro thread owner
    cases owner
  max := Lib.SavedMax.empty

/-- The scheduler's ceiling is exact in every run whose calls are all in order. -/
theorem ceiling_exact [Fintype ι] [DecidableEq ι] (ceilings : ι → Option Nat)
    (calls : List (CeilingCall ι)) (r : CeilingRun ι)
    (ordered : Lib.Along CeilingRun.step Ordered (CeilingRun.init ceilings) calls)
    (ran : Lib.run CeilingRun.step (CeilingRun.init ceilings) calls = some r) :
    r.sched.lockCeiling = Finset.univ.sup fun i => heldCeiling (r.mutexes i) := by
  have kept (r : CeilingRun ι) (c : CeilingCall ι) (r' : CeilingRun ι) (sound : CeilingSound r)
      (met : Ordered r c) (stepped : r.step c = some r') : CeilingSound r' := by
    rw [← Option.some.inj stepped]
    exact sound.call c met
  exact (Lib.along_preserves kept (ceilingSound_init ceilings) ordered ran).max.exact

def pairCeilings : Bool → Option Nat
  | false => some 5
  | true => some 10

/-- Both mutexes are locked and released in the opposite order. -/
theorem nested_ceiling_exact :
    ∃ r : CeilingRun Bool, Lib.run CeilingRun.step (CeilingRun.init pairCeilings)
        [.lock false ⟨1⟩ 3, .lock true ⟨1⟩ 3, .unlock true ⟨1⟩] = some r ∧
      r.sched.lockCeiling = 5 ∧
      r.sched.lockCeiling = Finset.univ.sup fun i => heldCeiling (r.mutexes i) := by
  refine ⟨_, rfl, by decide, ?_⟩
  apply ceiling_exact pairCeilings [.lock false ⟨1⟩ 3, .lock true ⟨1⟩ 3, .unlock true ⟨1⟩] _ _ rfl
  refine Lib.along_cons rfl trivial (Lib.along_cons rfl trivial (Lib.along_cons rfl ?_ trivial))
  intro _ previous saved j other
  cases saved
  cases j with
  | false => decide
  | true => exact absurd rfl other

/-- The mutex with ceiling 5 is released first: the ceiling drops to 0 while the other is held. And
a `try_lock` of the mutex with ceiling 10 does not raise the ceiling at all. -/
theorem released_early_not_exact :
    (∃ r : CeilingRun Bool, Lib.run CeilingRun.step (CeilingRun.init pairCeilings)
        [.lock false ⟨1⟩ 3, .lock true ⟨1⟩ 3, .unlock false ⟨1⟩] = some r ∧
      r.sched.lockCeiling = 0 ∧
      (Finset.univ.sup fun i => heldCeiling (r.mutexes i)) = 10) ∧
    ∃ r : CeilingRun Bool, Lib.run CeilingRun.step (CeilingRun.init pairCeilings)
        [.tryLock true ⟨1⟩] = some r ∧
      r.sched.lockCeiling = 0 ∧
      (Finset.univ.sup fun i => heldCeiling (r.mutexes i)) = 10 :=
  ⟨⟨_, rfl, by decide, by decide⟩, ⟨_, rfl, by decide, by decide⟩⟩

end QpRs.Qxk
