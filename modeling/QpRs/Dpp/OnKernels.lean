import QpRs.Dpp.Dining
import QpRs.Qk.Hosting
import QpRs.Qv.Hosting

/-! The dining philosophers on QK, as `build_runtime` registers them, and on QV. -/

namespace QpRs.Dpp

open Hsm Lib

def Party.priority : Party → Nat
  | .table => 10
  | .philo i => i.val + 1

def Party.object (p : Party) : ActiveObjectRef := ⟨p.id, p.priority⟩

def Party.all : List Party := .table :: (List.finRange nPhilo).map .philo

/-- `kernel.register(..)` for the table and then for each philosopher. -/
def qkKernel : Qk.QkKernel :=
  match (do
      let register (b : Qk.QkKernelBuilder) (p : Party) := b.register p.object
      let b ← Party.all.foldlM register .new
      Qk.QkKernel.build b) with
  | .ok (k, _) => k
  | .error _ => .none

def qvKernel (idleCallback : Bool) : Qv.QvKernel :=
  (Party.all.foldl (fun b (p : Party) => b.register p.object)
    (Qv.KernelBuilder.new idleCallback)).build

def Party.ofPriority (prio : Nat) : Option Party := Party.all.find? fun p => p.priority = prio

theorem Party.ofPriority_priority (p : Party) : Party.ofPriority p.priority = some p := by
  cases p with
  | table => rfl
  | philo i =>
      obtain ⟨n, low⟩ := i
      have bound : n < 5 := low
      interval_cases n <;> rfl

theorem Party.priority_of {prio : Nat} {p : Party} (found : Party.ofPriority prio = some p) :
    p.priority = prio := by
  simpa using List.find?_some found

theorem Party.id_of {id : ActiveObjectId} {p : Party} (found : Party.ofId id = some p) :
    p.id = id := by
  unfold Party.ofId msgIndex at found
  split at found
  · rename_i same
    obtain rfl := Option.some.inj found
    exact same.symm
  · split at found
    · split at found
      · obtain rfl := Option.some.inj found
        rename_i above _
        obtain ⟨val⟩ := id
        have sum : philoBaseId + (val - philoBaseId) = val := Nat.add_sub_cancel' above
        exact congrArg ActiveObjectId.mk sum
      · cases found
    · cases found

theorem qk_registered : ∀ prio < 64, qkKernel.Registered prio →
    (Party.ofPriority prio).isSome = true := by decide

theorem qk_finds (p : Party) : qkKernel.idToPrio p.id = some p.priority := by
  cases p with
  | table => rfl
  | philo i =>
      obtain ⟨n, low⟩ := i
      have bound : n < 5 := low
      interval_cases n <;> rfl

def qkDeployment : Qk.Deployment qkKernel Party where
  place := Party.priority
  owner := Party.ofPriority
  ident := Party.id
  party := Party.ofId
  owner_place := Party.ofPriority_priority
  place_owner _ _ := Party.priority_of
  covers p registered := qk_registered p (Qk.registered_lt registered) registered
  party_ident _ _ := Party.id_of
  finds := qk_finds

def Party.ofObject (ao : ActiveObjectRef) : Option Party := Party.all.find? fun p => p.object = ao

theorem Party.ofObject_object (p : Party) : Party.ofObject p.object = some p := by
  cases p with
  | table => rfl
  | philo i =>
      obtain ⟨n, low⟩ := i
      have bound : n < 5 := low
      interval_cases n <;> rfl

theorem Party.object_of {ao : ActiveObjectRef} {p : Party} (found : Party.ofObject ao = some p) :
    p.object = ao := by
  simpa using List.find?_some found

theorem qv_registered (idleCallback : Bool) :
    ∀ ao ∈ (qvKernel idleCallback).objects, (Party.ofObject ao).isSome := by
  cases idleCallback <;> decide

theorem qv_finds (idleCallback : Bool) (p : Party) :
    (qvKernel idleCallback).byId p.id = some p.object := by
  cases p with
  | table => cases idleCallback <;> rfl
  | philo i =>
      obtain ⟨n, low⟩ := i
      have bound : n < 5 := low
      cases idleCallback <;> interval_cases n <;> rfl

def qvDeployment (idleCallback : Bool) : Qv.Deployment (qvKernel idleCallback) Party where
  place := Party.object
  owner := Party.ofObject
  ident := Party.id
  party := Party.ofId
  owner_place := Party.ofObject_object
  place_owner _ _ := Party.object_of
  covers := qv_registered idleCallback
  party_ident _ _ := Party.id_of
  finds := qv_finds idleCallback

/-- What a run on a kernel has to keep: neighbours never have their forks at the same time, the
table's account of the forks is right, and the hunger of each philosopher is in one place. -/
def Orderly (d : Dining) : Prop :=
  (∀ i, ¬(HasForks i d ∧ HasForks (left i) d)) ∧
    (∀ r, (table d).sm.forks r = false ↔ HasForks r d ∨ HasForks (right r) d) ∧
    ∀ i, (requests i d).count (request i hungrySig) + ((table d).sm.hungry i).toNat +
      (grants i d).length = if (philo i d).state.get = some .hungry then 1 else 0

theorem orderly_run {traced : Bool} {answers : Fin nPhilo → Answers}
    {steps : List (Actors.Label Party Answers Outside)} {d : Dining}
    (honest : ∀ l ∈ steps, Honest l)
    (ran : run (dining traced).step (start traced answers) steps = some d) : Orderly d := by
  obtain ⟨phase, a, acc⟩ := accounts_run honest ran
  exact ⟨acc.neighbours, acc.forks_away, acc.hunger⟩

/-- The dinner on QK: it is orderly in every state of every run, whatever QK preempts, and whenever
ticks and commands come in. -/
theorem qk_dinner (traced checks : Bool) (pubsub : Option PubSubTable)
    (answers : Fin nPhilo → Answers)
    (labels : List (HostLabel Party (Qk.Action TableMsg) Answers Outside))
    (within : ∀ l ∈ labels, l.Within Honest)
    (h : Hosted Party Local Event (Qk.World TableMsg))
    (ran : run (Hosted.step (dining traced) (qkDeployment.kernel checks))
      (Qk.hosted pubsub (start traced answers).state) labels = some h) :
    Orderly ⟨h.state, fun p => (h.world.queues p.priority).buf, h.todo⟩ := by
  obtain ⟨-, steps, honest, same⟩ := Qk.hosted_reaches qkDeployment within ran
  exact orderly_run honest same

/-- Aristotle becomes hungry and asks the table, which QK runs next; then he eats. -/
def qkSupper : List (HostLabel Party (Qk.Action TableMsg) Answers Outside) :=
  let due := Qk.Action.call (.post (philoId aristotle) (.emptyDyn timeoutSig))
  let asks := Qk.Action.call (.post tableId (request aristotle hungrySig))
  let serves := Qk.Action.call (.post (philoId aristotle) (.emptyDyn eatSig))
  [.outside (.philo aristotle) .tick due lowest, .outside (.philo aristotle) .tick due lowest,
    .outside (.philo aristotle) .tick due lowest, .other (.call .runUntilIdle) lowest,
    .send asks lowest, .ret .ret lowest, .send serves lowest, .ret .ret lowest]

theorem qkSupper_within : ∀ l ∈ qkSupper, l.Within Honest := by
  simp [qkSupper, HostLabel.Within, Honest]

theorem qkSupper_orderly : ∃ h, run (Hosted.step (dining true) (qkDeployment.kernel true))
      (Qk.hosted none (start true fun _ => lowest).state) qkSupper = some h ∧
    (h.state (.philo aristotle)).state.get = some .eating ∧
    Orderly ⟨h.state, fun p => (h.world.queues p.priority).buf, h.todo⟩ := by
  refine ⟨_, rfl, rfl, ?_⟩
  exact qk_dinner true true none (fun _ => lowest) qkSupper qkSupper_within _ rfl

/-- The supper is one of actors. -/
theorem qkSupper_of_actors : ∃ h steps, (∀ l ∈ steps, Honest l) ∧
    run (Hosted.step (dining true) (qkDeployment.kernel true))
      (Qk.hosted none (start true fun _ => lowest).state) qkSupper = some h ∧
    run (dining true).step (start true fun _ => lowest) steps =
      some ⟨h.state, fun p => (h.world.queues p.priority).buf, h.todo⟩ := by
  obtain ⟨steps, honest, same⟩ := Qk.qk_runs_actors qkKernel qkDeployment true (dining true) none
    (start true fun _ => lowest).state qkSupper Honest qkSupper_within _ rfl
  exact ⟨_, steps, honest, rfl, same⟩

/-- The dinner on QV. -/
theorem qv_dinner (traced checks idleCallback : Bool) (pubsub : Option PubSubTable)
    (answers : Fin nPhilo → Answers)
    (labels : List (HostLabel Party (Qv.Action TableMsg) Answers Outside))
    (within : ∀ l ∈ labels, l.Within Honest)
    (h : Hosted Party Local Event (Qv.World TableMsg))
    (ran : run (Hosted.step (dining traced) ((qvDeployment idleCallback).kernel checks))
      (Qv.hosted pubsub (start traced answers).state) labels = some h) :
    Orderly ⟨h.state, fun p => (h.world.queues p.object).buf, h.todo⟩ := by
  obtain ⟨-, steps, honest, same⟩ := Qv.hosted_reaches (qvDeployment idleCallback) within ran
  exact orderly_run honest same

/-- The same supper on QV. -/
def qvSupper : List (HostLabel Party (Qv.Action TableMsg) Answers Outside) :=
  let due := Qv.Action.call (.post (philoId aristotle) (.emptyDyn timeoutSig))
  let asks := Qv.Action.call (.post tableId (request aristotle hungrySig))
  let serves := Qv.Action.call (.post (philoId aristotle) (.emptyDyn eatSig))
  [.outside (.philo aristotle) .tick due lowest, .outside (.philo aristotle) .tick due lowest,
    .outside (.philo aristotle) .tick due lowest, .other (.call .runUntilIdle) lowest,
    .send asks lowest, .ret .ret lowest, .send serves lowest, .ret .ret lowest]

theorem qvSupper_within : ∀ l ∈ qvSupper, l.Within Honest := by
  simp [qvSupper, HostLabel.Within, Honest]

theorem qvSupper_orderly : ∃ h,
    run (Hosted.step (dining true) ((qvDeployment false).kernel true))
      (Qv.hosted none (start true fun _ => lowest).state) qvSupper = some h ∧
    (h.state (.philo aristotle)).state.get = some .eating ∧
    Orderly ⟨h.state, fun p => (h.world.queues p.object).buf, h.todo⟩ := by
  refine ⟨_, rfl, rfl, ?_⟩
  exact qv_dinner true true false none (fun _ => lowest) qvSupper qvSupper_within _ rfl

/-- The supper on QV is one of actors, too. -/
theorem qvSupper_of_actors : ∃ h steps, (∀ l ∈ steps, Honest l) ∧
    run (Hosted.step (dining true) ((qvDeployment false).kernel true))
      (Qv.hosted none (start true fun _ => lowest).state) qvSupper = some h ∧
    run (dining true).step (start true fun _ => lowest) steps =
      some ⟨h.state, fun p => (h.world.queues p.object).buf, h.todo⟩ := by
  obtain ⟨steps, honest, same⟩ := Qv.qv_runs_actors (qvKernel false) (qvDeployment false) true
    (dining true) none (start true fun _ => lowest).state qvSupper Honest qvSupper_within _ rfl
  exact ⟨_, steps, honest, rfl, same⟩

end QpRs.Dpp
