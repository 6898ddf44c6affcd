import QpRs.Dpp.System
import QpRs.Dpp.Forks

/-! The phases of a philosopher, the requests and grants on their way, and what the table answers to
an event. -/

namespace QpRs.Dpp

open Hsm Lib Lib.Actors

/-- Where a philosopher is between two thoughts. The events on their way are part of it: `leaving`
is back to thinking with its `DONE` not yet taken by the table. -/
inductive Phase where
  | thinking
  | leaving
  | asking
  | leavingAsking
  | waiting
  | served
  | eating
  deriving DecidableEq, Repr

namespace Phase

def mode : Phase → PhiloState
  | .thinking => .thinking
  | .leaving => .thinking
  | .asking => .hungry
  | .leavingAsking => .hungry
  | .waiting => .hungry
  | .served => .hungry
  | .eating => .eating

/-- The requests that the table has not taken, the oldest first. -/
def requests : Phase → List Signal
  | .leaving => [doneSig]
  | .asking => [hungrySig]
  | .leavingAsking => [doneSig, hungrySig]
  | _ => []

/-- The `EAT` events that the philosopher has not taken. -/
def grants : Phase → Nat
  | .served => 1
  | _ => 0

def holds : Phase → Bool
  | .leaving => true
  | .leavingAsking => true
  | .served => true
  | .eating => true
  | _ => false

end Phase

def request (i : Fin nPhilo) (signal : Signal) : Event := .withPayload signal ⟨philoId i⟩

def fromPhilo (i : Fin nPhilo) (e : Event) : Bool := e.payload = .value ⟨philoId i⟩

def isEat (e : Event) : Bool := e.signal = eatSig

def requests (i : Fin nPhilo) (c : Dining) : List Event := channel (fromPhilo i) (.philo i) .table c

def grants (i : Fin nPhilo) (c : Dining) : List Event := channel isEat .table (.philo i) c

def table (c : Dining) : TableHsm := c.state .table

def philo (i : Fin nPhilo) (c : Dining) : PhiloHsm := c.state (.philo i)

def Fits : Party → Event → Prop
  | .table, e => e.payload = .unit ∨ ∃ i, e = request i hungrySig ∨ e = request i doneSig
  | .philo _, e => e.signal ≠ qEntrySig ∧ e.signal ≠ qExitSig

def Sends : Party → Party × Event → Prop
  | .table, o => ∃ i, o = (.philo i, .emptyDyn eatSig)
  | .philo i, o => o = (.table, request i hungrySig) ∨ o = (.table, request i doneSig)

/-- Nothing from outside looks to a philosopher like a grant of the table or like an entry or exit
of its own state machine. -/
def Honest : Label Party Answers Outside → Prop
  | .outside (.philo _) (.command signal) =>
      signal ≠ qEntrySig ∧ signal ≠ qExitSig ∧ signal ≠ eatSig
  | _ => True

/-- No test probe swallows a timeout. -/
def Unprobed : Label Party Answers Outside → Prop
  | .take (.philo _) answers => answers.probe.getD 0 = 0
  | _ => True

section Messages

variable {i j : Fin nPhilo} {c : Dining}

theorem philoId_injective (same : philoId i = philoId j) : i = j := by
  apply Fin.ext
  have values := congrArg ActiveObjectId.val same
  simpa [philoId] using values

theorem fromPhilo_request (signal : Signal) : fromPhilo i (request j signal) = decide (i = j) := by
  have payloads : fromPhilo i (request j signal) =
      decide ((DynPayload.value ⟨philoId j⟩ : DynPayload TableMsg) = .value ⟨philoId i⟩) := rfl
  rw [payloads, decide_eq_decide, DynPayload.value.injEq, TableMsg.mk.injEq]
  exact ⟨fun same => (philoId_injective same).symm, fun same => by rw [same]⟩

@[simp] theorem fromPhilo_emptyDyn (signal : Signal) :
    fromPhilo i (.emptyDyn signal) = false := rfl

theorem sends_fits (p : Party) (o : Party × Event) (sends : Sends p o) : Fits o.1 o.2 := by
  cases p with
  | table =>
      obtain ⟨i, rfl⟩ := sends
      have user : IsUser (.emptyDyn eatSig : Event) := by decide
      exact ⟨(user_not_reserved user).2.1, (user_not_reserved user).2.2.1⟩
  | philo i =>
      rcases sends with rfl | rfl
      · exact .inr ⟨i, .inl rfl⟩
      · exact .inr ⟨i, .inr rfl⟩

theorem owned_requests (addressed : Addressed Fits Sends c) :
    Owned (fromPhilo i) (.philo i) .table c := by
  intro k other e member
  have sent := addressed.outbox k _ (mem_sentTo.mp member)
  cases k with
  | table =>
      obtain ⟨j, same⟩ := sent
      cases congrArg Prod.fst same
  | philo j =>
      have apart : ¬i = j := by
        intro same
        rw [same] at other
        exact other rfl
      rcases sent with same | same
      · rw [(Prod.mk.inj same).2, fromPhilo_request]
        exact decide_eq_false apart
      · rw [(Prod.mk.inj same).2, fromPhilo_request]
        exact decide_eq_false apart

theorem owned_grants (addressed : Addressed Fits Sends c) :
    Owned isEat .table (.philo i) c := by
  intro k other e member
  have sent := addressed.outbox k _ (mem_sentTo.mp member)
  cases k with
  | table => exact absurd rfl other
  | philo j =>
      rcases sent with same | same
      · cases congrArg Prod.fst same
      · cases congrArg Prod.fst same

end Messages

section Handlers

variable {t u : TableData} {a : Arbiter needs} {i : Fin nPhilo} {s : TableState} {e : Event}

theorem Represents.emitPaused (represents : Represents t a) (value : Nat) :
    Represents (t.emitPaused value) a := ⟨represents.forks, represents.hungry⟩

/-- What the table does with an event: it goes from the arbiter that the event leaves to one that
has served, and while it is serving nobody waits for free forks. -/
def Answered (s : TableState) (t : TableData) (e : Event) (a : Arbiter needs) : Prop :=
  ∃ b granted, Serves t (tableNext s t e).2 a b granted ∧ (tableNext s t e).1 ≠ .active ∧
    ((tableNext s t e).1 = .serving → b.Settled)

theorem serves_still (represents : Represents u a) (posts : u.posts = t.posts)
    (panicked : u.panicked = t.panicked) : Serves t u a a [] :=
  ⟨represents, .refl a, by simpa using posts, panicked⟩

theorem answered_unit (leaf : s ≠ .active) (represents : Represents t a)
    (settled : s = .serving → a.Settled) (unit : e.payload = .unit) : Answered s t e a := by
  have skipped (body : TableData → Fin nPhilo → TableData) : t.withMsg e body = t := by
    simp [TableData.withMsg, unit]
  have same : Answered s t e a ∨ (tableNext s t e) = (s, t) ∨
      (∃ value, tableNext s t e = (.paused, t.emitPaused value)) ∨
      tableNext s t e = (.serving, t.serveAll) ∨
      tableNext s t e = (.serving, (t.emitPaused 0).serveAll) := by
    unfold tableNext
    split <;> simp [skipped]
  rcases same with done | still | ⟨value, emitted⟩ | served | resumed
  · exact done
  · rw [Answered, still]
    exact ⟨a, [], serves_still represents rfl rfl, leaf, settled⟩
  · rw [Answered, emitted]
    exact ⟨a, [], serves_still (represents.emitPaused value) rfl rfl, nofun, nofun⟩
  · obtain ⟨b, granted, serves, all⟩ := serves_all represents
    rw [Answered, served]
    exact ⟨b, granted, serves, nofun, fun _ => all⟩
  · obtain ⟨b, granted, serves, all⟩ := serves_all (represents.emitPaused 0)
    rw [Answered, resumed]
    exact ⟨b, granted, ⟨serves.represents, serves.serving, serves.posts, serves.panicked⟩, nofun,
      fun _ => all⟩

theorem withMsg_request (signal : Signal) (body : TableData → Fin nPhilo → TableData) :
    t.withMsg (request i signal) body = body t i := by
  have index : msgIndex ⟨philoId i⟩ = some i := by simp [msgIndex, philoId]
  simp [TableData.withMsg, request, DynEvent.withPayload, index]

theorem answered_hungry (leaf : s ≠ .active) (represents : Represents t a)
    (settled : s = .serving → a.Settled) (unserved : i ∉ a.holders) :
    Answered s t (request i hungrySig) (a.wait i unserved) := by
  cases s with
  | active => exact absurd rfl leaf
  | serving =>
      obtain ⟨b, granted, serves, kept⟩ := handles_hungry represents unserved
      have next : tableNext .serving t (request i hungrySig) = (.serving, t.handleHungry i) :=
        congrArg (Prod.mk TableState.serving) (withMsg_request hungrySig _)
      rw [Answered, next]
      exact ⟨b, granted, serves, nofun, fun _ => kept (settled rfl)⟩
  | paused =>
      have next : tableNext .paused t (request i hungrySig) = (.paused, t.setHungry i) :=
        congrArg (Prod.mk TableState.paused) (withMsg_request hungrySig _)
      rw [Answered, next]
      exact ⟨_, [], serves_still (represents.setHungry unserved) rfl rfl, nofun, nofun⟩

theorem answered_done (leaf : s ≠ .active) (represents : Represents t a)
    (settled : s = .serving → a.Settled) (held : i ∈ a.holders) :
    Answered s t (request i doneSig) (a.release i) := by
  cases s with
  | active => exact absurd rfl leaf
  | serving =>
      obtain ⟨b, granted, serves, kept⟩ := handles_done represents held
      have next : tableNext .serving t (request i doneSig) = (.serving, t.handleDone i) :=
        congrArg (Prod.mk TableState.serving) (withMsg_request doneSig _)
      rw [Answered, next]
      exact ⟨b, granted, serves, nofun, fun _ => kept (settled rfl)⟩
  | paused =>
      have next : tableNext .paused t (request i doneSig) = (.paused, t.releaseForks i) :=
        congrArg (Prod.mk TableState.paused) (withMsg_request doneSig _)
      rw [Answered, next]
      exact ⟨_, [], serves_still (represents.releaseForks held) rfl rfl, nofun, nofun⟩

end Handlers

end QpRs.Dpp
