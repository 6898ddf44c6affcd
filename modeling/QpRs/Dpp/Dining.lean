import QpRs.Dpp.Accounts
import Mathlib.Data.List.Count

/-! What holds in every run of the dining philosophers. -/

namespace QpRs.Dpp

open Hsm Lib Lib.Actors

/-- A philosopher has its forks from the grant of the table until the table takes its `DONE`. -/
def HasForks (i : Fin nPhilo) (c : Dining) : Prop :=
  (philo i c).state.get = some .eating ∨ grants i c ≠ [] ∨ request i doneSig ∈ requests i c

section Safety

variable {c : Dining} {phase : Fin nPhilo → Phase} {a : Arbiter needs} {i : Fin nPhilo}

theorem request_injective {first second : Signal} (same : request i first = request i second) :
    first = second := congrArg DynEvent.signal same

theorem Accounts.hasForks_iff (acc : Accounts c phase a) : HasForks i c ↔ i ∈ a.holders := by
  have done : request i doneSig ∈ requests i c ↔ doneSig ∈ (phase i).requests := by
    rw [acc.asked, List.mem_map]
    constructor
    · intro asked
      obtain ⟨signal, member, same⟩ := asked
      rw [← request_injective same]
      exact member
    · exact fun member => ⟨doneSig, member, rfl⟩
  have granted : grants i c ≠ [] ↔ (phase i).grants ≠ 0 := by
    rw [← acc.answered, Ne, Ne, List.length_eq_zero_iff]
  rw [HasForks, acc.mode, done, granted, acc.holders]
  cases phase i <;> simp [Phase.mode, Phase.requests, Phase.grants, Phase.holds, doneSig, hungrySig]

theorem Accounts.neighbours (acc : Accounts c phase a) (i : Fin nPhilo) :
    ¬(HasForks i c ∧ HasForks (left i) c) := by
  intro both
  have mine := acc.hasForks_iff.mp both.1
  have yours := acc.hasForks_iff.mp both.2
  have apart : i ≠ left i := by
    intro same
    have values := congrArg Fin.val same
    have low := i.isLt
    simp only [left, nPhilo] at values low
    omega
  exact a.exclusive i mine (left i) yours apart ⟨left i, .inr rfl, .inl rfl⟩

theorem Accounts.forks_away (acc : Accounts c phase a) (r : Fin nPhilo) :
    (table c).sm.forks r = false ↔ HasForks r c ∨ HasForks (right r) c := by
  have free := acc.represents.forks r
  rw [acc.hasForks_iff, acc.hasForks_iff, ← Bool.not_eq_true, free]
  constructor
  · intro taken
    unfold Arbiter.Free at taken
    push Not at taken
    obtain ⟨i, held, used⟩ := taken
    rcases used with rfl | rfl
    · exact .inl held
    · rw [right_left]
      exact .inr held
  · intro held free
    rcases held with mine | neighbour
    · exact free r mine (.inl rfl)
    · apply free (right r) neighbour
      right
      exact (left_right r).symm

theorem Accounts.hunger (acc : Accounts c phase a) (i : Fin nPhilo) :
    (requests i c).count (request i hungrySig) + ((table c).sm.hungry i).toNat +
      (grants i c).length = if (philo i c).state.get = some .hungry then 1 else 0 := by
  have waits : (table c).sm.hungry i = decide (phase i = .waiting) := by
    rw [Bool.eq_iff_iff, acc.represents.hungry, acc.waiting, decide_eq_true_iff]
  have asks : (requests i c).count (request i hungrySig) = (phase i).requests.count hungrySig := by
    rw [acc.asked]
    exact List.count_map_of_injective _ (request i) (fun _ _ => request_injective) _
  rw [asks, waits, acc.answered, acc.mode]
  cases phase i <;> rfl

/-- The forks of the table: in every run, two neighbours never have their forks at the same time, a
fork is away from the table exactly when one of its two philosophers has it, and no index is out of
range. -/
theorem forks_accounted (traced : Bool) (answers : Fin nPhilo → Answers)
    (labels : List (Label Party Answers Outside)) (d : Dining)
    (honest : ∀ l ∈ labels, Honest l)
    (ran : run (dining traced).step (start traced answers) labels = some d) :
    (∀ i, ¬(HasForks i d ∧ HasForks (left i) d)) ∧
      (∀ r, (table d).sm.forks r = false ↔ HasForks r d ∨ HasForks (right r) d) ∧
      (table d).sm.panicked = false := by
  obtain ⟨phase, a, acc⟩ := accounts_run honest ran
  exact ⟨acc.neighbours, acc.forks_away, acc.sound⟩

def aristotle : Fin nPhilo := ⟨0, nPhilo_pos⟩

def kant : Fin nPhilo := left aristotle

def lowest : Answers := ⟨⟨fun low _ => low, fun low _ le => ⟨Nat.le_refl low, le⟩⟩, none⟩

/-- Three ticks make a philosopher hungry, and the table takes its request. -/
def asksForForks (i : Fin nPhilo) : List (Label Party Answers Outside) :=
  [.outside (.philo i) .tick, .outside (.philo i) .tick, .outside (.philo i) .tick,
    .take (.philo i) lowest, .send (.philo i), .take .table lowest]

/-- Aristotle gets his forks and eats, Kant has to wait. -/
def firstDinner : List (Label Party Answers Outside) :=
  asksForForks aristotle ++ [.send .table, .take (.philo aristotle) lowest] ++ asksForForks kant

theorem firstDinner_fair : ∀ l ∈ firstDinner, Honest l ∧ Unprobed l := by
  simp [firstDinner, asksForForks, Honest, Unprobed, lowest]

theorem firstDinner_honest : ∀ l ∈ firstDinner, Honest l :=
  fun l member => (firstDinner_fair l member).1

/-- The first dinner ends with Aristotle eating and Kant waiting for their common fork. -/
theorem firstDinner_forks_accounted : ∃ d, run (dining true).step (start true fun _ => lowest)
      firstDinner = some d ∧ HasForks aristotle d ∧ (table d).sm.hungry kant = true ∧
    ¬(HasForks aristotle d ∧ HasForks (left aristotle) d) := by
  refine ⟨_, rfl, .inl rfl, rfl, ?_⟩
  exact (forks_accounted true (fun _ => lowest) firstDinner _ firstDinner_honest rfl).1 aristotle

/-- An `EAT` that the command channel posts to Kant, hungry in vain, lets him eat beside
Aristotle. -/
theorem forged_grant_shares_fork : ∃ d, run (dining true).step (start true fun _ => lowest)
      (firstDinner ++ [.outside (.philo kant) (.command eatSig), .take (.philo kant) lowest]) =
        some d ∧ HasForks aristotle d ∧ HasForks (left aristotle) d :=
  ⟨_, rfl, .inl rfl, .inl rfl⟩

/-- Hunger is in one place: while a philosopher is hungry, either its request is on its way, or the
table has it down as waiting, or its grant is on its way; and there is nothing of these while it
is not hungry. -/
theorem hunger_in_one_place (traced : Bool) (answers : Fin nPhilo → Answers)
    (labels : List (Label Party Answers Outside)) (d : Dining)
    (honest : ∀ l ∈ labels, Honest l)
    (ran : run (dining traced).step (start traced answers) labels = some d) (i : Fin nPhilo) :
    (requests i d).count (request i hungrySig) + ((table d).sm.hungry i).toNat +
      (grants i d).length = if (philo i d).state.get = some .hungry then 1 else 0 := by
  obtain ⟨phase, a, acc⟩ := accounts_run honest ran
  exact acc.hunger i

theorem firstDinner_hunger_in_one_place : ∃ d, run (dining true).step
      (start true fun _ => lowest) firstDinner = some d ∧ (table d).sm.hungry kant = true ∧
    (requests kant d).count (request kant hungrySig) + ((table d).sm.hungry kant).toNat +
      (grants kant d).length = 1 := by
  refine ⟨_, rfl, rfl, ?_⟩
  exact hunger_in_one_place true (fun _ => lowest) firstDinner _ firstDinner_honest rfl kant

end Safety

section Records

variable {answers : Answers} {p : PhiloData} {e : Event}

def PhiloState.succ : PhiloState → PhiloState
  | .thinking => .hungry
  | .hungry => .eating
  | .eating => .thinking

def PhiloState.text : PhiloState → String
  | .thinking => "thinking"
  | .hungry => "hungry"
  | .eating => "eating"

def turn : Nat → PhiloState
  | 0 => .thinking
  | n + 1 => (turn n).succ

end Records

section Progress

variable {answers : Answers} {p : PhiloData} {e : Event} {c d : Dining}

/-- A philosopher that is not hungry will move by itself: its timer runs, or has expired. -/
def Ticking (i : Fin nPhilo) (c : Dining) : Prop :=
  (philo i c).state.get = some .hungry ∨ (philo i c).sm.timer.armed = true ∨
    ∃ e ∈ c.mailbox (.philo i), e.signal = timeoutSig

theorem philoNext_timer (answers : Answers) (s : PhiloState) (unprobed : answers.probe.getD 0 = 0)
    (entry : e.signal ≠ qEntrySig) (exit : e.signal ≠ qExitSig) :
    (philoNext answers s p e).1 = .hungry ∨ (philoNext answers s p e).2.timer.armed = true ∨
      e.signal ≠ timeoutSig ∧ philoNext answers s p e = (s, p) := by
  have apart {n : Nat} (other : e.signal ≠ ⟨n⟩) (same : e.signal.val = n) : False :=
    other (congrArg Signal.mk same)
  by_cases timeout : e.signal = timeoutSig
  · cases s with
    | thinking => exact .inl (by simp [philoNext, timeout, timeoutSig, unprobed])
    | hungry => exact .inl (by simp [philoNext, timeout, timeoutSig])
    | eating =>
        refine .inr (.inl ?_)
        simp [philoNext, timeout, timeoutSig, PhiloData.logState, PhiloData.armTimer, TimeEvent.arm]
  · by_cases eat : e.signal = eatSig
    · cases s with
      | thinking =>
          exact .inr (.inr ⟨timeout, by simp [philoNext, eat, eatSig]⟩)
      | hungry =>
          refine .inr (.inl ?_)
          simp [philoNext, eat, eatSig, PhiloData.logState, PhiloData.armTimer, TimeEvent.arm]
      | eating => exact .inr (.inr ⟨timeout, by simp [philoNext, eat, eatSig]⟩)
    · exact .inr (.inr ⟨timeout, philoNext_other entry exit eat timeout⟩)

theorem pollTimer_armed {i : Fin nPhilo} {m : PhiloHsm} (owns : Owns i m.sm)
    (armed : m.sm.timer.armed = true) :
    (pollTimer i m).1.sm.timer.armed = true ∨
      (pollTimer i m).2 = some (.emptyDyn timeoutSig) := by
  by_cases due : m.sm.timer.remaining ≤ 1
  · right
    have expired := TimeEvent.poll_expires (π := TableMsg) armed due
    simp [pollTimer, expired, owns.target, owns.signal]
  · left
    have waits := TimeEvent.poll_waits (π := TableMsg) armed (Nat.lt_of_not_le due)
    simp [pollTimer, waits, armed]

theorem ticking_step {traced : Bool} {l : Label Party Answers Outside}
    {phase : Fin nPhilo → Phase} {a : Arbiter needs} (acc : Accounts c phase a)
    (unprobed : Unprobed l) (before : ∀ i, Ticking i c)
    (stepped : (dining traced).step c l = some d) (i : Fin nPhilo) : Ticking i d := by
  rcases step_cases stepped with ⟨q, answers, e, rest, m, out, rfl, first, -, handled, rfl⟩ |
    ⟨q, r, e, rest, -, -, rfl⟩ | ⟨q, o, m, arrived, -, happens, rfl⟩
  · by_cases here : q = .philo i
    · subst here
      have fits : Fits (.philo i) e := acc.addressed.mailbox _ e (by rw [first]; simp)
      obtain ⟨n, dispatched, state, sm⟩ := philo_dispatch traced answers (acc.mode i) e
      have done : some (n, route n.sm.posts) = some (m, out) := by
        rw [← handled]
        show _ = (philoDispatch traced answers (philo i c) e).toOption.map _
        rw [dispatched]
        rfl
      obtain ⟨rfl, -⟩ := Prod.mk.inj (Option.some.inj done)
      have now : philo i (c.take (.philo i) rest n out) = n := Function.update_self _ _ _
      unfold Ticking
      rw [now, state, sm]
      rcases philoNext_timer answers (p := { (philo i c).sm with posts := [] })
        (phase i).mode unprobed fits.1 fits.2 with hungry | armed | ⟨other, still⟩
      · exact .inl (congrArg some hungry)
      · exact .inr (.inl armed)
      · rw [still]
        rcases before i with hungry | armed | ⟨due, member, signal⟩
        · rw [acc.mode] at hungry
          exact .inl hungry
        · exact .inr (.inl armed)
        · refine .inr (.inr ⟨due, ?_, signal⟩)
          rw [first] at member
          show due ∈ Function.update c.mailbox (Party.philo i) rest (.philo i)
          rw [Function.update_self]
          rcases List.mem_cons.mp member with rfl | later
          · exact absurd signal other
          · exact later
    · have state : philo i (c.take q rest m out) = philo i c :=
        Function.update_of_ne (Ne.symm here) _ _
      have mail : (c.take q rest m out).mailbox (.philo i) = c.mailbox (.philo i) :=
        Function.update_of_ne (Ne.symm here) _ _
      unfold Ticking
      rw [state, mail]
      exact before i
  · rcases before i with hungry | armed | ⟨due, member, signal⟩
    · exact .inl hungry
    · exact .inr (.inl armed)
    · refine .inr (.inr ⟨due, ?_, signal⟩)
      show due ∈ Function.update c.mailbox r (c.mailbox r ++ [e]) (.philo i)
      by_cases here : r = .philo i
      · rw [here, Function.update_self]
        exact List.mem_append_left _ member
      · rw [Function.update_of_ne (Ne.symm here)]
        exact member
  · have grown {due : Event} (member : due ∈ c.mailbox (.philo i)) :
        due ∈ (c.outside q m arrived).mailbox (.philo i) := by
      show due ∈ Function.update c.mailbox q (c.mailbox q ++ arrived.toList) (.philo i)
      by_cases here : q = .philo i
      · rw [here, Function.update_self]
        exact List.mem_append_left _ member
      · rw [Function.update_of_ne (Ne.symm here)]
        exact member
    by_cases here : q = .philo i
    · subst here
      have now : philo i (c.outside (.philo i) m arrived) = m := Function.update_self _ _ _
      rcases before i with hungry | armed | ⟨due, member, signal⟩
      · left
        rw [now]
        cases o with
        | tick =>
            obtain ⟨rfl, -⟩ := Prod.mk.inj (Option.some.inj happens)
            exact hungry
        | command signal =>
            obtain ⟨rfl, -⟩ := Prod.mk.inj (Option.some.inj happens)
            exact hungry
      · right
        rw [now]
        cases o with
        | tick =>
            obtain ⟨rfl, rfl⟩ := Prod.mk.inj (Option.some.inj happens)
            rcases pollTimer_armed (acc.owns i) armed with still | expired
            · exact .inl still
            · refine .inr ⟨.emptyDyn timeoutSig, ?_, rfl⟩
              show _ ∈ Function.update c.mailbox (Party.philo i) _ (.philo i)
              rw [Function.update_self]
              apply List.mem_append_right
              rw [Option.mem_toList]
              exact expired
        | command signal =>
            obtain ⟨rfl, -⟩ := Prod.mk.inj (Option.some.inj happens)
            exact .inl armed
      · exact .inr (.inr ⟨due, grown member, signal⟩)
    · have state : philo i (c.outside q m arrived) = philo i c :=
        Function.update_of_ne (Ne.symm here) _ _
      unfold Ticking
      rw [state]
      rcases before i with hungry | armed | ⟨due, member, signal⟩
      · exact .inl hungry
      · exact .inr (.inl armed)
      · exact .inr (.inr ⟨due, grown member, signal⟩)

/-- No event is on its way. -/
def Quiet (c : Dining) : Prop := ∀ q, c.mailbox q = [] ∧ c.outbox q = []

theorem Accounts.quiet_phase {phase : Fin nPhilo → Phase} {a : Arbiter needs}
    (acc : Accounts c phase a) (quiet : Quiet c) (i : Fin nPhilo) :
    phase i = .thinking ∨ phase i = .waiting ∨ phase i = .eating := by
  have asked : requests i c = [] := by
    simp [requests, channel, (quiet .table).1, (quiet (.philo i)).2]
  have answered : grants i c = [] := by
    simp [grants, channel, (quiet .table).2, (quiet (.philo i)).1]
  have none_asked : (phase i).requests = [] := by
    have mapped := acc.asked i
    rw [asked] at mapped
    exact List.map_eq_nil_iff.mp mapped.symm
  have none_granted : (phase i).grants = 0 := by
    rw [← acc.answered i, answered]
    rfl
  cases now : phase i <;> simp [now, Phase.requests, Phase.grants] at none_asked none_granted ⊢

/-- The dinner never stops by itself: when the table is serving and no event is on its way, a
hungry philosopher has a neighbour who is eating, and the timer of every other philosopher runs. -/
theorem dinner_goes_on (traced : Bool) (answers : Fin nPhilo → Answers)
    (labels : List (Label Party Answers Outside)) (d : Dining)
    (honest : ∀ l ∈ labels, Honest l ∧ Unprobed l)
    (ran : run (dining traced).step (start traced answers) labels = some d)
    (serving : (table d).state.get = some .serving) (quiet : Quiet d) (i : Fin nPhilo) :
    ((philo i d).state.get = some .hungry ∧ ∃ j, (j = left i ∨ j = right i) ∧
        (philo j d).state.get = some .eating ∧ (philo j d).sm.timer.armed = true) ∨
      (philo i d).sm.timer.armed = true := by
  have begin : (∃ phase a, Accounts (start traced answers) phase a) ∧
      ∀ i, Ticking i (start traced answers) := by
    obtain ⟨a, acc⟩ := accounts_start traced answers
    refine ⟨⟨_, a, acc⟩, ?_⟩
    intro i
    have sm : (philo i (start traced answers)).sm = _ := (start_philo traced answers i).2
    refine .inr (.inl ?_)
    rw [sm]
    rfl
  have step (c : Dining) (l : Label Party Answers Outside) (d : Dining)
      (before : (∃ phase a, Accounts c phase a) ∧ ∀ i, Ticking i c) (met : Honest l ∧ Unprobed l)
      (stepped : (dining traced).step c l = some d) :
      (∃ phase a, Accounts d phase a) ∧ ∀ i, Ticking i d := by
    obtain ⟨⟨phase, a, acc⟩, ticking⟩ := before
    exact ⟨acc.step met.1 stepped, ticking_step acc met.2 ticking stepped⟩
  obtain ⟨⟨phase, a, acc⟩, ticking⟩ := along_preserves step begin (along_of_mem _ honest) ran
  have runs (j : Fin nPhilo) (other : (philo j d).state.get ≠ some .hungry) :
      (philo j d).sm.timer.armed = true := by
    rcases ticking j with hungry | armed | ⟨due, member, -⟩
    · exact absurd hungry other
    · exact armed
    · rw [(quiet (.philo j)).1] at member
      cases member
  by_cases hungry : (philo i d).state.get = some .hungry
  · left
    refine ⟨hungry, ?_⟩
    have waits : phase i = .waiting := by
      rcases acc.quiet_phase quiet i with thinking | waiting | eating
      · rw [acc.mode, thinking] at hungry
        cases hungry
      · exact waiting
      · rw [acc.mode, eating] at hungry
        cases hungry
    obtain ⟨s, here, -, settled⟩ := acc.leaf
    have settled := settled (Option.some.inj (here.symm.trans serving))
    obtain ⟨j, held, shared⟩ := Arbiter.blocked (settled i ((acc.waiting i).mpr waits))
    have eats : phase j = .eating := by
      have holds := (acc.holders j).mp held
      rcases acc.quiet_phase quiet j with thinking | waiting | eating
      · rw [thinking] at holds
        cases holds
      · rw [waiting] at holds
        cases holds
      · exact eating
    have eating : (philo j d).state.get = some .eating := by rw [acc.mode, eats]; rfl
    refine ⟨j, ?_, eating, runs j (by rw [eating]; simp)⟩
    rcases shares_fork shared with same | neighbour
    · rw [same, waits] at eats
      cases eats
    · exact neighbour.symm
  · exact .inr (runs i hungry)

/-- At the end of the first dinner Kant waits for Aristotle. -/
theorem firstDinner_goes_on : ∃ d, run (dining true).step (start true fun _ => lowest)
      firstDinner = some d ∧ (philo kant d).sm.timer.armed = false ∧
    (((philo kant d).state.get = some .hungry ∧ ∃ j, (j = left kant ∨ j = right kant) ∧
        (philo j d).state.get = some .eating ∧ (philo j d).sm.timer.armed = true) ∨
      (philo kant d).sm.timer.armed = true) := by
  refine ⟨_, rfl, rfl, ?_⟩
  refine dinner_goes_on true (fun _ => lowest) firstDinner _ firstDinner_fair rfl rfl ?_ kant
  intro q
  cases q with
  | table => exact ⟨rfl, rfl⟩
  | philo i =>
      obtain ⟨n, low⟩ := i
      have bound : n < 5 := low
      interval_cases n <;> exact ⟨rfl, rfl⟩

end Progress

end QpRs.Dpp
