import QpRs.Dpp.Phases

/-! The invariant of the dining philosophers: a phase for each philosopher and an arbiter for the
table account for every event on its way. -/

namespace QpRs.Dpp

open Hsm Lib Lib.Actors

structure Owns (i : Fin nPhilo) (p : PhiloData) : Prop where
  index : p.index = i
  target : p.timer.target = philoId i
  signal : p.timer.cfg.signal = timeoutSig

section Owns

variable {i : Fin nPhilo} {p : PhiloData}

theorem Owns.of_eq {q : PhiloData} (owns : Owns i p) (index : q.index = p.index)
    (timer : q.timer = p.timer) : Owns i q where
  index := index.trans owns.index
  target := by rw [timer, owns.target]
  signal := by rw [timer, owns.signal]

theorem Owns.armTimer (owns : Owns i p) (ticks : Nat) : Owns i (p.armTimer ticks) :=
  ⟨owns.index, owns.target, owns.signal⟩

theorem disarm_config (ev : TimeEvent) :
    ev.disarm.target = ev.target ∧ ev.disarm.cfg = ev.cfg := by
  unfold TimeEvent.disarm
  split <;> exact ⟨rfl, rfl⟩

theorem Owns.disarmTimer (owns : Owns i p) : Owns i p.disarmTimer where
  index := owns.index
  target := (disarm_config p.timer).1.trans owns.target
  signal := (congrArg TimeEventConfig.signal (disarm_config p.timer).2).trans owns.signal

theorem poll_config (ev : TimeEvent) :
    (ev.poll TableMsg).2.target = ev.target ∧ (ev.poll TableMsg).2.cfg = ev.cfg := by
  cases armed : ev.armed with
  | false =>
      rw [TimeEvent.poll_unarmed armed]
      exact ⟨rfl, rfl⟩
  | true =>
      by_cases due : ev.remaining ≤ 1
      · rw [TimeEvent.poll_expires armed due]
        exact ⟨rfl, rfl⟩
      · rw [TimeEvent.poll_waits armed (Nat.lt_of_not_le due)]
        exact ⟨rfl, rfl⟩

theorem poll_signal {ev : TimeEvent} {post : ActiveObjectId × Event}
    (expired : (ev.poll TableMsg).1 = some post) : post = (ev.target, .emptyDyn ev.cfg.signal) := by
  cases armed : ev.armed with
  | false =>
      rw [TimeEvent.poll_unarmed armed] at expired
      cases expired
  | true =>
      by_cases due : ev.remaining ≤ 1
      · rw [TimeEvent.poll_expires armed due] at expired
        exact (Option.some.inj expired).symm
      · rw [TimeEvent.poll_waits armed (Nat.lt_of_not_le due)] at expired
        cases expired

end Owns

/-- The phases of the philosophers and the arbiter of the table account for a state of the
system. -/
structure Accounts (c : Dining) (phase : Fin nPhilo → Phase) (a : Arbiter needs) : Prop where
  leaf : ∃ s, (table c).state.get = some s ∧ s ≠ .active ∧ (s = .serving → a.Settled)
  represents : Represents (table c).sm a
  sound : (table c).sm.panicked = false
  mode : ∀ i, (philo i c).state.get = some (phase i).mode
  owns : ∀ i, Owns i (philo i c).sm
  asked : ∀ i, requests i c = (phase i).requests.map (request i)
  answered : ∀ i, (grants i c).length = (phase i).grants
  waiting : ∀ i, i ∈ a.waiting ↔ phase i = .waiting
  holders : ∀ i, i ∈ a.holders ↔ (phase i).holds = true
  addressed : Addressed Fits Sends c

section Table

variable {c : Dining} {phase : Fin nPhilo → Phase} {a : Arbiter needs}

theorem route_grants (granted : List (Fin nPhilo)) :
    route (granted.map fun i => (philoId i, (.emptyDyn eatSig : Event))) =
      granted.map fun i => (.philo i, .emptyDyn eatSig) := by
  induction granted with
  | nil => rfl
  | cons i rest ih =>
      rw [List.map_cons, List.map_cons, ← ih]
      exact route_cons (.philo i) _ _

theorem sentTo_grants {granted : List (Fin nPhilo)} (once : granted.Nodup) (i : Fin nPhilo) :
    ((sentTo (.philo i) (granted.map fun i =>
      ((.philo i : Party), (.emptyDyn eatSig : Event)))).filter isEat).length =
        if i ∈ granted then 1 else 0 := by
  induction granted with
  | nil => rfl
  | cons j rest ih =>
      obtain ⟨fresh, once⟩ := List.nodup_cons.mp once
      have later := ih once
      by_cases here : j = i
      · subst here
        rw [if_neg fresh] at later
        rw [List.map_cons, sentTo_self, if_pos List.mem_cons_self,
          List.filter_cons_of_pos (by rfl), List.length_cons, later]
      · have apart : (Party.philo j : Party) ≠ .philo i := by
          intro same
          exact here (Party.philo.inj same)
        rw [List.map_cons, sentTo_of_ne apart, later]
        simp [Ne.symm here]

/-- The table takes an event: `phase'` and `a'` are what the event leaves before anybody is
served. -/
theorem Accounts.take_table {e : Event} {rest : List Event} {m : TableHsm}
    {out : List (Party × Event)} {traced : Bool} {answers : Answers} (acc : Accounts c phase a)
    (phase' : Fin nPhilo → Phase) (a' : Arbiter needs) (first : c.mailbox .table = e :: rest)
    (sent : c.outbox .table = [])
    (handled : (dining traced).handle .table answers (c.state .table) e = some (m, out))
    (answered : ∀ s, (table c).state.get = some s → s ≠ .active → (s = .serving → a.Settled) →
      Answered s { (table c).sm with posts := [] } e a')
    (mode : ∀ i, (phase' i).mode = (phase i).mode)
    (taken : ∀ i, (if fromPhilo i e then [e] else []) ++ (phase' i).requests.map (request i) =
      (phase i).requests.map (request i))
    (grants : ∀ i, (phase' i).grants = (phase i).grants)
    (waiting : ∀ i, i ∈ a'.waiting ↔ phase' i = .waiting)
    (holders : ∀ i, i ∈ a'.holders ↔ (phase' i).holds = true) :
    ∃ phase b, Accounts (c.take .table rest m out) phase b := by
  obtain ⟨s, here, leaf, settled⟩ := acc.leaf
  obtain ⟨b, granted, serves, after_leaf, after_settled⟩ := answered s here leaf settled
  obtain ⟨n, dispatched, state, sm⟩ := table_dispatch traced here leaf e
  have done : some (n, route n.sm.posts) = some (m, out) := by
    rw [← handled]
    show _ = (tableDispatch traced (table c) e).toOption.map _
    rw [dispatched]
    rfl
  obtain ⟨rfl, rfl⟩ := Prod.mk.inj (Option.some.inj done)
  have posts : route n.sm.posts = granted.map fun i => (.philo i, .emptyDyn eatSig) := by
    rw [sm, serves.posts]
    exact route_grants granted
  have addressed : Addressed Fits Sends (c.take .table rest n (route n.sm.posts)) := by
    apply acc.addressed.take first
    rw [posts]
    intro o member
    obtain ⟨i, -, rfl⟩ := List.mem_map.mp member
    exact ⟨i, rfl⟩
  refine ⟨fun i => if i ∈ granted then .served else phase' i, b, ?_⟩
  have waited (i : Fin nPhilo) (member : i ∈ granted) : phase' i = .waiting :=
    (waiting i).mp (serves.serving.waited i member)
  refine ⟨⟨_, state, after_leaf, after_settled⟩, ?_, ?_, ?_, ?_, ?_, ?_, ?_, ?_, addressed⟩
  · show Represents n.sm b
    rw [sm]
    exact serves.represents
  · show n.sm.panicked = false
    rw [sm, serves.panicked]
    exact acc.sound
  · intro i
    have was : (philo i c).state.get = some (phase' i).mode := by rw [acc.mode, mode]
    show (philo i c).state.get = _
    by_cases member : i ∈ granted
    · rw [if_pos member, was, waited i member]
      rfl
    · rw [if_neg member, was]
  · exact acc.owns
  · intro i
    have oldest := channel_take_receiver (fromPhilo i) (i := .philo i) (by simp) first n
      (route n.sm.posts)
    have before : channel (fromPhilo i) (.philo i) .table c =
        (phase i).requests.map (request i) := acc.asked i
    rw [before, ← taken i] at oldest
    have left := List.append_cancel_left oldest
    by_cases member : i ∈ granted
    · rw [if_pos member]
      rw [waited i member] at left
      exact left.symm
    · rw [if_neg member]
      exact left.symm
  · intro i
    have pushed := channel_take_sender isEat (i := .table) (j := .philo i) (by simp) sent
      rest n (route n.sm.posts)
    have before : (channel isEat .table (.philo i) c).length = (phase i).grants := acc.answered i
    show (channel isEat Party.table (Party.philo i) _).length = _
    rw [pushed, List.length_append, before, posts, sentTo_grants serves.serving.once, ← grants i]
    by_cases member : i ∈ granted
    · rw [if_pos member, if_pos member, waited i member]
      rfl
    · rw [if_neg member, if_neg member]
      rfl
  · intro i
    rw [serves.serving.waiting, waiting]
    by_cases member : i ∈ granted
    · simp [member]
    · simp [member]
  · intro i
    rw [serves.serving.holders, holders]
    by_cases member : i ∈ granted
    · simp [member, Phase.holds]
    · simp [member]

end Table

section Philosopher

variable {c : Dining} {phase : Fin nPhilo → Phase} {a : Arbiter needs} {i : Fin nPhilo}
  {answers : Answers} {p : PhiloData} {e : Event}

theorem philoNext_other {s : PhiloState} (entry : e.signal ≠ qEntrySig) (exit : e.signal ≠ qExitSig)
    (eat : e.signal ≠ eatSig) (timeout : e.signal ≠ timeoutSig) :
    philoNext answers s p e = (s, p) := by
  have apart {n : Nat} (other : e.signal ≠ ⟨n⟩) : e.signal.val ≠ n := by
    intro same
    exact other (congrArg Signal.mk same)
  unfold philoNext
  split
  · exact absurd ‹e.signal.val = 10› (apart timeout)
  · exact absurd ‹e.signal.val = 4› (apart eat)
  · exact absurd ‹e.signal.val = 10› (apart timeout)
  · exact absurd ‹e.signal.val = 1› (apart entry)
  · exact absurd ‹e.signal.val = 1› (apart entry)
  · exact absurd ‹e.signal.val = 1› (apart entry)
  · exact absurd ‹e.signal.val = 2› (apart exit)
  · exact absurd ‹e.signal.val = 2› (apart exit)
  · rfl

/-- A philosopher goes from one phase to the next: it adds requests behind its own, takes a grant,
and leaves to the table who waits and who holds forks. -/
structure Advances (i : Fin nPhilo) (e : Event) (old new : Phase) (asks : List Signal)
    (next : PhiloState × PhiloData) : Prop where
  mode : next.1 = new.mode
  owns : Owns i next.2
  posts : next.2.posts = asks.map fun signal => (tableId, request i signal)
  known : ∀ signal ∈ asks, signal = hungrySig ∨ signal = doneSig
  requests : new.requests = old.requests ++ asks
  grants : (if isEat e then 1 else 0) + new.grants = old.grants
  waiting : new = .waiting ↔ old = .waiting
  holds : new.holds = old.holds

theorem advances_still {old : Phase} (owns : Owns i p) (posts : p.posts = [])
    (other : isEat e = false) : Advances i e old old [] (old.mode, p) where
  mode := rfl
  owns := owns
  posts := posts
  known := by simp
  requests := (List.append_nil _).symm
  grants := by simp [other]
  waiting := Iff.rfl
  holds := rfl

theorem advances_hungry {old new : Phase} (owns : Owns i p) (posts : p.posts = [])
    (other : isEat e = false)
    (leaves : old = .thinking ∧ new = .asking ∨ old = .leaving ∧ new = .leavingAsking) :
    Advances i e old new [hungrySig]
      (.hungry, (p.disarmTimer.postTable hungrySig).logState "hungry") := by
  have posted : ((p.disarmTimer.postTable hungrySig).logState "hungry").posts =
      [(tableId, request i hungrySig)] := by
    simp [PhiloData.logState, PhiloData.postTable, PhiloData.disarmTimer, posts, owns.index,
      request]
  have kept : Owns i ((p.disarmTimer.postTable hungrySig).logState "hungry") :=
    owns.disarmTimer.of_eq rfl rfl
  rcases leaves with ⟨rfl, rfl⟩ | ⟨rfl, rfl⟩ <;>
    exact ⟨rfl, kept, posted, by simp, rfl, by simp [other, Phase.grants], by simp, rfl⟩

theorem advances (answers : Answers) (old : Phase) (entry : e.signal ≠ qEntrySig)
    (exit : e.signal ≠ qExitSig) (owns : Owns i p) (posts : p.posts = [])
    (granted : isEat e = true → old = .served) :
    ∃ new asks, Advances i e old new asks (philoNext answers old.mode p e) := by
  by_cases eat : e.signal = eatSig
  · have is_eat : isEat e = true := decide_eq_true eat
    cases granted is_eat
    have next : philoNext answers .hungry p e =
        (.eating, (p.armTimer (PhiloData.eatTicks answers.rng)).logState "eating") := by
      simp [philoNext, eat, eatSig]
    refine ⟨.eating, [], ?_⟩
    rw [show Phase.served.mode = .hungry from rfl, next]
    have kept : Owns i ((p.armTimer (PhiloData.eatTicks answers.rng)).logState "eating") :=
      (owns.armTimer _).of_eq rfl rfl
    exact ⟨rfl, kept, posts, by simp, rfl, by simp [is_eat, Phase.grants], by simp, rfl⟩
  · have other : isEat e = false := decide_eq_false eat
    by_cases timeout : e.signal = timeoutSig
    · have thinks : philoNext answers .thinking p e =
          if answers.probe.getD 0 ≠ 0 then (.thinking, p)
          else (.hungry, (p.disarmTimer.postTable hungrySig).logState "hungry") := by
        simp [philoNext, timeout, timeoutSig]
      have waits : philoNext answers .hungry p e = (.hungry, p) := by
        simp [philoNext, timeout, timeoutSig]
      cases old with
      | thinking =>
          rw [show Phase.thinking.mode = .thinking from rfl, thinks]
          by_cases swallowed : answers.probe.getD 0 ≠ 0
          · rw [if_pos swallowed]
            exact ⟨.thinking, [], advances_still owns posts other⟩
          · rw [if_neg swallowed]
            exact ⟨.asking, [hungrySig],
              advances_hungry owns posts other (.inl ⟨rfl, rfl⟩)⟩
      | leaving =>
          rw [show Phase.leaving.mode = .thinking from rfl, thinks]
          by_cases swallowed : answers.probe.getD 0 ≠ 0
          · rw [if_pos swallowed]
            exact ⟨.leaving, [], advances_still owns posts other⟩
          · rw [if_neg swallowed]
            exact ⟨.leavingAsking, [hungrySig],
              advances_hungry owns posts other (.inr ⟨rfl, rfl⟩)⟩
      | asking => exact ⟨.asking, [], waits ▸ advances_still owns posts other⟩
      | leavingAsking => exact ⟨.leavingAsking, [], waits ▸ advances_still owns posts other⟩
      | waiting => exact ⟨.waiting, [], waits ▸ advances_still owns posts other⟩
      | served => exact ⟨.served, [], waits ▸ advances_still owns posts other⟩
      | eating =>
          have next : philoNext answers .eating p e =
              (.thinking, (((p.disarmTimer.postTable doneSig).armTimer
                (PhiloData.thinkTicks answers.rng)).logState "thinking")) := by
            simp [philoNext, timeout, timeoutSig]
          refine ⟨.leaving, [doneSig], ?_⟩
          rw [show Phase.eating.mode = .eating from rfl, next]
          refine ⟨rfl, ?_, ?_, by simp, rfl, by simp [other, Phase.grants], by simp, rfl⟩
          · have posted : Owns i (p.disarmTimer.postTable doneSig) :=
              owns.disarmTimer.of_eq rfl rfl
            exact (posted.armTimer _).of_eq rfl rfl
          · simp [PhiloData.logState, PhiloData.postTable, PhiloData.armTimer,
              PhiloData.disarmTimer, posts, owns.index, request]
    · rw [philoNext_other entry exit eat timeout]
      exact ⟨old, [], advances_still owns posts other⟩

theorem route_requests (asks : List Signal) :
    route (asks.map fun signal => (tableId, request i signal)) =
      asks.map fun signal => (.table, request i signal) := by
  induction asks with
  | nil => rfl
  | cons signal rest ih =>
      rw [List.map_cons, List.map_cons, ← ih]
      exact route_cons .table _ _

theorem sentTo_requests (asks : List Signal) :
    (sentTo .table (asks.map fun signal => ((.table : Party), request i signal))).filter
      (fromPhilo i) = asks.map (request i) := by
  induction asks with
  | nil => rfl
  | cons signal rest ih =>
      have mine : fromPhilo i (request i signal) = true := by
        rw [fromPhilo_request]
        exact decide_eq_true rfl
      rw [List.map_cons, sentTo_self, List.filter_cons_of_pos mine, ih, List.map_cons]

theorem Accounts.take_philo {rest : List Event} {m : PhiloHsm} {out : List (Party × Event)}
    {traced : Bool} (acc : Accounts c phase a) (first : c.mailbox (.philo i) = e :: rest)
    (sent : c.outbox (.philo i) = [])
    (handled : (dining traced).handle (.philo i) answers (c.state (.philo i)) e = some (m, out)) :
    ∃ phase, Accounts (c.take (.philo i) rest m out) phase a := by
  have fits : Fits (.philo i) e := acc.addressed.mailbox (.philo i) e (by rw [first]; simp)
  have oldest := channel_take_receiver isEat (i := .table) (by simp) first m out
  have before : (channel isEat Party.table (.philo i) c).length = (phase i).grants :=
    acc.answered i
  have granted : isEat e = true → phase i = .served := by
    intro eat
    rw [oldest, if_pos eat, List.length_append, List.length_singleton] at before
    cases now : phase i with
    | served => rfl
    | _ => simp [now, Phase.grants] at before
  obtain ⟨n, dispatched, state, sm⟩ := philo_dispatch traced answers (acc.mode i) e
  obtain ⟨new, asks, adv⟩ := advances answers (phase i) fits.1 fits.2
    (p := { (philo i c).sm with posts := [] }) ((acc.owns i).of_eq rfl rfl) rfl granted
  have done : some (n, route n.sm.posts) = some (m, out) := by
    rw [← handled]
    show _ = (philoDispatch traced answers (philo i c) e).toOption.map _
    rw [dispatched]
    rfl
  obtain ⟨rfl, rfl⟩ := Prod.mk.inj (Option.some.inj done)
  have posts : route n.sm.posts = asks.map fun signal => (.table, request i signal) := by
    rw [sm, adv.posts]
    exact route_requests asks
  have addressed : Addressed Fits Sends (c.take (.philo i) rest n (route n.sm.posts)) := by
    apply acc.addressed.take first
    rw [posts]
    intro o member
    obtain ⟨signal, asked, rfl⟩ := List.mem_map.mp member
    rcases adv.known signal asked with rfl | rfl
    · exact .inl rfl
    · exact .inr rfl
  refine ⟨Function.update phase i new, ?_⟩
  have others {j : Fin nPhilo} (apart : j ≠ i) : (Party.philo i : Party) ≠ .philo j := by
    intro same
    exact apart (Party.philo.inj same).symm
  refine ⟨acc.leaf, acc.represents, acc.sound, ?_, ?_, ?_, ?_, ?_, ?_, addressed⟩
  · intro j
    by_cases here : j = i
    · subst here
      show (Function.update c.state (.philo j) n (.philo j)).state.get = _
      rw [Function.update_self, Function.update_self, state, adv.mode]
    · show (Function.update c.state (.philo i) n (.philo j)).state.get = _
      rw [Function.update_of_ne (others here).symm, Function.update_of_ne here]
      exact acc.mode j
  · intro j
    by_cases here : j = i
    · subst here
      show Owns j (Function.update c.state (.philo j) n (.philo j)).sm
      rw [Function.update_self, sm]
      exact adv.owns
    · show Owns j (Function.update c.state (.philo i) n (.philo j)).sm
      rw [Function.update_of_ne (others here).symm]
      exact acc.owns j
  · intro j
    show channel (fromPhilo j) (Party.philo j) .table _ = _
    by_cases here : j = i
    · subst here
      rw [channel_take_sender (fromPhilo j) (by simp) sent, posts, sentTo_requests,
        Function.update_self, adv.requests, List.map_append]
      exact congrArg (· ++ asks.map (request j)) (acc.asked j)
    · rw [channel_take_other (others here) (by simp), Function.update_of_ne here]
      exact acc.asked j
  · intro j
    show (channel isEat Party.table (.philo j) _).length = _
    by_cases here : j = i
    · subst here
      have sum := congrArg List.length oldest
      have count := adv.grants
      rw [before, List.length_append] at sum
      rw [Function.update_self]
      split at sum <;> split at count <;> simp_all
    · rw [channel_take_other (by simp) (others here), Function.update_of_ne here]
      exact acc.answered j
  · intro j
    by_cases here : j = i
    · subst here
      rw [Function.update_self, adv.waiting, acc.waiting]
    · rw [Function.update_of_ne here, acc.waiting]
  · intro j
    by_cases here : j = i
    · subst here
      rw [Function.update_self, adv.holds, acc.holders]
    · rw [Function.update_of_ne here, acc.holders]

end Philosopher

section Runs

variable {c d : Dining} {phase : Fin nPhilo → Phase} {a : Arbiter needs} {traced : Bool}

theorem Accounts.send {p q : Party} {e : Event} {rest : List (Party × Event)}
    (acc : Accounts c phase a) (next : c.outbox p = (q, e) :: rest) :
    Accounts (c.send p q e rest) phase a where
  leaf := acc.leaf
  represents := acc.represents
  sound := acc.sound
  mode := acc.mode
  owns := acc.owns
  asked i := (channel_send (owned_requests acc.addressed) next).trans (acc.asked i)
  answered i := by
    rw [← acc.answered i]
    exact congrArg List.length (channel_send (owned_grants acc.addressed) next)
  waiting := acc.waiting
  holders := acc.holders
  addressed := acc.addressed.send sends_fits next

theorem Accounts.outside {p : Party} {s : Local p} {arrived : Option Event}
    (acc : Accounts c phase a) (fit : ∀ e ∈ arrived, Fits p e)
    (unasked : ∀ i, p = .table → ∀ e ∈ arrived, fromPhilo i e = false)
    (ungranted : ∀ i, p = .philo i → ∀ e ∈ arrived, isEat e = false)
    (still : table (c.outside p s arrived) = table c)
    (mode : ∀ i, (philo i (c.outside p s arrived)).state = (philo i c).state)
    (owns : ∀ i, Owns i (philo i (c.outside p s arrived)).sm) :
    Accounts (c.outside p s arrived) phase a where
  leaf := by
    rw [still]
    exact acc.leaf
  represents := by
    rw [still]
    exact acc.represents
  sound := by
    rw [still]
    exact acc.sound
  mode i := by rw [mode, acc.mode]
  owns := owns
  asked i := (channel_outside (unasked i) s).trans (acc.asked i)
  answered i := by
    rw [← acc.answered i]
    exact congrArg List.length (channel_outside (ungranted i) s)
  waiting := acc.waiting
  holders := acc.holders
  addressed := acc.addressed.outside fit

/-- The request that the table takes is the oldest of its philosopher. -/
theorem Accounts.oldest {i : Fin nPhilo} {signal : Signal} {rest : List Event}
    (acc : Accounts c phase a) (first : c.mailbox .table = request i signal :: rest) :
    ∃ more, (phase i).requests = signal :: more := by
  have mine : fromPhilo i (request i signal) = true := by
    rw [fromPhilo_request]
    exact decide_eq_true rfl
  have head : ∃ more, (phase i).requests.map (request i) = request i signal :: more := by
    rw [← acc.asked i]
    simp [requests, channel, first, mine]
  obtain ⟨more, mapped⟩ := head
  obtain ⟨oldest, others, split, same, -⟩ := List.map_eq_cons_iff.mp mapped
  have signals : oldest = signal := congrArg DynEvent.signal same
  exact ⟨others, signals ▸ split⟩

theorem asking_of_oldest {p : Phase} {more : List Signal}
    (oldest : p.requests = hungrySig :: more) : p = .asking := by
  cases p <;> simp [Phase.requests, hungrySig, doneSig] at oldest ⊢

theorem leaving_of_oldest {p : Phase} {more : List Signal} (oldest : p.requests = doneSig :: more) :
    p = .leaving ∨ p = .leavingAsking := by
  cases p <;> simp [Phase.requests, hungrySig, doneSig] at oldest ⊢

theorem Accounts.take_any {e : Event} {rest : List Event} {m : TableHsm}
    {out : List (Party × Event)} {answers : Answers} (acc : Accounts c phase a)
    (first : c.mailbox .table = e :: rest) (sent : c.outbox .table = [])
    (handled : (dining traced).handle .table answers (c.state .table) e = some (m, out)) :
    ∃ phase b, Accounts (c.take .table rest m out) phase b := by
  have fits : Fits .table e := acc.addressed.mailbox .table e (by rw [first]; simp)
  have cleared : Represents { (table c).sm with posts := [] } a :=
    ⟨acc.represents.forks, acc.represents.hungry⟩
  rcases fits with unit | ⟨i, rfl | rfl⟩
  · have foreign (i : Fin nPhilo) : fromPhilo i e = false := by simp [fromPhilo, unit]
    apply acc.take_table phase a first sent handled
    · intro s _ leaf settled
      exact answered_unit leaf cleared settled unit
    · exact fun i => rfl
    · intro i
      rw [foreign]
      rfl
    · exact fun i => rfl
    · exact acc.waiting
    · exact acc.holders
  · obtain ⟨more, oldest⟩ := acc.oldest first
    have asking := asking_of_oldest oldest
    have unserved : i ∉ a.holders := by
      rw [acc.holders, asking]
      exact Bool.false_ne_true
    apply acc.take_table (Function.update phase i .waiting) (a.wait i unserved) first sent handled
    · intro s _ leaf settled
      exact answered_hungry leaf cleared settled unserved
    · intro j
      by_cases here : j = i
      · rw [here, Function.update_self, asking]
        rfl
      · rw [Function.update_of_ne here]
    · intro j
      rw [fromPhilo_request]
      by_cases here : j = i
      · simp [here, asking, Phase.requests]
      · simp [here]
    · intro j
      by_cases here : j = i
      · rw [here, Function.update_self, asking]
        rfl
      · rw [Function.update_of_ne here]
    · intro j
      show j = i ∨ j ∈ a.waiting ↔ _
      by_cases here : j = i
      · simp [here]
      · rw [Function.update_of_ne here, acc.waiting]
        simp [here]
    · intro j
      show j ∈ a.holders ↔ _
      rw [acc.holders]
      by_cases here : j = i
      · rw [here, Function.update_self, asking]
        rfl
      · rw [Function.update_of_ne here]
  · obtain ⟨more, oldest⟩ := acc.oldest first
    have leaving := leaving_of_oldest oldest
    have held : i ∈ a.holders := by
      rw [acc.holders]
      rcases leaving with now | now <;> rw [now] <;> rfl
    obtain ⟨left, mode, requests, grants, waiting, released⟩ : ∃ left : Phase,
        left.mode = (phase i).mode ∧ (phase i).requests = doneSig :: left.requests ∧
          left.grants = (phase i).grants ∧ (left = .waiting ↔ phase i = .waiting) ∧
          left.holds = false := by
      rcases leaving with now | now
      · exact ⟨.thinking, by rw [now]; rfl, by rw [now]; rfl, by rw [now]; rfl, by simp [now], rfl⟩
      · exact ⟨.asking, by rw [now]; rfl, by rw [now]; rfl, by rw [now]; rfl, by simp [now], rfl⟩
    apply acc.take_table (Function.update phase i left) (a.release i) first sent handled
    · intro s _ leaf settled
      exact answered_done leaf cleared settled held
    · intro j
      by_cases here : j = i
      · rw [here, Function.update_self, mode]
      · rw [Function.update_of_ne here]
    · intro j
      rw [fromPhilo_request]
      by_cases here : j = i
      · simp [here, requests]
      · simp [here]
    · intro j
      by_cases here : j = i
      · rw [here, Function.update_self, grants]
      · rw [Function.update_of_ne here]
    · intro j
      show j ∈ a.waiting ↔ _
      rw [acc.waiting]
      by_cases here : j = i
      · rw [here, Function.update_self, waiting]
      · rw [Function.update_of_ne here]
    · intro j
      show j ∈ a.holders ∧ j ≠ i ↔ _
      rw [acc.holders]
      by_cases here : j = i
      · simp [here, released]
      · simp [here]

theorem Accounts.happens {p : Party} {o : Outside} {s : Local p} {arrived : Option Event}
    (acc : Accounts c phase a) (honest : Honest (.outside p o))
    (happens : (dining traced).outside p o (c.state p) = some (s, arrived)) :
    Accounts (c.outside p s arrived) phase a := by
  have others {q : Party} (apart : q ≠ p) : (c.outside p s arrived).state q = c.state q :=
    Function.update_of_ne apart _ _
  cases p with
  | table =>
      cases o with
      | tick => cases happens
      | command signal =>
          obtain ⟨rfl, rfl⟩ := Prod.mk.inj (Option.some.inj happens)
          apply acc.outside
          · intro e member
            rw [← Option.some.inj member]
            exact .inl rfl
          · intro i _ e member
            rw [← Option.some.inj member]
            rfl
          · intro i other
            cases other
          · exact Function.update_self Party.table _ c.state
          · intro i
            exact congrArg QHsm.state (others (by simp))
          · intro i
            have kept : philo i (c.outside .table _ (some (.emptyDyn signal))) = philo i c :=
              others (by simp)
            rw [kept]
            exact acc.owns i
  | philo i =>
      have still : table (c.outside (.philo i) s arrived) = table c := others (by simp)
      have same : s.state = (philo i c).state ∧ Owns i s.sm ∧
          ∀ e ∈ arrived, Fits (.philo i) e ∧ isEat e = false := by
        cases o with
        | tick =>
            obtain ⟨rfl, rfl⟩ := Prod.mk.inj (Option.some.inj happens)
            have owns := acc.owns i
            refine ⟨rfl, ⟨owns.index, ?_, ?_⟩, ?_⟩
            · exact (poll_config _).1.trans owns.target
            · exact (congrArg TimeEventConfig.signal (poll_config _).2).trans owns.signal
            · intro e due
              obtain ⟨post, kept, rfl⟩ := Option.mem_map.mp due
              have expired := (Option.mem_filter_iff.mp kept).1
              rw [poll_signal expired]
              have signal : (philo i c).sm.timer.cfg.signal = timeoutSig := owns.signal
              show Fits (.philo i) (.emptyDyn (philo i c).sm.timer.cfg.signal) ∧
                isEat (.emptyDyn (philo i c).sm.timer.cfg.signal) = false
              rw [signal]
              exact ⟨⟨by simp [qEntrySig, timeoutSig], by simp [qExitSig, timeoutSig]⟩, rfl⟩
        | command signal =>
            obtain ⟨rfl, rfl⟩ := Prod.mk.inj (Option.some.inj happens)
            refine ⟨rfl, acc.owns i, ?_⟩
            intro e member
            rw [← Option.some.inj member]
            exact ⟨⟨honest.1, honest.2.1⟩, decide_eq_false honest.2.2⟩
      apply acc.outside
      · exact fun e member => (same.2.2 e member).1
      · intro j other
        cases other
      · intro j _ e member
        exact (same.2.2 e member).2
      · exact still
      · intro j
        by_cases here : j = i
        · subst here
          show (Function.update c.state (.philo j) s (.philo j)).state = _
          rw [Function.update_self, same.1]
        · exact congrArg QHsm.state (others fun equal => here (Party.philo.inj equal))
      · intro j
        by_cases here : j = i
        · subst here
          show Owns j (Function.update c.state (.philo j) s (.philo j)).sm
          rw [Function.update_self]
          exact same.2.1
        · have kept : philo j (c.outside (.philo i) s arrived) = philo j c :=
            others fun equal => here (Party.philo.inj equal)
          rw [kept]
          exact acc.owns j

theorem Accounts.step {l : Label Party Answers Outside} (acc : Accounts c phase a)
    (honest : Honest l) (stepped : (dining traced).step c l = some d) :
    ∃ phase a, Accounts d phase a := by
  rcases step_cases stepped with ⟨p, answers, e, rest, s, out, -, first, sent, handled, rfl⟩ |
    ⟨p, q, e, rest, -, next, rfl⟩ | ⟨p, o, s, e, rfl, happens, rfl⟩
  · cases p with
    | table => exact acc.take_any first sent handled
    | philo i =>
        obtain ⟨phase', acc'⟩ := acc.take_philo first sent handled
        exact ⟨phase', a, acc'⟩
  · exact ⟨phase, a, acc.send next⟩
  · exact ⟨phase, a, acc.happens honest happens⟩

theorem accounts_start (traced : Bool) (answers : Fin nPhilo → Answers) :
    ∃ a, Accounts (start traced answers) (fun _ => .thinking) a := by
  have blank : Represents TableData.new (.idle : Arbiter needs) := by
    refine ⟨?_, ?_⟩
    · intro r
      exact iff_of_true rfl (Arbiter.free_idle r)
    · intro i
      exact iff_of_false Bool.false_ne_true (Set.notMem_empty i)
  obtain ⟨a, granted, serves, settled⟩ := serves_all blank
  have nobody (i : Fin nPhilo) : i ∉ granted :=
    fun member => Set.notMem_empty i (serves.serving.waited i member)
  obtain ⟨state, sm⟩ := start_table traced answers
  have here : table (start traced answers) = (start traced answers).state .table := rfl
  have thinks (i : Fin nPhilo) : (philo i (start traced answers)).state.get = some .thinking ∧
      Owns i (philo i (start traced answers)).sm := by
    obtain ⟨state, sm⟩ := start_philo traced answers i
    refine ⟨state, ?_⟩
    have same : (philo i (start traced answers)).sm = _ := sm
    rw [same]
    exact ⟨rfl, rfl, rfl⟩
  refine ⟨a, ⟨.serving, ?_, nofun, fun _ => settled⟩, ?_, ?_, fun i => (thinks i).1,
    fun i => (thinks i).2, ?_, ?_, ?_, ?_, ?_, ?_⟩
  · rw [here, state]
  · rw [here, sm]
    exact serves.represents
  · rw [here, sm, serves.panicked]
    rfl
  · intro i
    rfl
  · intro i
    rfl
  · intro i
    rw [serves.serving.waiting]
    exact iff_of_false (fun waits => Set.notMem_empty i waits.1) (by simp)
  · intro i
    rw [serves.serving.holders]
    refine iff_of_false ?_ Bool.false_ne_true
    intro holds
    rcases holds with before | now
    · exact Set.notMem_empty i before
    · exact nobody i now
  · intro p e member
    cases member
  · intro p o member
    cases member

theorem accounts_run {answers : Fin nPhilo → Answers} {labels : List (Label Party Answers Outside)}
    (honest : ∀ l ∈ labels, Honest l)
    (ran : run (dining traced).step (start traced answers) labels = some d) :
    ∃ phase a, Accounts d phase a := by
  have begin : ∃ phase a, Accounts (start traced answers) phase a := by
    obtain ⟨a, acc⟩ := accounts_start traced answers
    exact ⟨_, a, acc⟩
  have step (c : Dining) (l : Label Party Answers Outside) (d : Dining)
      (before : ∃ phase a, Accounts c phase a) (met : Honest l)
      (stepped : (dining traced).step c l = some d) : ∃ phase a, Accounts d phase a := by
    obtain ⟨phase, a, acc⟩ := before
    exact acc.step met stepped
  exact along_preserves step begin (along_of_mem _ honest) ran

end Runs

end QpRs.Dpp
