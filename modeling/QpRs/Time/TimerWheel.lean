import QpRs.Lib.Outcome
import QpRs.Qv.Cooperation
import QpRs.Time.PostingKernel

/-! The timer wheels (`TimerWheel` of `qf/src/time.rs` and `QkTimerWheel` of `qk/src/time.rs`):
which events a tick reaches when the kernel refuses one of them. -/

namespace QpRs

open QpRs.Lib

def maxTickRates : Nat := 4

def maxTimersPerRate : Nat := 32

/-- The addresses of the registered events, by rate. -/
abbrev WheelEvents := List (List Nat)

namespace WheelEvents

/-- The events that `tick_rate` goes through, none for a rate beyond the last. -/
def bucket (events : WheelEvents) (rate : Nat) : List Nat := (events[rate]?).getD []

/-- `self.events[rate].push(event)` -/
def push (events : WheelEvents) (rate event : Nat) : WheelEvents :=
  events.modify rate (· ++ [event])

/-- `register` of both wheels. -/
def register (staticAlloc : Bool) (events : WheelEvents) (rate event : Nat) :
    Except Halt WheelEvents :=
  if staticAlloc then
    if rate ≥ events.length then .error .fault
    else if (events.bucket rate).length ≥ maxTimersPerRate then .error .fault
    else .ok (events.push rate event)
  else if rate < events.length then .ok (events.push rate event)
  else
    let events := events ++ List.replicate (rate + 1 - events.length) []
    .ok (events.push rate event)

/-- An event goes to the bucket of its `tick_rate`. -/
def registerAll (staticAlloc : Bool) (timers : Nat → TimeEvent) :
    WheelEvents → List Nat → Except Halt WheelEvents
  | events, [] => .ok events
  | events, i :: more => do
      let events ← events.register staticAlloc (timers i).cfg.tickRate i
      registerAll staticAlloc timers events more

end WheelEvents

def TimerWheel.new (staticAlloc : Bool) (maxTickRate : Nat) : Except Halt WheelEvents :=
  if staticAlloc then
    if maxTickRate > maxTickRates then .error .fault else .ok (List.replicate maxTickRates [])
  else .ok (List.replicate (max maxTickRate 1) [])

def QkTimerWheel.new (staticAlloc : Bool) : WheelEvents :=
  List.replicate (if staticAlloc then maxTickRates else 4) []

namespace WheelEvents

variable {events made : WheelEvents} {rate event : Nat}

theorem bucket_push (inRange : rate < events.length) (r : Nat) :
    (events.push rate event).bucket r = events.bucket r ++ if r = rate then [event] else [] := by
  by_cases here : r = rate
  · subst here
    simp [bucket, push, List.getElem?_eq_getElem inRange]
  · have other : rate ≠ r := fun same => here same.symm
    simp [bucket, push, here, other]

theorem bucket_grown (events : WheelEvents) (count r : Nat) :
    bucket (events ++ List.replicate count []) r = events.bucket r := by
  by_cases inRange : r < events.length
  · rw [bucket, bucket, List.getElem?_append_left inRange]
  · have beyond : events.length ≤ r := Nat.le_of_not_lt inRange
    rw [bucket, bucket, List.getElem?_append_right beyond, List.getElem?_eq_none beyond,
      List.getElem?_replicate]
    split <;> rfl

theorem bucket_new (count r : Nat) : bucket (List.replicate count []) r = [] :=
  bucket_grown [] count r

theorem bucket_register {staticAlloc : Bool}
    (registered : events.register staticAlloc rate event = .ok made) (r : Nat) :
    made.bucket r = events.bucket r ++ if r = rate then [event] else [] := by
  unfold register at registered
  split at registered
  · split at registered
    · cases registered
    · split at registered
      · cases registered
      · rename_i inRange _
        cases registered
        exact bucket_push (Nat.lt_of_not_le inRange) r
  · split at registered
    · rename_i inRange
      cases registered
      exact bucket_push inRange r
    · cases registered
      rw [bucket_push _ r, bucket_grown]
      rw [List.length_append, List.length_replicate]
      omega

theorem bucket_registerAll {staticAlloc : Bool} {timers : Nat → TimeEvent} {more : List Nat}
    (registered : registerAll staticAlloc timers events more = .ok made) (r : Nat) :
    made.bucket r =
      events.bucket r ++ more.filter fun i => decide ((timers i).cfg.tickRate = r) := by
  induction more generalizing events with
  | nil =>
      cases registered
      rw [List.filter_nil, List.append_nil]
  | cons i more ih =>
      obtain ⟨next, first, later⟩ := Lib.bind_ok registered
      rw [ih later, bucket_register first r, List.append_assoc]
      by_cases here : r = (timers i).cfg.tickRate
      · simp [here]
      · have other : (timers i).cfg.tickRate ≠ r := fun same => here same.symm
        simp [here, other]

end WheelEvents

theorem TimerWheel.bucket_new {staticAlloc : Bool} {maxTickRate : Nat} {events : WheelEvents}
    (made : TimerWheel.new staticAlloc maxTickRate = .ok events) (r : Nat) :
    events.bucket r = [] := by
  unfold TimerWheel.new at made
  split at made
  · split at made
    · cases made
    · cases made
      exact WheelEvents.bucket_new _ r
  · cases made
    exact WheelEvents.bucket_new _ r

theorem QkTimerWheel.bucket_new (staticAlloc : Bool) (r : Nat) :
    (QkTimerWheel.new staticAlloc).bucket r = [] :=
  WheelEvents.bucket_new _ r

/-- A call of `tick_rate`: the events its loop has still to take, and its result once it has
returned. `polls` are the polls it has made, with what each returned. -/
structure Tick (π W E : Type) where
  timers : Nat → TimeEvent
  world : W
  rest : List Nat
  result : Option (Except E Unit)
  polls : List (Nat × Option (ActiveObjectId × DynEvent π))

inductive TickStep (A : Type) where
  | turn
  /-- Other code, such as a handler, calls a time event. -/
  | timer (i : Nat) (c : TimeCall)
  | kernel (a : A)

namespace Tick

variable {π W E A : Type} (K : PostingKernel π W E A)

def start (events : WheelEvents) (tickRate : Nat) (timers : Nat → TimeEvent) (world : W) :
    Tick π W E :=
  ⟨timers, world, events.bucket tickRate, none, []⟩

def poll (s : Tick π W E) (i : Nat) (rest : List Nat) : Tick π W E :=
  { s with
    timers := Function.update s.timers i ((s.timers i).poll π).2
    rest := rest
    polls := s.polls ++ [(i, ((s.timers i).poll π).1)] }

/-- One round of the loop of `tick_rate`, or its return. -/
def turn (s : Tick π W E) : Tick π W E :=
  match s.rest with
  | [] => { s with result := some (.ok ()) }
  | i :: rest =>
      match ((s.timers i).poll π).1 with
      | none => s.poll i rest
      | some (target, evt) =>
          match K.post s.world target evt with
          | .ok w => { s.poll i rest with world := w }
          -- The `?` leaves the loop.
          | .error err => { s.poll i rest with result := some (.error err) }

def step (s : Tick π W E) (a : TickStep A) : Option (Tick π W E) :=
  if s.result.isSome then none
  else
    match a with
    | .turn => if K.returned s.world then some (s.turn K) else none
    | .timer i c =>
        some { s with timers := Function.update s.timers i ((s.timers i).call π c).2 }
    | .kernel a => (K.step s.world a).map fun w => { s with world := w }

/-- How often the tick has polled an event. -/
def pollsOf (s : Tick π W E) (i : Nat) : Nat := (s.polls.map Prod.fst).count i

def expired (s : Tick π W E) (target : ActiveObjectId) : List (DynEvent π) :=
  s.polls.filterMap fun p => p.2.bind fun post => if post.1 = target then some post.2 else none

def afterCalls (π : Type) (ev : TimeEvent) (calls : List TimeCall) : TimeEvent :=
  calls.foldl (fun ev c => (ev.call π c).2) ev

def callsOn (i : Nat) : List (TickStep A) → List TimeCall
  | [] => []
  | .timer j c :: more => if j = i then c :: callsOn i more else callsOn i more
  | _ :: more => callsOn i more

/-- A tick of the events registered with a rate has advanced them: every one that was armed at its
turn was polled, as often as it is registered, so once in a set of events; every expired one was
posted if its target is registered; and events of other rates are as other code left them. -/
structure Advances (registered : List Nat) (tickRate : Nat) (s : Tick π W E)
    (labels : List (TickStep A)) (t : Tick π W E) : Prop where
  polled : ∀ i ∈ registered, (s.timers i).cfg.tickRate = tickRate →
    t.pollsOf i = registered.count i ∨ (t.timers i).armed = false
  posted : ∀ target, K.registered target = true →
    (K.received s.world target ++ t.expired target).Sublist (K.received t.world target)
  others : ∀ i, (s.timers i).cfg.tickRate ≠ tickRate →
    t.pollsOf i = 0 ∧ t.timers i = afterCalls π (s.timers i) (callsOn i labels)

/-- An event that is due for a target that is not registered has no armed event after it, except
itself when a one-shot is registered again. -/
def Clears (s : Tick π W E) : TickStep A → Prop
  | .turn => ∀ i rest, s.rest = i :: rest → (s.timers i).armed = true →
      (s.timers i).remaining ≤ 1 → K.registered (s.timers i).target = false →
      ∀ j ∈ rest, (s.timers j).armed = true → j = i ∧ (s.timers i).cfg.intervalTicks = none
  | _ => True

section Turns

variable {K : PostingKernel π W E A} {s t u : Tick π W E} {i : Nat} {rest : List Nat}

/-- What a turn does. -/
inductive Turned (K : PostingKernel π W E A) (s : Tick π W E) : Tick π W E → Prop where
  | done (empty : s.rest = []) : Turned K s { s with result := some (.ok ()) }
  | waits (i : Nat) (rest : List Nat) (next : s.rest = i :: rest)
      (waiting : ((s.timers i).poll π).1 = none) : Turned K s (s.poll i rest)
  | posts (i : Nat) (rest : List Nat) (next : s.rest = i :: rest) (target : ActiveObjectId)
      (evt : DynEvent π) (due : ((s.timers i).poll π).1 = some (target, evt)) (w : W)
      (accepted : K.post s.world target evt = .ok w) : Turned K s { s.poll i rest with world := w }
  | refused (i : Nat) (rest : List Nat) (next : s.rest = i :: rest) (target : ActiveObjectId)
      (evt : DynEvent π) (due : ((s.timers i).poll π).1 = some (target, evt)) (err : E)
      (rejected : K.post s.world target evt = .error err) :
      Turned K s { s.poll i rest with result := some (.error err) }

theorem turned_turn (s : Tick π W E) : Turned K s (s.turn K) := by
  unfold turn
  split
  · rename_i empty
    exact .done empty
  · rename_i i rest next
    split
    · rename_i waiting
      exact .waits i rest next waiting
    · rename_i target evt due
      split
      · rename_i w accepted
        exact .posts i rest next target evt due w accepted
      · rename_i err rejected
        exact .refused i rest next target evt due err rejected

theorem step_cases {a : TickStep A} (stepped : s.step K a = some u) :
    s.result = none ∧
      ((a = .turn ∧ Turned K s u) ∨
        (∃ i c, a = .timer i c ∧
          u = { s with timers := Function.update s.timers i ((s.timers i).call π c).2 }) ∨
        ∃ act w, a = .kernel act ∧ K.step s.world act = some w ∧ u = { s with world := w }) := by
  unfold step at stepped
  split at stepped
  · cases stepped
  · rename_i going
    refine ⟨by simpa using going, ?_⟩
    cases a with
    | turn =>
        simp only at stepped
        split at stepped
        · cases stepped
          exact .inl ⟨rfl, turned_turn s⟩
        · cases stepped
    | timer i c =>
        cases stepped
        exact .inr (.inl ⟨i, c, rfl, rfl⟩)
    | kernel act =>
        obtain ⟨w, moved, same⟩ := Option.map_eq_some_iff.mp stepped
        exact .inr (.inr ⟨act, w, rfl, moved, same.symm⟩)

theorem expired_waits (waiting : ((s.timers i).poll π).1 = none) (target : ActiveObjectId) :
    (s.poll i rest).expired target = s.expired target := by
  simp [expired, poll, waiting]

theorem expired_due {post : ActiveObjectId × DynEvent π}
    (due : ((s.timers i).poll π).1 = some post) (target : ActiveObjectId) :
    (s.poll i rest).expired target =
      s.expired target ++ if post.1 = target then [post.2] else [] := by
  by_cases here : post.1 = target
  · simp [expired, poll, due, here]
  · simp [expired, poll, due, here]

theorem timers_poll {j : Nat} (apart : j ≠ i) : (s.poll i rest).timers j = s.timers j :=
  Function.update_of_ne apart _ _

theorem afterCalls_append (ev : TimeEvent) (earlier later : List TimeCall) :
    afterCalls π ev (earlier ++ later) = afterCalls π (afterCalls π ev earlier) later :=
  List.foldl_append

theorem callsOn_append (i : Nat) (earlier later : List (TickStep A)) :
    callsOn i (earlier ++ later) = callsOn i earlier ++ callsOn i later := by
  induction earlier with
  | nil => rfl
  | cons a more ih =>
      cases a with
      | turn => exact ih
      | kernel act => exact ih
      | timer j c =>
          by_cases here : j = i
          · simp [callsOn, here, ih]
          · simp [callsOn, here, ih]

theorem callsOn_turn (i : Nat) (past : List (TickStep A)) :
    callsOn i (past ++ [.turn]) = callsOn i past := by
  rw [callsOn_append]
  exact List.append_nil _

theorem callsOn_kernel (i : Nat) (past : List (TickStep A)) (act : A) :
    callsOn i (past ++ [.kernel act]) = callsOn i past := by
  rw [callsOn_append]
  exact List.append_nil _

theorem callsOn_timer (i j : Nat) (past : List (TickStep A)) (c : TimeCall) :
    callsOn i (past ++ [.timer j c]) = callsOn i past ++ if j = i then [c] else [] := by
  rw [callsOn_append]
  rfl

/-- What a tick keeps: the polled events and the ones to come are the bucket, what expired was
posted, and no turn has touched an event outside the bucket. -/
structure Follows (K : PostingKernel π W E A) (bucket : List Nat) (s : Tick π W E)
    (past : List (TickStep A)) (t : Tick π W E) : Prop where
  order : t.polls.map Prod.fst ++ t.rest = bucket
  posted : ∀ target, K.registered target = true →
    (K.received s.world target ++ t.expired target).Sublist (K.received t.world target)
  others : ∀ i ∉ bucket, t.timers i = afterCalls π (s.timers i) (callsOn i past)
  finished : t.result = some (.ok ()) → t.rest = []

namespace Follows

variable {bucket : List Nat} {past : List (TickStep A)}

theorem start (events : WheelEvents) (tickRate : Nat) (timers : Nat → TimeEvent) (world : W) :
    Follows K (events.bucket tickRate) (.start events tickRate timers world) []
      (.start events tickRate timers world) where
  order := rfl
  posted target _ := by
    simp [Tick.start, expired]
  others i _ := rfl
  finished ended := by cases ended

theorem order_poll (follows : Follows K bucket s past t) (next : t.rest = i :: rest) :
    (t.poll i rest).polls.map Prod.fst ++ rest = bucket := by
  rw [← follows.order, next]
  simp [poll]

theorem others_turn (follows : Follows K bucket s past t) (next : t.rest = i :: rest)
    {j : Nat} (outside : j ∉ bucket) :
    (t.poll i rest).timers j = afterCalls π (s.timers j) (callsOn j (past ++ [.turn])) := by
  have apart : j ≠ i := by
    intro same
    apply outside
    rw [← follows.order, next, same]
    exact List.mem_append_right _ List.mem_cons_self
  rw [timers_poll apart, callsOn_turn]
  exact follows.others j outside

/-- The target of an event is registered when the kernel accepts it, and only then. -/
theorem posted_due (follows : Follows K bucket s past t) (rest : List Nat)
    {post : ActiveObjectId × DynEvent π}
    (due : ((t.timers i).poll π).1 = some post) {w : W}
    (accepted : K.post t.world post.1 post.2 = .ok w) (target : ActiveObjectId)
    (registered : K.registered target = true) :
    (K.received s.world target ++ (t.poll i rest).expired target).Sublist
      (K.received w target) := by
  have before := follows.posted target registered
  rw [expired_due due]
  by_cases here : post.1 = target
  · subst here
    obtain ⟨w', same, received⟩ := K.post_registered t.world post.1 post.2 registered
    cases accepted.symm.trans same
    rw [if_pos rfl, ← List.append_assoc]
    exact (before.append (List.Sublist.refl _)).trans received.sublist
  · rw [if_neg here, List.append_nil]
    exact before.trans (K.post_grows t.world post.1 post.2 w target accepted).sublist

theorem unregistered {target : ActiveObjectId} {evt : DynEvent π} {err : E}
    (rejected : K.post t.world target evt = .error err) : K.registered target = false := by
  cases known : K.registered target with
  | false => rfl
  | true =>
      obtain ⟨w, accepted, -⟩ := K.post_registered t.world target evt known
      cases rejected.symm.trans accepted

theorem turn (follows : Follows K bucket s past t) (turned : Turned K t u) :
    Follows K bucket s (past ++ [.turn]) u := by
  cases turned with
  | done empty =>
      refine ⟨follows.order, follows.posted, ?_, fun _ => empty⟩
      intro j outside
      rw [callsOn_turn]
      exact follows.others j outside
  | waits i rest next waiting =>
      refine ⟨follows.order_poll next, ?_, fun j => follows.others_turn next, ?_⟩
      · intro target registered
        rw [expired_waits waiting]
        exact follows.posted target registered
      · intro ended
        have empty := follows.finished ended
        rw [next] at empty
        cases empty
  | posts i rest next target evt due w accepted =>
      refine ⟨follows.order_poll next, ?_, fun j => follows.others_turn next, ?_⟩
      · exact follows.posted_due rest due accepted
      · intro ended
        have empty := follows.finished ended
        rw [next] at empty
        cases empty
  | refused i rest next target evt due err rejected =>
      refine ⟨follows.order_poll next, ?_, fun j => follows.others_turn next, ?_⟩
      · intro other registered
        have before := follows.posted other registered
        have apart : target ≠ other := by
          intro same
          rw [← same, unregistered rejected] at registered
          cases registered
        show (K.received s.world other ++ (t.poll i rest).expired other).Sublist _
        rw [expired_due due, if_neg apart, List.append_nil]
        exact before
      · intro ended
        cases ended

theorem timer (follows : Follows K bucket s past t) (i : Nat) (c : TimeCall) :
    Follows K bucket s (past ++ [.timer i c])
      { t with timers := Function.update t.timers i ((t.timers i).call π c).2 } where
  order := follows.order
  posted := follows.posted
  others j outside := by
    rw [callsOn_timer, afterCalls_append, ← follows.others j outside]
    by_cases here : i = j
    · subst here
      simp [afterCalls]
    · have apart : j ≠ i := fun same => here same.symm
      simp [afterCalls, here, apart]
  finished := follows.finished

theorem kernel (follows : Follows K bucket s past t) {act : A} {w : W}
    (moved : K.step t.world act = some w) :
    Follows K bucket s (past ++ [.kernel act]) { t with world := w } where
  order := follows.order
  posted target registered :=
    (follows.posted target registered).trans (K.step_grows t.world act w target moved).sublist
  others j outside := by
    rw [callsOn_kernel]
    exact follows.others j outside
  finished := follows.finished

theorem step {a : TickStep A} (follows : Follows K bucket s past t)
    (stepped : t.step K a = some u) :
    Follows K bucket s (past ++ [a]) u := by
  obtain ⟨-, ⟨rfl, turned⟩ | ⟨i, c, rfl, rfl⟩ | ⟨act, w, rfl, moved, rfl⟩⟩ := step_cases stepped
  · exact follows.turn turned
  · exact follows.timer i c
  · exact follows.kernel moved

end Follows

theorem poll_due {ev : TimeEvent} {post : ActiveObjectId × DynEvent π}
    (due : (ev.poll π).1 = some post) :
    ev.armed = true ∧ ev.remaining ≤ 1 ∧ ev.target = post.1 ∧
      (ev.poll π).2.armed = ev.cfg.intervalTicks.isSome := by
  cases armed : ev.armed with
  | false =>
      rw [TimeEvent.poll_unarmed armed] at due
      cases due
  | true =>
      by_cases last : ev.remaining ≤ 1
      · rw [TimeEvent.poll_expires armed last] at due ⊢
        cases due
        exact ⟨rfl, last, rfl, rfl⟩
      · rw [TimeEvent.poll_waits armed (Nat.lt_of_not_le last)] at due
        cases due

theorem clears_of_going {a : TickStep A} (stepped : s.step K a = some u) (going : u.result = none) :
    Clears K s a := by
  obtain ⟨-, ⟨rfl, turned⟩ | ⟨i, c, rfl, -⟩ | ⟨act, w, rfl, -, -⟩⟩ := step_cases stepped
  · cases turned with
    | done empty => cases going
    | refused i rest next target evt due err rejected => cases going
    | waits i rest next waiting =>
        intro i' rest' next' armed last
        rw [next] at next'
        cases next'
        rw [TimeEvent.poll_expires armed last] at waiting
        cases waiting
    | posts i rest next target evt due w accepted =>
        intro i' rest' next' armed last unknown
        rw [next] at next'
        cases next'
        rw [(poll_due due).2.2.1] at unknown
        obtain ⟨err, rejected⟩ := K.post_unregistered s.world target evt unknown
        cases accepted.symm.trans rejected
  · trivial
  · trivial

/-- The step that ends a tick leaves no armed event behind exactly when it clears. -/
theorem ends_iff {a : TickStep A} (stepped : s.step K a = some u) (ended : u.result.isSome) :
    (∀ j ∈ u.rest, (u.timers j).armed = false) ↔ Clears K s a := by
  obtain ⟨going, ⟨rfl, turned⟩ | ⟨i, c, rfl, rfl⟩ | ⟨act, w, rfl, -, rfl⟩⟩ := step_cases stepped
  · cases turned with
    | done empty =>
        constructor
        · intro _ i rest next
          rw [empty] at next
          cases next
        · intro _ j member
          rw [empty] at member
          cases member
    | waits i rest next waiting => simp [poll, going] at ended
    | posts i rest next target evt due w accepted => simp [poll, going] at ended
    | refused i rest next target evt due err rejected =>
        obtain ⟨armed, last, aimed, again⟩ := poll_due due
        constructor
        · intro behind i' rest' next' _ _ _ j member live
          rw [next] at next'
          cases next'
          have dead := behind j member
          by_cases here : j = i
          · subst here
            refine ⟨rfl, ?_⟩
            change ((Function.update s.timers j ((s.timers j).poll π).2) j).armed = false at dead
            rw [Function.update_self, again] at dead
            exact Option.isSome_eq_false_iff.mp dead |> Option.isNone_iff_eq_none.mp
          · change ((s.poll i rest).timers j).armed = false at dead
            rw [timers_poll here, live] at dead
            cases dead
        · intro clears j member
          have unknown : K.registered (s.timers i).target = false := by
            rw [aimed]
            exact Follows.unregistered rejected
          have only := clears i rest next armed last unknown j member
          show ((s.poll i rest).timers j).armed = false
          by_cases here : j = i
          · subst here
            have oneShot := (only armed).2
            show ((Function.update s.timers j ((s.timers j).poll π).2) j).armed = false
            rw [Function.update_self, again, oneShot]
            rfl
          · rw [timers_poll here]
            cases live : (s.timers j).armed with
            | false => rfl
            | true => exact absurd (only live).1 here
  · simp [going] at ended
  · simp [going] at ended

theorem run_ended {labels : List (TickStep A)} (ended : s.result.isSome)
    (ran : run (step K) s labels = some t) : labels = [] ∧ s = t := by
  cases labels with
  | nil =>
      cases ran
      exact ⟨rfl, rfl⟩
  | cons a more =>
      obtain ⟨u, stepped, -⟩ := run_cons ran
      rw [(step_cases stepped).1] at ended
      cases ended

/-- The induction over the tick: only its last step can leave armed events behind. -/
theorem missed_iff {labels : List (TickStep A)} (going : s.result = none)
    (ran : run (step K) s labels = some t) (ended : t.result.isSome) :
    (∀ j ∈ t.rest, (t.timers j).armed = false) ↔ Along (step K) (Clears K) s labels := by
  induction labels generalizing s with
  | nil =>
      cases ran
      rw [going] at ended
      cases ended
  | cons a more ih =>
      obtain ⟨u, stepped, later⟩ := run_cons ran
      cases now : u.result with
      | none =>
          rw [ih now later]
          constructor
          · exact along_cons stepped (clears_of_going stepped now)
          · intro along
            exact along.2 u stepped
      | some result =>
          have finished : u.result.isSome := by rw [now]; rfl
          obtain ⟨rfl, rfl⟩ := run_ended finished later
          rw [ends_iff stepped finished]
          constructor
          · intro clears
            exact along_cons stepped clears trivial
          · intro along
            exact along.1

end Turns

section Claim

variable {K : PostingKernel π W E A} {registered : List Nat} {events : WheelEvents} {tickRate : Nat}
  {timers : Nat → TimeEvent} {world : W} {labels : List (TickStep A)} {t : Tick π W E}

theorem follows_run
    (ran : run (step K) (start events tickRate timers world) labels = some t) :
    Follows K (events.bucket tickRate) (start events tickRate timers world) labels t := by
  have preserved (past : List (TickStep A)) (u : Tick π W E) (a : TickStep A) (v : Tick π W E)
      (follows : Follows K (events.bucket tickRate) (start events tickRate timers world) past u)
      (_ : True) (stepped : u.step K a = some v) :
      Follows K (events.bucket tickRate) (start events tickRate timers world) (past ++ [a]) v :=
    follows.step stepped
  exact along_history preserved (Follows.start events tickRate timers world)
    (along_of_forall (fun _ _ => trivial) _ labels) ran

theorem count_bucket
    (filed : events.bucket tickRate =
      registered.filter fun i => decide ((timers i).cfg.tickRate = tickRate))
    (follows : Follows K (events.bucket tickRate) (start events tickRate timers world) labels t)
    {i : Nat} (rated : (timers i).cfg.tickRate = tickRate) :
    t.pollsOf i + t.rest.count i = registered.count i := by
  calc t.pollsOf i + t.rest.count i
      = (t.polls.map Prod.fst ++ t.rest).count i := List.count_append.symm
    _ = (registered.filter fun i => decide ((timers i).cfg.tickRate = tickRate)).count i := by
        rw [follows.order, filed]
    _ = registered.count i := List.count_filter (decide_eq_true rated)

theorem advances_iff
    (filed : events.bucket tickRate =
      registered.filter fun i => decide ((timers i).cfg.tickRate = tickRate))
    (ran : run (step K) (start events tickRate timers world) labels = some t)
    (ended : t.result.isSome) :
    Advances K registered tickRate (start events tickRate timers world) labels t ↔
      Along (step K) (Clears K) (start events tickRate timers world) labels := by
  have follows := follows_run ran
  have member {i : Nat} : i ∈ events.bucket tickRate ↔
      i ∈ registered ∧ (timers i).cfg.tickRate = tickRate := by
    rw [filed, List.mem_filter, decide_eq_true_iff]
  rw [← missed_iff rfl ran ended]
  constructor
  · intro advances i behind
    have filed_i : i ∈ events.bucket tickRate := by
      rw [← follows.order]
      exact List.mem_append_right _ behind
    obtain ⟨known, rated⟩ := member.mp filed_i
    have shared := count_bucket filed follows rated
    have left : 0 < t.rest.count i := List.count_pos_iff.mpr behind
    apply (advances.polled i known rated).resolve_left
    omega
  · intro unarmed
    refine ⟨?_, follows.posted, ?_⟩
    · intro i known rated
      have shared := count_bucket filed follows rated
      by_cases behind : i ∈ t.rest
      · exact .inr (unarmed i behind)
      · rw [List.count_eq_zero.mpr behind] at shared
        exact .inl shared
    · intro i other
      have outside : i ∉ events.bucket tickRate := fun inside => other (member.mp inside).2
      refine ⟨?_, follows.others i outside⟩
      apply List.count_eq_zero.mpr
      intro polled
      apply outside
      rw [← follows.order]
      exact List.mem_append_left _ polled

end Claim

end Tick

/-- When a tick advances its events. A tick of either wheel, whatever is registered and whatever
other code does between its turns, has advanced every event of its rate by the time it returns
exactly when no turn takes a due event of an unregistered target with an armed event after it. -/
theorem tick_rate_advances (π : Type) (checks staticAlloc : Bool) (registered : List Nat)
    (timers : Nat → TimeEvent) (tickRate : Nat) :
    (∀ (k : Qv.QvKernel) (maxTickRate : Nat) (empty events : WheelEvents) (world : Qv.World π)
        (labels : List (TickStep (Qv.Action π))) (t : Tick π (Qv.World π) Qv.KernelError),
      TimerWheel.new staticAlloc maxTickRate = .ok empty →
      WheelEvents.registerAll staticAlloc timers empty registered = .ok events →
      let K := Qv.postingKernel k checks
      let start := Tick.start events tickRate timers world
      run (Tick.step K) start labels = some t → t.result.isSome →
        (Tick.Advances K registered tickRate start labels t ↔
          Along (Tick.step K) (Tick.Clears K) start labels)) ∧
    ∀ (k : Qk.QkKernel) (base : List Qk.Frame) (events : WheelEvents) (world : Qk.World π)
        (labels : List (TickStep (Qk.Action π))) (t : Tick π (Qk.World π) Qk.QkKernelError),
      WheelEvents.registerAll staticAlloc timers (QkTimerWheel.new staticAlloc) registered =
        .ok events →
      let K := Qk.postingKernel k checks base
      let start := Tick.start events tickRate timers world
      run (Tick.step K) start labels = some t → t.result.isSome →
        (Tick.Advances K registered tickRate start labels t ↔
          Along (Tick.step K) (Tick.Clears K) start labels) := by
  constructor
  · intro k maxTickRate empty events world labels t made filled K start ran ended
    apply Tick.advances_iff _ ran ended
    rw [WheelEvents.bucket_registerAll filled, TimerWheel.bucket_new made, List.nil_append]
  · intro k base events world labels t filled K start ran ended
    apply Tick.advances_iff _ ran ended
    rw [WheelEvents.bucket_registerAll filled, QkTimerWheel.bucket_new, List.nil_append]

/-- Two one-shot events that expire at the next tick: event 0 for the object that is given, event 1
for the object 1. -/
def expiringPair (first : ActiveObjectId) : Nat → TimeEvent
  | 0 => (TimeEvent.new first ⟨qUserSig, none, 0⟩).arm 1 none
  | _ => (TimeEvent.new ⟨1⟩ ⟨qUserSig, none, 0⟩).arm 1 none

/-- No object has the id 9: its event stops the tick, and event 1 is armed but not polled. -/
theorem refused_event_stops_tick :
    let K : PostingKernel Unit (Qv.World Unit) Qv.KernelError (Qv.Action Unit) :=
      Qv.postingKernel Qv.pairBuilder.build true
    let timers := expiringPair ⟨9⟩
    ∃ empty events t, TimerWheel.new false 1 = .ok empty ∧
      WheelEvents.registerAll false timers empty [0, 1] = .ok events ∧
      run (Tick.step K) (Tick.start events 0 timers (Qv.World.init none)) [.turn] = some t ∧
      t.result = some (.error (.notFound ⟨9⟩)) ∧
      ¬Tick.Advances K [0, 1] 0 (Tick.start events 0 timers (Qv.World.init none)) [.turn] t := by
  intro K timers
  refine ⟨_, _, _, rfl, rfl, rfl, rfl, ?_⟩
  intro advances
  have polled := advances.polled 1 (by decide) rfl
  revert polled
  decide

/-- Event 1 comes first in each wheel: the tick is refused event 0 after it, and has advanced
both. -/
theorem pair_tick_rate_advances :
    (let K : PostingKernel Unit (Qv.World Unit) Qv.KernelError (Qv.Action Unit) :=
        Qv.postingKernel Qv.pairBuilder.build true
      let start := Tick.start [[1, 0]] 0 (expiringPair ⟨9⟩) (Qv.World.init none)
      ∃ t, run (Tick.step K) start [.turn, .turn] = some t ∧
        Tick.Advances K [1, 0] 0 start [.turn, .turn] t) ∧
      let K : PostingKernel Unit (Qk.World Unit) Qk.QkKernelError (Qk.Action Unit) :=
        Qk.postingKernel Qk.pairKernel true []
      let start := Tick.start [[1, 0], [], [], []] 0 (expiringPair ⟨9⟩) (Qk.World.init none)
      ∃ t, run (Tick.step K) start [.turn, .kernel .ret, .turn] = some t ∧
        Tick.Advances K [1, 0] 0 start [.turn, .kernel .ret, .turn] t := by
  constructor
  · refine ⟨_, rfl, ?_⟩
    refine ((tick_rate_advances Unit true false [1, 0] (expiringPair ⟨9⟩) 0).1
      Qv.pairBuilder.build 1 _ _ _ _ _ rfl rfl rfl rfl).mpr ?_
    apply along_cons rfl
    · intro i rest next _ _ unknown
      cases next
      cases unknown
    · refine along_cons rfl ?_ trivial
      intro i rest next _ _ _ j member
      cases next
      cases member
  · refine ⟨_, rfl, ?_⟩
    refine ((tick_rate_advances Unit true false [1, 0] (expiringPair ⟨9⟩) 0).2
      Qk.pairKernel [] _ _ _ _ rfl rfl rfl).mpr ?_
    apply along_cons rfl
    · intro i rest next _ _ unknown
      cases next
      cases unknown
    · refine along_cons rfl trivial ?_
      refine along_cons rfl ?_ trivial
      intro i rest next _ _ _ j member
      cases next
      cases member

end QpRs
