import QpRs.Time.TimerWheel

/-! Ticks of `QkTimerWheel` one after the other (`qk/src/time.rs`): at which of them an event that
is armed in the middle of a tick expires. -/

namespace QpRs

open QpRs.Lib

/-- The wheel with the latest call of `tick_rate`, the number of calls so far, and every expiry so
far with the number of its call. -/
structure Ticking (π W E : Type) where
  tick : Tick π W E
  number : Nat
  fired : List (Nat × Nat)

inductive TickingStep (A : Type) where
  /-- A call of `tick_rate`. -/
  | tick
  | turn
  /-- A handler or other code calls a time event, during a tick or between two. -/
  | timer (i : Nat) (c : TimeCall)
  | kernel (a : A)

/-- The timeout that a call arms its event with. -/
def TimeCall.timeout : TimeCall → Option Nat
  | .arm timeoutTicks _ => some timeoutTicks
  | .rearm timeoutTicks => some timeoutTicks
  | _ => none

/-- The call only asks for a flag. -/
def TimeCall.asks : TimeCall → Bool
  | .wasDisarmed => true
  | .isArmed => true
  | _ => false

theorem Tick.timers_poll_self {π W E : Type} {s : Tick π W E} {i : Nat} {rest : List Nat} :
    (s.poll i rest).timers i = ((s.timers i).poll π).2 :=
  Function.update_self _ _ _

/-- The event that expires at the next turn. -/
def Tick.expires {π W E : Type} (s : Tick π W E) : Option Nat :=
  s.rest.head?.filter fun i => ((s.timers i).poll π).1.isSome

namespace Ticking

variable {π W E A : Type} (K : PostingKernel π W E A) (events : WheelEvents) (tickRate : Nat)

def start (timers : Nat → TimeEvent) (world : W) : Ticking π W E :=
  ⟨⟨timers, world, [], some (.ok ()), []⟩, 0, []⟩

def step (s : Ticking π W E) : TickingStep A → Option (Ticking π W E)
  | .tick =>
      if s.tick.result.isSome && K.returned s.tick.world then
        some { s with
          tick := .start events tickRate s.tick.timers s.tick.world
          number := s.number + 1 }
      else none
  | .turn =>
      (s.tick.step K .turn).map fun t =>
        { s with
          tick := t
          fired := s.fired ++ (s.tick.expires.map fun i => (s.number, i)).toList }
  | .timer i c =>
      some { s with
        tick := { s.tick with
          timers := Function.update s.tick.timers i ((s.tick.timers i).call π c).2 } }
  | .kernel a => (K.step s.tick.world a).map fun w => { s with tick := { s.tick with world := w } }

def firings (s : Ticking π W E) (i : Nat) : List Nat :=
  s.fired.filterMap fun f => if f.2 = i then some f.1 else none

def Passed (n : Nat) (s : Ticking π W E) : Prop :=
  n < s.number ∨ n = s.number ∧ s.tick.result.isSome

/-- Nobody arms or disarms the event again before it expires; `before` are its expiries so far. -/
def Undisturbed (i : Nat) (before : List Nat) (s : Ticking π W E) : TickingStep A → Prop
  | .timer j c => j = i → c.asks = true ∨ s.firings i ≠ before
  | _ => True

/-- No event is called whose turn is still to come. -/
def Behind (s : Ticking π W E) : TickingStep A → Prop
  | .timer i _ => i ∉ s.tick.rest
  | _ => True

section Steps

variable {K : PostingKernel π W E A} {events : WheelEvents} {tickRate : Nat} {s t u : Ticking π W E}
  {i : Nat} {rest : List Nat}

/-- What a step does when the targets of the events are registered. -/
inductive Moves (events : WheelEvents) (tickRate : Nat) (s : Ticking π W E) :
    TickingStep A → Ticking π W E → Prop where
  | begins (over_last : s.tick.result.isSome) :
      Moves events tickRate s .tick
        { s with
          tick := .start events tickRate s.tick.timers s.tick.world
          number := s.number + 1 }
  | returns (empty : s.tick.rest = []) :
      Moves events tickRate s .turn { s with tick := { s.tick with result := some (.ok ()) } }
  | waits (i : Nat) (rest : List Nat) (next : s.tick.rest = i :: rest)
      (waiting : ((s.tick.timers i).poll π).1 = none) :
      Moves events tickRate s .turn { s with tick := s.tick.poll i rest }
  | fires (i : Nat) (rest : List Nat) (next : s.tick.rest = i :: rest)
      (due : ((s.tick.timers i).poll π).1.isSome) (w : W) :
      Moves events tickRate s .turn
        { s with
          tick := { s.tick.poll i rest with world := w }
          fired := s.fired ++ [(s.number, i)] }
  | calls (i : Nat) (c : TimeCall) :
      Moves events tickRate s (.timer i c)
        { s with
          tick := { s.tick with
            timers := Function.update s.tick.timers i ((s.tick.timers i).call π c).2 } }
  | other (a : A) (w : W) :
      Moves events tickRate s (.kernel a) { s with tick := { s.tick with world := w } }

theorem expires_nil (empty : s.tick.rest = []) : s.tick.expires = none := by
  rw [Tick.expires, empty]
  rfl

theorem expires_waits (next : s.tick.rest = i :: rest)
    (waiting : ((s.tick.timers i).poll π).1 = none) : s.tick.expires = none := by
  simp [Tick.expires, next, waiting]

theorem expires_due (next : s.tick.rest = i :: rest)
    (due : ((s.tick.timers i).poll π).1.isSome) : s.tick.expires = some i := by
  simp [Tick.expires, next, due]

theorem moves_of_step {a : TickingStep A}
    (known : ∀ i ∈ s.tick.rest, K.registered (s.tick.timers i).target = true)
    (stepped : s.step K events tickRate a = some u) : Moves events tickRate s a u := by
  cases a with
  | tick =>
      rw [step, Option.ite_none_right_eq_some] at stepped
      obtain ⟨ready, same⟩ := stepped
      cases same
      exact .begins (Bool.and_eq_true_iff.mp ready).1
  | turn =>
      obtain ⟨after, turned, same⟩ := Option.map_eq_some_iff.mp stepped
      cases same
      obtain ⟨-, ⟨-, did⟩ | ⟨i, c, wrong, -⟩ | ⟨act, w, wrong, -⟩⟩ := Tick.step_cases turned
      · cases did with
        | done empty =>
            rw [expires_nil empty, Option.map_none, Option.toList_none, List.append_nil]
            exact .returns empty
        | waits i rest next waiting =>
            rw [expires_waits next waiting, Option.map_none, Option.toList_none, List.append_nil]
            exact .waits i rest next waiting
        | posts i rest next target evt due w accepted =>
            have expired : ((s.tick.timers i).poll π).1.isSome := by rw [due]; rfl
            rw [expires_due next expired]
            exact .fires i rest next expired w
        | refused i rest next target evt due err rejected =>
            have member : i ∈ s.tick.rest := by
              rw [next]
              exact List.mem_cons_self
            have registered := known i member
            rw [(Tick.poll_due due).2.2.1] at registered
            obtain ⟨w, accepted, -⟩ := K.post_registered s.tick.world target evt registered
            cases accepted.symm.trans rejected
      · cases wrong
      · cases wrong
  | timer i c =>
      cases stepped
      exact .calls i c
  | kernel a =>
      obtain ⟨w, -, same⟩ := Option.map_eq_some_iff.mp stepped
      cases same
      exact .other a w

/-- What the ticks keep: the events to come end the bucket, no call changes a target, and a tick
returns when it has taken all events. -/
structure Sound (events : WheelEvents) (tickRate : Nat) (timers : Nat → TimeEvent)
    (s : Ticking π W E) : Prop where
  suffix : s.tick.rest <:+ events.bucket tickRate
  targets : ∀ i, (s.tick.timers i).target = (timers i).target
  returned : s.tick.result.isSome → s.tick.rest = []

theorem target_poll (ev : TimeEvent) : (ev.poll π).2.target = ev.target := by
  cases armed : ev.armed with
  | false => rw [TimeEvent.poll_unarmed armed]
  | true =>
      by_cases last : ev.remaining ≤ 1
      · rw [TimeEvent.poll_expires armed last]
      · rw [TimeEvent.poll_waits armed (Nat.lt_of_not_le last)]

theorem target_call (ev : TimeEvent) (c : TimeCall) : (ev.call π c).2.target = ev.target := by
  cases c with
  | poll => exact target_poll ev
  | disarm =>
      show ev.disarm.target = ev.target
      unfold TimeEvent.disarm
      split <;> rfl
  | arm => rfl
  | rearm => rfl
  | wasDisarmed => rfl
  | isArmed => rfl

theorem call_timeout {c : TimeCall} {n : Nat} (timeout : c.timeout = some n) (ev : TimeEvent) :
    (ev.call π c).2.armed = true ∧ (ev.call π c).2.remaining = n := by
  cases c with
  | arm timeoutTicks intervalTicks =>
      cases timeout
      exact ⟨rfl, rfl⟩
  | rearm timeoutTicks =>
      cases timeout
      exact ⟨rfl, rfl⟩
  | disarm => cases timeout
  | wasDisarmed => cases timeout
  | isArmed => cases timeout
  | poll => cases timeout

theorem call_asks {c : TimeCall} (asks : c.asks = true) (ev : TimeEvent) :
    (ev.call π c).2.armed = ev.armed ∧ (ev.call π c).2.remaining = ev.remaining := by
  cases c with
  | wasDisarmed => exact ⟨rfl, rfl⟩
  | isArmed => exact ⟨rfl, rfl⟩
  | arm => cases asks
  | rearm => cases asks
  | disarm => cases asks
  | poll => cases asks

/-- The targets of the events of a bucket are registered. -/
def Known (K : PostingKernel π W E A) (bucket : List Nat) (timers : Nat → TimeEvent) : Prop :=
  ∀ i ∈ bucket, K.registered (timers i).target = true

namespace Sound

variable {timers : Nat → TimeEvent}

theorem start (timers : Nat → TimeEvent) (world : W) :
    Sound events tickRate timers (.start timers world : Ticking π W E) where
  suffix := List.nil_suffix
  targets _ := rfl
  returned _ := rfl

theorem known (sound : Sound events tickRate timers s)
    (known : Known K (events.bucket tickRate) timers)
    (i : Nat) (member : i ∈ s.tick.rest) : K.registered (s.tick.timers i).target = true := by
  rw [sound.targets i]
  exact known i (sound.suffix.subset member)

theorem targets_update (sound : Sound events tickRate timers s) (i : Nat) {ev : TimeEvent}
    (same : ev.target = (s.tick.timers i).target) (j : Nat) :
    (Function.update s.tick.timers i ev j).target = (timers j).target := by
  by_cases here : j = i
  · rw [here, Function.update_self, same]
    exact sound.targets i
  · rw [Function.update_of_ne here]
    exact sound.targets j

theorem suffix_turn (sound : Sound events tickRate timers s) (next : s.tick.rest = i :: rest) :
    rest <:+ events.bucket tickRate := by
  have suffix := sound.suffix
  rw [next] at suffix
  exact (List.suffix_cons i rest).trans suffix

theorem going (sound : Sound events tickRate timers s) (next : s.tick.rest = i :: rest) :
    ¬s.tick.result.isSome := by
  intro ended
  have empty := sound.returned ended
  rw [next] at empty
  cases empty

theorem moves {a : TickingStep A} (sound : Sound events tickRate timers s)
    (moved : Moves events tickRate s a u) : Sound events tickRate timers u := by
  cases moved with
  | begins => exact ⟨List.suffix_rfl, sound.targets, nofun⟩
  | returns empty => exact ⟨sound.suffix, sound.targets, fun _ => empty⟩
  | waits i rest next _ =>
      exact ⟨sound.suffix_turn next, sound.targets_update i (target_poll _),
        fun ended => absurd ended (sound.going next)⟩
  | fires i rest next _ w =>
      exact ⟨sound.suffix_turn next, sound.targets_update i (target_poll _),
        fun ended => absurd ended (sound.going next)⟩
  | calls i c => exact ⟨sound.suffix, sound.targets_update i (target_call _ c), sound.returned⟩
  | other a w => exact ⟨sound.suffix, sound.targets, sound.returned⟩

theorem step {a : TickingStep A} (sound : Sound events tickRate timers s)
    (known : Known K (events.bucket tickRate) timers)
    (stepped : s.step K events tickRate a = some u) : Sound events tickRate timers u :=
  sound.moves (moves_of_step (sound.known known) stepped)

end Sound

theorem firings_append {n : Nat} (grown : u.fired = s.fired ++ [(n, i)]) (j : Nat) :
    u.firings j = s.firings j ++ if i = j then [n] else [] := by
  by_cases here : i = j
  · simp [firings, grown, here]
  · simp [firings, grown, here]

/-- An event has been armed, with the expiries `before`: the next one is at the tick `last`. -/
def Awaits (i : Nat) (before : List Nat) (last : Nat) (s : Ticking π W E) : Prop :=
  before ++ [last] <+: s.firings i ∨
    (s.firings i = before ∧ (s.tick.timers i).armed = true ∧ 0 < (s.tick.timers i).remaining ∧
      s.number + (s.tick.timers i).remaining = last + if i ∈ s.tick.rest then 1 else 0)

namespace Awaits

variable {before : List Nat} {last : Nat} {timers : Nat → TimeEvent}

theorem frame (awaits : Awaits i before last s) (fired : u.firings i = s.firings i)
    (number : u.number = s.number) (armed : (u.tick.timers i).armed = (s.tick.timers i).armed)
    (remaining : (u.tick.timers i).remaining = (s.tick.timers i).remaining)
    (rest : i ∈ u.tick.rest ↔ i ∈ s.tick.rest) : Awaits i before last u := by
  unfold Awaits
  rw [fired, number, armed, remaining, if_congr rest rfl rfl]
  exact awaits

theorem other_turn {j : Nat} (awaits : Awaits i before last s) (next : s.tick.rest = j :: rest)
    (other : i ≠ j) (fired : u.firings i = s.firings i) (number : u.number = s.number)
    (timers : u.tick.timers = (s.tick.poll j rest).timers) (rested : u.tick.rest = rest) :
    Awaits i before last u := by
  have same : u.tick.timers i = s.tick.timers i := by
    rw [timers]
    exact Tick.timers_poll other
  refine awaits.frame fired number (congrArg TimeEvent.armed same)
    (congrArg TimeEvent.remaining same) ?_
  rw [next, rested, List.mem_cons]
  exact (or_iff_right other).symm

theorem begins (awaits : Awaits i before last s) (member : i ∈ events.bucket tickRate)
    (empty : s.tick.rest = []) :
    Awaits i before last
      ({ s with
        tick := .start events tickRate s.tick.timers s.tick.world
        number := s.number + 1 } : Ticking π W E) := by
  apply awaits.imp id
  rintro ⟨waiting, armed, positive, due⟩
  refine ⟨waiting, armed, positive, ?_⟩
  rw [empty, if_neg List.not_mem_nil] at due
  -- One tick more, and one turn of the event still to come in it.
  show s.number + 1 + (s.tick.timers i).remaining =
    last + if i ∈ events.bucket tickRate then 1 else 0
  rw [if_pos member]
  omega

theorem waits (awaits : Awaits i before last s) (next : s.tick.rest = i :: rest)
    (later : i ∉ rest) (waiting : ((s.tick.timers i).poll π).1 = none) :
    Awaits i before last { s with tick := s.tick.poll i rest } := by
  apply awaits.imp id
  rintro ⟨still, armed, positive, due⟩
  rw [next, if_pos List.mem_cons_self] at due
  have more : 1 < (s.tick.timers i).remaining := by
    by_contra few
    rw [TimeEvent.poll_expires armed (Nat.le_of_not_lt few)] at waiting
    cases waiting
  have polled : (s.tick.poll i rest).timers i =
      { s.tick.timers i with remaining := (s.tick.timers i).remaining - 1 } := by
    rw [Tick.timers_poll_self, TimeEvent.poll_waits armed more]
  refine ⟨still, ?_, ?_, ?_⟩
  · rw [polled]
    exact armed
  · rw [polled]
    exact Nat.sub_pos_of_lt more
  · rw [polled]
    show s.number + ((s.tick.timers i).remaining - 1) = last + if i ∈ rest then 1 else 0
    rw [if_neg later]
    omega

theorem fires (awaits : Awaits i before last s) (next : s.tick.rest = i :: rest)
    (due : ((s.tick.timers i).poll π).1.isSome) (w : W) :
    Awaits i before last
      { s with
        tick := { s.tick.poll i rest with world := w }
        fired := s.fired ++ [(s.number, i)] } := by
  apply Or.inl
  rw [firings_append rfl, if_pos rfl]
  rcases awaits with fired | ⟨still, armed, positive, number⟩
  · exact fired.trans (List.prefix_append _ _)
  · obtain ⟨post, expired⟩ := Option.isSome_iff_exists.mp due
    have least := (Tick.poll_due expired).2.1
    rw [next, if_pos List.mem_cons_self] at number
    have now : s.number = last := by omega
    have grown : s.firings i ++ [s.number] = before ++ [last] := by rw [now, still]
    exact grown ▸ List.prefix_rfl

theorem moves {a : TickingStep A} (awaits : Awaits i before last s)
    (sound : Sound events tickRate timers s) (nodup : (events.bucket tickRate).Nodup)
    (member : i ∈ events.bucket tickRate) (undisturbed : Undisturbed i before s a)
    (moved : Moves events tickRate s a u) : Awaits i before last u := by
  cases moved with
  | begins ended => exact awaits.begins member (sound.returned ended)
  | returns => exact awaits.frame rfl rfl rfl rfl Iff.rfl
  | waits j rest next waiting =>
      by_cases here : j = i
      · subst here
        have apart := sound.suffix.sublist.nodup nodup
        rw [next] at apart
        exact awaits.waits next (List.nodup_cons.mp apart).1 waiting
      · have other : i ≠ j := fun same => here same.symm
        exact awaits.other_turn next other rfl rfl rfl rfl
  | fires j rest next due w =>
      by_cases here : j = i
      · subst here
        exact awaits.fires next due w
      · have other : i ≠ j := fun same => here same.symm
        refine awaits.other_turn next other ?_ rfl rfl rfl
        rw [firings_append rfl, if_neg here, List.append_nil]
  | calls j c =>
      by_cases here : j = i
      · subst here
        -- A question leaves the count alone; any other call comes after the expiry.
        rcases undisturbed rfl with asks | since
        · obtain ⟨armed, remaining⟩ := call_asks (π := π) asks (s.tick.timers j)
          have called : Function.update s.tick.timers j ((s.tick.timers j).call π c).2 j =
              ((s.tick.timers j).call π c).2 := Function.update_self _ _ _
          exact awaits.frame rfl rfl ((congrArg TimeEvent.armed called).trans armed)
            ((congrArg TimeEvent.remaining called).trans remaining) Iff.rfl
        · exact .inl (awaits.resolve_right fun still => since still.1)
      · have other : i ≠ j := fun same => here same.symm
        have same : Function.update s.tick.timers j ((s.tick.timers j).call π c).2 i =
            s.tick.timers i := Function.update_of_ne other _ _
        exact awaits.frame rfl rfl (congrArg TimeEvent.armed same)
          (congrArg TimeEvent.remaining same) Iff.rfl
  | other => exact awaits.frame rfl rfl rfl rfl Iff.rfl

theorem passed (awaits : Awaits i before last s) (sound : Sound events tickRate timers s)
    (passed : s.Passed last) : before ++ [last] <+: s.firings i := by
  apply awaits.resolve_right
  rintro ⟨-, -, positive, due⟩
  by_cases ahead : i ∈ s.tick.rest
  · rw [if_pos ahead] at due
    rcases passed with later | ⟨-, ended⟩
    · omega
    · rw [sound.returned ended] at ahead
      cases ahead
  · rw [if_neg ahead] at due
    rcases passed with later | ⟨now, -⟩ <;> omega

end Awaits

section Runs

variable {timers : Nat → TimeEvent} {world : W} {past later : List (TickingStep A)}

theorem Awaits.armed {c : TimeCall} {n : Nat} (timeout : c.timeout = some n) (positive : 0 < n)
    (stepped : s.step K events tickRate (.timer i c) = some u) :
    Awaits i (s.firings i) (s.number + n - if i ∈ s.tick.rest then 1 else 0) u := by
  cases stepped
  obtain ⟨armed, remaining⟩ := call_timeout (π := π) timeout (s.tick.timers i)
  refine .inr ⟨rfl, ?_, ?_, ?_⟩
  · show (Function.update s.tick.timers i _ i).armed = true
    rw [Function.update_self, armed]
  · show 0 < (Function.update s.tick.timers i _ i).remaining
    rw [Function.update_self, remaining]
    exact positive
  · show s.number + (Function.update s.tick.timers i _ i).remaining = _
    rw [Function.update_self, remaining]
    split <;> omega

theorem Awaits.run {before : List Nat} {last : Nat} (awaits : Awaits i before last s)
    (sound : Sound events tickRate timers s) (known : Known K (events.bucket tickRate) timers)
    (nodup : (events.bucket tickRate).Nodup) (member : i ∈ events.bucket tickRate)
    (undisturbed : Along (step K events tickRate) (Undisturbed i before) s later)
    (ran : Lib.run (step K events tickRate) s later = some t) :
    Awaits i before last t ∧ Sound events tickRate timers t := by
  apply along_preserves _ ⟨awaits, sound⟩ undisturbed ran
  intro s a t ⟨awaits, sound⟩ quiet stepped
  have moved := moves_of_step (sound.known known) stepped
  exact ⟨awaits.moves sound nodup member quiet moved, sound.moves moved⟩

end Runs

end Steps

end Ticking

end QpRs
