import QpRs.Lib.Rounds
import QpRs.Time.Ticks

/-! The handlers of `QkTimerWheel`, which run in the middle of its scan (`tick_rate` of
`qk/src/time.rs`): what the order of registration changes. -/

namespace QpRs

open QpRs.Lib

def timeEvents (π : Type) : Objects TimeEvent TimeCall (TimeAnswer π) where
  call := TimeEvent.call π
  fires ev := (ev.poll π).1.isSome
  turn ev := (ev.poll π).2

/-- What a handler does with time events: it calls one after the other, and sees the answers. -/
abbrev Handling (π σ : Type) := Reaction Nat TimeCall (TimeAnswer π) σ

/-- The wheel with its handlers, which run in the middle of the loop of `tick_rate`: `handling` is
what the handler of the event that expired last has still to do, or what the handlers remember. -/
structure Reacting (π W E σ : Type) where
  ticking : Ticking π W E
  handling : Handling π σ

namespace Reacting

variable {π W E A σ : Type} (K : PostingKernel π W E A) (events : WheelEvents) (tickRate : Nat)
  (react : σ → Nat → Handling π σ)

def start (memory : σ) (timers : Nat → TimeEvent) (world : W) : Reacting π W E σ :=
  ⟨.start timers world, .done memory⟩

/-- `post_and_run` returns to the loop when the handler of the event is done. -/
def step (s : Reacting π W E σ) (a : TickingStep A) : Option (Reacting π W E σ) :=
  match s.handling, a with
  | .done x, .tick => (s.ticking.step K events tickRate .tick).map fun t => ⟨t, .done x⟩
  | .done x, .turn =>
      (s.ticking.step K events tickRate .turn).map fun t =>
        ⟨t, (s.ticking.tick.expires.map fun i => react x i).getD (.done x)⟩
  | .call i c next, .timer j d =>
      if j = i ∧ d = c then
        (s.ticking.step K events tickRate (.timer i c)).map fun t =>
          ⟨t, next ((s.ticking.tick.timers i).call π c).1⟩
      else none
  | handling, .kernel a =>
      (s.ticking.step K events tickRate (.kernel a)).map fun t => ⟨t, handling⟩
  | _, _ => none

/-- No handler calls an event whose turn is still to come. -/
def Behind (s : Reacting π W E σ) (a : TickingStep A) : Prop := s.ticking.Behind a

/-- The first `m` ticks at which an event expires when the handlers run after all the turns of a
tick. -/
def roundFirings (order : List Nat) (first : σ × (Nat → TimeEvent)) (i : Nat) : Nat → List Nat
  | 0 => []
  | m + 1 =>
      roundFirings order first i m ++
        if i ∈ (timeEvents π).firing order ((timeEvents π).rounds react order first m).2
        then [m + 1] else []

section Steps

variable {K : PostingKernel π W E A} {events : WheelEvents} {tickRate : Nat}
  {react : σ → Nat → Handling π σ} {s t u : Reacting π W E σ} {order other : List Nat}
  {memory : σ} {timers : Nat → TimeEvent} {i : Nat} {rest : List Nat}

theorem step_cases {a : TickingStep A} (stepped : s.step K events tickRate react a = some u) :
    s.ticking.step K events tickRate a = some u.ticking ∧
      ((a = .tick ∧ ∃ x, s.handling = .done x ∧ u.handling = .done x) ∨
        (a = .turn ∧ ∃ x, s.handling = .done x ∧
          u.handling = (s.ticking.tick.expires.map fun i => react x i).getD (.done x)) ∨
        (∃ i c next, a = .timer i c ∧ s.handling = .call i c next ∧
          u.handling = next ((s.ticking.tick.timers i).call π c).1) ∨
        ∃ act, a = .kernel act ∧ u.handling = s.handling) := by
  unfold step at stepped
  split at stepped
  · rename_i x idle
    obtain ⟨t, ticked, rfl⟩ := Option.map_eq_some_iff.mp stepped
    exact ⟨ticked, .inl ⟨rfl, x, idle, rfl⟩⟩
  · rename_i x idle
    obtain ⟨t, turned, rfl⟩ := Option.map_eq_some_iff.mp stepped
    exact ⟨turned, .inr (.inl ⟨rfl, x, idle, rfl⟩)⟩
  · rename_i i c next j d busy
    split at stepped
    · rename_i same
      obtain ⟨rfl, rfl⟩ := same
      obtain ⟨t, called, rfl⟩ := Option.map_eq_some_iff.mp stepped
      exact ⟨called, .inr (.inr (.inl ⟨j, d, next, rfl, busy, rfl⟩))⟩
    · cases stepped
  · rename_i act
    obtain ⟨t, moved, rfl⟩ := Option.map_eq_some_iff.mp stepped
    exact ⟨moved, .inr (.inr (.inr ⟨act, rfl, rfl⟩))⟩
  · cases stepped

/-- A run follows the rounds: before the first tick nothing has happened, and the tick with the
number `m + 1` is in the middle of the round `m`. -/
inductive Follows (react : σ → Nat → Handling π σ) (order : List Nat)
    (first : σ × (Nat → TimeEvent))
    (s : Reacting π W E σ) : Prop where
  | idle (number : s.ticking.number = 0) (rest : s.ticking.tick.rest = [])
      (handling : s.handling = .done first.1) (timers : s.ticking.tick.timers = first.2)
      (firings : ∀ i, s.ticking.firings i = [])
  | during (m : Nat) (past : List Nat) (number : s.ticking.number = m + 1)
      (midway : (timeEvents π).Midway react order ((timeEvents π).rounds react order first m) past
        s.ticking.tick.rest s.handling s.ticking.tick.timers)
      (firings : ∀ i, s.ticking.firings i = roundFirings react order first i m ++
        if i ∈ (timeEvents π).firing past ((timeEvents π).rounds react order first m).2 then [m + 1]
        else [])

namespace Follows

variable {first : σ × (Nat → TimeEvent)} {x : σ}

theorem between (follows : Follows react order first s) (empty : s.ticking.tick.rest = [])
    (idle : s.handling = .done x) :
    (x, s.ticking.tick.timers) = (timeEvents π).rounds react order first s.ticking.number := by
  cases follows with
  | idle number rest handling timers firings =>
      rw [handling] at idle
      cases idle
      rw [number, timers]
      rfl
  | during m past number midway firings =>
      rw [empty, idle] at midway
      rw [number]
      exact midway.finished.2

theorem firings_between (follows : Follows react order first s) (empty : s.ticking.tick.rest = [])
    (i : Nat) : s.ticking.firings i = roundFirings react order first i s.ticking.number := by
  cases follows with
  | idle number rest handling timers firings =>
      rw [number]
      exact firings i
  | during m past number midway firings =>
      have all : past = order := by
        rw [← midway.split, empty, List.append_nil]
      rw [number, firings i, all]
      rfl

theorem begins (follows : Follows react (events.bucket tickRate) first s)
    (empty : s.ticking.tick.rest = []) (idle : s.handling = .done x) :
    Follows react (events.bucket tickRate) first
      (⟨{ s.ticking with
          tick := .start events tickRate s.ticking.tick.timers s.ticking.tick.world
          number := s.ticking.number + 1 }, .done x⟩ : Reacting π W E σ) := by
  refine .during s.ticking.number [] rfl ?_ ?_
  · rw [← follows.between empty idle]
    exact Objects.Midway.start _ _ _
  · intro i
    exact (follows.firings_between empty i).trans (List.append_nil _).symm

theorem waits (follows : Follows react order first s) (nodup : order.Nodup)
    (next : s.ticking.tick.rest = i :: rest) (idle : s.handling = .done x)
    (waiting : ((s.ticking.tick.timers i).poll π).1 = none) :
    Follows react order first
      (⟨{ s.ticking with tick := s.ticking.tick.poll i rest }, .done x⟩ : Reacting π W E σ) := by
  cases follows with
  | idle number empty => cases next.symm.trans empty
  | during m past number midway firings =>
      have quiet : (timeEvents π).fires (s.ticking.tick.timers i) = false := by
        show ((s.ticking.tick.timers i).poll π).1.isSome = false
        rw [waiting]
        rfl
      rw [next, idle] at midway
      refine .during m (past ++ [i]) number (midway.waits nodup quiet) ?_
      intro j
      rw [midway.firing_turn, quiet, if_neg Bool.false_ne_true, List.append_nil]
      exact firings j

theorem fires (follows : Follows react order first s) (nodup : order.Nodup)
    (next : s.ticking.tick.rest = i :: rest) (idle : s.handling = .done x)
    (due : (timeEvents π).fires (s.ticking.tick.timers i) = true) (w : W) :
    Follows react order first
      (⟨{ s.ticking with
          tick := { s.ticking.tick.poll i rest with world := w }
          fired := s.ticking.fired ++ [(s.ticking.number, i)] }, react x i⟩ :
        Reacting π W E σ) := by
  cases follows with
  | idle number empty => cases next.symm.trans empty
  | during m past number midway firings =>
      rw [next, idle] at midway
      refine .during m (past ++ [i]) number (midway.sets_off nodup due) ?_
      intro j
      have fresh : i ∉ past := by
        rw [← midway.split] at nodup
        intro earlier
        exact (List.nodup_append.mp nodup).2.2 i earlier i List.mem_cons_self rfl
      rw [midway.firing_turn, if_pos due, Ticking.firings_append rfl, firings j, number,
        List.append_assoc]
      by_cases here : i = j
      · subst here
        have first_time : i ∉ (timeEvents π).firing past
            ((timeEvents π).rounds react order first m).2 :=
          fun fired => fresh (List.mem_of_mem_filter fired)
        simp [first_time]
      · have other : j ≠ i := fun same => here same.symm
        simp [here, other]

theorem calls {c : TimeCall} {next : TimeAnswer π → Handling π σ}
    (follows : Follows react order first s) (behind : i ∉ s.ticking.tick.rest)
    (busy : s.handling = .call i c next) :
    Follows react order first
      (⟨{ s.ticking with
          tick := { s.ticking.tick with
            timers := Function.update s.ticking.tick.timers i
              ((s.ticking.tick.timers i).call π c).2 } },
        next ((s.ticking.tick.timers i).call π c).1⟩ : Reacting π W E σ) := by
  cases follows with
  | idle number rest handling => cases busy.symm.trans handling
  | during m past number midway firings =>
      rw [busy] at midway
      exact .during m past number (midway.called behind) firings

theorem frame (follows : Follows react order first s) (handling : u.handling = s.handling)
    (number : u.ticking.number = s.ticking.number)
    (timers : u.ticking.tick.timers = s.ticking.tick.timers)
    (rest : u.ticking.tick.rest = s.ticking.tick.rest)
    (fired : u.ticking.firings = s.ticking.firings) : Follows react order first u := by
  cases follows with
  | idle zero empty idle same none =>
      exact .idle (number.trans zero) (rest.trans empty) (handling.trans idle) (timers.trans same)
        fun i => (congrFun fired i).trans (none i)
  | during m past zero midway firings =>
      refine .during m past (number.trans zero) ?_ fun i => (congrFun fired i).trans (firings i)
      rw [handling, timers, rest]
      exact midway

theorem step {a : TickingStep A} (follows : Follows react (events.bucket tickRate) first s)
    (sound : Ticking.Sound events tickRate timers s.ticking)
    (known : Ticking.Known K (events.bucket tickRate) timers)
    (nodup : (events.bucket tickRate).Nodup) (behind : s.Behind a)
    (stepped : s.step K events tickRate react a = some u) :
    Follows react (events.bucket tickRate) first u := by
  obtain ⟨ticked, did⟩ := step_cases stepped
  have moved := Ticking.moves_of_step (sound.known known) ticked
  obtain ⟨ticking, handling⟩ := u
  simp only at moved did
  rcases did with ⟨rfl, x, idle, rfl⟩ | ⟨rfl, x, idle, rfl⟩ | ⟨i, c, next, rfl, busy, rfl⟩ |
    ⟨act, rfl, rfl⟩
  · cases moved with
    | begins ended => exact follows.begins (sound.returned ended) idle
  · cases moved with
    | returns empty =>
        rw [Ticking.expires_nil empty]
        exact follows.frame idle.symm rfl rfl rfl rfl
    | waits i rest next waiting =>
        rw [Ticking.expires_waits next waiting]
        exact follows.waits nodup next idle waiting
    | fires i rest next due w =>
        rw [Ticking.expires_due next due]
        exact follows.fires nodup next idle due w
  · cases moved with
    | calls => exact follows.calls behind busy
  · cases moved with
    | other => exact follows.frame rfl rfl rfl rfl rfl

end Follows

/-- What a run with handlers keeps while no handler calls an event ahead. -/
structure Keeps (events : WheelEvents) (tickRate : Nat) (react : σ → Nat → Handling π σ)
    (first : σ × (Nat → TimeEvent)) (s : Reacting π W E σ) : Prop where
  sound : Ticking.Sound events tickRate first.2 s.ticking
  follows : Follows react (events.bucket tickRate) first s

namespace Keeps

variable {first : σ × (Nat → TimeEvent)} {a : TickingStep A}

theorem start (memory : σ) (timers : Nat → TimeEvent) (world : W) :
    Keeps events tickRate react (memory, timers)
      (.start memory timers world : Reacting π W E σ) where
  sound := Ticking.Sound.start timers world
  follows := .idle rfl rfl rfl rfl fun _ => rfl

theorem step (keeps : Keeps events tickRate react first s)
    (known : Ticking.Known K (events.bucket tickRate) first.2)
    (nodup : (events.bucket tickRate).Nodup) (behind : s.Behind a)
    (stepped : s.step K events tickRate react a = some u) :
    Keeps events tickRate react first u where
  sound := keeps.sound.step known (step_cases stepped).1
  follows := keeps.follows.step keeps.sound known nodup behind stepped

end Keeps

end Steps

section Runs

variable {K : PostingKernel π W E A} {events others : WheelEvents} {tickRate : Nat}
  {react : σ → Nat → Handling π σ} {memory : σ} {timers : Nat → TimeEvent} {world elsewhere : W}
  {labels labels' : List (TickingStep A)} {t t' : Reacting π W E σ} {other : List Nat}

end Runs

end Reacting

end QpRs
