import QpRs.Active
import Mathlib.Data.List.Basic

/-! Time events (`TimeEvent` of `qf/src/time.rs`), and what the calls made so far say about one. -/

namespace QpRs

structure TimeEventConfig where
  signal : Signal
  intervalTicks : Option Nat
  tickRate : Nat
  deriving DecidableEq, Repr

structure TimeEvent where
  target : ActiveObjectId
  cfg : TimeEventConfig
  remaining : Nat
  armed : Bool
  disarmedFlag : Bool
  deriving DecidableEq, Repr

inductive TimeCall where
  | arm (timeoutTicks : Nat) (intervalTicks : Option Nat)
  | disarm
  | rearm (timeoutTicks : Nat)
  | wasDisarmed
  | isArmed
  | poll
  deriving DecidableEq, Repr

inductive TimeAnswer (π : Type) where
  | done
  | flag (yes : Bool)
  | expired (post : Option (ActiveObjectId × DynEvent π))
  deriving DecidableEq, Repr

namespace TimeEvent

def new (target : ActiveObjectId) (config : TimeEventConfig) : TimeEvent :=
  ⟨target, config, 0, false, false⟩

def arm (ev : TimeEvent) (timeoutTicks : Nat) (intervalTicks : Option Nat) : TimeEvent :=
  { ev with
    remaining := timeoutTicks
    cfg := { ev.cfg with intervalTicks := intervalTicks }
    armed := true }

def disarm (ev : TimeEvent) : TimeEvent :=
  if ev.armed then { ev with armed := false, remaining := 0, disarmedFlag := true } else ev

def rearm (ev : TimeEvent) (timeoutTicks : Nat) : Bool × TimeEvent :=
  (ev.armed, { ev with remaining := timeoutTicks, armed := true })

def wasDisarmed (ev : TimeEvent) : Bool × TimeEvent :=
  (ev.disarmedFlag, { ev with disarmedFlag := false })

def poll (π : Type) (ev : TimeEvent) : Option (ActiveObjectId × DynEvent π) × TimeEvent :=
  if !ev.armed then (none, ev)
  else
    let ev := if ev.remaining > 0 then { ev with remaining := ev.remaining - 1 } else ev
    if ev.remaining = 0 then
      let periodic := ev.cfg.intervalTicks.isSome
      let post := (ev.target, .emptyDyn ev.cfg.signal)
      let ev := { ev with armed := periodic }
      let ev := match ev.cfg.intervalTicks with
        | some period => { ev with remaining := period }
        | none => ev
      let ev := if !periodic then { ev with disarmedFlag := true } else ev
      (some post, ev)
    else (none, ev)

def call (π : Type) (ev : TimeEvent) : TimeCall → TimeAnswer π × TimeEvent
  | .arm timeoutTicks intervalTicks => (.done, ev.arm timeoutTicks intervalTicks)
  | .disarm => (.done, ev.disarm)
  | .rearm timeoutTicks => (.flag (ev.rearm timeoutTicks).1, (ev.rearm timeoutTicks).2)
  | .wasDisarmed => (.flag ev.wasDisarmed.1, ev.wasDisarmed.2)
  | .isArmed => (.flag ev.armed, ev)
  | .poll => (.expired (ev.poll π).1, (ev.poll π).2)

end TimeEvent

/-- The calls made so far with their answers, the latest first. -/
abbrev TimeLog (π : Type) := List (TimeCall × TimeAnswer π)

namespace TimeLog

variable {π : Type} (config : TimeEventConfig)

/-- The interval of the latest `arm`, or else the one of the configuration. -/
def interval : TimeLog π → Option Nat
  | [] => config.intervalTicks
  | (.arm _ intervalTicks, _) :: _ => intervalTicks
  | _ :: earlier => interval earlier

/-- A one-shot expiry and `disarm` disarm; a periodic expiry leaves the event armed. -/
def armed : TimeLog π → Bool
  | [] => false
  | (.arm _ _, _) :: _ => true
  | (.rearm _, _) :: _ => true
  | (.disarm, _) :: _ => false
  | (.poll, .expired (some _)) :: earlier => (interval config earlier).isSome
  | _ :: earlier => armed earlier

/-- The timeout of the latest `arm` or `rearm`, or the interval when the event expired since. -/
def timeout : TimeLog π → Nat
  | [] => 0
  | (.arm timeoutTicks _, _) :: _ => timeoutTicks
  | (.rearm timeoutTicks, _) :: _ => timeoutTicks
  | (.poll, .expired (some _)) :: earlier => (interval config earlier).getD 0
  | _ :: earlier => timeout earlier

/-- The polls since the latest `arm`, `rearm` or expiry. -/
def polls : TimeLog π → Nat
  | [] => 0
  | (.arm _ _, _) :: _ => 0
  | (.rearm _, _) :: _ => 0
  | (.poll, .expired (some _)) :: _ => 0
  | (.poll, _) :: earlier => polls earlier + 1
  | _ :: earlier => polls earlier

/-- A one-shot expiry, or a `disarm` of the armed event, since the latest `wasDisarmed`. -/
def disarmed : TimeLog π → Bool
  | [] => false
  | (.wasDisarmed, _) :: _ => false
  | (.disarm, _) :: earlier => armed config earlier || disarmed earlier
  | (.poll, .expired (some _)) :: earlier => (interval config earlier).isNone || disarmed earlier
  | _ :: earlier => disarmed earlier

/-- The next poll is the one the event expires at. -/
def Due (log : TimeLog π) : Prop :=
  armed config log = true ∧ polls log + 1 = max (timeout config log) 1

instance (log : TimeLog π) : Decidable (Due config log) := inferInstanceAs (Decidable (_ ∧ _))

end TimeLog

namespace TimeEvent

variable {π : Type}

/-- A time event after calls, the latest first, with what they answered. -/
def runCalls (π : Type) (ev : TimeEvent) : List TimeCall → TimeLog π × TimeEvent
  | [] => ([], ev)
  | c :: earlier =>
      let (log, now) := runCalls π ev earlier
      ((c, (now.call π c).1) :: log, (now.call π c).2)

/-- The event is as its log says. -/
structure Tells (target : ActiveObjectId) (config : TimeEventConfig) (log : TimeLog π)
    (ev : TimeEvent) : Prop where
  target : ev.target = target
  cfg : ev.cfg = { config with intervalTicks := log.interval config }
  armed : ev.armed = log.armed config
  early : ev.armed = true → log.polls < max (log.timeout config) 1
  remaining : ev.armed = true → ev.remaining = log.timeout config - log.polls
  flag : ev.disarmedFlag = log.disarmed config

variable {target : ActiveObjectId} {config : TimeEventConfig} {log : TimeLog π} {ev : TimeEvent}

theorem tells_new : Tells target config ([] : TimeLog π) (new target config) where
  target := rfl
  cfg := rfl
  armed := rfl
  early armed := by cases armed
  remaining armed := by cases armed
  flag := rfl

namespace Tells

theorem arm (tells : Tells target config log ev) (timeoutTicks : Nat)
    (intervalTicks : Option Nat) (out : TimeAnswer π) :
    Tells target config ((.arm timeoutTicks intervalTicks, out) :: log)
      (ev.arm timeoutTicks intervalTicks) where
  target := tells.target
  cfg := by
    rw [TimeEvent.arm, tells.cfg]
    rfl
  armed := rfl
  early _ := Nat.lt_of_lt_of_le Nat.zero_lt_one (Nat.le_max_right _ _)
  remaining _ := rfl
  flag := tells.flag

theorem rearm (tells : Tells target config log ev) (timeoutTicks : Nat) (out : TimeAnswer π) :
    Tells target config ((.rearm timeoutTicks, out) :: log) (ev.rearm timeoutTicks).2 where
  target := tells.target
  cfg := tells.cfg
  armed := rfl
  early _ := Nat.lt_of_lt_of_le Nat.zero_lt_one (Nat.le_max_right _ _)
  remaining _ := rfl
  flag := tells.flag

theorem disarm (tells : Tells target config log ev) (out : TimeAnswer π) :
    Tells target config ((.disarm, out) :: log) ev.disarm := by
  have armed := tells.armed
  cases was : ev.armed with
  | true =>
      rw [TimeEvent.disarm, if_pos was]
      refine ⟨tells.target, tells.cfg, rfl, nofun, nofun, ?_⟩
      rw [TimeLog.disarmed, ← armed, was]
      rfl
  | false =>
      rw [TimeEvent.disarm, was, if_neg Bool.false_ne_true]
      have unarmed (yes : ev.armed = true) : False := Bool.false_ne_true (was.symm.trans yes)
      refine ⟨tells.target, tells.cfg, was, fun yes => (unarmed yes).elim,
        fun yes => (unarmed yes).elim, ?_⟩
      rw [TimeLog.disarmed, ← armed, was]
      exact tells.flag

theorem wasDisarmed (tells : Tells target config log ev) (out : TimeAnswer π) :
    Tells target config ((.wasDisarmed, out) :: log) ev.wasDisarmed.2 where
  target := tells.target
  cfg := tells.cfg
  armed := tells.armed
  early := tells.early
  remaining := tells.remaining
  flag := rfl

theorem isArmed (tells : Tells target config log ev) (out : TimeAnswer π) :
    Tells target config ((.isArmed, out) :: log) ev where
  target := tells.target
  cfg := tells.cfg
  armed := tells.armed
  early := tells.early
  remaining := tells.remaining
  flag := tells.flag

theorem intervalTicks (tells : Tells target config log ev) :
    ev.cfg.intervalTicks = log.interval config := by rw [tells.cfg]

theorem due_iff (tells : Tells target config log ev) :
    log.Due config ↔ ev.armed = true ∧ ev.remaining ≤ 1 := by
  rw [TimeLog.Due, ← tells.armed]
  refine and_congr_right fun armed => ?_
  have early := tells.early armed
  have remaining := tells.remaining armed
  omega

theorem counts (tells : Tells target config log ev) (armed : ev.armed = true)
    (waits : 1 < ev.remaining) :
    Tells target config ((.poll, .expired none) :: log)
      { ev with remaining := ev.remaining - 1 } where
  target := tells.target
  cfg := tells.cfg
  armed := tells.armed
  early _ := by
    have remaining := tells.remaining armed
    show log.polls + 1 < max (log.timeout config) 1
    omega
  remaining _ := by
    have remaining := tells.remaining armed
    show ev.remaining - 1 = log.timeout config - (log.polls + 1)
    omega
  flag := tells.flag

theorem idles (tells : Tells target config log ev) (unarmed : ev.armed = false) :
    Tells target config ((.poll, .expired none) :: log) ev where
  target := tells.target
  cfg := tells.cfg
  armed := tells.armed
  early armed := absurd (unarmed.symm.trans armed) Bool.false_ne_true
  remaining armed := absurd (unarmed.symm.trans armed) Bool.false_ne_true
  flag := tells.flag

theorem expires (tells : Tells target config log ev) (post : ActiveObjectId × DynEvent π) :
    Tells target config ((.poll, .expired (some post)) :: log)
      { ev with
        armed := ev.cfg.intervalTicks.isSome
        remaining := ev.cfg.intervalTicks.getD 0
        disarmedFlag := ev.cfg.intervalTicks.isNone || ev.disarmedFlag } where
  target := tells.target
  cfg := tells.cfg
  armed := congrArg Option.isSome tells.intervalTicks
  early _ := Nat.lt_of_lt_of_le Nat.zero_lt_one (Nat.le_max_right _ _)
  remaining _ := congrArg (Option.getD · 0) tells.intervalTicks
  flag := by rw [tells.intervalTicks, tells.flag, TimeLog.disarmed]

end Tells

theorem poll_unarmed (unarmed : ev.armed = false) : ev.poll π = (none, ev) := by
  simp [poll, unarmed]

theorem poll_waits (armed : ev.armed = true) (waits : 1 < ev.remaining) :
    ev.poll π = (none, { ev with remaining := ev.remaining - 1 }) := by
  have positive : ev.remaining > 0 := by omega
  have more : ev.remaining - 1 ≠ 0 := by omega
  simp [poll, armed, positive, more]

theorem poll_expires (armed : ev.armed = true) (due : ev.remaining ≤ 1) :
    ev.poll π = (some (ev.target, .emptyDyn ev.cfg.signal),
      { ev with
        armed := ev.cfg.intervalTicks.isSome
        remaining := ev.cfg.intervalTicks.getD 0
        disarmedFlag := ev.cfg.intervalTicks.isNone || ev.disarmedFlag }) := by
  obtain ⟨target, ⟨signal, interval, rate⟩, remaining, was, flag⟩ := ev
  cases armed
  have last : remaining = 0 ∨ remaining = 1 := by
    simp only at due
    omega
  rcases last with rfl | rfl <;> cases interval <;> rfl

theorem Tells.poll (tells : Tells target config log ev) :
    (ev.poll π).1 =
        (if log.Due config then some (target, .emptyDyn config.signal) else none) ∧
      Tells target config ((.poll, .expired (ev.poll π).1) :: log) (ev.poll π).2 := by
  have due := tells.due_iff
  cases armed : ev.armed with
  | false =>
      have idle : ¬log.Due config := by simp [due, armed]
      rw [poll_unarmed armed, if_neg idle]
      exact ⟨rfl, tells.idles armed⟩
  | true =>
      by_cases last : ev.remaining ≤ 1
      · rw [poll_expires armed last]
        refine ⟨?_, tells.expires _⟩
        rw [if_pos (due.mpr ⟨armed, last⟩), tells.target, tells.cfg]
      · have waits : ¬log.Due config := fun now => last (due.mp now).2
        rw [poll_waits armed (Nat.lt_of_not_le last), if_neg waits]
        exact ⟨rfl, tells.counts armed (Nat.lt_of_not_le last)⟩

theorem tells_runCalls (π : Type) (target : ActiveObjectId) (config : TimeEventConfig)
    (calls : List TimeCall) :
    Tells target config (runCalls π (new target config) calls).1
      (runCalls π (new target config) calls).2 := by
  induction calls with
  | nil => exact tells_new
  | cons c earlier ih =>
      cases c with
      | arm timeoutTicks intervalTicks => exact ih.arm timeoutTicks intervalTicks _
      | disarm => exact ih.disarm _
      | rearm timeoutTicks => exact ih.rearm timeoutTicks _
      | wasDisarmed => exact ih.wasDisarmed _
      | isArmed => exact ih.isArmed _
      | poll => exact ih.poll.2

/-- The timing of a time event after any calls. It expires at the next poll exactly when the log
says that it is armed and due: the polls since the latest `arm`, `rearm` or expiry, this one
included, are the timeout, or one for a timeout of zero. The expiry disarms it unless it is
periodic, and the other calls answer as the log says. -/
theorem time_event_timing (π : Type) (target : ActiveObjectId) (config : TimeEventConfig)
    (calls : List TimeCall) :
    let log := (runCalls π (new target config) calls).1
    let ev := (runCalls π (new target config) calls).2
    (ev.poll π).1 = (if log.Due config then some (target, .emptyDyn config.signal) else none) ∧
      (log.Due config → (ev.poll π).2.armed = (log.interval config).isSome) ∧
      ev.armed = log.armed config ∧
      ev.wasDisarmed.1 = log.disarmed config ∧
      ∀ timeoutTicks, (ev.rearm timeoutTicks).1 = log.armed config ∧
        (ev.rearm timeoutTicks).2.cfg.intervalTicks = log.interval config := by
  intro log ev
  have tells : Tells target config log ev := tells_runCalls π target config calls
  obtain ⟨posted, after⟩ := tells.poll
  refine ⟨posted, ?_, tells.armed, tells.flag, fun _ => ⟨tells.armed, tells.intervalTicks⟩⟩
  intro due
  rw [after.armed, posted, if_pos due]
  rfl

/-- A periodic event: the first expiry after the timeout, the next one after the interval. -/
example : ((runCalls Unit (new ⟨1⟩ ⟨qUserSig, none, 0⟩)
    [.poll, .poll, .poll, .poll, .arm 2 (some 1)]).1.map Prod.snd) =
      [.expired (some (⟨1⟩, .emptyDyn qUserSig)), .expired (some (⟨1⟩, .emptyDyn qUserSig)),
        .expired (some (⟨1⟩, .emptyDyn qUserSig)), .expired none, .done] := by decide

end TimeEvent

end QpRs
