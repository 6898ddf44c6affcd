import QpRs.Dpp.Table
import QpRs.Time.TimeEvent

/-! A philosopher (`examples/dpp/src/philo.rs`). What the random generator and the test probe answer
during a dispatch are inputs of its handlers. `posts` are the posts to the table of the running
dispatch, `stats` the texts of the `PHILO_STAT` records. -/

namespace QpRs.Dpp

open Hsm

/-- `gen_range(low..=high)` of the random generator. -/
structure Rng where
  genRange : Nat → Nat → Nat
  bounded : ∀ low high, low ≤ high → low ≤ genRange low high ∧ genRange low high ≤ high

/-- What a philosopher's dispatch asks for: at most one number and one test probe. -/
structure Answers where
  rng : Rng
  /-- `take_test_probe` of the handler `thinking`. -/
  probe : Option Nat

structure PhiloData where
  index : Fin nPhilo
  timer : TimeEvent
  posts : List (ActiveObjectId × Event)
  stats : List String

inductive PhiloState where
  | thinking
  | hungry
  | eating
  deriving DecidableEq, Repr

namespace PhiloData

def new (index : Fin nPhilo) : PhiloData :=
  ⟨index, .new (philoId index) ⟨timeoutSig, none, 0⟩, [], []⟩

def thinkTicks (rng : Rng) : Nat := rng.genRange 3 6

def eatTicks (rng : Rng) : Nat := rng.genRange 2 5

def postTable (p : PhiloData) (signal : Signal) : PhiloData :=
  { p with posts := p.posts ++ [(tableId, .withPayload signal ⟨philoId p.index⟩)] }

def logState (p : PhiloData) (state : String) : PhiloData := { p with stats := p.stats ++ [state] }

def armTimer (p : PhiloData) (ticks : Nat) : PhiloData := { p with timer := p.timer.arm ticks none }

def disarmTimer (p : PhiloData) : PhiloData := { p with timer := p.timer.disarm }

end PhiloData

abbrev PhiloFn := StateFn PhiloState PhiloData TableMsg

def philoInitial : PhiloFn := fun p _ => (.tran (some .thinking), p)

def thinking (answers : Answers) : PhiloFn := fun p e =>
  match e.signal.val with
  | 1 => -- Q_ENTRY_SIG
      (.handled, (p.armTimer (PhiloData.thinkTicks answers.rng)).logState "thinking")
  | 2 => (.handled, p.disarmTimer) -- Q_EXIT_SIG
  | 10 => -- TIMEOUT_SIG
      match answers.probe with
      | some tp => if tp ≠ 0 then (.handled, p) else (.tran (some .hungry), p)
      | none => (.tran (some .hungry), p)
  | 8 => (.handled, p) -- TEST_SIG
  | _ => (.super topState, p)

def hungry : PhiloFn := fun p e =>
  match e.signal.val with
  | 1 => (.handled, (p.postTable hungrySig).logState "hungry") -- Q_ENTRY_SIG
  | 4 => (.tran (some .eating), p) -- EAT_SIG
  | _ => (.super topState, p)

def eating (answers : Answers) : PhiloFn := fun p e =>
  match e.signal.val with
  | 1 => -- Q_ENTRY_SIG
      (.handled, (p.armTimer (PhiloData.eatTicks answers.rng)).logState "eating")
  | 2 => (.handled, p.disarmTimer.postTable doneSig) -- Q_EXIT_SIG
  | 10 => (.tran (some .thinking), p) -- TIMEOUT_SIG
  | _ => (.super topState, p)

def philoHandler (answers : Answers) : PhiloState → PhiloFn
  | .thinking => thinking answers
  | .hungry => hungry
  | .eating => eating answers

abbrev PhiloHsm := QHsm PhiloState PhiloData TableMsg

end QpRs.Dpp
