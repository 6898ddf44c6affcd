import QpRs.Active
import QpRs.Hsm.QHsm
import Mathlib.Data.List.FinRange

/-! The table of the dining philosophers (`examples/dpp/src/table.rs` and the constants of
`main.rs`): a state machine that keeps the forks and grants them in pairs.

`posts` are the posts of the running dispatch, `stats` the values of the `PAUSED_STAT` records. An
index out of the arrays stops the program, which `panicked` records. -/

namespace QpRs.Dpp

open Hsm

def nPhilo : Nat := 5

theorem nPhilo_pos : 0 < nPhilo := Nat.succ_pos 4

def tableId : ActiveObjectId := ⟨1⟩
def philoBaseId : Nat := 2

def eatSig : Signal := ⟨4⟩
def doneSig : Signal := ⟨5⟩
def pauseSig : Signal := ⟨6⟩
def serveSig : Signal := ⟨7⟩
def testSig : Signal := ⟨8⟩
def timeoutSig : Signal := ⟨10⟩
def hungrySig : Signal := ⟨11⟩

/-- `ActiveObjectId::new(PHILO_BASE_ID + idx as u8)` -/
def philoId (idx : Fin nPhilo) : ActiveObjectId := ⟨philoBaseId + idx.val⟩

structure TableMsg where
  philo : ActiveObjectId
  deriving DecidableEq, Repr

abbrev Event := DynEvent TableMsg

structure TableData where
  forks : Fin nPhilo → Bool
  hungry : Fin nPhilo → Bool
  posts : List (ActiveObjectId × Event)
  stats : List Nat
  panicked : Bool

inductive TableState where
  | active
  | serving
  | paused
  deriving DecidableEq, Repr

def left (n : Fin nPhilo) : Fin nPhilo := ⟨(n.val + 1) % nPhilo, Nat.mod_lt _ nPhilo_pos⟩

def right (n : Fin nPhilo) : Fin nPhilo :=
  ⟨(n.val + nPhilo - 1) % nPhilo, Nat.mod_lt _ nPhilo_pos⟩

/-- The two subtractions and array accesses that can stop the program: `none` where they do. -/
def msgIndex (msg : TableMsg) : Option (Fin nPhilo) :=
  if philoBaseId ≤ msg.philo.val then
    if inRange : msg.philo.val - philoBaseId < nPhilo then
      some ⟨msg.philo.val - philoBaseId, inRange⟩
    else none
  else none

namespace TableData

def new : TableData := ⟨fun _ => true, fun _ => false, [], [], false⟩

def canEat (t : TableData) (idx : Fin nPhilo) : Bool := t.forks idx && t.forks (left idx)

def takeForks (t : TableData) (idx : Fin nPhilo) : TableData :=
  { t with forks := Function.update (Function.update t.forks idx false) (left idx) false }

def releaseForks (t : TableData) (idx : Fin nPhilo) : TableData :=
  { t with forks := Function.update (Function.update t.forks idx true) (left idx) true }

def grantForks (t : TableData) (idx : Fin nPhilo) : TableData :=
  let t := t.takeForks idx
  { t with
    hungry := Function.update t.hungry idx false
    posts := t.posts ++ [(philoId idx, .emptyDyn eatSig)] }

def setHungry (t : TableData) (idx : Fin nPhilo) : TableData :=
  { t with hungry := Function.update t.hungry idx true }

def handleHungry (t : TableData) (idx : Fin nPhilo) : TableData :=
  if t.canEat idx then t.grantForks idx else t.setHungry idx

/-- `if self.hungry[idx] && self.can_eat(idx) { self.grant_forks(idx) }` -/
def serveHungry (t : TableData) (idx : Fin nPhilo) : TableData :=
  if t.hungry idx && t.canEat idx then t.grantForks idx else t

def handleDone (t : TableData) (idx : Fin nPhilo) : TableData :=
  ((t.releaseForks idx).serveHungry (right idx)).serveHungry (left idx)

def handlePausedDone (t : TableData) (idx : Fin nPhilo) : TableData := t.releaseForks idx

/-- The loop of the entry action of `serving`. -/
def serveAll (t : TableData) : TableData :=
  (List.finRange nPhilo).foldl serveHungry t

/-- `if let Some(msg) = e.payload.downcast_ref::<TableMsg>()`, and what follows on its index. -/
def withMsg (t : TableData) (e : Event) (body : TableData → Fin nPhilo → TableData) : TableData :=
  match e.payload with
  | .unit => t
  | .value msg =>
      match msgIndex msg with
      | some idx => body t idx
      | none => { t with panicked := true }

def emitPaused (t : TableData) (value : Nat) : TableData := { t with stats := t.stats ++ [value] }

end TableData

abbrev TableFn := StateFn TableState TableData TableMsg

def tableInitial : TableFn := fun t _ => (.tran (some .serving), t)

def active : TableFn := fun t e =>
  match e.signal.val with
  | 3 => (.tran (some .serving), t) -- Q_INIT_SIG
  | 8 => (.handled, t) -- TEST_SIG
  | _ => (.super topState, t)

def serving : TableFn := fun t e =>
  match e.signal.val with
  | 1 => (.handled, t.serveAll) -- Q_ENTRY_SIG
  | 11 => (.handled, t.withMsg e .handleHungry) -- HUNGRY_SIG
  | 5 => (.handled, t.withMsg e .handleDone) -- DONE_SIG
  | 6 => (.tran (some .paused), t) -- PAUSE_SIG
  | _ => (.super (some .active), t)

def paused : TableFn := fun t e =>
  match e.signal.val with
  | 1 => (.handled, t.emitPaused 1) -- Q_ENTRY_SIG
  | 2 => (.handled, t.emitPaused 0) -- Q_EXIT_SIG
  | 7 => (.tran (some .serving), t) -- SERVE_SIG
  | 11 => (.handled, t.withMsg e .setHungry) -- HUNGRY_SIG
  | 5 => (.handled, t.withMsg e .handlePausedDone) -- DONE_SIG
  | _ => (.super (some .active), t)

def tableHandler : TableState → TableFn
  | .active => active
  | .serving => serving
  | .paused => paused

abbrev TableHsm := QHsm TableState TableData TableMsg

end QpRs.Dpp
