import QpRs.Event
import Mathlib.Logic.Function.Basic

/-! The code-based state machine `QHsm` (`qf/src/hsm/qhsm.rs`), dynamic build.

A state handler is a function pointer, compared by address: `topState` or one of the application's
handlers, named by `σ`. `handler` gives the function behind each name. Loops of the source whose
end depends on the handlers take fuel. `calls` is a ghost log of all calls of handlers. -/

namespace QpRs.Hsm

def maxNestDepth : Nat := 6

abbrev StateHandler (σ : Type) := Option σ

@[match_pattern] abbrev topState {σ : Type} : StateHandler σ := none

inductive QHsmResult (σ : Type) where
  | handled
  | super (sup : StateHandler σ)
  | tran (target : StateHandler σ)
  | tranHist (parent : StateHandler σ)
  | ignored
  | unhandled
  deriving DecidableEq, Repr

abbrev StateFn (σ S π : Type) := S → DynEvent π → QHsmResult σ × S

/-- The QEP records of `qf/src/hsm/trace.rs`, over the type of state addresses. -/
inductive QepRecord (α : Type) where
  | stateEntry (state : α)
  | stateExit (state : α)
  | stateInit (state : α)
  | initTran (target : α)
  | dispatch (signal : Signal) (state : α)
  | internTran (signal : Signal) (state : α)
  | ignored (signal : Signal) (state : α)
  | tran (signal : Signal) (source target : α)
  | tranHist (signal : Signal) (source target : α)
  deriving DecidableEq, Repr

structure QHsm (σ S π : Type) where
  state : Dup (StateHandler σ)
  temp : StateFn σ S π
  sm : S
  history : StateHandler σ → Option (StateHandler σ)
  calls : List (StateHandler σ × DynEvent π)
  records : List (QepRecord (StateHandler σ))

namespace QHsm

variable {σ S π : Type}

def new (sm : S) (initial : StateFn σ S π) : QHsm σ S π where
  state := Dup.new topState
  temp := initial
  sm := sm
  history := fun _ => none
  calls := []
  records := []

def emit (traced : Bool) (m : QHsm σ S π) (record : QepRecord (StateHandler σ)) : QHsm σ S π :=
  if traced then { m with records := m.records ++ [record] } else m

section Calls

variable (handler : σ → StateFn σ S π)

/-- `top_state` answers `Ignored` to every event. -/
def invoke : StateHandler σ → StateFn σ S π
  | topState, sm, _ => (.ignored, sm)
  | some s, sm, e => handler s sm e

def call (m : QHsm σ S π) (s : StateHandler σ) (e : DynEvent π) : QHsmResult σ × QHsm σ S π :=
  let answer := invoke handler s m.sm e
  (answer.1, { m with sm := answer.2, calls := m.calls ++ [(s, e)] })

def getSuper (m : QHsm σ S π) (s : StateHandler σ) : StateHandler σ × QHsm σ S π :=
  match call handler m s (.emptyDyn qEmptySig) with
  | (.super sup, m) => (sup, m)
  | (_, m) => (topState, m)

def callEntry (m : QHsm σ S π) (s : StateHandler σ) : QHsm σ S π :=
  (call handler m s (.emptyDyn qEntrySig)).2

def callExit (m : QHsm σ S π) (s : StateHandler σ) : QHsm σ S π :=
  (call handler m s (.emptyDyn qExitSig)).2

end Calls

section Algorithm

variable [DecidableEq σ] (handler : σ → StateFn σ S π)

/-- The `while` loop of `path_to_top` with `room` free places left in the path. -/
def pathWithin : Nat → QHsm σ S π → StateHandler σ → List (StateHandler σ) × QHsm σ S π
  | 0, m, _ => ([], m)
  | room + 1, m, cur =>
      if cur = topState then ([], m)
      else
        let (sup, m) := getSuper handler m cur
        let (rest, m) := pathWithin room m sup
        (cur :: rest, m)

def pathToTop (m : QHsm σ S π) (s : StateHandler σ) : List (StateHandler σ) × QHsm σ S π :=
  pathWithin handler maxNestDepth m s

def findLca (path1 path2 : List (StateHandler σ)) : StateHandler σ :=
  (path1.find? fun a => path2.any fun b => a = b).getD topState

/-- One round of the exit loop of `execute_tran`: record history, exit `s`, and give its parent. -/
def exitState (traced : Bool) (m : QHsm σ S π) (s : StateHandler σ) :
    StateHandler σ × QHsm σ S π :=
  let (parent, m) := getSuper handler m s
  let m := if parent = topState then m
    else { m with history := Function.update m.history parent (some s) }
  let m := callExit handler m s
  (parent, emit traced m (.stateExit s))

/-- The `while` loop of `execute_tran` that exits from `s` up to `lca`. -/
def exitUpTo (traced : Bool) (lca : StateHandler σ) :
    Nat → QHsm σ S π → StateHandler σ → Except Halt (QHsm σ S π)
  | 0, _, _ => .error .outOfFuel
  | fuel + 1, m, s =>
      if s = lca then .ok m
      else
        let (parent, m) := exitState handler traced m s
        if parent = topState then .ok m else exitUpTo traced lca fuel m parent

/-- The `for` loops that enter the states of a path, outermost first. -/
def enterAll (traced : Bool) : QHsm σ S π → List (StateHandler σ) → QHsm σ S π
  | m, [] => m
  | m, s :: rest => enterAll traced (emit traced (callEntry handler m s) (.stateEntry s)) rest

def handleNestedInit (traced : Bool) : Nat → QHsm σ S π → Except Halt (QHsm σ S π)
  | 0, _ => .error .outOfFuel
  | fuel + 1, m =>
      match call handler m m.state.get (.emptyDyn qInitSig) with
      | (.tran next, m) =>
          let (nextPath, m) := pathToTop handler m next
          let current := m.state.get
          let currentIdx := nextPath.idxOf current
          let m := enterAll handler traced m (nextPath.take currentIdx).reverse
          let m := emit traced m (.stateInit m.state.get)
          handleNestedInit traced fuel { m with state := m.state.set next }
      | (_, m) => .ok m

/-- The part of `execute_tran` after the LCA is known: exit, enter, and drill into the target. -/
def crossTo (traced : Bool) (fuel : Nat) (m : QHsm σ S π) (current target : StateHandler σ)
    (targetPath : List (StateHandler σ)) (lca : StateHandler σ) : Except Halt (QHsm σ S π) := do
  let m ← exitUpTo handler traced lca fuel m current
  let lcaIdx := targetPath.idxOf lca
  let m := enterAll handler traced m (targetPath.take lcaIdx).reverse
  handleNestedInit handler traced fuel { m with state := m.state.set target }

def executeTran (traced : Bool) (fuel : Nat) (m : QHsm σ S π) (source target : StateHandler σ) :
    Except Halt (QHsm σ S π) :=
  let current := m.state.get
  let (targetPath, m) := pathToTop handler m target
  -- A self-transition exits and re-enters its source, so its path starts one level up.
  let (lcaSource, m) := if source = target then getSuper handler m source else (source, m)
  let (lcaSourcePath, m) :=
    if source = target then pathToTop handler m lcaSource else pathToTop handler m source
  let lca := findLca lcaSourcePath targetPath
  crossTo handler traced fuel m current target targetPath lca

def initTraced (traced : Bool) (fuel : Nat) (m : QHsm σ S π) : Except Halt (QHsm σ S π) :=
  match m.temp m.sm (.emptyDyn qInitSig) with
  | (.tran target, sm) =>
      let m := { m with sm := sm }
      let (path, m) := pathToTop handler m target
      let m := enterAll handler traced m path.reverse
      let m := { m with state := m.state.set target }
      let m := emit traced m (.initTran target)
      handleNestedInit handler traced fuel m
  | _ => .error .fault

/-- The `loop` of `dispatch_traced`: offer the event up the hierarchy until a state answers.
`top_state` never delegates, so the loop ends there. -/
def bubble (e : DynEvent π) : Nat → QHsm σ S π → StateHandler σ →
    Except Halt (StateHandler σ × QHsmResult σ × QHsm σ S π)
  | _, m, topState =>
      let (answer, m) := call handler m topState e
      .ok (topState, answer, m)
  | 0, _, some _ => .error .outOfFuel
  | fuel + 1, m, some s =>
      match call handler m (some s) e with
      | (.super sup, m) => bubble e fuel m sup
      | (answer, m) => .ok (some s, answer, m)

def dispatchTraced (traced : Bool) (fuel : Nat) (m : QHsm σ S π) (e : DynEvent π) :
    Except Halt (QHsm σ S π) := do
  let m := emit traced m (.dispatch e.signal m.state.get)
  let (source, answer, m) ← bubble handler e fuel m m.state.get
  match answer with
  | .handled => return emit traced m (.internTran e.signal source)
  | .ignored | .unhandled => return emit traced m (.ignored e.signal source)
  | .tran target =>
      let m := emit traced m (.tran e.signal source target)
      executeTran handler traced fuel m source target
  | .tranHist parent =>
      let target := (m.history parent).getD parent
      let m := emit traced m (.tranHist e.signal source target)
      executeTran handler traced fuel m source target
  | .super _ => return m

def runEvents (traced : Bool) (fuel : Nat) (m : QHsm σ S π) :
    List (DynEvent π) → Except Halt (QHsm σ S π)
  | [] => .ok m
  | e :: rest => do
      let m ← dispatchTraced handler traced fuel m e
      runEvents traced fuel m rest

def initAndRun (traced : Bool) (fuel : Nat) (m : QHsm σ S π) (events : List (DynEvent π)) :
    Except Halt (QHsm σ S π) := do
  let m ← initTraced handler traced fuel m
  runEvents handler traced fuel m events

def isIn (state : StateHandler σ) :
    Nat → QHsm σ S π → StateHandler σ → Except Halt (Bool × QHsm σ S π)
  | 0, _, _ => .error .outOfFuel
  | fuel + 1, m, cur =>
      if cur = state then .ok (true, m)
      else if cur = topState then .ok (false, m)
      else
        let (sup, m) := getSuper handler m cur
        isIn state fuel m sup

end Algorithm

end QHsm

end QpRs.Hsm
