import QpRs.Hsm.QHsm

/-! The table-driven state machine `QMsm` (`qf/src/hsm/qmsm.rs`), dynamic build.

A state is a node of a static table, compared by address and named by `σ`. Actions of the source
are optional function pointers. `actions` is a ghost log of the actions and handlers that ran. -/

namespace QpRs.Hsm

inductive QMsmResult (σ : Type) where
  | handled
  | super (sup : σ)
  | tran (target : σ)
  | tranHist (parent : σ)
  | ignored
  | unhandled
  deriving DecidableEq, Repr

structure QMState (σ S π : Type) where
  superstate : Option σ
  stateHandler : S → DynEvent π → QMsmResult σ × S
  entryAction : Option (S → S)
  exitAction : Option (S → S)
  initAction : Option (S → Option σ × S)

inductive Action (σ π : Type) where
  | entry (s : σ)
  | exit (s : σ)
  | init (s : σ)
  | handle (s : σ) (e : DynEvent π)
  deriving DecidableEq, Repr

structure QMsm (σ S π : Type) where
  state : σ
  temp : σ
  sm : S
  history : σ → Option σ
  actions : List (Action σ π)
  records : List (QepRecord σ)

namespace QMsm

variable {σ S π : Type}

def new (sm : S) (initial : σ) : QMsm σ S π where
  state := initial
  temp := initial
  sm := sm
  history := fun _ => none
  actions := []
  records := []

def emit (traced : Bool) (m : QMsm σ S π) (record : QepRecord σ) : QMsm σ S π :=
  if traced then { m with records := m.records ++ [record] } else m

/-- `if let Some(act) = action { act(&mut self.sm) }` -/
def runAction (m : QMsm σ S π) (action : Option (S → S)) (label : Action σ π) : QMsm σ S π :=
  match action with
  | some act => { m with sm := act m.sm, actions := m.actions ++ [label] }
  | none => m

variable (table : σ → QMState σ S π)

def callEntry (m : QMsm σ S π) (s : σ) : QMsm σ S π := runAction m (table s).entryAction (.entry s)

def callExit (m : QMsm σ S π) (s : σ) : QMsm σ S π := runAction m (table s).exitAction (.exit s)

/-- The condition of the loop of `handle_nested_init`: run the initial action, if there is one. -/
def callInit (m : QMsm σ S π) : Option σ × QMsm σ S π :=
  match (table m.state).initAction with
  | some act =>
      let answer := act m.sm
      (answer.1, { m with sm := answer.2, actions := m.actions ++ [.init m.state] })
  | none => (none, m)

def call (m : QMsm σ S π) (s : σ) (e : DynEvent π) : QMsmResult σ × QMsm σ S π :=
  let answer := (table s).stateHandler m.sm e
  (answer.1, { m with sm := answer.2, actions := m.actions ++ [.handle s e] })

/-- The `while` loop of `path_to_top`, from `cur`. -/
def pathFrom : Nat → Option σ → Except Halt (List σ)
  | _, none => .ok []
  | 0, some _ => .error .outOfFuel
  | fuel + 1, some s => do
      let rest ← pathFrom fuel (table s).superstate
      return s :: rest

def pathToTop (fuel : Nat) (s : σ) : Except Halt (List σ) := pathFrom table fuel (some s)

/-- The `for` loops that enter the states of a path, outermost first. -/
def enterAll (traced : Bool) : QMsm σ S π → List σ → QMsm σ S π
  | m, [] => m
  | m, s :: rest => enterAll traced (emit traced (callEntry table m s) (.stateEntry s)) rest

variable [DecidableEq σ]

def findLca (path1 path2 : List σ) : Option σ :=
  path1.find? fun a => path2.any fun b => a = b

/-- One round of the exit loop of `execute_tran`: record history and exit `s`. -/
def exitState (traced : Bool) (m : QMsm σ S π) (s : σ) : QMsm σ S π :=
  let m := match (table s).superstate with
    | some parent => { m with history := Function.update m.history parent (some s) }
    | none => m
  emit traced (callExit table m s) (.stateExit s)

/-- The `while` loop of `execute_tran` that exits from `s` up to `lca`. -/
def exitUpTo (traced : Bool) (lca : Option σ) : Nat → QMsm σ S π → σ → Except Halt (QMsm σ S π)
  | 0, _, _ => .error .outOfFuel
  | fuel + 1, m, s =>
      if some s = lca then .ok m
      else
        let m := exitState table traced m s
        match (table s).superstate with
        | some parent => exitUpTo traced lca fuel m parent
        | none => .ok m

/-- `limit` is the fuel of each `path_to_top`. -/
def handleNestedInit (traced : Bool) (limit : Nat) : Nat → QMsm σ S π → Except Halt (QMsm σ S π)
  | 0, _ => .error .outOfFuel
  | fuel + 1, m =>
      match callInit table m with
      | (some next, m) => do
          let nextPath ← pathToTop table limit next
          let currentIdx := nextPath.idxOf m.state
          let m := enterAll table traced m (nextPath.take currentIdx).reverse
          let m := emit traced m (.stateInit m.state)
          handleNestedInit traced limit fuel { m with state := next }
      | (none, m) => .ok m

/-- The part of `execute_tran` after the LCA is known: exit, enter, and drill into the target. -/
def crossTo (traced : Bool) (fuel : Nat) (m : QMsm σ S π) (current target : σ)
    (targetPath : List σ) (lca : Option σ) : Except Halt (QMsm σ S π) := do
  let m ← exitUpTo table traced lca fuel m current
  let lcaIdx := match lca with
    | some lcaState => targetPath.idxOf lcaState
    | none => targetPath.length
  let m := enterAll table traced m (targetPath.take lcaIdx).reverse
  handleNestedInit table traced fuel fuel { m with state := target }

def executeTran (traced : Bool) (fuel : Nat) (m : QMsm σ S π) (source target : σ) :
    Except Halt (QMsm σ S π) := do
  let current := m.state
  let targetPath ← pathToTop table fuel target
  let lcaSource := if source = target then (table source).superstate.getD source else source
  let lcaSourcePath ← pathToTop table fuel lcaSource
  let lca := findLca lcaSourcePath targetPath
  crossTo table traced fuel m current target targetPath lca

def initTraced (traced : Bool) (fuel : Nat) (m : QMsm σ S π) : Except Halt (QMsm σ S π) := do
  let target := m.temp
  let path ← pathToTop table fuel target
  let m := enterAll table traced m path.reverse
  let m := { m with state := target }
  let m := emit traced m (.initTran target)
  handleNestedInit table traced fuel fuel m

/-- The `loop` of `dispatch_traced`: offer the event up the hierarchy until a state answers. -/
def bubble (e : DynEvent π) :
    Nat → QMsm σ S π → σ → Except Halt (σ × QMsmResult σ × QMsm σ S π)
  | 0, _, _ => .error .outOfFuel
  | fuel + 1, m, s =>
      match call table m s e with
      | (.super sup, m) => bubble e fuel m sup
      | (answer, m) => .ok (s, answer, m)

def dispatchTraced (traced : Bool) (fuel : Nat) (m : QMsm σ S π) (e : DynEvent π) :
    Except Halt (QMsm σ S π) := do
  let m := emit traced m (.dispatch e.signal m.state)
  let (source, answer, m) ← bubble table e fuel m m.state
  match answer with
  | .handled => return emit traced m (.internTran e.signal source)
  | .ignored | .unhandled => return emit traced m (.ignored e.signal source)
  | .tran target =>
      let m := emit traced m (.tran e.signal source target)
      executeTran table traced fuel m source target
  | .tranHist parent =>
      let target := (m.history parent).getD parent
      let m := emit traced m (.tranHist e.signal source target)
      executeTran table traced fuel m source target
  | .super _ => return m

def runEvents (traced : Bool) (fuel : Nat) (m : QMsm σ S π) :
    List (DynEvent π) → Except Halt (QMsm σ S π)
  | [] => .ok m
  | e :: rest => do
      let m ← dispatchTraced table traced fuel m e
      runEvents traced fuel m rest

def initAndRun (traced : Bool) (fuel : Nat) (m : QMsm σ S π) (events : List (DynEvent π)) :
    Except Halt (QMsm σ S π) := do
  let m ← initTraced table traced fuel m
  runEvents table traced fuel m events

def isIn (state : σ) : Nat → Option σ → Except Halt Bool
  | _, none => .ok false
  | 0, some _ => .error .outOfFuel
  | fuel + 1, some s => if s = state then .ok true else isIn state fuel (table s).superstate

end QMsm

end QpRs.Hsm
