import QpRs.Hsm.QHsm
import QpRs.Hsm.QMsm
import QpRs.Lib.Outcome

/-! Tracing changes nothing but the trace: a machine without its records runs as the traced one
does. -/

namespace QpRs.Hsm

open QpRs.Lib

variable {σ S π : Type}

namespace QHsm

/-- The machine without its trace records. -/
def bare (m : QHsm σ S π) : QHsm σ S π := { m with records := [] }

section Bare

variable (handler : σ → StateFn σ S π)

@[simp] theorem bare_emit (traced : Bool) (m : QHsm σ S π) (record : QepRecord (StateHandler σ)) :
    bare (emit traced m record) = bare m := by
  cases traced <;> rfl

theorem getSuper_bare (m : QHsm σ S π) (s : StateHandler σ) :
    getSuper handler (bare m) s = ((getSuper handler m s).1, bare (getSuper handler m s).2) := by
  have same : call handler (bare m) s (.emptyDyn qEmptySig) =
      ((call handler m s (.emptyDyn qEmptySig)).1,
        bare (call handler m s (.emptyDyn qEmptySig)).2) := rfl
  simp only [getSuper, same]
  generalize call handler m s (.emptyDyn qEmptySig) = called
  obtain ⟨answer, after⟩ := called
  cases answer <;> rfl

theorem enterAll_bare (traced : Bool) (m : QHsm σ S π) (path : List (StateHandler σ)) :
    enterAll handler false (bare m) path = bare (enterAll handler traced m path) := by
  induction path generalizing m with
  | nil => rfl
  | cons s rest ih =>
      have first : bare (emit traced (callEntry handler m s) (.stateEntry s)) =
          emit false (callEntry handler (bare m) s) (.stateEntry s) := by
        rw [bare_emit]
        rfl
      rw [enterAll, ← first, ih]
      rfl

variable [DecidableEq σ]

omit [DecidableEq σ] in
theorem pathWithin_bare (room : Nat) (m : QHsm σ S π) (place : StateHandler σ) :
    pathWithin handler room (bare m) place =
      ((pathWithin handler room m place).1, bare (pathWithin handler room m place).2) := by
  induction room generalizing m place with
  | zero => rfl
  | succ room ih =>
      by_cases top : place = topState
      · simp only [pathWithin, if_pos top]
      · simp only [pathWithin, if_neg top, getSuper_bare, ih]

theorem exitState_bare (traced : Bool) (m : QHsm σ S π) (s : StateHandler σ) :
    exitState handler false (bare m) s =
      ((exitState handler traced m s).1, bare (exitState handler traced m s).2) := by
  simp only [exitState, getSuper_bare, bare_emit]
  by_cases root : (getSuper handler m s).1 = topState
  · simp only [if_pos root]
    rfl
  · simp only [if_neg root]
    rfl

theorem exitUpTo_bare (traced : Bool) (lca : StateHandler σ) (fuel : Nat) (m : QHsm σ S π)
    (s : StateHandler σ) : exitUpTo handler false lca fuel (bare m) s =
      (exitUpTo handler traced lca fuel m s).map bare := by
  induction fuel generalizing m s with
  | zero => rfl
  | succ fuel ih =>
      by_cases here : s = lca
      · simp only [exitUpTo, if_pos here]
        rfl
      · simp only [exitUpTo, if_neg here, exitState_bare handler traced m s]
        by_cases root : (exitState handler traced m s).1 = topState
        · simp only [if_pos root]
          rfl
        · simp only [if_neg root, ih]

theorem handleNestedInit_bare (traced : Bool) (fuel : Nat) (m : QHsm σ S π) :
    handleNestedInit handler false fuel (bare m) =
      (handleNestedInit handler traced fuel m).map bare := by
  induction fuel generalizing m with
  | zero => rfl
  | succ fuel ih =>
      have same : call handler (bare m) (bare m).state.get (.emptyDyn qInitSig) =
          ((call handler m m.state.get (.emptyDyn qInitSig)).1,
            bare (call handler m m.state.get (.emptyDyn qInitSig)).2) := rfl
      simp only [handleNestedInit, same]
      generalize call handler m m.state.get (.emptyDyn qInitSig) = called
      obtain ⟨answer, after⟩ := called
      cases answer with
      | tran next =>
          simp only [pathToTop, pathWithin_bare]
          generalize pathWithin handler maxNestDepth after next = looked
          refine Eq.trans (congrArg (handleNestedInit handler false fuel) ?_) (ih _)
          rw [enterAll_bare handler traced]
          cases traced <;> rfl
      | _ => rfl

theorem crossTo_bare (traced : Bool) (fuel : Nat) (m : QHsm σ S π)
    (current target : StateHandler σ) (targetPath : List (StateHandler σ)) (lca : StateHandler σ) :
    crossTo handler false fuel (bare m) current target targetPath lca =
      (crossTo handler traced fuel m current target targetPath lca).map bare := by
  simp only [crossTo, exitUpTo_bare handler traced]
  cases exitUpTo handler traced lca fuel m current with
  | error halt => rfl
  | ok left =>
      refine Eq.trans (congrArg (handleNestedInit handler false fuel) ?_)
        (handleNestedInit_bare handler traced fuel _)
      rw [enterAll_bare handler traced]
      rfl

theorem executeTran_bare (traced : Bool) (fuel : Nat) (m : QHsm σ S π)
    (source target : StateHandler σ) : executeTran handler false fuel (bare m) source target =
      (executeTran handler traced fuel m source target).map bare := by
  simp only [executeTran, pathToTop, pathWithin_bare, getSuper_bare]
  by_cases self : source = target
  · simp only [if_pos self, pathWithin_bare]
    exact crossTo_bare handler traced fuel _ _ _ _ _
  · simp only [if_neg self, pathWithin_bare]
    exact crossTo_bare handler traced fuel _ _ _ _ _

end Bare

end QHsm

namespace QMsm

def bare (m : QMsm σ S π) : QMsm σ S π := { m with records := [] }

section Bare

variable (table : σ → QMState σ S π)

@[simp] theorem bare_emit (traced : Bool) (m : QMsm σ S π) (record : QepRecord σ) :
    bare (emit traced m record) = bare m := by
  cases traced <;> rfl

@[simp] theorem runAction_bare (m : QMsm σ S π) (action : Option (S → S)) (label : Action σ π) :
    runAction (bare m) action label = bare (runAction m action label) := by
  cases action <;> rfl

theorem callInit_bare (m : QMsm σ S π) :
    callInit table (bare m) = ((callInit table m).1, bare (callInit table m).2) := by
  have kept : (bare m).state = m.state := rfl
  rw [callInit, callInit, kept]
  cases (table m.state).initAction <;> rfl

theorem enterAll_bare (traced : Bool) (m : QMsm σ S π) (path : List σ) :
    enterAll table false (bare m) path = bare (enterAll table traced m path) := by
  induction path generalizing m with
  | nil => rfl
  | cons s rest ih =>
      have first : emit false (callEntry table (bare m) s) (.stateEntry s) =
          bare (emit traced (callEntry table m s) (.stateEntry s)) := by
        rw [bare_emit]
        exact runAction_bare m _ _
      rw [enterAll, first, ih]
      rfl

theorem exitState_bare [DecidableEq σ] (traced : Bool) (m : QMsm σ S π) (s : σ) :
    exitState table false (bare m) s = bare (exitState table traced m s) := by
  simp only [exitState, bare_emit]
  cases (table s).superstate with
  | none => exact runAction_bare m _ _
  | some parent =>
      exact runAction_bare { m with history := Function.update m.history parent (some s) } _ _

variable [DecidableEq σ]

theorem exitUpTo_bare (traced : Bool) (lca : Option σ) (fuel : Nat) (m : QMsm σ S π) (s : σ) :
    exitUpTo table false lca fuel (bare m) s = (exitUpTo table traced lca fuel m s).map bare := by
  induction fuel generalizing m s with
  | zero => rfl
  | succ fuel ih =>
      by_cases here : some s = lca
      · simp only [exitUpTo, if_pos here]
        rfl
      · simp only [exitUpTo, if_neg here, exitState_bare table traced m s]
        cases (table s).superstate with
        | none => rfl
        | some parent => exact ih _ parent

theorem handleNestedInit_bare (traced : Bool) (limit fuel : Nat) (m : QMsm σ S π) :
    handleNestedInit table false limit fuel (bare m) =
      (handleNestedInit table traced limit fuel m).map bare := by
  induction fuel generalizing m with
  | zero => rfl
  | succ fuel ih =>
      simp only [handleNestedInit, callInit_bare]
      generalize callInit table m = called
      obtain ⟨answer, after⟩ := called
      cases answer with
      | none => rfl
      | some next =>
          dsimp only
          cases pathToTop table limit next with
          | error halt => rfl
          | ok path =>
              refine Eq.trans (congrArg (handleNestedInit table false limit fuel) ?_) (ih _)
              rw [enterAll_bare table traced]
              cases traced <;> rfl

theorem crossTo_bare (traced : Bool) (fuel : Nat) (m : QMsm σ S π) (current target : σ)
    (targetPath : List σ) (lca : Option σ) :
    crossTo table false fuel (bare m) current target targetPath lca =
      (crossTo table traced fuel m current target targetPath lca).map bare := by
  simp only [crossTo, exitUpTo_bare table traced]
  cases exitUpTo table traced lca fuel m current with
  | error halt => rfl
  | ok left =>
      refine Eq.trans (congrArg (handleNestedInit table false fuel fuel) ?_)
        (handleNestedInit_bare table traced fuel fuel _)
      rw [enterAll_bare table traced]
      rfl

theorem executeTran_bare (traced : Bool) (fuel : Nat) (m : QMsm σ S π) (source target : σ) :
    executeTran table false fuel (bare m) source target =
      (executeTran table traced fuel m source target).map bare := by
  simp only [executeTran]
  cases pathToTop table fuel target with
  | error halt => rfl
  | ok targetPath =>
      dsimp only [bind, Except.bind]
      cases pathToTop table fuel
          (if source = target then (table source).superstate.getD source else source) with
      | error halt => rfl
      | ok sourcePath => exact crossTo_bare table traced fuel m _ _ _ _

omit [DecidableEq σ] in
theorem bubble_bare (e : DynEvent π) (fuel : Nat) (m : QMsm σ S π) (s : σ) :
    bubble table e fuel (bare m) s =
      (bubble table e fuel m s).map fun out => (out.1, out.2.1, bare out.2.2) := by
  induction fuel generalizing m s with
  | zero => rfl
  | succ fuel ih =>
      have same : call table (bare m) s e = ((call table m s e).1, bare (call table m s e).2) := rfl
      simp only [bubble, same]
      generalize call table m s e = called
      obtain ⟨answer, after⟩ := called
      cases answer with
      | super sup => exact ih after sup
      | _ => rfl

theorem dispatchTraced_bare (traced : Bool) (fuel : Nat) (m : QMsm σ S π) (e : DynEvent π) :
    dispatchTraced table false fuel (bare m) e =
      (dispatchTraced table traced fuel m e).map bare := by
  have noted : emit false (bare m) (.dispatch e.signal (bare m).state) =
      bare (emit traced m (.dispatch e.signal m.state)) := by
    rw [bare_emit]
    rfl
  simp only [dispatchTraced, noted, bubble_bare]
  generalize emit traced m (.dispatch e.signal m.state) = m₀
  show (bubble table e fuel m₀ m₀.state).map _ >>= _ = _
  cases bubble table e fuel m₀ m₀.state with
  | error halt => rfl
  | ok out =>
      obtain ⟨source, answer, m₁⟩ := out
      have told (record : QepRecord σ) :
          emit false (bare m₁) record = bare (emit traced m₁ record) :=
        (bare_emit traced m₁ record).symm
      cases answer with
      | handled => exact congrArg Except.ok (told _)
      | ignored => exact congrArg Except.ok (told _)
      | unhandled => exact congrArg Except.ok (told _)
      | super sup => rfl
      | tran target =>
          show executeTran table false fuel (emit false (bare m₁) _) source target = _
          rw [told, executeTran_bare table traced]
          rfl
      | tranHist parent =>
          show executeTran table false fuel (emit false (bare m₁) _) source
            ((m₁.history parent).getD parent) = _
          rw [told, executeTran_bare table traced]
          rfl

theorem runEvents_bare (traced : Bool) (fuel : Nat) (m : QMsm σ S π) (events : List (DynEvent π)) :
    runEvents table false fuel (bare m) events =
      (runEvents table traced fuel m events).map bare := by
  induction events generalizing m with
  | nil => rfl
  | cons e rest ih =>
      simp only [runEvents, dispatchTraced_bare table traced]
      cases dispatchTraced table traced fuel m e with
      | error halt => rfl
      | ok next => exact ih next

theorem initAndRun_bare (traced : Bool) (fuel : Nat) (sm : S) (initial : σ)
    (events : List (DynEvent π)) : initAndRun table false fuel (new sm initial) events =
      (initAndRun table traced fuel (new sm initial) events).map bare := by
  have fresh : bare (new sm initial : QMsm σ S π) = new sm initial := rfl
  simp only [initAndRun, initTraced]
  cases pathToTop table fuel (new sm initial : QMsm σ S π).temp with
  | error halt => rfl
  | ok path =>
      dsimp only [bind, Except.bind]
      have entered := enterAll_bare table traced (new sm initial) path.reverse
      rw [fresh] at entered
      have started : handleNestedInit table false fuel fuel (emit false
          { enterAll table false (new sm initial) path.reverse with
            state := (new sm initial : QMsm σ S π).temp }
          (.initTran (new sm initial : QMsm σ S π).temp)) =
          (handleNestedInit table traced fuel fuel (emit traced
            { enterAll table traced (new sm initial) path.reverse with
              state := (new sm initial : QMsm σ S π).temp }
              (.initTran (new sm initial : QMsm σ S π).temp))).map bare := by
        refine Eq.trans (congrArg (handleNestedInit table false fuel fuel) ?_)
          (handleNestedInit_bare table traced fuel fuel _)
        rw [entered, bare_emit]
        rfl
      rw [started]
      cases handleNestedInit table traced fuel fuel _ with
      | error halt => rfl
      | ok m => exact runEvents_bare table traced fuel m events

end Bare

end QMsm

end QpRs.Hsm
