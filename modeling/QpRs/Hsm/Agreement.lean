import QpRs.Hsm.Configuration
import QpRs.Hsm.QMsm
import QpRs.Lib.Outcome
import QpRs.Lib.Run

/-! One statechart written both ways: as handlers for `QHsm` and as a table for `QMsm`.

The two machines are run side by side. They stay together on every run in which no top-level state
with an entry or exit action takes a transition to itself; `QMsm` does not leave such a state. -/

namespace QpRs.Hsm

open QpRs.Lib

variable {σ S π : Type}

def effect (action : Option (S → S)) (sm : S) : S := action.elim sm fun act => act sm

def QMState.runInit (s : QMState σ S π) (sm : S) : Option σ × S :=
  s.initAction.elim (none, sm) fun act => act sm

def initTarget : QHsmResult σ → Option (StateHandler σ)
  | .tran target => some target
  | _ => none

/-- The same answer in the two result types. A top-level state that hands the event to `top_state`
ignores it; no table node stands for `top_state`. -/
inductive SameAnswer : QHsmResult σ → QMsmResult σ → Prop where
  | handled : SameAnswer .handled .handled
  | super (sup : σ) : SameAnswer (.super (some sup)) (.super sup)
  | top : SameAnswer (.super topState) .ignored
  | tran (target : σ) : SameAnswer (.tran (some target)) (.tran target)
  | tranHist (parent : σ) : SameAnswer (.tranHist (some parent)) (.tranHist parent)
  | ignored : SameAnswer .ignored .ignored
  | unhandled : SameAnswer .unhandled .unhandled

/-- Handlers and table describe one statechart over the forest. -/
structure Described (f : Forest σ) (handler : σ → StateFn σ S π) (table : σ → QMState σ S π) :
    Prop where
  parent : ∀ s, (table s).superstate = f.parent s
  empty : ∀ s sm, handler s sm (.emptyDyn qEmptySig) = (.super (f.parent s), sm)
  entry : ∀ s sm, (handler s sm (.emptyDyn qEntrySig)).2 = effect (table s).entryAction sm
  exit : ∀ s sm, (handler s sm (.emptyDyn qExitSig)).2 = effect (table s).exitAction sm
  init : ∀ s sm, initTarget (handler s sm (.emptyDyn qInitSig)).1 =
      ((table s).runInit sm).1.map some ∧
    (handler s sm (.emptyDyn qInitSig)).2 = ((table s).runInit sm).2
  answer : ∀ s sm e, IsUser e →
    SameAnswer (handler s sm e).1 ((table s).stateHandler sm e).1 ∧
      (handler s sm e).2 = ((table s).stateHandler sm e).2

/-- The actions that a call of a `QHsm` handler stands for. -/
def observe (table : σ → QMState σ S π) : StateHandler σ × DynEvent π → Option (Action σ π)
  | (topState, _) => none
  | (some s, e) =>
      if IsUser e then some (.handle s e)
      else if e.signal = qEntrySig then (table s).entryAction.map fun _ => .entry s
      else if e.signal = qExitSig then (table s).exitAction.map fun _ => .exit s
      else if e.signal = qInitSig then (table s).initAction.map fun _ => .init s
      else none

def observed (table : σ → QMState σ S π) (calls : List (StateHandler σ × DynEvent π)) :
    List (Action σ π) := calls.filterMap (observe table)

/-- The two machines are in the same state once `started`, hold the same data and history, and have
run the same actions and handlers in the same order. -/
structure Matches (table : σ → QMState σ S π) (started : Bool) (h : QHsm σ S π)
    (q : QMsm σ S π) : Prop where
  state : h.state.get = if started then some q.state else topState
  sm : h.sm = q.sm
  history : ∀ p, h.history (some p) = (q.history p).map some
  actions : observed table h.calls = q.actions

theorem Matches.current {table : σ → QMState σ S π} {h : QHsm σ S π} {q : QMsm σ S π}
    (same : Matches table true h q) : h.state.get = some q.state := same.state

section Actions

variable {f : Forest σ} {handler : σ → StateFn σ S π} {table : σ → QMState σ S π}
  {started : Bool}

theorem observed_call (handler : σ → StateFn σ S π) (table : σ → QMState σ S π)
    (h : QHsm σ S π) (s : StateHandler σ) (e : DynEvent π) :
    observed table (QHsm.call handler h s e).2.calls =
      observed table h.calls ++ (observe table (s, e)).toList := by
  simp only [observed, QHsm.call, List.filterMap_append]
  cases seen : observe table (s, e) with
  | none => simp [seen]
  | some action => simp [seen]

@[simp] theorem matches_emit_left {h : QHsm σ S π} {q : QMsm σ S π} (traced : Bool)
    (record : QepRecord (StateHandler σ)) :
    Matches table started (QHsm.emit traced h record) q ↔ Matches table started h q := by
  cases traced
  · rfl
  · constructor
    · intro same
      exact ⟨same.state, same.sm, same.history, same.actions⟩
    · intro same
      exact ⟨same.state, same.sm, same.history, same.actions⟩

@[simp] theorem matches_emit_right {h : QHsm σ S π} {q : QMsm σ S π} (traced : Bool)
    (record : QepRecord σ) :
    Matches table started h (QMsm.emit traced q record) ↔ Matches table started h q := by
  cases traced
  · rfl
  · constructor
    · intro same
      exact ⟨same.state, same.sm, same.history, same.actions⟩
    · intro same
      exact ⟨same.state, same.sm, same.history, same.actions⟩

theorem Matches.emit {h : QHsm σ S π} {q : QMsm σ S π} (same : Matches table started h q)
    (traced : Bool)
    (record : QepRecord (StateHandler σ)) (record' : QepRecord σ) :
    Matches table started (QHsm.emit traced h record) (QMsm.emit traced q record') := by
  simpa using same

theorem Matches.goto {h : QHsm σ S π} {q : QMsm σ S π} (same : Matches table started h q)
    (target : σ) :
    Matches table true { h with state := h.state.set (some target) } { q with state := target } :=
  ⟨rfl, same.sm, same.history, same.actions⟩

theorem Matches.silent {h : QHsm σ S π} {q : QMsm σ S π} (same : Matches table started h q)
    (s : StateHandler σ) (e : DynEvent π) (keeps : (QHsm.invoke handler s h.sm e).2 = h.sm)
    (unseen : observe table (s, e) = none) :
    Matches table started (QHsm.call handler h s e).2 q where
  state := same.state
  sm := keeps.trans same.sm
  history := same.history
  actions := by rw [observed_call, unseen, same.actions, Option.toList_none, List.append_nil]

variable (described : Described f handler table)
include described

theorem described_parents : Parents f handler := by
  intro s sm
  rw [described.empty s sm]

theorem getSuper_matches (h : QHsm σ S π) (s : StateHandler σ) (q : QMsm σ S π)
    (same : Matches table started h q) : Matches table started (QHsm.getSuper handler h s).2 q := by
  have kept : Matches table started (QHsm.call handler h s (.emptyDyn qEmptySig)).2 q := by
    cases s with
    | none => exact same.silent topState _ rfl rfl
    | some s =>
        apply same.silent
        · simp only [QHsm.invoke, described.empty]
        · simp [observe, IsUser, qUserSig, qEmptySig, qEntrySig, qExitSig, qInitSig]
  unfold QHsm.getSuper
  generalize QHsm.call handler h s (.emptyDyn qEmptySig) = called at kept
  rcases called with ⟨answer, after⟩
  cases answer <;> exact kept

theorem pathToTop_matches (h : QHsm σ S π) (s : StateHandler σ) (q : QMsm σ S π)
    (same : Matches table started h q) : Matches table started (QHsm.pathToTop handler h s).2 q :=
  QHsm.pathWithin_preserves (fun h s => getSuper_matches described h s q) maxNestDepth h s same

omit described in
theorem runAction_matches {h : QHsm σ S π} {q : QMsm σ S π} (same : Matches table started h q)
    (s : σ) (e : DynEvent π) (action : Option (S → S)) (label : Action σ π)
    (data : (handler s h.sm e).2 = effect action h.sm)
    (seen : observe table (some s, e) = action.map fun _ => label) :
    Matches table started (QHsm.call handler h (some s) e).2 (QMsm.runAction q action label) := by
  have log := observed_call handler table h (some s) e
  rw [seen, same.actions] at log
  cases action with
  | none =>
      exact ⟨same.state, data.trans same.sm, same.history,
        by simpa [QMsm.runAction] using log⟩
  | some act =>
      have moved : (handler s h.sm e).2 = act q.sm := by
        rw [data, same.sm]
        rfl
      exact ⟨same.state, moved, same.history, log⟩

theorem callEntry_matches {h : QHsm σ S π} {q : QMsm σ S π} (same : Matches table started h q)
    (s : σ) :
    Matches table started (QHsm.callEntry handler h (some s)) (QMsm.callEntry table q s) := by
  apply runAction_matches same s _ _ _ (described.entry s h.sm)
  simp [observe, IsUser, qUserSig, qEntrySig]

theorem callExit_matches {h : QHsm σ S π} {q : QMsm σ S π} (same : Matches table started h q)
    (s : σ) :
    Matches table started (QHsm.callExit handler h (some s)) (QMsm.callExit table q s) := by
  apply runAction_matches same s _ _ _ (described.exit s h.sm)
  simp [observe, IsUser, qUserSig, qEntrySig, qExitSig]

theorem callInit_matches {h : QHsm σ S π} {q : QMsm σ S π} (same : Matches table true h q) :
    initTarget (QHsm.call handler h h.state.get (.emptyDyn qInitSig)).1 =
        (QMsm.callInit table q).1.map some ∧
      Matches table true (QHsm.call handler h h.state.get (.emptyDyn qInitSig)).2
        (QMsm.callInit table q).2 := by
  have answer := described.init q.state h.sm
  have seen : observe table (some q.state, (.emptyDyn qInitSig : DynEvent π)) =
      (table q.state).initAction.map fun _ => .init q.state := by
    simp [observe, IsUser, qUserSig, qEntrySig, qExitSig, qInitSig]
  have log := observed_call handler table h (some q.state)
    (.emptyDyn qInitSig)
  rw [seen, same.actions] at log
  rw [same.current]
  unfold QMState.runInit at answer
  unfold QMsm.callInit
  cases act : (table q.state).initAction with
  | none =>
      simp only [act, Option.elim_none] at answer
      exact ⟨answer.1, same.state, answer.2.trans same.sm, same.history, by simpa [act] using log⟩
  | some act' =>
      simp only [act, Option.elim_some] at answer
      refine ⟨by rw [← same.sm]; exact answer.1, same.state, by rw [← same.sm]; exact answer.2,
        same.history, by simpa [act] using log⟩

theorem enterAll_matches (traced : Bool) (path : List σ) (h : QHsm σ S π) (q : QMsm σ S π)
    (same : Matches table started h q) :
    Matches table started (QHsm.enterAll handler traced h (path.map some))
      (QMsm.enterAll table traced q path) := by
  induction path generalizing h q with
  | nil => exact same
  | cons s rest ih =>
      apply ih
      exact (callEntry_matches described same s).emit traced _ _

end Actions

/-- The state that answers an event offered to `s` when the data is `sm`, and its answer: states
that delegate may change the data on the way. -/
inductive Answers (table : σ → QMState σ S π) (e : DynEvent π) :
    S → σ → σ → QMsmResult σ → Prop where
  | here {sm : S} {s : σ} (last : ∀ sup, ((table s).stateHandler sm e).1 ≠ .super sup) :
      Answers table e sm s s ((table s).stateHandler sm e).1
  | above {sm : S} {s sup source : σ} {answer : QMsmResult σ}
      (delegates : ((table s).stateHandler sm e).1 = .super sup)
      (rest : Answers table e ((table s).stateHandler sm e).2 sup source answer) :
      Answers table e sm s source answer

/-- The answer asks for a transition to `target`, directly or by the history of a state. -/
def Resolves (history : σ → Option σ) (answer : QMsmResult σ) (target : σ) : Prop :=
  answer = .tran target ∨
    ∃ parent, answer = .tranHist parent ∧ (history parent).getD parent = target

/-- The event makes a top-level state with an entry or exit action take a transition to itself. -/
def ReentersRoot (table : σ → QMState σ S π) (q : QMsm σ S π) (e : DynEvent π) : Prop :=
  ∃ root answer, Answers table e q.sm q.state root answer ∧ Resolves q.history answer root ∧
    (table root).superstate = none ∧
    ((table root).entryAction ≠ none ∨ (table root).exitAction ≠ none)

section Algorithm

variable [DecidableEq σ] {f : Forest σ} {handler : σ → StateFn σ S π} {table : σ → QMState σ S π}
  (described : Described f handler table)

theorem findLca_map (path1 path2 : List σ) :
    QHsm.findLca (path1.map some) (path2.map some) = QMsm.findLca path1 path2 := by
  unfold QHsm.findLca QMsm.findLca
  rw [List.find?_map]
  have same : ((fun a => (path2.map some).any fun b => decide (a = b)) ∘ some) =
      fun a => path2.any fun b => decide (a = b) := by
    funext a
    simp [List.any_map, Function.comp_def]
  rw [same]
  cases path1.find? fun a => path2.any fun b => decide (a = b) <;> rfl

theorem idxOf_map (path : List σ) (s : σ) : (path.map some).idxOf (some s) = path.idxOf s := by
  induction path with
  | nil => rfl
  | cons a rest ih => simp [List.idxOf_cons, ih]

theorem idxOf_top (path : List σ) : (path.map some).idxOf topState = path.length := by
  rw [List.idxOf_eq_length_iff.mpr (by simp), List.length_map]

theorem idxOf_lca (path : List σ) (lca : Option σ) :
    (path.map some).idxOf lca =
      match lca with
      | some lcaState => path.idxOf lcaState
      | none => path.length := by
  cases lca with
  | none => exact idxOf_top path
  | some s => exact idxOf_map path s

include described

omit [DecidableEq σ] in
theorem pathFrom_spec (limit : Nat) (place : Option σ) (fits : f.level place ≤ limit) :
    ∃ path, QMsm.pathFrom table limit place = .ok path ∧ path.map some = f.path place := by
  induction limit generalizing place with
  | zero =>
      cases place with
      | none => exact ⟨[], rfl, rfl⟩
      | some s =>
          have := f.depth_eq s
          simp only [Forest.level_some] at fits
          omega
  | succ limit ih =>
      cases place with
      | none => exact ⟨[], rfl, rfl⟩
      | some s =>
          have remaining : f.level (f.parent s) ≤ limit := by
            have := f.depth_eq s
            simp only [Forest.level_some] at fits
            omega
          rcases ih (f.parent s) remaining with ⟨rest, found, same⟩
          refine ⟨s :: rest, ?_, by simp [same]⟩
          simp only [QMsm.pathFrom, described.parent, found]
          rfl

theorem exitState_matches (traced : Bool) {h : QHsm σ S π} {q : QMsm σ S π}
    (same : Matches table true h q) (s : σ) :
    (QHsm.exitState handler traced h (some s)).1 = f.parent s ∧
      Matches table true (QHsm.exitState handler traced h (some s)).2
        (QMsm.exitState table traced q s) := by
  have above := QHsm.getSuper_parent (described_parents described) h (some s)
  have asked := getSuper_matches described h (some s) q same
  simp only [Option.bind_some] at above
  simp only [QHsm.exitState, QMsm.exitState, above, described.parent, true_and]
  generalize QHsm.getSuper handler h (some s) = looked at asked
  apply Matches.emit
  apply callExit_matches described
  cases f.parent s with
  | none => exact asked
  | some p =>
      refine ⟨asked.state, asked.sm, ?_, asked.actions⟩
      intro p'
      by_cases here : p' = p
      · simp [here]
      · have apart : (some p' : StateHandler σ) ≠ some p := by simpa using here
        simp only [reduceCtorEq, if_false]
        rw [Function.update_of_ne apart, Function.update_of_ne here]
        exact asked.history p'

theorem exitUpTo_agree (traced : Bool) (lca : Option σ) (fuel : Nat) (h : QHsm σ S π)
    (q : QMsm σ S π) (same : Matches table true h q) (s : σ) :
    Agree (Matches table true) (QHsm.exitUpTo handler traced lca fuel h (some s))
      (QMsm.exitUpTo table traced lca fuel q s) := by
  induction fuel generalizing h q s with
  | zero => rfl
  | succ fuel ih =>
      simp only [QHsm.exitUpTo, QMsm.exitUpTo]
      by_cases here : some s = lca
      · simpa only [if_pos here] using Agree.ok same
      · rcases exitState_matches described traced same s with ⟨above, left⟩
        simp only [if_neg here, above, described.parent]
        cases f.parent s with
        | none => exact left
        | some p => exact ih _ _ left p

/-- Leaving up to a top-level state that has no exit action is leaving all states: only the call of
its handler tells them apart. -/
theorem exitUpTo_root_agree (traced : Bool) (root : σ) (top : f.parent root = none)
    (idle : (table root).exitAction = none) (fuel : Nat) (h : QHsm σ S π)
    (q : QMsm σ S π) (same : Matches table true h q) (s : σ) :
    Agree (Matches table true) (QHsm.exitUpTo handler traced topState fuel h (some s))
      (QMsm.exitUpTo table traced (some root) fuel q s) := by
  induction fuel generalizing h q s with
  | zero => rfl
  | succ fuel ih =>
      rcases exitState_matches described traced same s with ⟨above, left⟩
      simp only [QHsm.exitUpTo, QMsm.exitUpTo, reduceCtorEq, if_false, above]
      by_cases here : s = root
      · subst here
        have kept : Matches table true (QHsm.exitState handler traced h (some s)).2 q := by
          simpa [QMsm.exitState, described.parent, top, QMsm.callExit, QMsm.runAction, idle]
            using left
        simpa only [top, if_true] using Agree.ok kept
      · have apart : ¬ some s = some root := by simpa using here
        simp only [if_neg apart, described.parent]
        cases f.parent s with
        | none => exact left
        | some p => exact ih _ _ left p

variable (shallow : ∀ s, f.depth s ≤ maxNestDepth)
include shallow

omit [DecidableEq σ] in
theorem pathToTop_agree (limit : Nat) (enough : maxNestDepth ≤ limit) (h : QHsm σ S π) (s : σ) :
    ∃ path, QMsm.pathToTop table limit s = .ok path ∧ path.map some = f.path (some s) ∧
      (QHsm.pathToTop handler h (some s)).1 = path.map some := by
  have low := QHsm.level_le shallow (some s)
  rcases pathFrom_spec described limit (some s) (low.trans enough) with ⟨path, found, same⟩
  refine ⟨path, found, same, ?_⟩
  rw [same]
  exact QHsm.pathWithin_path (described_parents described) maxNestDepth h (some s) low

theorem handleNestedInit_agree (traced : Bool) (limit : Nat) (enough : maxNestDepth ≤ limit)
    (fuel : Nat) (h : QHsm σ S π) (q : QMsm σ S π) (same : Matches table true h q) :
    Agree (Matches table true) (QHsm.handleNestedInit handler traced fuel h)
      (QMsm.handleNestedInit table traced limit fuel q) := by
  induction fuel generalizing h q with
  | zero => rfl
  | succ fuel ih =>
      rcases callInit_matches described same with ⟨answer, after⟩
      simp only [QHsm.handleNestedInit, QMsm.handleNestedInit]
      generalize QHsm.call handler h h.state.get (.emptyDyn qInitSig) = asked at answer after
      generalize QMsm.callInit table q = ran at answer after
      rcases asked with ⟨result, h₁⟩
      rcases ran with ⟨next, q₁⟩
      cases next with
      | none =>
          cases result with
          | tran target => simp [initTarget] at answer
          | _ => exact after
      | some next =>
          have goes : result = .tran (some next) := by
            cases result with
            | tran target => simpa [initTarget] using answer
            | _ => simp [initTarget] at answer
          subst goes
          rcases pathToTop_agree described shallow limit enough h₁ next with
            ⟨path, found, -, whole⟩
          have looked := pathToTop_matches described h₁ (some next) q₁ after
          simp only [found, whole]
          generalize QHsm.pathToTop handler h₁ (some next) = walked at looked
          simp only at after
          rw [looked.current, idxOf_map, ← List.map_take, ← List.map_reverse]
          apply ih
          apply Matches.goto
          exact (enterAll_matches described traced _ _ _ looked).emit traced _ _

theorem crossTo_agree (traced : Bool) (fuel : Nat) (enough : maxNestDepth ≤ fuel) {h : QHsm σ S π}
    {q : QMsm σ S π} (same : Matches table true h q) (current target : σ) (path : List σ)
    (lca : Option σ) :
    Agree (Matches table true)
      (QHsm.crossTo handler traced fuel h (some current) (some target) (path.map some) lca)
      (QMsm.crossTo table traced fuel q current target path lca) := by
  apply Agree.bind (exitUpTo_agree described traced lca fuel h q same current)
  intro h₁ q₁ left
  simp only [idxOf_lca, ← List.map_take, ← List.map_reverse]
  apply handleNestedInit_agree described shallow traced fuel enough
  apply Matches.goto
  exact enterAll_matches described traced _ h₁ q₁ left

/-- The transition of a top-level state to itself, when it has neither entry nor exit action. -/
theorem crossTo_root_agree (traced : Bool) (fuel : Nat) (enough : maxNestDepth ≤ fuel)
    {h : QHsm σ S π} {q : QMsm σ S π} (same : Matches table true h q) (current root : σ)
    (top : f.parent root = none) (quiet : (table root).entryAction = none)
    (idle : (table root).exitAction = none) :
    Agree (Matches table true)
      (QHsm.crossTo handler traced fuel h (some current) (some root) [some root] topState)
      (QMsm.crossTo table traced fuel q current root [root] (some root)) := by
  apply Agree.bind (exitUpTo_root_agree described traced root top idle fuel h q same current)
  intro h₁ q₁ left
  apply handleNestedInit_agree described shallow traced fuel enough
  have entered : Matches table true (QHsm.callEntry handler h₁ (some root)) q₁ := by
    simpa [QMsm.callEntry, QMsm.runAction, quiet] using callEntry_matches described left root
  simpa [QHsm.enterAll, QMsm.enterAll] using
    ((matches_emit_left traced (.stateEntry (some root))).mpr entered).goto root

theorem executeTran_agree (traced : Bool) (fuel : Nat) (enough : maxNestDepth ≤ fuel)
    {h : QHsm σ S π} {q : QMsm σ S π} (same : Matches table true h q) (source target : σ)
    (quiet : source = target → f.parent source = none →
      (table source).entryAction = none ∧ (table source).exitAction = none) :
    Agree (Matches table true) (QHsm.executeTran handler traced fuel h (some source) (some target))
      (QMsm.executeTran table traced fuel q source target) := by
  rcases pathToTop_agree described shallow fuel enough h target with
    ⟨targetPath, found, onPath, whole⟩
  have looked := pathToTop_matches described h (some target) q same
  simp only [QHsm.executeTran, QMsm.executeTran, found, whole, same.current]
  generalize QHsm.pathToTop handler h (some target) = walked at looked
  by_cases self : source = target
  · subst self
    have above := QHsm.getSuper_parent (described_parents described) walked.2 (some source)
    have asked := getSuper_matches described walked.2 (some source) q looked
    simp only [Option.bind_some] at above
    simp only [if_true, above, described.parent]
    generalize QHsm.getSuper handler walked.2 (some source) = gone at asked
    cases root : f.parent source with
    | none =>
        rcases quiet rfl root with ⟨noEntry, noExit⟩
        have single : targetPath = [source] := by simpa [root] using onPath
        subst single
        have crossed := crossTo_root_agree described shallow traced fuel enough asked q.state source
          root noEntry noExit
        simpa [found, QHsm.pathToTop, QHsm.pathWithin, maxNestDepth, QHsm.findLca, QMsm.findLca,
          bind,
          Except.bind] using crossed
    | some p =>
        rcases pathToTop_agree described shallow fuel enough gone.2 p with
          ⟨path, seen, -, all⟩
        have again := pathToTop_matches described gone.2 (some p) q asked
        simp only [Option.getD_some, seen, all, findLca_map]
        exact crossTo_agree described shallow traced fuel enough again q.state source targetPath _
  · have apart : ¬ (some source : StateHandler σ) = some target := by simpa using self
    rcases pathToTop_agree described shallow fuel enough walked.2 source with
      ⟨path, seen, -, all⟩
    have again := pathToTop_matches described walked.2 (some source) q looked
    simp only [if_neg self, if_neg apart, seen, all, findLca_map]
    exact crossTo_agree described shallow traced fuel enough again q.state target targetPath _

omit [DecidableEq σ] shallow in
/-- Both loops stop at the same state with the same answer, unless `QHsm` goes on to `top_state`. -/
theorem bubble_agree (e : DynEvent π) (user : IsUser e) (fuel : Nat) (h : QHsm σ S π)
    (q : QMsm σ S π) (same : Matches table true h q) (s : σ) :
    Agree (fun x y => Matches table true x.2.2 y.2.2 ∧
        ((x.1 = some y.1 ∧ SameAnswer x.2.1 y.2.1) ∨ (x.2.1 = .ignored ∧ y.2.1 = .ignored)))
      (QHsm.bubble handler e fuel h (some s)) (QMsm.bubble table e fuel q s) := by
  induction fuel generalizing h q s with
  | zero => rfl
  | succ fuel ih =>
      rcases described.answer s h.sm e user with ⟨answer, data⟩
      have after : Matches table true (QHsm.call handler h (some s) e).2
          (QMsm.call table q s e).2 := by
        have seen : observe table (some s, e) = some (.handle s e) := by simp [observe, user]
        have log := observed_call handler table h (some s) e
        rw [seen, same.actions] at log
        refine ⟨same.state, ?_, same.history, log⟩
        simp only [QMsm.call, ← same.sm]
        exact data
      rw [same.sm] at answer
      have first : (QHsm.call handler h (some s) e).1 = (handler s q.sm e).1 := by
        simp only [QHsm.call, QHsm.invoke, same.sm]
      have second : (QMsm.call table q s e).1 = ((table s).stateHandler q.sm e).1 := rfl
      rw [← first, ← second] at answer
      simp only [QHsm.bubble, QMsm.bubble]
      generalize QHsm.call handler h (some s) e = called at answer after
      generalize QMsm.call table q s e = called' at answer after
      rcases called with ⟨result, h₁⟩
      rcases called' with ⟨result', q₁⟩
      simp only at answer after
      cases answer with
      | super sup => exact ih h₁ q₁ after sup
      | top =>
          have still : Matches table true (QHsm.call handler h₁ topState e).2 q₁ :=
            after.silent topState e rfl rfl
          cases fuel <;> exact ⟨still, .inr ⟨rfl, rfl⟩⟩
      | _ => exact ⟨after, .inl ⟨rfl, by constructor⟩⟩

omit [DecidableEq σ] described shallow in
theorem bubble_answers (e : DynEvent π) (fuel : Nat) (q q' : QMsm σ S π) (s source : σ)
    (answer : QMsmResult σ) (ran : QMsm.bubble table e fuel q s = .ok (source, answer, q')) :
    Answers table e q.sm s source answer ∧ q'.history = q.history := by
  induction fuel generalizing q s with
  | zero => simp [QMsm.bubble] at ran
  | succ fuel ih =>
      simp only [QMsm.bubble, QMsm.call] at ran
      cases result : ((table s).stateHandler q.sm e).1 with
      | super sup =>
          simp only [result] at ran
          rcases ih _ sup ran with ⟨rest, kept⟩
          exact ⟨.above result rest, kept⟩
      | _ =>
          simp only [result, Except.ok.injEq, Prod.mk.injEq] at ran
          rcases ran with ⟨rfl, rfl, rfl⟩
          refine ⟨?_, rfl⟩
          rw [← result]
          exact .here (by simp [result])

theorem dispatchTraced_agree (traced : Bool) (fuel : Nat) (enough : maxNestDepth ≤ fuel)
    (h : QHsm σ S π) (q : QMsm σ S π) (same : Matches table true h q) (e : DynEvent π)
    (user : IsUser e)
    (stays : ¬ ReentersRoot table q e) :
    Agree (Matches table true) (QHsm.dispatchTraced handler traced fuel h e)
      (QMsm.dispatchTraced table traced fuel q e) := by
  have noted := same.emit traced (.dispatch e.signal h.state.get) (.dispatch e.signal q.state)
  have data : (QMsm.emit traced q (.dispatch e.signal q.state)).sm = q.sm ∧
      (QMsm.emit traced q (.dispatch e.signal q.state)).state = q.state ∧
      (QMsm.emit traced q (.dispatch e.signal q.state)).history = q.history := by
    cases traced <;> exact ⟨rfl, rfl, rfl⟩
  simp only [QHsm.dispatchTraced, QMsm.dispatchTraced]
  generalize QHsm.emit traced h (.dispatch e.signal h.state.get) = h₀ at noted
  generalize QMsm.emit traced q (.dispatch e.signal q.state) = q₀ at noted data
  rw [noted.current]
  have together := (bubble_agree described e user fuel h₀ q₀ noted q₀.state).and_right
    (fun result ran => bubble_answers e fuel q₀ result.2.2 q₀.state result.1 result.2.1 ran)
  apply Agree.bind together
  rintro ⟨source, answer, h₁⟩ ⟨source', answer', q₁⟩ ⟨⟨after, kinds⟩, replied, kept⟩
  simp only at after kinds replied kept
  rw [data.1, data.2.1] at replied
  rw [data.2.2] at kept
  have goes (target : σ) (resolved : Resolves q.history answer' target)
      (record : QepRecord (StateHandler σ)) (record' : QepRecord σ) :
      Agree (Matches table true)
        (QHsm.executeTran handler traced fuel (QHsm.emit traced h₁ record) (some source')
          (some target))
        (QMsm.executeTran table traced fuel (QMsm.emit traced q₁ record') source' target) := by
    apply executeTran_agree described shallow traced fuel enough (after.emit traced record record')
    intro self top
    subst self
    rw [← described.parent] at top
    by_contra acts
    apply stays
    refine ⟨source', answer', replied, resolved, top, ?_⟩
    by_contra none
    push Not at none
    exact acts none
  rcases kinds with ⟨rfl, alike⟩ | ⟨rfl, rfl⟩
  · cases alike with
    | handled => exact after.emit traced _ _
    | super sup => exact after
    | top => exact (matches_emit_right traced _).mpr after
    | tran target => exact goes target (.inl rfl) _ _
    | tranHist parent =>
        have target : (h₁.history (some parent)).getD (some parent) =
            some ((q₁.history parent).getD parent) := by
          rw [after.history parent]
          cases q₁.history parent <;> rfl
        simp only [target]
        apply goes
        right
        exact ⟨parent, rfl, by rw [kept]⟩
    | ignored => exact after.emit traced _ _
    | unhandled => exact after.emit traced _ _
  · exact after.emit traced _ _

theorem initTraced_agree (traced : Bool) (fuel : Nat) (enough : maxNestDepth ≤ fuel) (sm : S)
    (initial : StateFn σ S π) (start : σ)
    (starts : initial sm (.emptyDyn qInitSig) = (.tran (some start), sm)) :
    Agree (Matches table true) (QHsm.initTraced handler traced fuel (QHsm.new sm initial))
      (QMsm.initTraced table traced fuel (QMsm.new sm start)) := by
  have same : Matches table false (QHsm.new sm initial) (QMsm.new sm start) :=
    ⟨rfl, rfl, fun _ => rfl, rfl⟩
  rcases pathToTop_agree described shallow fuel enough (QHsm.new sm initial) start with
    ⟨path, found, -, whole⟩
  have looked := pathToTop_matches described (QHsm.new sm initial) (some start) _ same
  simp only [QHsm.new] at whole looked
  simp only [QHsm.initTraced, QHsm.new, starts, QMsm.initTraced, whole, QMsm.new, found,
    ← List.map_reverse]
  apply handleNestedInit_agree described shallow traced fuel enough
  apply Matches.emit
  apply Matches.goto
  exact enterAll_matches described traced path.reverse _ _ looked

theorem runEvents_agree (traced : Bool) (fuel : Nat) (enough : maxNestDepth ≤ fuel)
    (events : List (DynEvent π)) (users : ∀ e ∈ events, IsUser e) (h : QHsm σ S π)
    (q : QMsm σ S π) (same : Matches table true h q)
    (stays : Along (fun q e => (QMsm.dispatchTraced table traced fuel q e).toOption)
      (fun q e => ¬ ReentersRoot table q e) q events) :
    Agree (Matches table true) (QHsm.runEvents handler traced fuel h events)
      (QMsm.runEvents table traced fuel q events) := by
  induction events generalizing h q with
  | nil => exact same
  | cons e rest ih =>
      have first := dispatchTraced_agree described shallow traced fuel enough h q same e
        (users e List.mem_cons_self) stays.1
      apply Agree.bind (first.and_right fun q' ran => ran)
      rintro h' q' ⟨after, ran⟩
      apply ih (fun e member => users e (List.mem_cons_of_mem _ member)) h' q' after
      apply stays.2 q'
      simp only [ran]
      rfl

end Algorithm

/-- `QHsm` and `QMsm` agree on every run in which no event makes a top-level state with an entry or
exit action take a transition to itself: they end in the same state, with the same data and history
and the same log of actions and handler calls. Where initial transitions go down and events are
delegated up the forest, both machines return. -/
theorem machines_agree [DecidableEq σ] (f : Forest σ) (shallow : ∀ s, f.depth s ≤ maxNestDepth)
    (handler : σ → StateFn σ S π) (table : σ → QMState σ S π)
    (described : Described f handler table) (sm : S) (initial : StateFn σ S π) (start : σ)
    (starts : initial sm (.emptyDyn qInitSig) = (.tran (some start), sm))
    (traced : Bool) (fuel : Nat) (enough : maxNestDepth ≤ fuel)
    (events : List (DynEvent π)) (users : ∀ e ∈ events, IsUser e)
    (stays : ∀ q, QMsm.initTraced table traced fuel (QMsm.new sm start) = .ok q →
      Along (fun q e => (QMsm.dispatchTraced table traced fuel q e).toOption)
        (fun q e => ¬ ReentersRoot table q e) q events) :
    Agree (Matches table true)
        (QHsm.initAndRun handler traced fuel (QHsm.new sm initial) events)
        (QMsm.initAndRun table traced fuel (QMsm.new sm start) events) ∧
      (Conforms f handler → maxNestDepth < fuel →
        ∃ h q, QHsm.initAndRun handler traced fuel (QHsm.new sm initial) events = .ok h ∧
          QMsm.initAndRun table traced fuel (QMsm.new sm start) events = .ok q ∧
          Matches table true h q) := by
  have together : Agree (Matches table true)
      (QHsm.initAndRun handler traced fuel (QHsm.new sm initial) events)
      (QMsm.initAndRun table traced fuel (QMsm.new sm start) events) := by
    have first := initTraced_agree described shallow traced fuel enough sm initial start starts
    apply Agree.bind (first.and_right fun q ran => ran)
    rintro h q ⟨same, ran⟩
    exact runEvents_agree described shallow traced fuel enough events users h q same (stays q ran)
  refine ⟨together, ?_⟩
  intro conforms deep
  rcases QHsm.initTraced_spec conforms shallow traced fuel sm initial (some start)
    (by rw [starts]) deep with ⟨h₀, initialised, settled⟩
  rcases QHsm.runEvents_spec conforms shallow traced fuel deep events users h₀ settled with
    ⟨h, ran, -⟩
  have returned : QHsm.initAndRun handler traced fuel (QHsm.new sm initial) events = .ok h := by
    simp only [QHsm.initAndRun, initialised]
    exact ran
  rcases together.returns returned with ⟨q, ran', same⟩
  exact ⟨h, q, returned, ran', same⟩

/-- A composite state `false` with one child `true`; user events take it back to the child. -/
def pairHandler : Bool → StateFn Bool Nat Unit
  | child, sm, e =>
      if e.signal = qEmptySig then (.super (QHsm.nestedForest.parent child), sm)
      else if e.signal = qEntrySig then (.handled, sm + 1)
      else if e.signal = qExitSig then (.handled, sm)
      else if child then (.super (some false), sm)
      else (.tran (some true), sm)

def pairTable : Bool → QMState Bool Nat Unit
  | child =>
      { superstate := QHsm.nestedForest.parent child
        stateHandler := fun sm _ => (if child then .super false else .tran true, sm)
        entryAction := some fun sm => sm + 1
        exitAction := none
        initAction := if child then none else some fun sm => (some true, sm) }

theorem pair_described : Described QHsm.nestedForest pairHandler pairTable where
  parent s := rfl
  empty s sm := by simp [pairHandler]
  entry s sm := by simp [pairHandler, pairTable, effect, qEmptySig, qEntrySig]
  exit s sm := by simp [pairHandler, pairTable, effect, qEmptySig, qEntrySig, qExitSig]
  init s sm := by
    cases s <;> simp [pairHandler, pairTable, QMState.runInit, initTarget, qEmptySig, qEntrySig,
      qExitSig, qInitSig]
  answer s sm e user := by
    rcases user_not_reserved user with ⟨empty, entry, exit, -⟩
    cases s with
    | false =>
        simp only [pairHandler, pairTable, empty, entry, exit, if_false, Bool.false_eq_true,
          and_true]
        exact .tran true
    | true =>
        simp only [pairHandler, pairTable, empty, entry, exit, if_false, if_true, and_true]
        exact .super false

theorem pair_answers {e : DynEvent Unit} {sm : Nat} {s source : Bool} {answer : QMsmResult Bool}
    (answers : Answers pairTable e sm s source answer) : source = false ∧ answer = .tran true := by
  induction answers with
  | @here sm s last =>
      cases s with
      | false => exact ⟨rfl, rfl⟩
      | true => exact absurd rfl (last false)
  | above _ _ ih => exact ih

theorem pair_never_reenters (q : QMsm Bool Nat Unit) (e : DynEvent Unit) :
    ¬ ReentersRoot pairTable q e := by
  rintro ⟨root, answer, answers, resolves, -⟩
  rcases pair_answers answers with ⟨rfl, rfl⟩
  simp [Resolves] at resolves

theorem pair_machines_agree :
    Agree (Matches pairTable true)
      (QHsm.initAndRun pairHandler true 7
        (QHsm.new 0 fun sm _ => (.tran (some false), sm)) [.emptyDyn qUserSig])
      (QMsm.initAndRun pairTable true 7 (QMsm.new 0 false) [.emptyDyn qUserSig]) :=
  (machines_agree QHsm.nestedForest (by decide) pairHandler pairTable pair_described 0
    (fun sm _ => (.tran (some false), sm)) false rfl true 7 (by decide) [.emptyDyn qUserSig]
    (by decide) fun q _ => along_of_forall pair_never_reenters q _).1

/-- One top-level state with an entry action, which answers every user event with a transition to
itself. -/
def loneForest : Forest Unit where
  parent _ := none
  depth _ := 1
  root_depth _ _ := rfl
  child_depth _ _ absent := by simp at absent

def loneHandler : Unit → StateFn Unit Nat Unit
  | _, sm, e =>
      if e.signal = qEmptySig then (.super topState, sm)
      else if e.signal = qEntrySig then (.handled, sm + 1)
      else if e.signal = qExitSig ∨ e.signal = qInitSig then (.handled, sm)
      else (.tran (some ()), sm)

def loneTable : Unit → QMState Unit Nat Unit
  | _ =>
      { superstate := none
        stateHandler := fun sm _ => (.tran (), sm)
        entryAction := some fun sm => sm + 1
        exitAction := none
        initAction := none }

theorem lone_described : Described loneForest loneHandler loneTable where
  parent s := rfl
  empty s sm := by simp [loneHandler, loneForest]
  entry s sm := by simp [loneHandler, loneTable, effect, qEmptySig, qEntrySig]
  exit s sm := by simp [loneHandler, loneTable, effect, qEmptySig, qEntrySig, qExitSig]
  init s sm := by
    simp [loneHandler, loneTable, QMState.runInit, initTarget, qEmptySig, qEntrySig, qExitSig,
      qInitSig]
  answer s sm e user := by
    rcases user_not_reserved user with ⟨empty, entry, exit, init⟩
    simp only [loneHandler, loneTable, empty, entry, exit, init, if_false, or_self, and_true]
    exact .tran ()

/-- The second entry of the state is in the log of `QHsm` only. -/
theorem lone_machines_differ :
    Described loneForest loneHandler loneTable ∧ (∀ s, loneForest.depth s ≤ maxNestDepth) ∧
      ¬ Agree (Matches loneTable true)
        (QHsm.initAndRun loneHandler false 7
          (QHsm.new 0 fun sm _ => (.tran (some ()), sm)) [.emptyDyn qUserSig])
        (QMsm.initAndRun loneTable false 7 (QMsm.new 0 ()) [.emptyDyn qUserSig]) := by
  refine ⟨lone_described, fun _ => Nat.le_add_left 1 5, ?_⟩
  intro same
  have together : Matches loneTable true _ _ := same
  exact absurd together.actions (by decide)

end QpRs.Hsm
