import QpRs.Hsm.Configuration

/-! One transition of a `QHsm`: the calls it makes on the handlers, in order. The `Q_EMPTY` calls
that ask for the parents are left aside. -/

namespace QpRs.Hsm

open QpRs.Lib

variable {σ S π : Type}

/-- Initial transitions go to proper descendants. -/
def Descends (f : Forest σ) (handler : σ → StateFn σ S π) : Prop :=
  ∀ s sm target, (handler s sm (.emptyDyn qInitSig)).1 = .tran target →
    some s ∈ f.path target ∧ target ≠ some s

/-- Calls on the handlers, made in turn from the extended state `sm`, with their answers. -/
def answered (handler : σ → StateFn σ S π) :
    S → List (StateHandler σ × DynEvent π) → List ((StateHandler σ × DynEvent π) × QHsmResult σ)
  | _, [] => []
  | sm, (s, e) :: rest =>
      let answer := QHsm.invoke handler s sm e
      ((s, e), answer.1) :: answered handler answer.2 rest

def replay (handler : σ → StateFn σ S π) (sm : S)
    (calls : List (StateHandler σ × DynEvent π)) : S :=
  calls.foldl (fun sm c => (QHsm.invoke handler c.1 sm c.2).2) sm

def actions (handler : σ → StateFn σ S π) (sm : S) (calls : List (StateHandler σ × DynEvent π)) :
    List ((StateHandler σ × DynEvent π) × QHsmResult σ) :=
  (answered handler sm calls).filter fun c => c.1.2.signal ≠ qEmptySig

/-- The chain of nested initial transitions from a state: `Q_INIT` on the state and, when it answers
with a target, `Q_ENTRY` on the states below it down to the target, and on from there. -/
inductive InitChain (f : Forest σ) : StateHandler σ →
    List ((StateHandler σ × DynEvent π) × QHsmResult σ) → StateHandler σ → Prop where
  | stop {s : StateHandler σ} {answer : QHsmResult σ} (leaf : ∀ next, answer ≠ .tran next) :
      InitChain f s [((s, .emptyDyn qInitSig), answer)] s
  | down {s next last : StateHandler σ} {front : List (StateHandler σ)}
      {entries rest : List ((StateHandler σ × DynEvent π) × QHsmResult σ)}
      (split : f.path next = front ++ f.path s)
      (entered : entries.map Prod.fst = front.reverse.map fun t => (t, .emptyDyn qEntrySig))
      (drilled : InitChain f next rest last) :
      InitChain f s (((s, .emptyDyn qInitSig), .tran next) :: (entries ++ rest)) last

/-- Where a transition turns: the parent of a state that goes to itself, and otherwise the deepest
common ancestor of source and target. -/
def Turns (f : Forest σ) (source target lca : StateHandler σ) : Prop :=
  source = target ∧ lca = source.bind f.parent ∨ source ≠ target ∧ f.Meet source target lca

theorem answered_append (handler : σ → StateFn σ S π) (sm : S)
    (front back : List (StateHandler σ × DynEvent π)) :
    answered handler sm (front ++ back) =
      answered handler sm front ++ answered handler (replay handler sm front) back := by
  induction front generalizing sm with
  | nil => rfl
  | cons c rest ih => exact congrArg (List.cons _) (ih (QHsm.invoke handler c.1 sm c.2).2)

theorem actions_append (handler : σ → StateFn σ S π) (sm : S)
    (front back : List (StateHandler σ × DynEvent π)) :
    actions handler sm (front ++ back) =
      actions handler sm front ++ actions handler (replay handler sm front) back := by
  rw [actions, answered_append, List.filter_append]
  rfl

/-- `m'` is `m` after calls with the actions of `log`, which leave the current state alone. -/
def Acts (handler : σ → StateFn σ S π) (m m' : QHsm σ S π)
    (log : List ((StateHandler σ × DynEvent π) × QHsmResult σ)) : Prop :=
  ∃ made, m'.calls = m.calls ++ made ∧ m'.sm = replay handler m.sm made ∧
    actions handler m.sm made = log

section Acts

variable {handler : σ → StateFn σ S π} {m m' m'' : QHsm σ S π}
  {front back : List ((StateHandler σ × DynEvent π) × QHsmResult σ)}

theorem Acts.refl (m : QHsm σ S π) : Acts handler m m [] := ⟨[], by simp, rfl, rfl⟩

theorem Acts.trans (first : Acts handler m m' front) (second : Acts handler m' m'' back) :
    Acts handler m m'' (front ++ back) := by
  obtain ⟨made, calls, sm, log⟩ := first
  obtain ⟨made', calls', sm', log'⟩ := second
  refine ⟨made ++ made', by rw [calls', calls, List.append_assoc], ?_, ?_⟩
  · rw [sm', sm, replay, replay, replay, List.foldl_append]
  · rw [actions_append, ← sm, log, log']

theorem Acts.congr (acts : Acts handler m m' front) (calls : m''.calls = m'.calls)
    (sm : m''.sm = m'.sm) : Acts handler m m'' front := by
  obtain ⟨made, made_calls, made_sm, log⟩ := acts
  exact ⟨made, calls.trans made_calls, sm.trans made_sm, log⟩

end Acts

namespace QHsm

section Calls

variable (handler : σ → StateFn σ S π)

theorem call_acts (m : QHsm σ S π) (s : StateHandler σ) (e : DynEvent π)
    (acting : e.signal ≠ qEmptySig) :
    Acts handler m (call handler m s e).2 [((s, e), (call handler m s e).1)] :=
  ⟨[(s, e)], rfl, rfl, by simp [actions, answered, acting, call]⟩

theorem asks_acts (m : QHsm σ S π) (s : StateHandler σ) :
    Acts handler m (call handler m s (.emptyDyn qEmptySig)).2 [] :=
  ⟨[(s, .emptyDyn qEmptySig)], rfl, rfl, by simp [actions, answered]⟩

theorem emit_acts (traced : Bool) (m : QHsm σ S π) (record : QepRecord (StateHandler σ)) :
    Acts handler m (emit traced m record) [] := by
  cases traced
  · exact .refl m
  · exact (Acts.refl m).congr rfl rfl

theorem getSuper_acts (m : QHsm σ S π) (s : StateHandler σ) :
    Acts handler m (getSuper handler m s).2 [] := by
  have asked := asks_acts handler m s
  unfold getSuper
  generalize call handler m s (.emptyDyn qEmptySig) = called at asked
  obtain ⟨answer, after⟩ := called
  cases answer <;> exact asked

theorem enterAll_acts (traced : Bool) (m : QHsm σ S π) (path : List (StateHandler σ)) :
    ∃ log, Acts handler m (enterAll handler traced m path) log ∧
      log.map Prod.fst = path.map fun s => (s, .emptyDyn qEntrySig) := by
  induction path generalizing m with
  | nil => exact ⟨[], .refl m, rfl⟩
  | cons s rest ih =>
      have entered : Acts handler m (emit traced (callEntry handler m s) (.stateEntry s))
          [((s, .emptyDyn qEntrySig), (call handler m s (.emptyDyn qEntrySig)).1)] :=
        (call_acts handler m s (.emptyDyn qEntrySig) (by simp [qEntrySig, qEmptySig])).trans
          (emit_acts handler traced (callEntry handler m s) (.stateEntry s))
      obtain ⟨log, later, entries⟩ := ih (emit traced (callEntry handler m s) (.stateEntry s))
      exact ⟨_, entered.trans later, by simp [entries]⟩

theorem exitState_acts [DecidableEq σ] (traced : Bool) (m : QHsm σ S π) (s : StateHandler σ) :
    (exitState handler traced m s).2.state = m.state ∧
      ∃ answer, Acts handler m (exitState handler traced m s).2
        [((s, .emptyDyn qExitSig), answer)] := by
  have asked := getSuper_acts handler m s
  have state := (getSuper_performs handler m s).state
  simp only [exitState]
  generalize getSuper handler m s = looked at asked state
  have exits (m' : QHsm σ S π) (same : m'.state = m.state) (before : Acts handler m m' []) :
      (emit traced (callExit handler m' s) (.stateExit s)).state = m.state ∧
        ∃ answer, Acts handler m (emit traced (callExit handler m' s) (.stateExit s))
          [((s, .emptyDyn qExitSig), answer)] := by
    have quiet := emit_performs traced (callExit handler m' s) (.stateExit s)
    have left : Acts handler m' (emit traced (callExit handler m' s) (.stateExit s))
        [((s, .emptyDyn qExitSig), (call handler m' s (.emptyDyn qExitSig)).1)] :=
      (call_acts handler m' s (.emptyDyn qExitSig) (by simp [qExitSig, qEmptySig])).trans
        (emit_acts handler traced (callExit handler m' s) (.stateExit s))
    exact ⟨quiet.state.trans same, _, before.trans left⟩
  split
  · exact exits looked.2 state asked
  · exact exits _ state (asked.congr rfl rfl)

end Calls

variable {f : Forest σ} {handler : σ → StateFn σ S π}

theorem findLca_meet [DecidableEq σ] (f : Forest σ) (a b : StateHandler σ) :
    f.Meet a b (findLca (f.path a) (f.path b)) := by
  induction a using f.path_induction with
  | top => exact ⟨.inl rfl, fun c absent => by simp at absent⟩
  | below s ih =>
      by_cases here : some s ∈ f.path b
      · have found : findLca (f.path (some s)) (f.path b) = some s := by
          simp [findLca, here]
        rw [found]
        exact ⟨.inr ⟨f.self_mem_path s, here⟩, fun c above _ => above⟩
      · have found : findLca (f.path (some s)) (f.path b) =
            findLca (f.path (f.parent s)) (f.path b) := by
          simp [findLca, here]
        rw [found]
        refine ⟨ih.shared.imp_right fun both => ⟨?_, both.2⟩, fun c above shared => ?_⟩
        · rw [Forest.path_some]
          exact List.mem_cons_of_mem _ both.1
        · rcases List.mem_cons.mp (f.path_some s ▸ above) with rfl | higher
          · exact absurd shared here
          · exact ih.deepest c higher shared

def turn [DecidableEq σ] (f : Forest σ) (source target : StateHandler σ) : StateHandler σ :=
  findLca (f.path (if source = target then source.bind f.parent else source)) (f.path target)

theorem turn_turns [DecidableEq σ] (f : Forest σ) (source target : StateHandler σ) :
    Turns f source target (turn f source target) := by
  by_cases self : source = target
  · refine .inl ⟨self, ?_⟩
    subst self
    rw [turn, if_pos rfl]
    cases source with
    | none => rfl
    | some s =>
        show findLca (f.path (f.parent s)) (f.path (some s)) = f.parent s
        cases root : f.parent s with
        | none => rfl
        | some p => simp [findLca, root]
  · refine .inr ⟨self, ?_⟩
    rw [turn, if_neg self]
    exact findLca_meet f source target

theorem turn_on_both [DecidableEq σ] {f : Forest σ} {source current : StateHandler σ}
    (target : StateHandler σ) (inside : source ∈ f.path current) :
    (turn f source target = none ∨ turn f source target ∈ f.path current) ∧
      (turn f source target = none ∨ turn f source target ∈ f.path target) := by
  refine lca_on_both current _ target ?_
  by_cases self : source = target
  · rw [if_pos self]
    cases source with
    | none => exact .inl rfl
    | some s =>
        cases root : f.parent s with
        | none => exact .inl root
        | some p => exact .inr (f.mem_path_trans (by simp [root]) inside)
  · rw [if_neg self]
    exact .inr inside

theorem pathToTop_acts (parents : Parents f handler)
    (shallow : ∀ s, f.depth s ≤ maxNestDepth) (m : QHsm σ S π) (place : StateHandler σ) :
    (pathToTop handler m place).1 = f.path place ∧
      (pathToTop handler m place).2.state = m.state ∧
      Acts handler m (pathToTop handler m place).2 [] := by
  have asks (m' : QHsm σ S π) (s : StateHandler σ)
      (before : m'.state = m.state ∧ Acts handler m m' []) :
      (getSuper handler m' s).2.state = m.state ∧ Acts handler m (getSuper handler m' s).2 [] :=
    ⟨(getSuper_performs handler m' s).state.trans before.1,
      before.2.trans (getSuper_acts handler m' s)⟩
  exact ⟨pathWithin_path parents maxNestDepth m place (level_le shallow place),
    pathWithin_preserves asks maxNestDepth m place ⟨rfl, .refl m⟩⟩

section Algorithm

variable [DecidableEq σ] (parents : Parents f handler)
include parents

theorem exitState_parent (traced : Bool) (m : QHsm σ S π) (s : StateHandler σ) :
    (exitState handler traced m s).1 = s.bind f.parent :=
  getSuper_parent parents m s

theorem exitUpTo_acts (traced : Bool) (lca : StateHandler σ) (fuel : Nat) (m : QHsm σ S π)
    (s : StateHandler σ) (front : List (StateHandler σ)) (split : f.path s = front ++ f.path lca)
    (enough : front.length < fuel) :
    ∃ m' log, exitUpTo handler traced lca fuel m s = .ok m' ∧ m'.state = m.state ∧
      Acts handler m m' log ∧ log.map Prod.fst = front.map fun t => (t, .emptyDyn qExitSig) := by
  induction front generalizing m s fuel with
  | nil =>
      obtain ⟨fuel, rfl⟩ := Nat.exists_eq_succ_of_ne_zero (by omega : fuel ≠ 0)
      have same : s = lca := path_injective f split
      exact ⟨m, [], by simp [exitUpTo, same], rfl, .refl m, rfl⟩
  | cons x rest ih =>
      obtain ⟨fuel, rfl⟩ := Nat.exists_eq_succ_of_ne_zero (by omega : fuel ≠ 0)
      cases s with
      | none => simp at split
      | some t =>
          obtain ⟨rfl, apart, split⟩ := path_below split
          obtain ⟨state, answer, left⟩ := exitState_acts handler traced m (some t)
          have above := exitState_parent parents traced m (some t)
          simp only [Option.bind_some] at above
          simp only [exitUpTo, if_neg apart, above]
          by_cases root : f.parent t = topState
          · have last : rest = [] := by
              rw [root, Forest.path_none] at split
              exact (List.append_eq_nil_iff.mp split.symm).1
            subst last
            exact ⟨_, _, by rw [if_pos root], state, left, rfl⟩
          · obtain ⟨m', log, ran, after, later, exits⟩ :=
              ih fuel (exitState handler traced m (some t)).2 (f.parent t) split
                (by simp only [List.length_cons] at enough; omega)
            refine ⟨m', _, by rw [if_neg root, ran], after.trans state, left.trans later, ?_⟩
            simp [exits]

variable (shallow : ∀ s, f.depth s ≤ maxNestDepth)
include shallow

theorem handleNestedInit_acts (descends : Descends f handler) (traced : Bool) (fuel : Nat)
    (m : QHsm σ S π) (enough : maxNestDepth < f.level m.state.get + fuel) :
    ∃ m' log, handleNestedInit handler traced fuel m = .ok m' ∧ Acts handler m m' log ∧
      InitChain f m.state.get log m'.state.get := by
  induction fuel generalizing m with
  | zero =>
      have := level_le shallow m.state.get
      omega
  | succ fuel ih =>
      have asked := call_acts handler m m.state.get (.emptyDyn qInitSig)
        (by simp [qInitSig, qEmptySig])
      have same : (call handler m m.state.get (.emptyDyn qInitSig)).2.state = m.state := rfl
      have drills (next : StateHandler σ)
          (answer : (call handler m m.state.get (.emptyDyn qInitSig)).1 = .tran next) :
          m.state.get ∈ f.path next ∧ next ≠ m.state.get := by
        obtain ⟨s, place, answer⟩ := init_answer handler answer
        rw [place]
        exact descends s m.sm next answer
      simp only [handleNestedInit]
      generalize call handler m m.state.get (.emptyDyn qInitSig) = called at asked drills same
      obtain ⟨answer, after⟩ := called
      cases answer with
      | tran next =>
          obtain ⟨inside, proper⟩ := drills next rfl
          obtain ⟨path, state, quiet⟩ := pathToTop_acts parents shallow after next
          simp only [path]
          generalize pathToTop handler after next = looked at quiet state
          have current : looked.2.state.get = m.state.get := by
            rw [state]
            exact congrArg Dup.get same
          rw [current]
          have split := f.path_split (.inr inside)
          set front := (f.path next).take ((f.path next).idxOf m.state.get)
          have deeper : f.level m.state.get < f.level next := level_lt split proper
          obtain ⟨entries, entered, named⟩ :=
            enterAll_acts handler traced looked.2 front.reverse
          have told := emit_acts handler traced
            (enterAll handler traced looked.2 front.reverse)
            (.stateInit (enterAll handler traced looked.2 front.reverse).state.get)
          have whole := ((asked.trans quiet).trans entered).trans told
          generalize emit traced (enterAll handler traced looked.2 front.reverse)
            (.stateInit (enterAll handler traced looked.2 front.reverse).state.get) = entering
            at whole
          obtain ⟨m', rest, ran, later, chain⟩ :=
            ih { entering with state := entering.state.set next }
                (by simp only [Dup.get_set]; omega)
          have went : Acts handler m { entering with state := entering.state.set next } _ :=
            whole.congr rfl rfl
          refine ⟨m', _, ran, went.trans later, ?_⟩
          simpa using InitChain.down split.symm named chain
      | _ => exact ⟨after, _, rfl, asked, by
          rw [same]
          exact .stop (by simp)⟩

theorem executeTran_crosses (traced : Bool) (fuel : Nat) (m : QHsm σ S π)
    (source target : StateHandler σ) :
    ∃ m₁, m₁.state = m.state ∧ Acts handler m m₁ [] ∧
      executeTran handler traced fuel m source target =
        crossTo handler traced fuel m₁ m.state.get target (f.path target)
            (turn f source target) := by
  obtain ⟨targetPath, state, quiet⟩ := pathToTop_acts parents shallow m target
  by_cases self : source = target
  · have above := getSuper_parent parents (pathToTop handler m target).2 source
    have asked := getSuper_acts handler (pathToTop handler m target).2 source
    have kept := (getSuper_performs handler (pathToTop handler m target).2 source).state
    obtain ⟨sourcePath, still, looked⟩ := pathToTop_acts parents shallow
      (getSuper handler (pathToTop handler m target).2 source).2 (source.bind f.parent)
    refine ⟨_, still.trans (kept.trans state), (quiet.trans asked).trans looked, ?_⟩
    simp only [executeTran, targetPath, if_pos self, above, sourcePath, turn]
  · obtain ⟨sourcePath, still, looked⟩ :=
      pathToTop_acts parents shallow (pathToTop handler m target).2 source
    refine ⟨_, still.trans state, quiet.trans looked, ?_⟩
    simp only [executeTran, targetPath, if_neg self, sourcePath, turn]

theorem crossTo_acts (descends : Descends f handler) (traced : Bool) (fuel : Nat)
    (m : QHsm σ S π) (current target lca : StateHandler σ) (enough : maxNestDepth < fuel)
    (high : lca = none ∨ lca ∈ f.path current) (low : lca = none ∨ lca ∈ f.path target) :
    ∃ m' exits entries chain leaving entering,
      crossTo handler traced fuel m current target (f.path target) lca = .ok m' ∧
      Acts handler m m' (exits ++ entries ++ chain) ∧
      f.path current = leaving ++ f.path lca ∧
      exits.map Prod.fst = leaving.map (fun s => (s, .emptyDyn qExitSig)) ∧
      f.path target = entering ++ f.path lca ∧
      entries.map Prod.fst = entering.reverse.map (fun s => (s, .emptyDyn qEntrySig)) ∧
      InitChain f target chain m'.state.get := by
  have exiting := f.path_split high
  have descending := f.path_split low
  simp only [crossTo]
  set leaving := (f.path current).take ((f.path current).idxOf lca)
  set entering := (f.path target).take ((f.path target).idxOf lca)
  have short : leaving.length < fuel := by
    have lengths := congrArg List.length exiting
    rw [List.length_append, f.length_path current] at lengths
    have := level_le shallow current
    omega
  obtain ⟨m₁, exits, ran, -, left, exit_calls⟩ :=
    exitUpTo_acts parents traced lca fuel m current leaving exiting.symm short
  obtain ⟨entries, entered, entry_calls⟩ :=
    enterAll_acts handler traced m₁ entering.reverse
  simp only [ran, bind, Except.bind]
  generalize enterAll handler traced m₁ entering.reverse = m₂ at entered
  obtain ⟨m', chain, done, drilled, nested⟩ :=
    handleNestedInit_acts parents shallow descends traced fuel
      { m₂ with state := m₂.state.set target } (by simp only [Dup.get_set]; omega)
  have crossed : Acts handler m { m₂ with state := m₂.state.set target } (exits ++ entries) :=
    (left.trans entered).congr rfl rfl
  exact ⟨m', exits, entries, chain, leaving, entering, done, crossed.trans drilled, exiting.symm,
    exit_calls, descending.symm, entry_calls, nested⟩

end Algorithm

/-- The calls of a transition, the questions for parents apart: `Q_EXIT` on the current state and
its ancestors below the turning point, innermost first, `Q_ENTRY` on the states below it down to the
target, outermost first, and the chain of nested initial transitions, which ends in the new
state. -/
theorem transition_calls [DecidableEq σ] (f : Forest σ) (handler : σ → StateFn σ S π)
    (parents : Parents f handler) (descends : Descends f handler)
    (shallow : ∀ s, f.depth s ≤ maxNestDepth) (traced : Bool) (fuel : Nat)
    (enough : maxNestDepth < fuel) (m : QHsm σ S π) (source target : StateHandler σ)
    (inside : source ∈ f.path m.state.get) :
    ∃ m' made lca exits entries chain leaving entering,
      executeTran handler traced fuel m source target = .ok m' ∧
      m'.calls = m.calls ++ made ∧
      actions handler m.sm made = exits ++ entries ++ chain ∧
      Turns f source target lca ∧
      f.path m.state.get = leaving ++ f.path lca ∧
      exits.map Prod.fst = leaving.map (fun s => (s, .emptyDyn qExitSig)) ∧
      f.path target = entering ++ f.path lca ∧
      entries.map Prod.fst = entering.reverse.map (fun s => (s, .emptyDyn qEntrySig)) ∧
      InitChain f target chain m'.state.get := by
  obtain ⟨m₁, -, quiet, crossing⟩ :=
    executeTran_crosses parents shallow traced fuel m source target
  obtain ⟨high, low⟩ := turn_on_both target inside
  obtain ⟨m', exits, entries, chain, leaving, entering, ran, acts, rest⟩ :=
    crossTo_acts parents shallow descends traced fuel m₁ m.state.get target _ enough high low
  obtain ⟨made, calls, -, log⟩ := quiet.trans acts
  exact ⟨m', made, _, exits, entries, chain, leaving, entering, crossing.trans ran, calls, log,
    turn_turns f source target, rest⟩

/-- The composite state goes to itself while its child is active. -/
theorem nested_transition_calls :
    ∃ m' made lca exits entries chain leaving entering,
      executeTran nestedHandler true 7
        (⟨.new (some true), fun sm _ => (.handled, sm), (), fun _ => none, [], []⟩ :
          QHsm Bool Unit Unit)
        (some false) (some false) = .ok m' ∧
      m'.calls = [] ++ made ∧
      actions nestedHandler () made = exits ++ entries ++ chain ∧
      Turns nestedForest (some false) (some false) lca ∧
      nestedForest.path (some true) = leaving ++ nestedForest.path lca ∧
      exits.map Prod.fst = leaving.map (fun s => (s, .emptyDyn qExitSig)) ∧
      nestedForest.path (some false) = entering ++ nestedForest.path lca ∧
      entries.map Prod.fst = entering.reverse.map (fun s => (s, .emptyDyn qEntrySig)) ∧
      InitChain nestedForest (some false) chain m'.state.get :=
  transition_calls nestedForest nestedHandler nested_conforms.empty nested_conforms.init (by decide)
    true 7 (by decide) _ (some false) (some false) (by simp [nestedForest])

end QHsm

end QpRs.Hsm
