import QpRs.Hsm.QHsm
import QpRs.Lib.Forest

/-! The active configuration of a `QHsm`: the states that were entered and not exited since are the
path of the current state, after `init` and after every `dispatch`. -/

namespace QpRs.Hsm

open QpRs.Lib

variable {σ S π : Type}

/-- The handlers answer `Q_EMPTY` with their parent in the forest. -/
def Parents (f : Forest σ) (handler : σ → StateFn σ S π) : Prop :=
  ∀ s sm, (handler s sm (.emptyDyn qEmptySig)).1 = .super (f.parent s)

/-- The handlers describe the forest: they answer `Q_EMPTY` and delegate with their parent, and
initial transitions go to proper descendants. Everything else they answer is free. -/
structure Conforms (f : Forest σ) (handler : σ → StateFn σ S π) : Prop where
  empty : Parents f handler
  init : ∀ s sm target, (handler s sm (.emptyDyn qInitSig)).1 = .tran target →
    some s ∈ f.path target ∧ target ≠ some s
  delegate : ∀ s sm e sup, IsUser e → (handler s sm e).1 = .super sup → sup = f.parent s

def move : StateHandler σ × DynEvent π → Option (Move σ)
  | (topState, _) => none
  | (some s, e) =>
      if e.signal = qEntrySig then some (.enter s)
      else if e.signal = qExitSig then some (.leave s)
      else none

/-- The entries and exits in a log of calls, in order. -/
def moves (calls : List (StateHandler σ × DynEvent π)) : List (Move σ) := calls.filterMap move

/-- `m'` is `m` after calls that made the given moves and left state and history alone. -/
structure Performs (m m' : QHsm σ S π) (made : List (Move σ)) : Prop where
  state : m'.state = m.state
  history : m'.history = m.history
  moves : moves m'.calls = moves m.calls ++ made

theorem Performs.refl (m : QHsm σ S π) : Performs m m [] := ⟨rfl, rfl, by simp⟩

theorem Performs.trans {m m' m'' : QHsm σ S π} {front back : List (Move σ)}
    (first : Performs m m' front) (second : Performs m' m'' back) :
    Performs m m'' (front ++ back) where
  state := second.state.trans first.state
  history := second.history.trans first.history
  moves := by rw [second.moves, first.moves, List.append_assoc]

namespace QHsm

theorem emit_performs (traced : Bool) (m : QHsm σ S π) (record : QepRecord (StateHandler σ)) :
    Performs m (emit traced m record) [] := by
  cases traced
  · exact .refl m
  · exact ⟨rfl, rfl, by simp [emit]⟩

section Calls

variable (handler : σ → StateFn σ S π)

theorem call_performs (m : QHsm σ S π) (s : StateHandler σ) (e : DynEvent π) :
    Performs m (call handler m s e).2 (move (s, e)).toList := by
  refine ⟨rfl, rfl, ?_⟩
  cases moved : move (s, e) with
  | none => simp [call, moves, List.filterMap_append, moved]
  | some step => simp [call, moves, List.filterMap_append, moved]

theorem quiet_performs (m : QHsm σ S π) (s : StateHandler σ) (e : DynEvent π)
    (entry : e.signal ≠ qEntrySig) (exit : e.signal ≠ qExitSig) :
    Performs m (call handler m s e).2 [] := by
  have silent : move (s, e) = none := by cases s <;> simp [move, entry, exit]
  simpa [silent] using call_performs handler m s e

/-- A target of `Q_INIT` is the answer of a state, never of `top_state`. -/
theorem init_answer {m : QHsm σ S π} {next : StateHandler σ}
    (answer : (call handler m m.state.get (.emptyDyn qInitSig)).1 = .tran next) :
    ∃ s, m.state.get = some s ∧ (handler s m.sm (.emptyDyn qInitSig)).1 = .tran next := by
  cases place : m.state.get with
  | none =>
      rw [place] at answer
      simp [call, invoke] at answer
  | some s =>
      rw [place] at answer
      exact ⟨s, rfl, answer⟩

theorem callEntry_performs (m : QHsm σ S π) (s : StateHandler σ) :
    Performs m (callEntry handler m s) (s.map .enter).toList := by
  have made := call_performs handler m s (.emptyDyn qEntrySig)
  cases s with
  | none => exact made
  | some s => exact made

theorem callExit_performs (m : QHsm σ S π) (s : StateHandler σ) :
    Performs m (callExit handler m s) (s.map .leave).toList := by
  have made := call_performs handler m s (.emptyDyn qExitSig)
  cases s with
  | none => exact made
  | some s => exact made

theorem getSuper_performs (m : QHsm σ S π) (s : StateHandler σ) :
    Performs m (getSuper handler m s).2 [] := by
  have quiet := quiet_performs handler m s (.emptyDyn qEmptySig)
    (by simp [qEmptySig, qEntrySig]) (by simp [qEmptySig, qExitSig])
  unfold getSuper
  generalize call handler m s (.emptyDyn qEmptySig) = called at quiet
  rcases called with ⟨answer, after⟩
  cases answer <;> exact quiet

theorem getSuper_parent {f : Forest σ} {handler : σ → StateFn σ S π} (parents : Parents f handler)
    (m : QHsm σ S π) (s : StateHandler σ) : (getSuper handler m s).1 = s.bind f.parent := by
  cases s with
  | none => rfl
  | some s =>
      have answer : (call handler m (some s) (.emptyDyn qEmptySig)).1 = .super (f.parent s) :=
        parents s m.sm
      unfold getSuper
      generalize call handler m (some s) (.emptyDyn qEmptySig) = called at answer
      rcases called with ⟨result, after⟩
      simp only at answer
      subst answer
      rfl

end Calls

theorem enterAll_performs (handler : σ → StateFn σ S π) (traced : Bool) (m : QHsm σ S π)
    (path : List (StateHandler σ)) :
    Performs m (enterAll handler traced m path) (path.filterMap (Option.map .enter)) := by
  induction path generalizing m with
  | nil => exact .refl m
  | cons s rest ih =>
      have entered := (callEntry_performs handler m s).trans
        (emit_performs traced (callEntry handler m s) (.stateEntry s))
      have both := entered.trans (ih (emit traced (callEntry handler m s) (.stateEntry s)))
      cases s <;> simpa [enterAll] using both

theorem findLca_mem [DecidableEq σ] (path1 path2 : List (StateHandler σ)) :
    findLca path1 path2 = none ∨ findLca path1 path2 ∈ path1 ∧ findLca path1 path2 ∈ path2 := by
  unfold findLca
  cases found : path1.find? fun a => path2.any fun b => a = b with
  | none => exact .inl rfl
  | some a =>
      right
      have common := List.find?_some found
      simp only [List.any_eq_true, decide_eq_true_eq] at common
      obtain ⟨b, present, rfl⟩ := common
      exact ⟨List.mem_of_find?_eq_some found, present⟩

theorem level_le {f : Forest σ} (shallow : ∀ s, f.depth s ≤ maxNestDepth)
    (place : StateHandler σ) : f.level place ≤ maxNestDepth := by
  cases place with
  | none => exact Nat.zero_le _
  | some s => exact shallow s

theorem pathWithin_path {f : Forest σ} {handler : σ → StateFn σ S π} (parents : Parents f handler)
    (room : Nat) (m : QHsm σ S π) (place : StateHandler σ) (fits : f.level place ≤ room) :
    (pathWithin handler room m place).1 = f.path place := by
  induction room generalizing m place with
  | zero =>
      cases place with
      | none => rfl
      | some s =>
          have := f.depth_eq s
          simp only [Forest.level_some] at fits
          omega
  | succ room ih =>
      cases place with
      | none => rfl
      | some s =>
          have above := getSuper_parent parents m (some s)
          have remaining : f.level (f.parent s) ≤ room := by
            have := f.depth_eq s
            simp only [Forest.level_some] at fits
            omega
          simp only [Option.bind_some] at above
          simp only [pathWithin, reduceCtorEq, if_false, above, Forest.path_some]
          rw [ih _ (f.parent s) remaining]

theorem pathWithin_preserves {handler : σ → StateFn σ S π} {Inv : QHsm σ S π → Prop}
    (asks : ∀ m s, Inv m → Inv (getSuper handler m s).2) (room : Nat) (m : QHsm σ S π)
    (place : StateHandler σ) (before : Inv m) : Inv (pathWithin handler room m place).2 := by
  induction room generalizing m place with
  | zero => exact before
  | succ room ih =>
      cases place with
      | none => exact before
      | some s =>
          simp only [pathWithin, reduceCtorEq, if_false]
          exact ih _ _ (asks m (some s) before)

section Algorithm

variable {f : Forest σ} {handler : σ → StateFn σ S π} (conforms : Conforms f handler)
include conforms

theorem getSuper_spec (m : QHsm σ S π) (s : StateHandler σ) :
    (getSuper handler m s).1 = s.bind f.parent ∧ Performs m (getSuper handler m s).2 [] :=
  ⟨getSuper_parent conforms.empty m s, getSuper_performs handler m s⟩

theorem pathToTop_spec (shallow : ∀ s, f.depth s ≤ maxNestDepth) (m : QHsm σ S π)
    (place : StateHandler σ) :
    (pathToTop handler m place).1 = f.path place ∧
      Performs m (pathToTop handler m place).2 [] := by
  refine ⟨pathWithin_path conforms.empty maxNestDepth m place (level_le shallow place), ?_⟩
  have asks (m' : QHsm σ S π) (s : StateHandler σ) (before : Performs m m' []) :
      Performs m (getSuper handler m' s).2 [] := before.trans (getSuper_performs handler m' s)
  exact pathWithin_preserves asks maxNestDepth m place (.refl m)

/-- The handler that answers a user event is the current state, one of its ancestors, or
`top_state`; finding it makes no moves. -/
theorem bubble_spec (e : DynEvent π) (user : IsUser e) (fuel : Nat) (m : QHsm σ S π)
    (s : StateHandler σ) (enough : f.level s ≤ fuel) :
    ∃ source answer m', bubble handler e fuel m s = .ok (source, answer, m') ∧
      Performs m m' [] ∧ (source ∈ f.path s ∨ source = none ∧ answer = .ignored) := by
  have reserved := user_not_reserved user
  have asked (m : QHsm σ S π) (s : StateHandler σ) :=
    quiet_performs handler m s e reserved.2.1 reserved.2.2.1
  induction fuel generalizing m s with
  | zero =>
      cases s with
      | none => exact ⟨none, .ignored, _, rfl, asked m none, .inr ⟨rfl, rfl⟩⟩
      | some t =>
          have := f.depth_eq t
          simp only [Forest.level_some] at enough
          omega
  | succ fuel ih =>
      cases s with
      | none => exact ⟨none, .ignored, _, rfl, asked m none, .inr ⟨rfl, rfl⟩⟩
      | some t =>
          have delegated (sup : StateHandler σ)
              (answer : (call handler m (some t) e).1 = .super sup) :
              sup = f.parent t := conforms.delegate t m.sm e sup user answer
          have quiet := asked m (some t)
          simp only [bubble]
          generalize call handler m (some t) e = called at quiet delegated
          rcases called with ⟨answer, after⟩
          cases answer with
          | super sup =>
              have above := delegated sup rfl
              subst above
              have lower : f.level (f.parent t) ≤ fuel := by
                have := f.depth_eq t
                simp only [Forest.level_some] at enough
                omega
              rcases ih after (f.parent t) lower with ⟨source, answer, m', ran, silent, whence⟩
              refine ⟨source, answer, m', ran, quiet.trans silent, ?_⟩
              rcases whence with inside | top
              · left
                rw [Forest.path_some]
                exact List.mem_cons_of_mem _ inside
              · exact .inr top
          | _ => exact ⟨some t, _, after, rfl, quiet, .inl (f.self_mem_path t)⟩

variable [DecidableEq σ]

theorem exitState_spec (traced : Bool) (m : QHsm σ S π) (s : σ) :
    (exitState handler traced m (some s)).1 = f.parent s ∧
      (exitState handler traced m (some s)).2.state = m.state ∧
      moves (exitState handler traced m (some s)).2.calls = moves m.calls ++ [.leave s] := by
  obtain ⟨above, quiet⟩ := getSuper_spec conforms m (some s)
  simp only [Option.bind_some] at above
  simp only [exitState, above, true_and]
  generalize getSuper handler m (some s) = asked at quiet
  have noted (m' : QHsm σ S π) (state : m'.state = m.state)
      (same : moves m'.calls = moves m.calls) :
      (emit traced (callExit handler m' (some s)) (.stateExit (some s))).state = m.state ∧
        moves (emit traced (callExit handler m' (some s)) (.stateExit (some s))).calls =
          moves m.calls ++ [.leave s] := by
    have left := (callExit_performs handler m' (some s)).trans
      (emit_performs traced (callExit handler m' (some s)) (.stateExit (some s)))
    refine ⟨left.state.trans state, ?_⟩
    rw [left.moves, same]
    rfl
  have quiet_moves : moves asked.2.calls = moves m.calls := by simpa using quiet.moves
  split
  · exact noted _ quiet.state quiet_moves
  · exact noted _ quiet.state quiet_moves

theorem exitUpTo_spec (traced : Bool) (lca : StateHandler σ) (fuel : Nat) (m : QHsm σ S π)
    (s : StateHandler σ) (front : List (StateHandler σ)) (split : f.path s = front ++ f.path lca)
    (enough : front.length < fuel) :
    ∃ m', exitUpTo handler traced lca fuel m s = .ok m' ∧ m'.state = m.state ∧
      moves m'.calls = moves m.calls ++ front.filterMap (Option.map .leave) := by
  induction front generalizing m s fuel with
  | nil =>
      obtain ⟨fuel, rfl⟩ := Nat.exists_eq_succ_of_ne_zero (by omega : fuel ≠ 0)
      have same : s = lca := path_injective f split
      exact ⟨m, by simp [exitUpTo, same], rfl, by simp⟩
  | cons x rest ih =>
      obtain ⟨fuel, rfl⟩ := Nat.exists_eq_succ_of_ne_zero (by omega : fuel ≠ 0)
      cases s with
      | none => simp at split
      | some t =>
          obtain ⟨rfl, apart, split⟩ := path_below split
          obtain ⟨above, state, made⟩ := exitState_spec conforms traced m t
          simp only [exitUpTo, if_neg apart, above]
          by_cases root : f.parent t = topState
          · have last : rest = [] := by
              rw [root, Forest.path_none] at split
              exact (List.append_eq_nil_iff.mp split.symm).1
            subst last
            exact ⟨_, by rw [if_pos root], state, by simpa using made⟩
          · obtain ⟨m', ran, after, rest_made⟩ :=
              ih fuel (exitState handler traced m (some t)).2 (f.parent t) split
                (by simp only [List.length_cons] at enough; omega)
            refine ⟨m', by rw [if_neg root, ran], after.trans state, ?_⟩
            rw [rest_made, made]
            simp

theorem handleNestedInit_spec (shallow : ∀ s, f.depth s ≤ maxNestDepth) (traced : Bool) (fuel : Nat)
    (m : QHsm σ S π) (enough : maxNestDepth < f.level m.state.get + fuel) :
    ∃ m' made, handleNestedInit handler traced fuel m = .ok m' ∧
      Walk f m.state.get made m'.state.get ∧ moves m'.calls = moves m.calls ++ made := by
  induction fuel generalizing m with
  | zero =>
      have := level_le shallow m.state.get
      omega
  | succ fuel ih =>
      have asked := quiet_performs handler m m.state.get (.emptyDyn qInitSig)
        (by simp [qInitSig, qEntrySig]) (by simp [qInitSig, qExitSig])
      have drills (next : StateHandler σ)
          (answer : (call handler m m.state.get (.emptyDyn qInitSig)).1 = .tran next) :
          m.state.get ∈ f.path next ∧ next ≠ m.state.get := by
        obtain ⟨s, place, answer⟩ := init_answer handler answer
        rw [place]
        exact conforms.init s m.sm next answer
      simp only [handleNestedInit]
      generalize call handler m m.state.get (.emptyDyn qInitSig) = called at asked drills
      obtain ⟨answer, after⟩ := called
      cases answer with
      | tran next =>
          obtain ⟨inside, proper⟩ := drills next rfl
          obtain ⟨path, quiet⟩ := pathToTop_spec conforms shallow after next
          have state := asked.state
          simp only at state
          simp only [path]
          generalize pathToTop handler after next = looked at quiet
          have current : looked.2.state.get = m.state.get := by rw [quiet.state, state]
          have split := f.path_split (.inr inside)
          set front := (f.path next).take ((f.path next).idxOf m.state.get)
          have entered := enterAll_performs handler traced looked.2 front.reverse
          have drilled : Performs m
              (emit traced (enterAll handler traced looked.2 front.reverse)
                (.stateInit (enterAll handler traced looked.2 front.reverse).state.get))
              (front.reverse.filterMap (Option.map .enter)) := by
            have whole := ((asked.trans quiet).trans entered).trans (emit_performs traced _
              (.stateInit (enterAll handler traced looked.2 front.reverse).state.get))
            simpa using whole
          have deeper : f.level m.state.get < f.level next := level_lt split proper
          rw [current]
          generalize emit traced (enterAll handler traced looked.2 front.reverse)
            (.stateInit (enterAll handler traced looked.2 front.reverse).state.get) = entering
            at drilled
          obtain ⟨m', made, ran, walk, log⟩ :=
            ih { entering with state := entering.state.set next }
                (by simp only [Dup.get_set]; omega)
          refine ⟨m', front.reverse.filterMap (Option.map .enter) ++ made, ran,
            (walk_enters split.symm).append walk, ?_⟩
          rw [log, ← List.append_assoc, ← drilled.moves]
      | _ => exact ⟨after, [], rfl, by rw [asked.state]; exact .stay _, asked.moves⟩

omit conforms in
theorem lca_on_both (current start target : StateHandler σ)
    (above : start = none ∨ start ∈ f.path current) :
    (findLca (f.path start) (f.path target) = none ∨
        findLca (f.path start) (f.path target) ∈ f.path current) ∧
      (findLca (f.path start) (f.path target) = none ∨
        findLca (f.path start) (f.path target) ∈ f.path target) := by
  rcases findLca_mem (f.path start) (f.path target) with top | ⟨first, second⟩
  · exact ⟨.inl top, .inl top⟩
  · refine ⟨.inr ?_, .inr second⟩
    rcases above with rfl | inside
    · simp at first
    · exact f.mem_path_trans first inside

theorem crossTo_spec (shallow : ∀ s, f.depth s ≤ maxNestDepth) (traced : Bool) (fuel : Nat)
    (m : QHsm σ S π) (current target lca : StateHandler σ) (enough : maxNestDepth < fuel)
    (high : lca = none ∨ lca ∈ f.path current) (low : lca = none ∨ lca ∈ f.path target) :
    ∃ m' made, crossTo handler traced fuel m current target (f.path target) lca = .ok m' ∧
      Walk f current made m'.state.get ∧ moves m'.calls = moves m.calls ++ made := by
  have exits := f.path_split high
  have entries := f.path_split low
  simp only [crossTo]
  set leaving := (f.path current).take ((f.path current).idxOf lca)
  set entering := (f.path target).take ((f.path target).idxOf lca)
  have short : leaving.length < fuel := by
    have lengths := congrArg List.length exits
    rw [List.length_append, f.length_path current] at lengths
    have := level_le shallow current
    omega
  rcases exitUpTo_spec conforms traced lca fuel m current leaving exits.symm short with
    ⟨m₁, ran, state, left⟩
  have entered := enterAll_performs handler traced m₁ entering.reverse
  simp only [ran, bind, Except.bind]
  generalize enterAll handler traced m₁ entering.reverse = m₂ at entered
  rcases handleNestedInit_spec conforms shallow traced fuel
      { m₂ with state := m₂.state.set target } (by simp only [Dup.get_set]; omega) with
    ⟨m', made, done, walk, log⟩
  refine ⟨m', leaving.filterMap (Option.map .leave) ++
    (entering.reverse.filterMap (Option.map .enter) ++ made), done, ?_, ?_⟩
  · exact (walk_leaves exits.symm).append ((walk_enters entries.symm).append walk)
  · simp only [log, entered.moves, left, List.append_assoc]

theorem executeTran_spec (shallow : ∀ s, f.depth s ≤ maxNestDepth) (traced : Bool) (fuel : Nat)
    (m : QHsm σ S π) (source target : StateHandler σ) (inside : source ∈ f.path m.state.get)
    (enough : maxNestDepth < fuel) :
    ∃ m' made, executeTran handler traced fuel m source target = .ok m' ∧
      Walk f m.state.get made m'.state.get ∧ moves m'.calls = moves m.calls ++ made := by
  -- Both branches reach the exit loop with the path of some ancestor of the current state.
  have continues (start : StateHandler σ) (above : start = none ∨ start ∈ f.path m.state.get)
      (m₁ : QHsm σ S π) (quiet : Performs m m₁ []) :
      ∃ m' made, crossTo handler traced fuel m₁ m.state.get target (f.path target)
          (findLca (f.path start) (f.path target)) = .ok m' ∧
        Walk f m.state.get made m'.state.get ∧ moves m'.calls = moves m.calls ++ made := by
    rcases lca_on_both m.state.get start target above with ⟨high, low⟩
    rcases crossTo_spec conforms shallow traced fuel m₁ m.state.get target _ enough high low with
      ⟨m', made, done, walk, log⟩
    refine ⟨m', made, done, walk, ?_⟩
    rw [log, quiet.moves, List.append_nil]
  rcases pathToTop_spec conforms shallow m target with ⟨targetPath, quiet⟩
  simp only [executeTran, targetPath]
  by_cases self : source = target
  · rcases getSuper_spec conforms (pathToTop handler m target).2 source with ⟨above, asked⟩
    rcases pathToTop_spec conforms shallow
      (getSuper handler (pathToTop handler m target).2 source).2 (source.bind f.parent) with
      ⟨sourcePath, looked⟩
    simp only [if_pos self, above, sourcePath]
    refine continues (source.bind f.parent) ?_ _ ((quiet.trans asked).trans looked)
    cases source with
    | none => exact .inl rfl
    | some s =>
        cases root : f.parent s with
        | none => exact .inl root
        | some p =>
            refine .inr (f.mem_path_trans ?_ inside)
            simp [root]
  · rcases pathToTop_spec conforms shallow (pathToTop handler m target).2 source with
      ⟨sourcePath, looked⟩
    simp only [if_neg self, sourcePath]
    exact continues source (.inr inside) _ (quiet.trans looked)

theorem dispatchTraced_spec (shallow : ∀ s, f.depth s ≤ maxNestDepth) (traced : Bool) (fuel : Nat)
    (m : QHsm σ S π) (e : DynEvent π) (user : IsUser e) (enough : maxNestDepth < fuel) :
    ∃ m' made, dispatchTraced handler traced fuel m e = .ok m' ∧
      Walk f m.state.get made m'.state.get ∧ moves m'.calls = moves m.calls ++ made := by
  have noted := emit_performs traced m (.dispatch e.signal m.state.get)
  simp only [dispatchTraced]
  generalize emit traced m (.dispatch e.signal m.state.get) = m₀ at noted
  have low : f.level m₀.state.get ≤ fuel := by
    have := level_le shallow m₀.state.get
    omega
  rcases bubble_spec conforms e user fuel m₀ m₀.state.get low with
    ⟨source, answer, m₁, ran, quiet, whence⟩
  have asked := noted.trans quiet
  simp only [ran, bind, Except.bind]
  have stays (record : QepRecord (StateHandler σ)) :
      ∃ m' made, (Except.ok (emit traced m₁ record) : Except Halt (QHsm σ S π)) = .ok m' ∧
        Walk f m.state.get made m'.state.get ∧ moves m'.calls = moves m.calls ++ made := by
    have done := asked.trans (emit_performs traced m₁ record)
    refine ⟨_, [], rfl, ?_, done.moves⟩
    rw [done.state]
    exact .stay _
  have goes (target : StateHandler σ) (record : QepRecord (StateHandler σ))
      (inside : source ∈ f.path m₀.state.get) :
      ∃ m' made, executeTran handler traced fuel (emit traced m₁ record) source target = .ok m' ∧
        Walk f m.state.get made m'.state.get ∧ moves m'.calls = moves m.calls ++ made := by
    have before := asked.trans (emit_performs traced m₁ record)
    rw [noted.state, ← before.state] at inside
    rcases executeTran_spec conforms shallow traced fuel (emit traced m₁ record) source target
        inside
      enough with ⟨m', made, done, walk, log⟩
    rw [before.state] at walk
    refine ⟨m', made, done, walk, ?_⟩
    rw [log, before.moves]
    simp
  have answers (inside : source ∈ f.path m₀.state.get ∨ source = none ∧ answer = .ignored)
      (moving : answer ≠ .ignored) : source ∈ f.path m₀.state.get := by
    rcases inside with inside | ⟨-, silent⟩
    · exact inside
    · exact absurd silent moving
  cases answer with
  | handled => exact stays _
  | ignored => exact stays _
  | unhandled => exact stays _
  | tran target => exact goes target _ (answers whence (by simp))
  | tranHist parent => exact goes _ _ (answers whence (by simp))
  | super sup =>
      refine ⟨m₁, [], rfl, ?_, asked.moves⟩
      rw [asked.state]
      exact .stay _

theorem initTraced_spec (shallow : ∀ s, f.depth s ≤ maxNestDepth) (traced : Bool) (fuel : Nat)
    (sm : S) (initial : StateFn σ S π) (target : StateHandler σ)
    (starts : (initial sm (.emptyDyn qInitSig)).1 = .tran target) (enough : maxNestDepth < fuel) :
    ∃ m', initTraced handler traced fuel (new sm initial) = .ok m' ∧
      Walk f none (moves m'.calls) m'.state.get := by
  simp only [initTraced, new]
  generalize initial sm (.emptyDyn qInitSig) = answer at starts
  rcases answer with ⟨result, sm'⟩
  simp only at starts
  subst starts
  simp only
  rcases pathToTop_spec conforms shallow
    ({ state := Dup.new topState, temp := initial, sm := sm', history := fun _ => none, calls := [],
       records := [] } : QHsm σ S π) target with ⟨path, quiet⟩
  simp only [path]
  generalize pathToTop handler
    ({ state := Dup.new topState, temp := initial, sm := sm', history := fun _ => none, calls := [],
       records := [] } : QHsm σ S π) target = looked at quiet
  have entered := quiet.trans (enterAll_performs handler traced looked.2 (f.path target).reverse)
  generalize enterAll handler traced looked.2 (f.path target).reverse = m₁ at entered
  have told := emit_performs traced { m₁ with state := m₁.state.set target } (.initTran target)
  generalize emit traced { m₁ with state := m₁.state.set target } (.initTran target) = m₂ at told
  have place : m₂.state.get = target := by rw [told.state]; rfl
  rcases handleNestedInit_spec conforms shallow traced fuel m₂ (by omega) with
    ⟨m', made, done, walk, log⟩
  refine ⟨m', done, ?_⟩
  rw [place] at walk
  rw [log, told.moves, entered.moves]
  have down : Walk f none ((f.path target).reverse.filterMap (Option.map .enter)) target :=
    walk_enters (by simp)
  simpa [moves] using down.append walk

theorem runEvents_spec (shallow : ∀ s, f.depth s ≤ maxNestDepth) (traced : Bool) (fuel : Nat)
    (enough : maxNestDepth < fuel) (events : List (DynEvent π)) (users : ∀ e ∈ events, IsUser e)
    (m : QHsm σ S π) (settled : Walk f none (moves m.calls) m.state.get) :
    ∃ m', runEvents handler traced fuel m events = .ok m' ∧
      Walk f none (moves m'.calls) m'.state.get := by
  induction events generalizing m with
  | nil => exact ⟨m, rfl, settled⟩
  | cons e rest ih =>
      rcases dispatchTraced_spec conforms shallow traced fuel m e (users e List.mem_cons_self)
          enough with ⟨m₁, made, ran, walk, log⟩
      have next : Walk f none (moves m₁.calls) m₁.state.get := by
        rw [log]
        exact settled.append walk
      have later : ∀ e ∈ rest, IsUser e :=
        fun e member => users e (List.mem_cons_of_mem _ member)
      rcases ih later m₁ next with ⟨m', done, last⟩
      refine ⟨m', ?_, last⟩
      simp only [runEvents, ran]
      exact done

end Algorithm

/-- The active configuration of `QHsm`. After `init` and any user events the machine has returned,
the states entered and not exited since are exactly the current state and its ancestors, each entry
went to an inactive state below an active parent, and each exit to the innermost active state. -/
theorem active_configuration [DecidableEq σ] (f : Forest σ) (handler : σ → StateFn σ S π)
    (conforms : Conforms f handler) (shallow : ∀ s, f.depth s ≤ maxNestDepth)
    (sm : S) (initial : StateFn σ S π) (target : StateHandler σ)
    (starts : (initial sm (.emptyDyn qInitSig)).1 = .tran target)
    (traced : Bool) (fuel : Nat) (enough : maxNestDepth < fuel)
    (events : List (DynEvent π)) (users : ∀ e ∈ events, IsUser e) :
    ∃ m, initAndRun handler traced fuel (new sm initial) events = .ok m ∧
      occupied (moves m.calls) = f.onPath m.state.get ∧ Orderly f ∅ (moves m.calls) := by
  rcases initTraced_spec conforms shallow traced fuel sm initial target starts enough with
    ⟨m₀, initialised, settled⟩
  rcases runEvents_spec conforms shallow traced fuel enough events users m₀ settled with
    ⟨m, ran, walk⟩
  refine ⟨m, ?_, ?_⟩
  · simp only [initAndRun, initialised]
    exact ran
  · have nowhere : f.onPath none = ∅ := by simp [Forest.onPath]
    have orderly := walk.orderly
    rw [nowhere] at orderly
    exact orderly

/-- A composite state `false` with one child `true`; user events reach the composite state, which
answers with a transition to itself. -/
def nestedForest : Forest Bool where
  parent s := if s then some false else none
  depth s := if s then 2 else 1
  root_depth := by decide
  child_depth := by decide

def nestedHandler : Bool → StateFn Bool Unit Unit
  | child, sm, e =>
      if e.signal = qEmptySig then (.super (nestedForest.parent child), sm)
      else if e.signal = qEntrySig ∨ e.signal = qExitSig then (.handled, sm)
      else if child then (.super (some false), sm)
      else if e.signal = qInitSig then (.tran (some true), sm)
      else (.tran (some false), sm)

theorem nested_conforms : Conforms nestedForest nestedHandler where
  empty s sm := by simp [nestedHandler]
  init s sm target answer := by
    cases s with
    | false =>
        have same : (some true : Option Bool) = target := by
          simpa [nestedHandler, qInitSig, qEmptySig, qEntrySig, qExitSig] using answer
        subst same
        simp [nestedForest]
    | true =>
        simp [nestedHandler, qInitSig, qEmptySig, qEntrySig, qExitSig] at answer
  delegate s sm e sup user answer := by
    rcases user_not_reserved user with ⟨empty, entry, exit, init⟩
    cases s with
    | false => simp [nestedHandler, empty, entry, exit, init] at answer
    | true =>
        simp [nestedHandler, empty, entry, exit] at answer
        simp [nestedForest, answer]

theorem nested_active_configuration :
    ∃ m, initAndRun nestedHandler true 7 (new () fun sm _ => (.tran (some false), sm))
        [.emptyDyn qUserSig, .emptyDyn qUserSig] = .ok m ∧
      occupied (moves m.calls) = nestedForest.onPath m.state.get ∧
      Orderly nestedForest ∅ (moves m.calls) :=
  active_configuration nestedForest nestedHandler nested_conforms (by decide) () _ (some false) rfl
    true 7 (by decide) _ (by decide)

end QHsm

end QpRs.Hsm
