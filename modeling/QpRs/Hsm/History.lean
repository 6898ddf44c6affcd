import QpRs.Hsm.Configuration
import QpRs.Hsm.Tracing

/-! Shallow history: what the exit loops of `QHsm` and `QMsm` note for `TranHist`. -/

namespace QpRs.Hsm

open QpRs.Lib

variable {σ S π : Type}

/-- The direct child of `p` that was exited most recently. -/
def lastExited [DecidableEq σ] (f : Forest σ) (p : σ) (exits : List σ) : Option σ :=
  (exits.filter fun s => f.parent s = some p).getLast?

theorem lastExited_child [DecidableEq σ] {f : Forest σ} {p s : σ} {exits : List σ}
    (child : f.parent s = some p) : lastExited f p (exits ++ [s]) = some s := by
  simp [lastExited, List.filter_append, child]

theorem lastExited_other [DecidableEq σ] {f : Forest σ} {p s : σ} {exits : List σ}
    (other : f.parent s ≠ some p) : lastExited f p (exits ++ [s]) = lastExited f p exits := by
  simp [lastExited, List.filter_append, other]

theorem lastExited_isSome_iff [DecidableEq σ] {f : Forest σ} {p : σ} {exits : List σ} :
    (lastExited f p exits).isSome ↔ ∃ s ∈ exits, f.parent s = some p := by
  rw [lastExited, List.getLast?_isSome]
  simp [List.filter_eq_nil_iff]

namespace QHsm

def exits (calls : List (StateHandler σ × DynEvent π)) : List σ :=
  (moves calls).filterMap fun
    | .leave s => some s
    | .enter _ => none

section Remembers

/-- Each composite state remembers its direct child that was exited last. -/
def Remembers [DecidableEq σ] (f : Forest σ) (m : QHsm σ S π) : Prop :=
  ∀ p, m.history (some p) = (lastExited f p (exits m.calls)).map some

variable [DecidableEq σ] {f : Forest σ} {handler : σ → StateFn σ S π} {m t : QHsm σ S π}

theorem Remembers.performs (remembers : Remembers f m) {made : List (Move σ)}
    (performs : Performs m t made) (stays : ∀ s, Move.leave s ∉ made) : Remembers f t := by
  have none_left : made.filterMap (fun | .leave s => some s | .enter _ => none) =
      ([] : List σ) := by
    rw [List.filterMap_eq_nil_iff]
    intro move member
    cases move with
    | enter s => rfl
    | leave s => exact absurd member (stays s)
  have same : exits t.calls = exits m.calls := by
    rw [exits, performs.moves, List.filterMap_append, none_left, List.append_nil]
    rfl
  intro p
  rw [performs.history, same]
  exact remembers p

theorem Remembers.quiet (remembers : Remembers f m) (performs : Performs m t []) : Remembers f t :=
  remembers.performs performs fun _ => List.not_mem_nil

theorem Remembers.emit (remembers : Remembers f m) (traced : Bool)
    (record : QepRecord (StateHandler σ)) : Remembers f (QHsm.emit traced m record) :=
  remembers.quiet (emit_performs traced m record)

theorem Remembers.goto (remembers : Remembers f m) (target : StateHandler σ) :
    Remembers f { m with state := m.state.set target } := remembers

theorem Remembers.enterAll (remembers : Remembers f m) (traced : Bool)
    (path : List (StateHandler σ)) : Remembers f (enterAll handler traced m path) := by
  refine remembers.performs (enterAll_performs handler traced m path) fun s member => ?_
  simp at member

variable (parents : Parents f handler)
include parents

theorem Remembers.exitState (remembers : Remembers f m) (traced : Bool) (s : StateHandler σ) :
    Remembers f (exitState handler traced m s).2 := by
  have above := getSuper_parent parents m s
  have asked := remembers.quiet (getSuper_performs handler m s)
  simp only [QHsm.exitState, above]
  generalize getSuper handler m s = looked at asked
  cases s with
  | none =>
      simp only [Option.bind_none, if_true]
      exact (asked.quiet (callExit_performs handler looked.2 none)).quiet
        (emit_performs traced (callExit handler looked.2 none) (.stateExit none))
  | some t =>
      have leaves (m' : QHsm σ S π) (calls : m'.calls = looked.2.calls) :
          exits (QHsm.emit traced (callExit handler m' (some t)) (.stateExit (some t))).calls =
            exits looked.2.calls ++ [t] := by
        have left := (callExit_performs handler m' (some t)).trans
          (emit_performs traced (callExit handler m' (some t)) (.stateExit (some t)))
        rw [exits, left.moves, calls]
        simp [exits]
      have noted (m' : QHsm σ S π) :
          (QHsm.emit traced (callExit handler m' (some t)) (.stateExit (some t))).history =
              m'.history :=
        ((callExit_performs handler m' (some t)).trans
          (emit_performs traced (callExit handler m' (some t)) (.stateExit (some t)))).history
      simp only [Option.bind_some]
      intro p
      cases root : f.parent t with
      | none =>
          have other : f.parent t ≠ some p := by simp [root]
          rw [if_pos rfl, leaves looked.2 rfl, noted, lastExited_other other]
          exact asked p
      | some q =>
          have below : (some q : StateHandler σ) ≠ topState := by simp
          rw [if_neg below, noted, leaves { looked.2 with
            history := Function.update looked.2.history (some q) (some (some t)) } rfl]
          by_cases here : p = q
          · subst here
            rw [lastExited_child root]
            exact Function.update_self _ _ _
          · have other : f.parent t ≠ some p := by simpa [root, eq_comm] using here
            have apart : (some p : StateHandler σ) ≠ some q := by simpa using here
            rw [lastExited_other other]
            exact (Function.update_of_ne apart _ _).trans (asked p)

theorem Remembers.exitUpTo (remembers : Remembers f m) {traced : Bool} {lca : StateHandler σ}
    {fuel : Nat} {s : StateHandler σ} (ran : exitUpTo handler traced lca fuel m s = .ok t) :
    Remembers f t := by
  induction fuel generalizing m s with
  | zero => cases ran
  | succ fuel ih =>
      by_cases here : s = lca
      · simp only [QHsm.exitUpTo, if_pos here] at ran
        cases ran
        exact remembers
      · have left := remembers.exitState parents traced s
        simp only [QHsm.exitUpTo, if_neg here] at ran
        by_cases root : (QHsm.exitState handler traced m s).1 = topState
        · rw [if_pos root] at ran
          cases ran
          exact left
        · rw [if_neg root] at ran
          exact ih left ran

omit parents in
theorem Remembers.pathToTop (remembers : Remembers f m) (handler : σ → StateFn σ S π)
    (s : StateHandler σ) : Remembers f (pathToTop handler m s).2 :=
  pathWithin_preserves (fun m s before => before.quiet (getSuper_performs handler m s))
    maxNestDepth m s remembers

omit parents in
theorem Remembers.handleNestedInit (remembers : Remembers f m) {traced : Bool} {fuel : Nat}
    (ran : handleNestedInit handler traced fuel m = .ok t) : Remembers f t := by
  induction fuel generalizing m with
  | zero => cases ran
  | succ fuel ih =>
      have asked := remembers.quiet (quiet_performs handler m m.state.get (.emptyDyn qInitSig)
        (by simp [qInitSig, qEntrySig]) (by simp [qInitSig, qExitSig]))
      simp only [QHsm.handleNestedInit] at ran
      generalize call handler m m.state.get (.emptyDyn qInitSig) = called at asked ran
      obtain ⟨answer, after⟩ := called
      cases answer with
      | tran next =>
          have looked := asked.pathToTop handler next
          exact ih (((looked.enterAll traced _).emit traced _).goto next) ran
      | _ =>
          cases ran
          exact asked

theorem Remembers.crossTo (remembers : Remembers f m) {traced : Bool} {fuel : Nat}
    {current target lca : StateHandler σ} {targetPath : List (StateHandler σ)}
    (ran : crossTo handler traced fuel m current target targetPath lca = .ok t) :
    Remembers f t := by
  obtain ⟨left, exited, ran⟩ := bind_ok ran
  exact (((remembers.exitUpTo parents exited).enterAll traced _).goto target).handleNestedInit ran

theorem Remembers.executeTran (remembers : Remembers f m) {traced : Bool} {fuel : Nat}
    {source target : StateHandler σ}
    (ran : executeTran handler traced fuel m source target = .ok t) :
    Remembers f t := by
  have looked := remembers.pathToTop handler target
  by_cases self : source = target
  · simp only [QHsm.executeTran, if_pos self] at ran
    exact ((looked.quiet (getSuper_performs handler _ source)).pathToTop handler _).crossTo parents
        ran
  · simp only [QHsm.executeTran, if_neg self] at ran
    exact (looked.pathToTop handler source).crossTo parents ran

omit parents in
theorem Remembers.bubble (remembers : Remembers f m) {e : DynEvent π} (user : IsUser e) {fuel : Nat}
    {s source : StateHandler σ} {answer : QHsmResult σ}
    (ran : bubble handler e fuel m s = .ok (source, answer, t)) : Remembers f t := by
  have reserved := user_not_reserved user
  have asked (m : QHsm σ S π) (s : StateHandler σ) (remembers : Remembers f m) :=
    remembers.quiet (quiet_performs handler m s e reserved.2.1 reserved.2.2.1)
  induction fuel generalizing m s with
  | zero =>
      cases s with
      | none =>
          cases ran
          exact asked m none remembers
      | some s => cases ran
  | succ fuel ih =>
      cases s with
      | none =>
          cases ran
          exact asked m none remembers
      | some s =>
          have next := asked m (some s) remembers
          simp only [QHsm.bubble] at ran
          generalize call handler m (some s) e = called at next ran
          obtain ⟨first, after⟩ := called
          cases first with
          | super sup => exact ih next ran
          | _ =>
              cases ran
              exact next

theorem Remembers.dispatchTraced (remembers : Remembers f m) {e : DynEvent π} (user : IsUser e)
    {traced : Bool} {fuel : Nat} (ran : dispatchTraced handler traced fuel m e = .ok t) :
    Remembers f t := by
  have noted := remembers.emit traced (.dispatch e.signal m.state.get)
  obtain ⟨⟨source, answer, m₁⟩, bubbled, ran⟩ := bind_ok ran
  have asked := noted.bubble user bubbled
  have told (record : QepRecord (StateHandler σ)) := asked.emit traced record
  cases answer with
  | handled =>
      cases ran
      exact told _
  | ignored =>
      cases ran
      exact told _
  | unhandled =>
      cases ran
      exact told _
  | tran target => exact (told _).executeTran parents ran
  | tranHist parent => exact (told _).executeTran parents ran
  | super sup =>
      cases ran
      exact asked

theorem Remembers.runEvents (remembers : Remembers f m) {events : List (DynEvent π)}
    (users : ∀ e ∈ events, IsUser e) {traced : Bool} {fuel : Nat}
    (ran : runEvents handler traced fuel m events = .ok t) : Remembers f t := by
  induction events generalizing m with
  | nil =>
      cases ran
      exact remembers
  | cons e rest ih =>
      obtain ⟨m₁, dispatched, ran⟩ := bind_ok ran
      have next := remembers.dispatchTraced parents (users e List.mem_cons_self) dispatched
      exact ih next (fun e member => users e (List.mem_cons_of_mem _ member)) ran

omit parents in
theorem remembers_init {sm : S} {initial : StateFn σ S π} {traced : Bool} {fuel : Nat}
    (ran : initTraced handler traced fuel (new sm initial) = .ok t) : Remembers f t := by
  have fresh (sm' : S) : Remembers f { new sm initial with sm := sm' } := fun p => rfl
  simp only [initTraced] at ran
  split at ran
  · rename_i target sm' _
    have looked := (fresh sm').pathToTop handler target
    exact (((looked.enterAll traced _).goto target).emit traced _).handleNestedInit ran
  · cases ran

end Remembers

section TranHist

variable [DecidableEq σ] {f : Forest σ} {handler : σ → StateFn σ S π} {m m₁ : QHsm σ S π}

omit [DecidableEq σ] in
theorem bubble_history {e : DynEvent π} {fuel : Nat} {s source : StateHandler σ}
    {answer : QHsmResult σ} (ran : bubble handler e fuel m s = .ok (source, answer, m₁)) :
    m₁.history = m.history := by
  induction fuel generalizing m s with
  | zero =>
      cases s with
      | none =>
          cases ran
          rfl
      | some s => cases ran
  | succ fuel ih =>
      cases s with
      | none =>
          cases ran
          rfl
      | some s =>
          have kept : (call handler m (some s) e).2.history = m.history := rfl
          simp only [bubble] at ran
          generalize call handler m (some s) e = called at kept ran
          obtain ⟨first, after⟩ := called
          cases first with
          | super sup => exact (ih ran).trans kept
          | _ =>
              cases ran
              exact kept

/-- `TranHist(p)` does what `Tran` to the child of `p` exited last does, the trace apart. -/
theorem tranHist_tran {traced : Bool} {fuel : Nat} {e : DynEvent π} {source : StateHandler σ}
    {p : σ} {last : Option σ} (remembered : m.history (some p) = last.map some)
    (bubbled : bubble handler e fuel (emit traced m (.dispatch e.signal m.state.get))
      (emit traced m (.dispatch e.signal m.state.get)).state.get =
        .ok (source, .tranHist (some p), m₁)) :
    (dispatchTraced handler traced fuel m e).map bare =
      (executeTran handler traced fuel (emit traced m₁ (.tran e.signal source (some (last.getD p))))
        source (some (last.getD p))).map bare := by
  have kept : (m₁.history (some p)).getD (some p) = some (last.getD p) := by
    have same : (emit traced m (.dispatch e.signal m.state.get)).history = m.history := by
      cases traced <;> rfl
    rw [bubble_history bubbled, same, remembered]
    cases last <;> rfl
  rw [← executeTran_bare handler traced, bare_emit]
  simp only [dispatchTraced, bubbled, ok_bind, kept]
  rw [← executeTran_bare handler traced, bare_emit]

end TranHist

end QHsm

namespace QMsm

/-- The states exited, in order, as the trace tells. -/
def exits (records : List (QepRecord σ)) : List σ :=
  records.filterMap fun
    | .stateExit s => some s
    | _ => none

section Remembers

/-- Each composite state remembers its direct child that was exited last. -/
def Remembers [DecidableEq σ] (f : Forest σ) (m : QMsm σ S π) : Prop :=
  ∀ p, m.history p = lastExited f p (exits m.records)

variable [DecidableEq σ] {f : Forest σ} {table : σ → QMState σ S π} {m t : QMsm σ S π}

theorem Remembers.congr (remembers : Remembers f m) (history : t.history = m.history)
    (records : exits t.records = exits m.records) : Remembers f t := by
  intro p
  rw [history, records]
  exact remembers p

theorem Remembers.emit (remembers : Remembers f m) (traced : Bool) (record : QepRecord σ)
    (other : exits [record] = []) : Remembers f (emit traced m record) := by
  cases traced with
  | false => exact remembers
  | true =>
      refine remembers.congr rfl ?_
      show exits (m.records ++ [record]) = exits m.records
      rw [exits, List.filterMap_append]
      exact (congrArg _ other).trans (List.append_nil _)

theorem Remembers.runAction (remembers : Remembers f m) (action : Option (S → S))
    (label : Action σ π) : Remembers f (runAction m action label) := by
  cases action with
  | none => exact remembers
  | some act => exact remembers

theorem Remembers.callInit (remembers : Remembers f m) (table : σ → QMState σ S π) :
    Remembers f (callInit table m).2 := by
  unfold QMsm.callInit
  cases (table m.state).initAction with
  | none => exact remembers
  | some act => exact remembers

theorem Remembers.enterAll (remembers : Remembers f m) (table : σ → QMState σ S π) (traced : Bool)
    (path : List σ) :
    Remembers f (enterAll table traced m path) := by
  induction path generalizing m with
  | nil => exact remembers
  | cons s rest ih => exact ih ((remembers.runAction _ _).emit traced _ rfl)

variable (parents : ∀ s, (table s).superstate = f.parent s)
include parents

theorem Remembers.exitState (remembers : Remembers f m) (s : σ) :
    Remembers f (exitState table true m s) := by
  have told (m' : QMsm σ S π) (records : m'.records = m.records) :
      exits (QMsm.emit true (callExit table m' s) (.stateExit s)).records =
        exits m.records ++ [s] := by
    have kept : (callExit table m' s).records = m.records := by
      rw [← records, callExit]
      cases (table s).exitAction <;> rfl
    show exits ((callExit table m' s).records ++ [.stateExit s]) = _
    rw [kept, exits, List.filterMap_append]
    rfl
  have noted (m' : QMsm σ S π) :
      (QMsm.emit true (callExit table m' s) (.stateExit s)).history = m'.history := by
    show (callExit table m' s).history = m'.history
    rw [callExit]
    cases (table s).exitAction <;> rfl
  intro p
  simp only [QMsm.exitState, parents]
  cases root : f.parent s with
  | none =>
      have other : f.parent s ≠ some p := by simp [root]
      rw [told m rfl, noted, lastExited_other other]
      exact remembers p
  | some q =>
      rw [noted, told { m with history := Function.update m.history q (some s) } rfl]
      by_cases here : p = q
      · subst here
        rw [lastExited_child root]
        exact Function.update_self _ _ _
      · have other : f.parent s ≠ some p := by simpa [root, eq_comm] using here
        rw [lastExited_other other]
        exact (Function.update_of_ne here _ _).trans (remembers p)

theorem Remembers.exitUpTo (remembers : Remembers f m) {lca : Option σ} {fuel : Nat} {s : σ}
    (ran : exitUpTo table true lca fuel m s = .ok t) : Remembers f t := by
  induction fuel generalizing m s with
  | zero => cases ran
  | succ fuel ih =>
      by_cases here : some s = lca
      · simp only [QMsm.exitUpTo, if_pos here] at ran
        cases ran
        exact remembers
      · have left := remembers.exitState parents s
        simp only [QMsm.exitUpTo, if_neg here] at ran
        cases above : (table s).superstate with
        | none =>
            rw [above] at ran
            cases ran
            exact left
        | some parent =>
            rw [above] at ran
            exact ih left ran

omit parents in
theorem Remembers.goto (remembers : Remembers f m) (target : σ) :
    Remembers f { m with state := target } := remembers

omit parents in
theorem Remembers.handleNestedInit (remembers : Remembers f m) {traced : Bool} {limit fuel : Nat}
    (ran : handleNestedInit table traced limit fuel m = .ok t) : Remembers f t := by
  induction fuel generalizing m with
  | zero => cases ran
  | succ fuel ih =>
      have asked := remembers.callInit table
      simp only [QMsm.handleNestedInit] at ran
      generalize QMsm.callInit table m = called at asked ran
      obtain ⟨answer, after⟩ := called
      cases answer with
      | none =>
          cases ran
          exact asked
      | some next =>
          obtain ⟨path, _, ran⟩ := bind_ok ran
          exact ih (((asked.enterAll table traced _).emit traced _ rfl).goto next) ran

theorem Remembers.crossTo (remembers : Remembers f m) {fuel : Nat} {current target : σ}
    {targetPath : List σ} {lca : Option σ}
    (ran : crossTo table true fuel m current target targetPath lca = .ok t) : Remembers f t := by
  obtain ⟨left, exited, ran⟩ := bind_ok ran
  exact (((remembers.exitUpTo parents exited).enterAll table true _).goto target).handleNestedInit
      ran

theorem Remembers.executeTran (remembers : Remembers f m) {fuel : Nat} {source target : σ}
    (ran : executeTran table true fuel m source target = .ok t) : Remembers f t := by
  obtain ⟨targetPath, _, ran⟩ := bind_ok ran
  obtain ⟨sourcePath, _, ran⟩ := bind_ok ran
  exact remembers.crossTo parents ran

omit parents in
theorem Remembers.bubble (remembers : Remembers f m) {e : DynEvent π} {fuel : Nat} {s source : σ}
    {answer : QMsmResult σ} (ran : bubble table e fuel m s = .ok (source, answer, t)) :
    Remembers f t := by
  induction fuel generalizing m s with
  | zero => cases ran
  | succ fuel ih =>
      have asked : Remembers f (call table m s e).2 := remembers
      simp only [QMsm.bubble] at ran
      generalize call table m s e = called at asked ran
      obtain ⟨first, after⟩ := called
      cases first with
      | super sup => exact ih asked ran
      | _ =>
          cases ran
          exact asked

theorem Remembers.dispatchTraced (remembers : Remembers f m) {e : DynEvent π} {fuel : Nat}
    (ran : dispatchTraced table true fuel m e = .ok t) : Remembers f t := by
  obtain ⟨⟨source, answer, m₁⟩, bubbled, ran⟩ := bind_ok ran
  have asked : Remembers f m₁ :=
    (remembers.emit true (.dispatch e.signal m.state) rfl).bubble bubbled
  cases answer with
  | handled =>
      cases ran
      exact asked.emit true _ rfl
  | ignored =>
      cases ran
      exact asked.emit true _ rfl
  | unhandled =>
      cases ran
      exact asked.emit true _ rfl
  | tran target => exact (asked.emit true _ rfl).executeTran parents ran
  | tranHist parent => exact (asked.emit true _ rfl).executeTran parents ran
  | super sup =>
      cases ran
      exact asked

theorem Remembers.runEvents (remembers : Remembers f m) {events : List (DynEvent π)} {fuel : Nat}
    (ran : runEvents table true fuel m events = .ok t) : Remembers f t := by
  induction events generalizing m with
  | nil =>
      cases ran
      exact remembers
  | cons e rest ih =>
      obtain ⟨m₁, dispatched, ran⟩ := bind_ok ran
      exact ih (remembers.dispatchTraced parents dispatched) ran

theorem remembers_run {sm : S} {initial : σ} {events : List (DynEvent π)} {fuel : Nat}
    (ran : initAndRun table true fuel (new sm initial) events = .ok t) : Remembers f t := by
  obtain ⟨m, started, ran⟩ := bind_ok ran
  obtain ⟨path, _, started⟩ := bind_ok started
  have fresh : Remembers f (new sm initial : QMsm σ S π) := fun p => rfl
  have initialised := (((fresh.enterAll table true path.reverse).goto initial).emit true
    (.initTran initial) rfl).handleNestedInit started
  exact initialised.runEvents parents ran

end Remembers

section TranHist

variable [DecidableEq σ] {f : Forest σ} {table : σ → QMState σ S π} {m m₁ : QMsm σ S π}

omit [DecidableEq σ] in
theorem bubble_history {e : DynEvent π} {fuel : Nat} {s source : σ} {answer : QMsmResult σ}
    (ran : bubble table e fuel m s = .ok (source, answer, m₁)) : m₁.history = m.history := by
  induction fuel generalizing m s with
  | zero => cases ran
  | succ fuel ih =>
      have kept : (call table m s e).2.history = m.history := rfl
      simp only [bubble] at ran
      generalize call table m s e = called at kept ran
      obtain ⟨first, after⟩ := called
      cases first with
      | super sup => exact (ih ran).trans kept
      | _ =>
          cases ran
          exact kept

theorem tranHist_tran {traced : Bool} {fuel : Nat} {e : DynEvent π} {source p : σ}
    {last : Option σ} (remembered : m.history p = last)
    (bubbled : bubble table e fuel (emit traced m (.dispatch e.signal m.state))
      (emit traced m (.dispatch e.signal m.state)).state = .ok (source, .tranHist p, m₁)) :
    (dispatchTraced table traced fuel m e).map bare =
      (executeTran table traced fuel (emit traced m₁ (.tran e.signal source (last.getD p)))
        source (last.getD p)).map bare := by
  have kept : m₁.history p = last := by
    rw [bubble_history bubbled]
    cases traced <;> exact remembered
  rw [← executeTran_bare table traced, bare_emit]
  simp only [dispatchTraced, bubbled, ok_bind, kept]
  rw [← executeTran_bare table traced, bare_emit]

end TranHist

end QMsm

open QHsm in
/-- Shallow history in both machines, in every state that a run comes to: a composite state has a
history exactly when a direct child of it was exited, and it is the child exited last. `TranHist` of
the state does what `Tran` to its history does, or to the state itself without one, the trace apart.
The exits of a `QMsm` are those its trace tells of, and tracing changes nothing else. -/
theorem shallow_history [DecidableEq σ] (f : Forest σ) (handler : σ → StateFn σ S π)
    (parents : Parents f handler) (table : σ → QMState σ S π)
    (superstates : ∀ s, (table s).superstate = f.parent s) (traced : Bool) (fuel : Nat) :
    (∀ sm initial events m, (∀ e ∈ events, IsUser e) →
      initAndRun handler traced fuel (new sm initial) events = .ok m →
      ∀ p, m.history (some p) = (lastExited f p (exits m.calls)).map some ∧
        (m.history (some p) ≠ none ↔ ∃ s ∈ exits m.calls, f.parent s = some p) ∧
        ∀ e source m₁, bubble handler e fuel (emit traced m (.dispatch e.signal m.state.get))
            (emit traced m (.dispatch e.signal m.state.get)).state.get =
              .ok (source, .tranHist (some p), m₁) →
          (dispatchTraced handler traced fuel m e).map bare =
            (executeTran handler traced fuel (emit traced m₁ (.tran e.signal source
              (some ((lastExited f p (exits m.calls)).getD p))))
              source (some ((lastExited f p (exits m.calls)).getD p))).map bare) ∧
    ∀ sm initial events m,
      QMsm.initAndRun table traced fuel (.new sm initial) events = .ok m →
      ∃ told, QMsm.initAndRun table true fuel (.new sm initial) events = .ok told ∧
        QMsm.bare told = QMsm.bare m ∧
        ∀ p, m.history p = lastExited f p (QMsm.exits told.records) ∧
          (m.history p ≠ none ↔ ∃ s ∈ QMsm.exits told.records, f.parent s = some p) ∧
          ∀ e source m₁, QMsm.bubble table e fuel (QMsm.emit traced m (.dispatch e.signal m.state))
              (QMsm.emit traced m (.dispatch e.signal m.state)).state =
                .ok (source, .tranHist p, m₁) →
            (QMsm.dispatchTraced table traced fuel m e).map QMsm.bare =
              (QMsm.executeTran table traced fuel (QMsm.emit traced m₁ (.tran e.signal source
                ((lastExited f p (QMsm.exits told.records)).getD p)))
                source ((lastExited f p (QMsm.exits told.records)).getD p)).map QMsm.bare := by
  constructor
  · intro sm initial events m users ran p
    obtain ⟨m₀, started, ran⟩ := bind_ok ran
    have remembered := (remembers_init started).runEvents parents users ran p
    refine ⟨remembered, ?_, fun e source m₁ => tranHist_tran remembered⟩
    rw [remembered, ← lastExited_isSome_iff, ← Option.isSome_iff_ne_none, Option.isSome_map]
  · intro sm initial events m ran
    have untraced := QMsm.initAndRun_bare table traced fuel sm initial events
    rw [QMsm.initAndRun_bare table true fuel sm initial events, ran] at untraced
    obtain ⟨told, traced_run, same⟩ := map_ok untraced
    have history : told.history = m.history := by
      have fields := congrArg QMsm.history same
      exact fields
    refine ⟨told, traced_run, same, fun p => ?_⟩
    have remembered := QMsm.remembers_run superstates traced_run p
    rw [history] at remembered
    refine ⟨remembered, ?_, fun e source m₁ => QMsm.tranHist_tran remembered⟩
    rw [remembered, ← lastExited_isSome_iff, ← Option.isSome_iff_ne_none]

def nestedTable (s : Bool) : QMState Bool Unit Unit where
  superstate := QHsm.nestedForest.parent s
  stateHandler sm _ := (.handled, sm)
  entryAction := none
  exitAction := none
  initAction := none

/-- The composite state goes to itself while its child is active, and remembers the child. -/
theorem nested_history : ∃ m, QHsm.initAndRun QHsm.nestedHandler true 7
    (.new () fun sm _ => (.tran (some false), sm)) [.emptyDyn qUserSig] = .ok m ∧
      m.history (some false) = some (some true) := by
  have seen : (QHsm.initAndRun QHsm.nestedHandler true 7
      (.new () fun sm _ => (.tran (some false), sm)) [.emptyDyn qUserSig]).map
        (fun m => QHsm.exits m.calls) = .ok [true, false] := by decide
  obtain ⟨m, ran, exits⟩ := map_ok seen
  have remembered := ((shallow_history QHsm.nestedForest QHsm.nestedHandler
    QHsm.nested_conforms.empty nestedTable (fun _ => rfl) true 7).1 () _ _ m (by decide) ran
        false).1
  refine ⟨m, ran, ?_⟩
  rw [remembered, exits]
  decide

end QpRs.Hsm
