import QpRs.Hsm.Transition
import QpRs.Lib.Outcome
import QpRs.Lib.Run

/-! State trees of any depth. `path_to_top` keeps the `MAX_NEST_DEPTH` states nearest to the one it
starts from and drops the rest without a fault, so what a `QHsm` enters and exits is right only
where the dropped states do not matter. -/

namespace QpRs.Hsm

open QpRs.Lib

variable {σ S π : Type}

/-- What truncated paths do not spoil: a self-transition; a transition between states with a common
ancestor, when both are at most five levels below the deepest one; and a transition between states
without one, when the target is at most six levels deep. -/
def Reachable (f : Forest σ) (source target : StateHandler σ) : Prop :=
  source ≠ target → ∀ lca, f.Meet source target lca →
    (lca = none → f.level target ≤ maxNestDepth) ∧
      (lca ≠ none → f.level source < f.level lca + maxNestDepth ∧
        f.level target < f.level lca + maxNestDepth)

/-- No initial transition of a state goes down more than six levels, whatever the data. -/
def ShortDescents (f : Forest σ) (handler : σ → StateFn σ S π) : Prop :=
  ∀ s sm target, (handler s sm (.emptyDyn qInitSig)).1 = .tran target →
    f.level target ≤ f.depth s + maxNestDepth

namespace QHsm

/-! `init` and `execute_tran` up to `handle_nested_init`, and one round of it. -/

section Stages

variable [DecidableEq σ] (handler : σ → StateFn σ S π) (traced : Bool)

/-- The body of the loop of `handle_nested_init`, once `Q_INIT` is answered with `next`. -/
def drill (m : QHsm σ S π) (next : StateHandler σ) : QHsm σ S π :=
  let (nextPath, m) := pathToTop handler m next
  let m := enterAll handler traced m (nextPath.take (nextPath.idxOf m.state.get)).reverse
  let m := emit traced m (.stateInit m.state.get)
  { m with state := m.state.set next }

theorem handleNestedInit_succ (fuel : Nat) (m : QHsm σ S π) :
    handleNestedInit handler traced (fuel + 1) m =
      match call handler m m.state.get (.emptyDyn qInitSig) with
      | (.tran next, m) => handleNestedInit handler traced fuel (drill handler traced m next)
      | (_, m) => .ok m := rfl

def cross (fuel : Nat) (m : QHsm σ S π) (current target : StateHandler σ)
    (targetPath : List (StateHandler σ)) (lca : StateHandler σ) : Except Halt (QHsm σ S π) := do
  let m ← exitUpTo handler traced lca fuel m current
  let m := enterAll handler traced m (targetPath.take (targetPath.idxOf lca)).reverse
  return { m with state := m.state.set target }

def arrive (fuel : Nat) (m : QHsm σ S π) (source target : StateHandler σ) :
    Except Halt (QHsm σ S π) :=
  let current := m.state.get
  let (targetPath, m) := pathToTop handler m target
  let (lcaSource, m) := if source = target then getSuper handler m source else (source, m)
  let (lcaSourcePath, m) :=
    if source = target then pathToTop handler m lcaSource else pathToTop handler m source
  cross handler traced fuel m current target targetPath (findLca lcaSourcePath targetPath)

theorem executeTran_eq (fuel : Nat) (m : QHsm σ S π) (source target : StateHandler σ) :
    executeTran handler traced fuel m source target =
      arrive handler traced fuel m source target >>= handleNestedInit handler traced fuel := by
  simp only [executeTran, arrive, cross, crossTo, bind_assoc, pure_bind]

def enterFirst (m : QHsm σ S π) (target : StateHandler σ) : QHsm σ S π :=
  let (path, m) := pathToTop handler m target
  let m := enterAll handler traced m path.reverse
  emit traced { m with state := m.state.set target } (.initTran target)

theorem initTraced_eq {fuel : Nat} {m : QHsm σ S π} {target : StateHandler σ} {sm : S}
    (starts : m.temp m.sm (.emptyDyn qInitSig) = (.tran target, sm)) :
    initTraced handler traced fuel m = handleNestedInit handler traced fuel
      (enterFirst handler traced { m with sm := sm } target) := by
  rw [initTraced, starts]
  rfl

/-- No `Q_INIT` answer that `handle_nested_init` gets from here on goes down more than six
levels. -/
def ShortFrom (f : Forest σ) : Nat → QHsm σ S π → Prop
  | 0, _ => True
  | fuel + 1, m =>
      match call handler m m.state.get (.emptyDyn qInitSig) with
      | (.tran next, asked) => f.level next ≤ f.level m.state.get + maxNestDepth ∧
          ShortFrom f fuel (drill handler traced asked next)
      | _ => True

end Stages

theorem mem_take_path {f : Forest σ} {a place : Option σ} {n : Nat} (member : a ∈ f.path place)
    (near : f.level place < f.level a + n) : a ∈ (f.path place).take n := by
  induction place using f.path_induction generalizing n with
  | top => simp at member
  | below s ih =>
      cases n with
      | zero =>
          have := f.level_le_of_mem member
          omega
      | succ n =>
          rw [Forest.path_some, List.take_succ_cons]
          rcases List.mem_cons.mp (f.path_some s ▸ member) with rfl | higher
          · exact List.mem_cons_self
          · have deep := f.depth_eq s
            simp only [Forest.level_some] at near
            exact List.mem_cons_of_mem _ (ih higher (by omega))

theorem take_idxOf [DecidableEq σ] {path : List (Option σ)} {a : Option σ} {n : Nat}
    (near : path.idxOf a ≤ n) :
    (path.take n).take ((path.take n).idxOf a) = path.take (path.idxOf a) := by
  induction path generalizing n with
  | nil => simp
  | cons x rest ih =>
      by_cases here : x = a
      · subst here
        cases n <;> simp
      · rw [List.idxOf_cons_ne rest here] at near
        cases n with
        | zero => exact absurd near (Nat.not_succ_le_zero _)
        | succ n =>
            rw [List.take_succ_cons, List.idxOf_cons_ne rest here, List.idxOf_cons_ne _ here,
              List.take_succ_cons, List.take_succ_cons, ih (Nat.le_of_succ_le_succ near)]

theorem take_below [DecidableEq σ] {f : Forest σ} {a place : Option σ} {n : Nat}
    (member : a = none ∨ a ∈ f.path place) (near : f.level place ≤ f.level a + n) :
    ((f.path place).take n).take (((f.path place).take n).idxOf a) =
      (f.path place).take ((f.path place).idxOf a) := by
  have lengths := congrArg List.length (f.path_split member)
  have within : (f.path place).idxOf a ≤ (f.path place).length := List.idxOf_le_length
  rw [List.length_append, List.length_take, Nat.min_eq_left within, f.length_path,
    f.length_path] at lengths
  exact take_idxOf (by omega)

theorem findLca_take [DecidableEq σ] {p q : List (StateHandler σ)} {n k : Nat} {s : σ}
    (found : findLca p q = some s) (first : some s ∈ p.take n) (second : some s ∈ q.take k) :
    findLca (p.take n) (q.take k) = some s := by
  induction p generalizing n with
  | nil => simp at first
  | cons x rest ih =>
      cases n with
      | zero => simp at first
      | succ n =>
          rw [List.take_succ_cons] at first ⊢
          by_cases here : x ∈ q
          · have same : x = some s := by simpa [findLca, here] using found
            subst same
            simp [findLca, second]
          · have apart : some s ≠ x := fun same => here (same ▸ List.mem_of_mem_take second)
            have out : x ∉ q.take k := fun member => here (List.mem_of_mem_take member)
            have later : findLca rest q = some s := by simpa [findLca, here] using found
            have found := ih later ((List.mem_cons.mp first).resolve_left apart)
            simpa [findLca, out] using found

theorem findLca_apart [DecidableEq σ] {p q : List (StateHandler σ)} {n k : Nat}
    (apart : ∀ c ∈ p, c ∉ q) : findLca (p.take n) (q.take k) = none := by
  rcases findLca_mem (p.take n) (q.take k) with top | ⟨first, second⟩
  · exact top
  · exact absurd (List.mem_of_mem_take second) (apart _ (List.mem_of_mem_take first))

theorem truncated_meet [DecidableEq σ] {f : Forest σ} {start target : StateHandler σ}
    (root : findLca (f.path start) (f.path target) = none → f.level target ≤ maxNestDepth)
    (near : findLca (f.path start) (f.path target) ≠ none →
      f.level start < f.level (findLca (f.path start) (f.path target)) + maxNestDepth ∧
      f.level target < f.level (findLca (f.path start) (f.path target)) + maxNestDepth) :
    findLca ((f.path start).take maxNestDepth) ((f.path target).take maxNestDepth) =
        findLca (f.path start) (f.path target) ∧
      ((f.path target).take maxNestDepth).take (((f.path target).take maxNestDepth).idxOf
          (findLca (f.path start) (f.path target))) =
        (f.path target).take ((f.path target).idxOf (findLca (f.path start) (f.path target))) := by
  have meet := findLca_meet f start target
  cases found : findLca (f.path start) (f.path target) with
  | none =>
      rw [found] at meet
      refine ⟨findLca_apart fun c first second => ?_, take_below (.inl rfl) ?_⟩
      · have nowhere := meet.deepest c first second
        simp at nowhere
      · exact Nat.le_add_left_of_le (root found)
  | some s =>
      rw [found] at meet near
      obtain ⟨start_near, target_near⟩ := near (by simp)
      obtain ⟨above, below⟩ := meet.shared.resolve_left (by simp)
      have first := mem_take_path above start_near
      have second := mem_take_path below target_near
      exact ⟨findLca_take found first second, take_below (.inr below) (Nat.le_of_lt target_near)⟩

theorem reachable_truncated [DecidableEq σ] {f : Forest σ} {source target : StateHandler σ}
    (reachable : Reachable f source target) :
    findLca ((f.path (if source = target then source.bind f.parent else source)).take maxNestDepth)
        ((f.path target).take maxNestDepth) = turn f source target ∧
      ((f.path target).take maxNestDepth).take
          (((f.path target).take maxNestDepth).idxOf (turn f source target)) =
        (f.path target).take ((f.path target).idxOf (turn f source target)) := by
  have turned := turn_turns f source target
  by_cases self : source = target
  · have parent : turn f source target = source.bind f.parent := by
      rcases turned with ⟨_, parent⟩ | ⟨other, _⟩
      · exact parent
      · exact absurd self other
    have level : f.level target ≤ f.level (source.bind f.parent) + 1 := by
      rw [← self]
      cases source with
      | none => exact Nat.zero_le _
      | some s => exact Nat.le_of_eq (f.depth_eq s)
    rw [turn, if_pos self] at parent ⊢
    refine truncated_meet ?_ ?_
    · intro top
      rw [← parent, top] at level
      exact Nat.le_trans level (Nat.le_add_left 1 5)
    · intro _
      rw [parent]
      simp only [maxNestDepth]
      omega
  · have meet := findLca_meet f source target
    obtain ⟨root, near⟩ := reachable self _ meet
    rw [turn, if_neg self]
    exact truncated_meet root near

section Algorithm

variable {f : Forest σ} {handler : σ → StateFn σ S π}

theorem pathWithin_take (parents : Parents f handler) (room : Nat) (m : QHsm σ S π)
    (place : StateHandler σ) : (pathWithin handler room m place).1 = (f.path place).take room := by
  induction room generalizing m place with
  | zero => rfl
  | succ room ih =>
      cases place with
      | none => rfl
      | some s =>
          have above := getSuper_parent parents m (some s)
          simp only [Option.bind_some] at above
          simp only [pathWithin, reduceCtorEq, if_false, above, Forest.path_some,
            List.take_succ_cons]
          rw [ih _ (f.parent s)]

theorem pathToTop_take (parents : Parents f handler) (m : QHsm σ S π) (place : StateHandler σ) :
    (pathToTop handler m place).1 = (f.path place).take maxNestDepth ∧
      Performs m (pathToTop handler m place).2 [] := by
  have asks (m' : QHsm σ S π) (s : StateHandler σ) (before : Performs m m' []) :
      Performs m (getSuper handler m' s).2 [] := before.trans (getSuper_performs handler m' s)
  exact ⟨pathWithin_take parents maxNestDepth m place,
    pathWithin_preserves asks maxNestDepth m place (.refl m)⟩

variable (conforms : Conforms f handler)
include conforms

/-- The handler that answers a user event, when one does, is the current state or an ancestor. -/
theorem bubble_source {e : DynEvent π} (user : IsUser e) {fuel : Nat} {m m' : QHsm σ S π}
    {s source : StateHandler σ} {answer : QHsmResult σ}
    (ran : bubble handler e fuel m s = .ok (source, answer, m')) :
    Performs m m' [] ∧ (source ∈ f.path s ∨ source = none ∧ answer = .ignored) := by
  have reserved := user_not_reserved user
  have asked (m : QHsm σ S π) (s : StateHandler σ) :=
    quiet_performs handler m s e reserved.2.1 reserved.2.2.1
  induction fuel generalizing m s with
  | zero =>
      cases s with
      | none =>
          cases ran
          exact ⟨asked m none, .inr ⟨rfl, rfl⟩⟩
      | some t => cases ran
  | succ fuel ih =>
      cases s with
      | none =>
          cases ran
          exact ⟨asked m none, .inr ⟨rfl, rfl⟩⟩
      | some t =>
          have delegated (sup : StateHandler σ)
              (answer : (call handler m (some t) e).1 = .super sup) :
              sup = f.parent t := conforms.delegate t m.sm e sup user answer
          have quiet := asked m (some t)
          simp only [bubble] at ran
          generalize call handler m (some t) e = called at quiet delegated ran
          obtain ⟨first, after⟩ := called
          cases first with
          | super sup =>
              cases delegated sup rfl
              obtain ⟨silent, whence⟩ := ih ran
              refine ⟨quiet.trans silent, whence.imp_left fun inside => ?_⟩
              rw [Forest.path_some]
              exact List.mem_cons_of_mem _ inside
          | _ =>
              cases ran
              exact ⟨quiet, .inl (f.self_mem_path t)⟩

variable [DecidableEq σ]

theorem exitUpTo_leaves {traced : Bool} {lca : StateHandler σ} {fuel : Nat} {m m' : QHsm σ S π}
    {s : StateHandler σ} {front : List (StateHandler σ)} (split : f.path s = front ++ f.path lca)
    (ran : exitUpTo handler traced lca fuel m s = .ok m') :
    m'.state = m.state ∧
      moves m'.calls = moves m.calls ++ front.filterMap (Option.map .leave) := by
  induction front generalizing m s fuel with
  | nil =>
      cases path_injective f split
      cases fuel with
      | zero => cases ran
      | succ fuel =>
          rw [exitUpTo, if_pos rfl] at ran
          cases ran
          exact ⟨rfl, by simp⟩
  | cons x rest ih =>
      cases s with
      | none => simp at split
      | some t =>
          obtain ⟨rfl, apart, split⟩ := path_below split
          obtain ⟨above, state, made⟩ := exitState_spec conforms traced m t
          cases fuel with
          | zero => cases ran
          | succ fuel =>
              simp only [exitUpTo, if_neg apart, above] at ran
              by_cases root : f.parent t = topState
              · have last : rest = [] := by
                  rw [root, Forest.path_none] at split
                  exact (List.append_eq_nil_iff.mp split.symm).1
                subst last
                rw [if_pos root] at ran
                cases ran
                exact ⟨state, by simpa using made⟩
              · rw [if_neg root] at ran
                obtain ⟨after, later⟩ := ih split ran
                refine ⟨after.trans state, ?_⟩
                rw [later, made]
                simp

theorem drill_enters (traced : Bool) {m : QHsm σ S π} {next : StateHandler σ}
    (inside : m.state.get ∈ f.path next)
    (near : f.level next ≤ f.level m.state.get + maxNestDepth) :
    (drill handler traced m next).state.get = next ∧
      moves (drill handler traced m next).calls = moves m.calls ++
        ((f.path next).take ((f.path next).idxOf m.state.get)).reverse.filterMap
          (Option.map .enter) := by
  obtain ⟨path, quiet⟩ := pathToTop_take conforms.empty m next
  unfold drill
  simp only [path]
  generalize pathToTop handler m next = looked at quiet
  simp only [quiet.state, take_below (.inr inside) near]
  have entered := enterAll_performs handler traced looked.2
    ((f.path next).take ((f.path next).idxOf m.state.get)).reverse
  have told := emit_performs traced
    (enterAll handler traced looked.2
      ((f.path next).take ((f.path next).idxOf m.state.get)).reverse)
    (.stateInit (enterAll handler traced looked.2
      ((f.path next).take ((f.path next).idxOf m.state.get)).reverse).state.get)
  refine ⟨Dup.get_set _ _, ?_⟩
  have log := ((quiet.trans entered).trans told).moves
  simpa using log

theorem handleNestedInit_enters {traced : Bool} {fuel : Nat} {m m' : QHsm σ S π}
    (short : ShortFrom handler traced f fuel m)
    (ran : handleNestedInit handler traced fuel m = .ok m') :
    ∃ made, Walk f m.state.get made m'.state.get ∧ moves m'.calls = moves m.calls ++ made ∧
      ∀ s, Move.leave s ∉ made := by
  induction fuel generalizing m with
  | zero => cases ran
  | succ fuel ih =>
      have asked := quiet_performs handler m m.state.get (.emptyDyn qInitSig)
        (by simp [qInitSig, qEntrySig]) (by simp [qInitSig, qExitSig])
      have within (next : StateHandler σ)
          (answer : (call handler m m.state.get (.emptyDyn qInitSig)).1 = .tran next) :
          m.state.get ∈ f.path next := by
        obtain ⟨s, place, answer⟩ := init_answer handler answer
        rw [place]
        exact (conforms.init s m.sm next answer).1
      rw [handleNestedInit_succ] at ran
      rw [ShortFrom] at short
      generalize call handler m m.state.get (.emptyDyn qInitSig) = called at asked within short ran
      obtain ⟨answer, after⟩ := called
      cases answer with
      | tran next =>
          have state : after.state.get = m.state.get := congrArg Dup.get asked.state
          have inside := within next rfl
          obtain ⟨near, short⟩ := short
          rw [← state] at inside near
          obtain ⟨place, entered⟩ := drill_enters conforms traced inside near
          obtain ⟨made, walk, log, down⟩ := ih short ran
          rw [place] at walk
          rw [state] at entered inside
          refine ⟨_ ++ made, (walk_enters (f.path_split (.inr inside)).symm).append walk, ?_, ?_⟩
          · rw [log, entered, asked.moves]
            simp
          · intro s member
            rcases List.mem_append.mp member with here | later
            · simp at here
            · exact down s later
      | _ =>
          cases ran
          refine ⟨[], ?_, asked.moves, fun s => List.not_mem_nil⟩
          rw [asked.state]
          exact .stay _

/-- A reachable transition walks from the current state to its target, and exits nothing from the
turning point upwards. -/
theorem arrive_keeps {traced : Bool} {fuel : Nat} {m m' : QHsm σ S π}
    {source target : StateHandler σ} (reachable : Reachable f source target)
    (inside : source ∈ f.path m.state.get)
    (arrived : arrive handler traced fuel m source target = .ok m') :
    m'.state.get = target ∧ ∃ made, Walk f m.state.get made target ∧
      moves m'.calls = moves m.calls ++ made ∧
      ∀ s, some s ∈ f.path (turn f source target) → Move.leave s ∉ made := by
  obtain ⟨common, entering⟩ := reachable_truncated reachable
  obtain ⟨high, low⟩ := turn_on_both target inside
  have exits := f.path_split high
  have entries := f.path_split low
  obtain ⟨targetPath, quiet⟩ := pathToTop_take conforms.empty m target
  -- Both branches come to the exit loop with the turning point and the truncated target path.
  have crosses (m₁ : QHsm σ S π) (before : Performs m m₁ [])
      (crossed : cross handler traced fuel m₁ m.state.get target
        ((f.path target).take maxNestDepth) (turn f source target) = .ok m') :
      m'.state.get = target ∧ ∃ made, Walk f m.state.get made target ∧
        moves m'.calls = moves m.calls ++ made ∧
        ∀ s, some s ∈ f.path (turn f source target) → Move.leave s ∉ made := by
    obtain ⟨m₂, exited, same⟩ := bind_ok crossed
    simp only [entering] at same
    cases same
    obtain ⟨-, left⟩ := exitUpTo_leaves conforms exits.symm exited
    have entered := enterAll_performs handler traced m₂
      ((f.path target).take ((f.path target).idxOf (turn f source target))).reverse
    refine ⟨Dup.get_set (enterAll handler traced m₂ ((f.path target).take
      ((f.path target).idxOf (turn f source target))).reverse).state target, _,
      (walk_leaves exits.symm).append (walk_enters entries.symm), ?_, ?_⟩
    · show moves _ = _
      rw [entered.moves, left, before.moves]
      simp only [List.append_nil, List.append_assoc]
    · intro s kept member
      rcases List.mem_append.mp member with out | here
      · have below : some s ∈ (f.path m.state.get).take
            ((f.path m.state.get).idxOf (turn f source target)) := by
          obtain ⟨t, inside, same⟩ := List.mem_filterMap.mp out
          cases t with
          | none => cases same
          | some t =>
              cases same
              exact inside
        have once := f.nodup_path m.state.get
        rw [← exits] at once
        exact (List.nodup_append.mp once).2.2 _ below _ kept rfl
      · simp at here
  by_cases self : source = target
  · have above := getSuper_parent conforms.empty (pathToTop handler m target).2 source
    have asked := getSuper_performs handler (pathToTop handler m target).2 source
    obtain ⟨sourcePath, looked⟩ := pathToTop_take conforms.empty
      (getSuper handler (pathToTop handler m target).2 source).2 (source.bind f.parent)
    rw [if_pos self] at common
    simp only [arrive, targetPath, if_pos self, above, sourcePath, common] at arrived
    exact crosses _ ((quiet.trans asked).trans looked) arrived
  · obtain ⟨sourcePath, looked⟩ :=
      pathToTop_take conforms.empty (pathToTop handler m target).2 source
    rw [if_neg self] at common
    simp only [arrive, targetPath, if_neg self, sourcePath, common] at arrived
    exact crosses _ (quiet.trans looked) arrived

theorem executeTran_keeps {traced : Bool} {fuel : Nat} {m m' : QHsm σ S π}
    {source target : StateHandler σ} (reachable : Reachable f source target)
    (short : ∀ u, arrive handler traced fuel m source target = .ok u →
      ShortFrom handler traced f fuel u) (inside : source ∈ f.path m.state.get)
    (ran : executeTran handler traced fuel m source target = .ok m') :
    ∃ made, Walk f m.state.get made m'.state.get ∧ moves m'.calls = moves m.calls ++ made ∧
      ∀ s, some s ∈ f.path (turn f source target) → Move.leave s ∉ made := by
  rw [executeTran_eq] at ran
  obtain ⟨u, arrived, ran⟩ := bind_ok ran
  obtain ⟨place, crossed, first, log, kept⟩ := arrive_keeps conforms reachable inside arrived
  obtain ⟨made, walk, later, down⟩ := handleNestedInit_enters conforms (short u arrived) ran
  rw [place] at walk
  refine ⟨crossed ++ made, first.append walk, by rw [later, log, List.append_assoc], ?_⟩
  intro s above member
  rcases List.mem_append.mp member with there | drilled
  · exact kept s above there
  · exact down s drilled

end Algorithm

def goal (m : QHsm σ S π) : QHsmResult σ → Option (StateHandler σ)
  | .tran target => some target
  | .tranHist parent => some ((m.history parent).getD parent)
  | _ => none

section Runs

variable [DecidableEq σ] (f : Forest σ) (handler : σ → StateFn σ S π) (traced : Bool) (fuel : Nat)

def step (m : QHsm σ S π) (e : DynEvent π) : Option (QHsm σ S π) :=
  (dispatchTraced handler traced fuel m e).toOption

/-- The event makes `source` ask for a transition to `target`. -/
def AsksFor (m : QHsm σ S π) (e : DynEvent π) (source target : StateHandler σ) : Prop :=
  let m₀ := emit traced m (.dispatch e.signal m.state.get)
  ∃ answer m₁, bubble handler e fuel m₀ m₀.state.get = .ok (source, answer, m₁) ∧
    goal m₁ answer = some target

def tranRecord (e : DynEvent π) (source target : StateHandler σ) :
    QHsmResult σ → QepRecord (StateHandler σ)
  | .tranHist _ => .tranHist e.signal source target
  | _ => .tran e.signal source target

/-- The event leads to a transition that comes to its initial transitions in `u`. -/
def Arrives (m : QHsm σ S π) (e : DynEvent π) (u : QHsm σ S π) : Prop :=
  let m₀ := emit traced m (.dispatch e.signal m.state.get)
  ∃ source answer m₁ target, bubble handler e fuel m₀ m₀.state.get = .ok (source, answer, m₁) ∧
    goal m₁ answer = some target ∧
    arrive handler traced fuel (emit traced m₁ (tranRecord e source target answer)) source target =
      .ok u

/-- The event is the application's, a transition it asks for is within reach, and the `Q_INIT`
answers met after that go down at most six levels each. -/
def InReach (m : QHsm σ S π) (e : DynEvent π) : Prop :=
  IsUser e ∧ (∀ source target, AsksFor handler traced fuel m e source target →
    Reachable f source target) ∧
  ∀ u, Arrives handler traced fuel m e u → ShortFrom handler traced f fuel u

/-- The active states are the current state and its ancestors, and each was entered below an active
parent and exited as the innermost active state. -/
def Settled (m : QHsm σ S π) : Prop :=
  occupied (moves m.calls) = f.onPath m.state.get ∧ Orderly f ∅ (moves m.calls)

/-- The machine is settled after the event, and no state from the turning point of a transition
upwards was exited. -/
def Keeps (m : QHsm σ S π) (e : DynEvent π) : Prop :=
  ∀ t, step handler traced fuel m e = some t → Settled f t ∧
    ∀ source target lca, AsksFor handler traced fuel m e source target → Turns f source target lca →
      ∀ s, some s ∈ f.path lca → Move.leave s ∉ (moves t.calls).drop (moves m.calls).length

variable {f handler traced fuel} {m t : QHsm σ S π} {e : DynEvent π}

omit [DecidableEq σ] in
theorem settled_of_walk (walk : Walk f none (moves m.calls) m.state.get) : Settled f m := by
  have nowhere : f.onPath none = ∅ := by simp [Forest.onPath]
  have orderly := walk.orderly
  rw [nowhere] at orderly
  exact orderly

theorem turn_of_turns {source target lca : StateHandler σ} (turns : Turns f source target lca) :
    lca = turn f source target := by
  rcases turns with ⟨same, parent⟩ | ⟨other, meet⟩ <;>
    rcases turn_turns f source target with ⟨same', parent'⟩ | ⟨other', meet'⟩
  · rw [parent, parent']
  · exact absurd same other'
  · exact absurd same' other
  · exact meet.unique meet'

theorem step_ok (stepped : step handler traced fuel m e = some t) :
    dispatchTraced handler traced fuel m e = .ok t := by
  rw [step] at stepped
  cases ran : dispatchTraced handler traced fuel m e with
  | error halt =>
      rw [ran] at stepped
      cases stepped
  | ok u =>
      rw [ran] at stepped
      exact congrArg Except.ok (Option.some.inj stepped)

/-- What an event does, when a transition it asks for is within reach. -/
theorem step_walks (conforms : Conforms f handler)
    (reach : InReach f handler traced fuel m e) (stepped : step handler traced fuel m e = some t) :
    ∃ made, Walk f m.state.get made t.state.get ∧ moves t.calls = moves m.calls ++ made ∧
      ∀ source target, AsksFor handler traced fuel m e source target →
        ∀ s, some s ∈ f.path (turn f source target) → Move.leave s ∉ made := by
  obtain ⟨user, within, short⟩ := reach
  have noted := emit_performs traced m (.dispatch e.signal m.state.get)
  obtain ⟨⟨source, answer, m₁⟩, bubbled, ran⟩ := bind_ok (step_ok stepped)
  obtain ⟨quiet, whence⟩ := bubble_source conforms user bubbled
  have before := noted.trans quiet
  have asks : ∀ source' target', AsksFor handler traced fuel m e source' target' →
      source' = source ∧ goal m₁ answer = some target' := by
    rintro source' target' ⟨answer', m₁', bubbled', goes⟩
    rw [bubbled] at bubbled'
    cases bubbled'
    exact ⟨rfl, goes⟩
  have stays (record : QepRecord (StateHandler σ)) (silent : goal m₁ answer = none)
      (same : t = emit traced m₁ record) :
      ∃ made, Walk f m.state.get made t.state.get ∧ moves t.calls = moves m.calls ++ made ∧
        ∀ source target, AsksFor handler traced fuel m e source target →
          ∀ s, some s ∈ f.path (turn f source target) → Move.leave s ∉ made := by
    have done := before.trans (emit_performs traced m₁ record)
    rw [same]
    refine ⟨[], ?_, done.moves, fun _ _ _ _ _ => List.not_mem_nil⟩
    rw [done.state]
    exact .stay _
  have goes (target : StateHandler σ)
      (inside : source ∈ f.path (emit traced m (.dispatch e.signal m.state.get)).state.get)
      (answered : goal m₁ answer = some target)
      (ran : executeTran handler traced fuel (emit traced m₁ (tranRecord e source target answer))
        source target = .ok t) :
      ∃ made, Walk f m.state.get made t.state.get ∧ moves t.calls = moves m.calls ++ made ∧
        ∀ source target, AsksFor handler traced fuel m e source target →
          ∀ s, some s ∈ f.path (turn f source target) → Move.leave s ∉ made := by
    have told := before.trans (emit_performs traced m₁ (tranRecord e source target answer))
    rw [noted.state, ← told.state] at inside
    have near := within source target ⟨answer, m₁, bubbled, answered⟩
    obtain ⟨made, walk, log, kept⟩ := executeTran_keeps conforms near
      (fun u arrived => short u ⟨source, answer, m₁, target, bubbled, answered, arrived⟩) inside ran
    rw [told.state] at walk
    refine ⟨made, walk, by rw [log, told.moves]; simp, ?_⟩
    intro source' target' asked
    obtain ⟨rfl, goes⟩ := asks source' target' asked
    cases answered.symm.trans goes
    exact kept
  have inside (moving : answer ≠ .ignored) := whence.resolve_right fun both => moving both.2
  cases answer with
  | handled => exact stays _ rfl (Except.ok.inj ran).symm
  | ignored => exact stays _ rfl (Except.ok.inj ran).symm
  | unhandled => exact stays _ rfl (Except.ok.inj ran).symm
  | tran target => exact goes target (inside (by simp)) rfl ran
  | tranHist parent => exact goes _ (inside (by simp)) rfl ran
  | super sup =>
      refine ⟨[], ?_, ?_, fun _ _ _ _ _ => List.not_mem_nil⟩
      · cases ran
        rw [before.state]
        exact .stay _
      · cases ran
        exact before.moves

theorem init_walks (conforms : Conforms f handler) {sm : S}
    {initial : StateFn σ S π} {target : StateHandler σ}
    (starts : (initial sm (.emptyDyn qInitSig)).1 = .tran target)
    (shallow : f.level target ≤ maxNestDepth)
    (short : ShortFrom handler traced f fuel (enterFirst handler traced
      { new sm initial with sm := (initial sm (.emptyDyn qInitSig)).2 } target))
    (ran : initTraced handler traced fuel (new sm initial) = .ok t) :
    Walk f none (moves t.calls) t.state.get := by
  have answer : initial sm (.emptyDyn qInitSig) =
      (.tran target, (initial sm (.emptyDyn qInitSig)).2) := by rw [← starts]
  rw [initTraced_eq handler traced (m := new sm initial) answer] at ran
  generalize (initial sm (.emptyDyn qInitSig)).2 = sm' at short ran
  obtain ⟨path, quiet⟩ := pathToTop_take conforms.empty
    ({ new sm initial with sm := sm' } : QHsm σ S π) target
  have whole : (f.path target).take maxNestDepth = f.path target :=
    List.take_of_length_le (by rw [f.length_path]; exact shallow)
  simp only [enterFirst, path, whole] at short ran
  generalize pathToTop handler ({ new sm initial with sm := sm' } : QHsm σ S π) target = looked
    at quiet short ran
  have entered := quiet.trans (enterAll_performs handler traced looked.2 (f.path target).reverse)
  generalize enterAll handler traced looked.2 (f.path target).reverse = m₁ at entered short ran
  have told := emit_performs traced { m₁ with state := m₁.state.set target } (.initTran target)
  generalize emit traced { m₁ with state := m₁.state.set target } (.initTran target) = m₂
    at told short ran
  have place : m₂.state.get = target := by rw [told.state]; rfl
  obtain ⟨made, walk, log, -⟩ := handleNestedInit_enters conforms short ran
  rw [place] at walk
  rw [log, told.moves, entered.moves]
  have down : Walk f none ((f.path target).reverse.filterMap (Option.map .enter)) target :=
    walk_enters (by simp)
  simpa [moves, new] using down.append walk

/-- A `QHsm` over a state tree of any depth is settled after `init` and after every event, and exits
no state from the turning point of a transition upwards, as long as the truncated paths suffice: the
initial target is at most six levels deep, no `Q_INIT` answer met goes down more than six, and the
transitions asked for are within reach. -/
theorem deep_run_settled (f : Forest σ) (handler : σ → StateFn σ S π)
    (conforms : Conforms f handler) (sm : S) (initial : StateFn σ S π) (target : StateHandler σ)
    (starts : (initial sm (.emptyDyn qInitSig)).1 = .tran target)
    (shallow : f.level target ≤ maxNestDepth) (traced : Bool) (fuel : Nat)
    (short : ShortFrom handler traced f fuel (enterFirst handler traced
      { new sm initial with sm := (initial sm (.emptyDyn qInitSig)).2 } target))
    (m : QHsm σ S π)
    (initialised : initTraced handler traced fuel (new sm initial) = .ok m)
    (events : List (DynEvent π))
    (reach : Along (step handler traced fuel) (InReach f handler traced fuel) m events) :
    Settled f m ∧ Along (step handler traced fuel) (Keeps f handler traced fuel) m events := by
  have settled := init_walks conforms starts shallow short initialised
  refine ⟨settled_of_walk settled, ?_⟩
  have walks (m : QHsm σ S π) (e : DynEvent π) (t : QHsm σ S π)
      (settled : Walk f none (moves m.calls) m.state.get)
      (reach : InReach f handler traced fuel m e)
      (stepped : step handler traced fuel m e = some t) :
      Walk f none (moves t.calls) t.state.get := by
    obtain ⟨made, walk, log, -⟩ := step_walks conforms reach stepped
    rw [log]
    exact settled.append walk
  have keeps (m : QHsm σ S π) (e : DynEvent π) (settled : Walk f none (moves m.calls) m.state.get)
      (reach : InReach f handler traced fuel m e) : Keeps f handler traced fuel m e := by
    intro t stepped
    refine ⟨settled_of_walk (walks m e t settled reach stepped), ?_⟩
    intro source target lca asks turns
    obtain ⟨made, -, log, kept⟩ := step_walks conforms reach stepped
    rw [log, List.drop_left, turn_of_turns turns]
    exact kept source target asks
  exact along_weaken walks keeps settled reach

end Runs

theorem reachable_of_shallow {f : Forest σ} (shallow : ∀ s, f.depth s ≤ maxNestDepth)
    (source target : StateHandler σ) : Reachable f source target := by
  intro _ lca _
  have source_low := level_le shallow source
  have target_low := level_le shallow target
  refine ⟨fun _ => target_low, fun inside => ?_⟩
  cases lca with
  | none => exact absurd rfl inside
  | some s =>
      have deep := f.depth_eq s
      simp only [Forest.level_some]
      omega

theorem shortFrom_of_descents [DecidableEq σ] {f : Forest σ} {handler : σ → StateFn σ S π}
    (short : ShortDescents f handler) (traced : Bool) (fuel : Nat) (m : QHsm σ S π) :
    ShortFrom handler traced f fuel m := by
  induction fuel generalizing m with
  | zero => trivial
  | succ fuel ih =>
      rw [ShortFrom]
      split
      · rename_i next asked answer
        refine ⟨?_, ih _⟩
        obtain ⟨s, place, answer⟩ := init_answer handler (congrArg Prod.fst answer)
        rw [place]
        exact short s m.sm next answer
      · trivial

theorem nested_shortDescents : ShortDescents nestedForest nestedHandler := by
  intro s sm target answer
  obtain ⟨inside, _⟩ := nested_conforms.init s sm target answer
  have low : nestedForest.level target ≤ maxNestDepth := level_le (by decide) target
  exact Nat.le_add_left_of_le low

theorem nested_deep_run_settled :
    ∃ m, initTraced nestedHandler true 7 (new () fun sm _ => (.tran (some false), sm)) = .ok m ∧
      Settled nestedForest m ∧
      Along (step nestedHandler true 7) (Keeps nestedForest nestedHandler true 7) m
        [.emptyDyn qUserSig, .emptyDyn qUserSig] := by
  obtain ⟨m, initialised, _⟩ := initTraced_spec nested_conforms (by decide) true 7 ()
    (fun sm _ => (.tran (some false), sm)) (some false) rfl (by decide)
  have reach : Along (step nestedHandler true 7) (InReach nestedForest nestedHandler true 7) m
      [.emptyDyn qUserSig, .emptyDyn qUserSig] := by
    have user : IsUser (.emptyDyn qUserSig : DynEvent Unit) := Nat.le_refl _
    have near (m : QHsm Bool Unit Unit) : InReach nestedForest nestedHandler true 7 m
        (.emptyDyn qUserSig) :=
      ⟨user, fun source target _ => reachable_of_shallow (by decide) source target,
        fun u _ => shortFrom_of_descents nested_shortDescents true 7 u⟩
    exact ⟨near m, fun t _ => ⟨near t, fun _ _ => trivial⟩⟩
  exact ⟨m, initialised, deep_run_settled nestedForest nestedHandler nested_conforms
    () _ (some false) rfl (by decide) true 7 (shortFrom_of_descents nested_shortDescents true 7 _)
    m initialised _ reach⟩

def chainForest : Forest Nat where
  parent s := match s with
    | 0 => none
    | n + 1 => some n
  depth s := s + 1
  root_depth s root := by
    cases s with
    | zero => rfl
    | succ n => cases root
  child_depth s p above := by
    cases s with
    | zero => cases above
    | succ n =>
        cases above
        rfl

def chainHandler : Nat → StateFn Nat Unit Unit
  | s, sm, e => (if e.signal = qEntrySig ∨ e.signal = qExitSig ∨ e.signal = qInitSig then .handled
      else .super (chainForest.parent s), sm)

theorem chain_conforms : Conforms chainForest chainHandler where
  empty s sm := by simp [chainHandler, qEmptySig, qEntrySig, qExitSig, qInitSig]
  init s sm target answer := by simp [chainHandler] at answer
  delegate s sm e sup user answer := by
    obtain ⟨_, entry, exit, init⟩ := user_not_reserved user
    simpa [chainHandler, entry, exit, init] using answer.symm

/-- An initial target seven levels deep: the root of its tree is active but was never entered. -/
theorem seventh_level_skips_root : Conforms chainForest chainHandler ∧
    ∃ m, initTraced chainHandler true 7 (new () fun sm _ => (.tran (some 6), sm)) = .ok m ∧
      Move.enter 0 ∉ moves m.calls ∧ 0 ∈ chainForest.onPath m.state.get ∧
      ¬Settled chainForest m := by
  have ran : (initTraced chainHandler true 7 (new () fun sm _ => (.tran (some 6), sm))).toOption.map
      (fun m => (moves m.calls, m.state.get)) =
        some ([1, 2, 3, 4, 5, 6].map .enter, some 6) := by decide
  obtain ⟨m, initialised, seen⟩ := Option.map_eq_some_iff.mp ran
  obtain ⟨entries, current⟩ := Prod.mk.inj seen
  have root : 0 ∈ chainForest.onPath m.state.get := by
    rw [current]
    simp [Forest.onPath, chainForest]
  refine ⟨chain_conforms, m, ?_, by simp [entries], root, ?_⟩
  · cases outcome : initTraced chainHandler true 7 (new () fun sm _ => (.tran (some 6), sm)) with
    | error halt =>
        rw [outcome] at initialised
        cases initialised
    | ok t =>
        rw [outcome] at initialised
        exact congrArg Except.ok (Option.some.inj initialised)
  · rintro ⟨active, _⟩
    rw [← active, entries] at root
    simp [occupied, occupy] at root

end QHsm

end QpRs.Hsm
