import QpRs.Dpp.Table
import QpRs.Lib.Arbiter

/-! The forks of the table as an arbiter: what each handler of the table grants, and why looking at
the two neighbours after a release is enough. -/

namespace QpRs.Dpp

open Lib

/-- A philosopher eats with the fork of its own index and the one to its left. -/
def needs (i : Fin nPhilo) : Set (Fin nPhilo) := {i, left i}

theorem right_left (i : Fin nPhilo) : right (left i) = i := by
  have low := i.isLt
  apply Fin.ext
  simp only [right, left, nPhilo] at low ⊢
  omega

theorem left_right (i : Fin nPhilo) : left (right i) = i := by
  have low := i.isLt
  apply Fin.ext
  simp only [right, left, nPhilo] at low ⊢
  omega

theorem left_injective {i j : Fin nPhilo} (same : left i = left j) : i = j := by
  rw [← right_left i, same, right_left]

theorem shares_fork {i j : Fin nPhilo} (shared : Shares needs i j) :
    j = i ∨ j = right i ∨ j = left i := by
  obtain ⟨r, mine, yours⟩ := shared
  rcases mine with rfl | rfl
  · rcases yours with rfl | same
    · exact .inl rfl
    · rw [same, right_left]
      exact .inr (.inl rfl)
  · rcases yours with same | same
    · exact .inr (.inr same.symm)
    · exact .inl (left_injective same).symm

/-- The arrays of the table say which forks are free and who waits. -/
structure Represents (t : TableData) (a : Arbiter needs) : Prop where
  forks : ∀ r, t.forks r = true ↔ a.Free r
  hungry : ∀ i, t.hungry i = true ↔ i ∈ a.waiting

/-- The table comes from `t` to `u` by grants, each posted to its philosopher. -/
structure Serves (t u : TableData) (a b : Arbiter needs) (granted : List (Fin nPhilo)) : Prop where
  represents : Represents u b
  serving : a.Serving b granted
  posts : u.posts = t.posts ++ granted.map fun i => (philoId i, .emptyDyn eatSig)
  panicked : u.panicked = t.panicked

variable {t : TableData} {a : Arbiter needs} {i : Fin nPhilo}

theorem Represents.canEat_iff (represents : Represents t a) :
    t.canEat i = true ↔ a.Servable i := by
  rw [TableData.canEat, Bool.and_eq_true, represents.forks, represents.forks]
  constructor
  · intro both r wanted
    rcases wanted with rfl | rfl
    · exact both.1
    · exact both.2
  · intro servable
    exact ⟨servable i (.inl rfl), servable (left i) (.inr rfl)⟩

theorem mem_needs {r : Fin nPhilo} : r ∈ needs i ↔ r = i ∨ r = left i := Iff.rfl

theorem Represents.takeForks (represents : Represents t a) (servable : a.Servable i)
    (r : Fin nPhilo) :
    (t.takeForks i).forks r = true ↔ (a.grant i servable).Free r := by
  rw [Arbiter.free_grant, mem_needs, ← represents.forks r]
  by_cases second : r = left i
  · subst second
    simp [TableData.takeForks]
  · by_cases first : r = i
    · subst first
      simp [TableData.takeForks, second]
    · simp [TableData.takeForks, first, second]

theorem Represents.grantForks (represents : Represents t a) (servable : a.Servable i) :
    Represents (t.grantForks i) (a.grant i servable) where
  forks := represents.takeForks servable
  hungry := by
    intro j
    show Function.update t.hungry i false j = true ↔ j ∈ a.waiting ∧ j ≠ i
    by_cases here : j = i
    · subst here
      simp
    · simp [here, represents.hungry j]

theorem Represents.releaseForks (represents : Represents t a) (held : i ∈ a.holders) :
    Represents (t.releaseForks i) (a.release i) where
  forks := by
    intro r
    rw [Arbiter.free_release held, mem_needs, ← represents.forks r]
    by_cases second : r = left i
    · subst second
      simp [TableData.releaseForks]
    · by_cases first : r = i
      · subst first
        simp [TableData.releaseForks, second]
      · simp [TableData.releaseForks, first, second]
  hungry := represents.hungry

theorem Represents.setHungry (represents : Represents t a) (unserved : i ∉ a.holders) :
    Represents (t.setHungry i) (a.wait i unserved) where
  forks := represents.forks
  hungry := by
    intro j
    show Function.update t.hungry i true j = true ↔ j = i ∨ j ∈ a.waiting
    by_cases here : j = i
    · subst here
      simp
    · simp [here, represents.hungry j]

theorem serves_hungry (represents : Represents t a) (i : Fin nPhilo) :
    ∃ b granted, Serves t (t.serveHungry i) a b granted ∧
      (i ∈ b.waiting → ¬b.Servable i) := by
  unfold TableData.serveHungry
  by_cases ask : (t.hungry i && t.canEat i) = true
  · rw [if_pos ask]
    rw [Bool.and_eq_true] at ask
    have waits := (represents.hungry i).mp ask.1
    have servable := represents.canEat_iff.mp ask.2
    have serves : Serves t (t.grantForks i) a (a.grant i servable) [i] :=
      ⟨represents.grantForks servable, .grant waits servable, rfl, rfl⟩
    exact ⟨_, _, serves, fun still => absurd rfl still.2⟩
  · rw [if_neg ask]
    refine ⟨a, [], ⟨represents, .refl a, by simp, rfl⟩, ?_⟩
    intro waits servable
    apply ask
    rw [Bool.and_eq_true]
    exact ⟨(represents.hungry i).mpr waits, represents.canEat_iff.mpr servable⟩

theorem serves_row (row : List (Fin nPhilo)) (represents : Represents t a) :
    ∃ b granted, Serves t (row.foldl TableData.serveHungry t) a b granted ∧
      ∀ i ∈ row, i ∈ b.waiting → ¬b.Servable i := by
  induction row generalizing t a with
  | nil => exact ⟨a, [], ⟨represents, .refl a, by simp, rfl⟩, by simp⟩
  | cons i rest ih =>
      obtain ⟨b, first, one, looked⟩ := serves_hungry represents i
      obtain ⟨c, second, two, others⟩ := ih one.represents
      have posts : (rest.foldl TableData.serveHungry (t.serveHungry i)).posts =
          t.posts ++ (first ++ second).map fun i => (philoId i, .emptyDyn eatSig) := by
        rw [two.posts, one.posts, List.map_append, List.append_assoc]
      refine ⟨c, first ++ second, ⟨two.represents, one.serving.trans two.serving, posts,
        two.panicked.trans one.panicked⟩, ?_⟩
      intro j member waits servable
      rcases List.mem_cons.mp member with rfl | later
      · exact looked ((two.serving.waiting j).mp waits).1 (two.serving.servable servable)
      · exact others j later waits servable

theorem handleHungry_eq (t : TableData) (i : Fin nPhilo) :
    t.handleHungry i = (t.setHungry i).serveHungry i := by
  have eats : (t.setHungry i).canEat i = t.canEat i := rfl
  have asks : (t.setHungry i).hungry i = true := by simp [TableData.setHungry]
  unfold TableData.handleHungry TableData.serveHungry
  rw [asks, eats, Bool.true_and]
  congr 1
  simp [TableData.grantForks, TableData.takeForks, TableData.setHungry]

theorem handles_hungry (represents : Represents t a) (unserved : i ∉ a.holders) :
    ∃ b granted, Serves t (t.handleHungry i) (a.wait i unserved) b granted ∧
      (a.Settled → b.Settled) := by
  obtain ⟨b, granted, serves, looked⟩ := serves_hungry (represents.setHungry unserved) i
  refine ⟨b, granted, ?_, ?_⟩
  · rw [handleHungry_eq]
    exact ⟨serves.represents, serves.serving, serves.posts, serves.panicked⟩
  · intro settled j waits servable
    have waited : j = i ∨ j ∈ a.waiting := ((serves.serving.waiting j).mp waits).1
    rcases waited with rfl | before
    · exact looked waits servable
    · exact settled j before (serves.serving.servable servable)

/-- The two looks after a release are enough: nobody but a neighbour can have waited for these
forks. -/
theorem handles_done (represents : Represents t a) (held : i ∈ a.holders) :
    ∃ b granted, Serves t (t.handleDone i) (a.release i) b granted ∧
      (a.Settled → b.Settled) := by
  obtain ⟨b, granted, serves, looked⟩ :=
    serves_row [right i, left i] (represents.releaseForks held)
  refine ⟨b, granted, ⟨serves.represents, serves.serving, serves.posts,
    serves.panicked⟩, ?_⟩
  intro settled j waits servable
  have waited : j ∈ a.waiting := ((serves.serving.waiting j).mp waits).1
  have freed := Arbiter.servable_release held (serves.serving.servable servable)
    (settled j waited)
  rcases shares_fork freed with rfl | rfl | rfl
  · exact a.empty_handed j waited held
  · exact looked _ (by simp) waits servable
  · exact looked _ (by simp) waits servable

theorem serves_all (represents : Represents t a) :
    ∃ b granted, Serves t t.serveAll a b granted ∧ b.Settled := by
  obtain ⟨b, granted, serves, looked⟩ := serves_row (List.finRange nPhilo) represents
  exact ⟨b, granted, serves, fun i => looked i (List.mem_finRange i)⟩

end QpRs.Dpp
