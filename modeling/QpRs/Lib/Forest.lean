import Mathlib.Data.Set.Insert
import Mathlib.Data.List.Basic

/-! Forests given by a parent function, the path from a node to its root, and walks that enter and
leave nodes one at a time.

The place above all roots is `none`, so a place is an `Option σ`. -/

namespace QpRs.Lib

/-- A parent function with the depth that rules out cycles; roots have depth one. -/
structure Forest (σ : Type) where
  parent : σ → Option σ
  depth : σ → Nat
  root_depth : ∀ s, parent s = none → depth s = 1
  child_depth : ∀ s p, parent s = some p → depth s = depth p + 1

namespace Forest

variable {σ : Type} (f : Forest σ)

def level : Option σ → Nat
  | none => 0
  | some s => f.depth s

@[simp] theorem level_some (s : σ) : f.level (some s) = f.depth s := rfl

theorem depth_eq (s : σ) : f.depth s = f.level (f.parent s) + 1 := by
  cases above : f.parent s with
  | none => simp [level, f.root_depth s above]
  | some p => simp [level, f.child_depth s p above]

def pathWithin : Nat → Option σ → List (Option σ)
  | 0, _ => []
  | _ + 1, none => []
  | n + 1, some s => some s :: pathWithin n (f.parent s)

/-- The node itself, its parent, and so on up to the root. -/
def path (place : Option σ) : List (Option σ) := f.pathWithin (f.level place) place

@[simp] theorem path_none : f.path none = [] := rfl

@[simp] theorem path_some (s : σ) : f.path (some s) = some s :: f.path (f.parent s) := by
  simp [path, level, f.depth_eq s, pathWithin]

theorem path_induction {motive : Option σ → Prop} (top : motive none)
    (below : ∀ s, motive (f.parent s) → motive (some s)) (place : Option σ) : motive place := by
  suffices reach : ∀ n place, f.level place = n → motive place from reach _ place rfl
  intro n
  induction n with
  | zero =>
      intro place flat
      cases place with
      | none => exact top
      | some s => exact absurd flat (by simp [level, f.depth_eq s])
  | succ n ih =>
      intro place high
      cases place with
      | none => exact top
      | some s =>
          apply below s
          apply ih
          have := f.depth_eq s
          simp only [level_some] at high
          omega

theorem length_path (place : Option σ) : (f.path place).length = f.level place := by
  induction place using f.path_induction with
  | top => rfl
  | below s ih => simp [ih, level, f.depth_eq s]

theorem level_le_of_mem {a place : Option σ} (member : a ∈ f.path place) :
    f.level a ≤ f.level place := by
  induction place using f.path_induction with
  | top => simp at member
  | below s ih =>
      have := f.depth_eq s
      rcases List.mem_cons.mp (f.path_some s ▸ member) with rfl | member
      · exact le_rfl
      · have := ih member
        simp only [level_some]
        omega

theorem self_not_above (s : σ) : some s ∉ f.path (f.parent s) := by
  intro member
  have low := f.level_le_of_mem member
  have := f.depth_eq s
  simp only [level_some] at low
  omega

theorem self_mem_path (s : σ) : some s ∈ f.path (some s) := by simp

theorem nodup_path (place : Option σ) : (f.path place).Nodup := by
  induction place using f.path_induction with
  | top => exact List.nodup_nil
  | below s ih =>
      rw [path_some]
      exact List.nodup_cons.mpr ⟨f.self_not_above s, ih⟩

theorem path_split [DecidableEq σ] {a place : Option σ} (member : a = none ∨ a ∈ f.path place) :
    (f.path place).take ((f.path place).idxOf a) ++ f.path a = f.path place := by
  induction place using f.path_induction with
  | top =>
      rcases member with rfl | member
      · rfl
      · simp at member
  | below s ih =>
      by_cases here : a = some s
      · subst here
        simp
      · have above : a = none ∨ a ∈ f.path (f.parent s) := by
          rcases member with top | member
          · exact .inl top
          · rcases List.mem_cons.mp (f.path_some s ▸ member) with same | member
            · exact absurd same here
            · exact .inr member
        have other : some s ≠ a := fun same => here same.symm
        simp only [path_some, List.idxOf_cons_ne _ other, Nat.succ_eq_add_one,
          List.take_succ_cons, List.cons_append, ih above]

theorem path_suffix [DecidableEq σ] {a place : Option σ} (member : a = none ∨ a ∈ f.path place) :
    ∃ front, f.path place = front ++ f.path a :=
  ⟨_, (f.path_split member).symm⟩

theorem mem_path_trans [DecidableEq σ] {a b place : Option σ} (first : a ∈ f.path b)
    (second : b ∈ f.path place) : a ∈ f.path place := by
  obtain ⟨front, split⟩ := f.path_suffix (.inr second)
  rw [split]
  exact List.mem_append_right _ first

/-- The deepest place on the paths of both, or the place above all roots when they share none. -/
structure Meet (a b place : Option σ) : Prop where
  shared : place = none ∨ place ∈ f.path a ∧ place ∈ f.path b
  deepest : ∀ c ∈ f.path a, c ∈ f.path b → c ∈ f.path place

theorem eq_of_mem_path {a b : Option σ} (first : a ∈ f.path b) (second : b ∈ f.path a) : a = b := by
  cases b with
  | none => simp at first
  | some s =>
      rcases List.mem_cons.mp (f.path_some s ▸ first) with same | above
      · exact same
      · have low := f.level_le_of_mem above
        have high := f.level_le_of_mem second
        have deep := f.depth_eq s
        simp only [level_some] at high
        omega

theorem Meet.unique {f : Forest σ} {a b c d : Option σ} (first : f.Meet a b c)
    (second : f.Meet a b d) : c = d := by
  rcases first.shared with rfl | ⟨left, right⟩
  · rcases second.shared with rfl | ⟨left, right⟩
    · rfl
    · have nowhere := first.deepest d left right
      simp at nowhere
  · have below := second.deepest c left right
    rcases second.shared with rfl | ⟨left', right'⟩
    · simp at below
    · exact f.eq_of_mem_path below (first.deepest d left' right')

end Forest

inductive Move (σ : Type) where
  | enter (s : σ)
  | leave (s : σ)
  deriving DecidableEq, Repr

variable {σ : Type}

/-- A walk enters a child of the place it is at, or leaves the node it is at for its parent. -/
inductive Walk (f : Forest σ) : Option σ → List (Move σ) → Option σ → Prop where
  | stay (place : Option σ) : Walk f place [] place
  | enter {s : σ} {moves : List (Move σ)} {last : Option σ} (rest : Walk f (some s) moves last) :
      Walk f (f.parent s) (.enter s :: moves) last
  | leave {s : σ} {moves : List (Move σ)} {last : Option σ}
      (rest : Walk f (f.parent s) moves last) : Walk f (some s) (.leave s :: moves) last

/-- The nodes entered and not left since. -/
def occupy (nodes : Set σ) : Move σ → Set σ
  | .enter s => insert s nodes
  | .leave s => nodes \ {s}

def occupied (moves : List (Move σ)) : Set σ := moves.foldl occupy ∅

def Permitted (f : Forest σ) (nodes : Set σ) : Move σ → Prop
  | .enter s => s ∉ nodes ∧ ∀ p, f.parent s = some p → p ∈ nodes
  | .leave s => s ∈ nodes ∧ ∀ t ∈ nodes, some t ∈ f.path (some s)

/-- Each move is permitted for the nodes occupied when it is made. -/
def Orderly (f : Forest σ) : Set σ → List (Move σ) → Prop
  | _, [] => True
  | nodes, move :: moves => Permitted f nodes move ∧ Orderly f (occupy nodes move) moves

def Forest.onPath (f : Forest σ) (place : Option σ) : Set σ := {s | some s ∈ f.path place}

theorem Walk.append {f : Forest σ} {a b c : Option σ} {front back : List (Move σ)}
    (first : Walk f a front b) (second : Walk f b back c) : Walk f a (front ++ back) c := by
  induction first with
  | stay => exact second
  | enter _ ih => exact .enter (ih second)
  | leave _ ih => exact .leave (ih second)

theorem onPath_enter (f : Forest σ) (s : σ) :
    occupy (f.onPath (f.parent s)) (.enter s) = f.onPath (some s) := by
  ext t
  simp [occupy, Forest.onPath]

theorem onPath_leave (f : Forest σ) (s : σ) :
    occupy (f.onPath (some s)) (.leave s) = f.onPath (f.parent s) := by
  ext t
  have above := f.self_not_above s
  by_cases same : t = s
  · subst same
    simpa [occupy, Forest.onPath] using above
  · simp [occupy, Forest.onPath, same]

theorem Walk.orderly {f : Forest σ} {a b : Option σ} {moves : List (Move σ)}
    (walk : Walk f a moves b) :
    moves.foldl occupy (f.onPath a) = f.onPath b ∧ Orderly f (f.onPath a) moves := by
  induction walk with
  | stay => exact ⟨rfl, trivial⟩
  | @enter s moves last _ ih =>
      rw [← onPath_enter f s] at ih
      refine ⟨ih.1, ⟨f.self_not_above s, ?_⟩, ih.2⟩
      intro p above
      simp [Forest.onPath, above]
  | @leave s moves last _ ih =>
      rw [← onPath_leave f s] at ih
      exact ⟨ih.1, ⟨f.self_mem_path s, fun t occupied => occupied⟩, ih.2⟩

theorem path_injective (f : Forest σ) {a b : Option σ} (same : f.path a = f.path b) : a = b := by
  cases a <;> cases b <;> simp_all

theorem path_below {f : Forest σ} {t : σ} {x top : Option σ} {rest : List (Option σ)}
    (split : f.path (some t) = x :: rest ++ f.path top) :
    x = some t ∧ some t ≠ top ∧ f.path (f.parent t) = rest ++ f.path top := by
  have apart : some t ≠ top := by
    rintro rfl
    have lengths := congrArg List.length split
    simp only [List.length_append, List.length_cons] at lengths
    omega
  rw [Forest.path_some, List.cons_append, List.cons.injEq] at split
  exact ⟨split.1.symm, apart, split.2⟩

theorem level_lt {f : Forest σ} {a b : Option σ} {front : List (Option σ)}
    (split : front ++ f.path a = f.path b) (proper : b ≠ a) : f.level a < f.level b := by
  have lengths := congrArg List.length split
  rw [List.length_append, f.length_path, f.length_path] at lengths
  have nonempty : front ≠ [] := by
    intro empty
    rw [empty, List.nil_append] at split
    exact proper (path_injective f split).symm
  have positive := List.length_pos_iff.mpr nonempty
  omega

theorem walk_leaves {f : Forest σ} {a b : Option σ} {front : List (Option σ)}
    (split : f.path a = front ++ f.path b) : Walk f a (front.filterMap (Option.map .leave)) b := by
  induction front generalizing a with
  | nil =>
      cases path_injective f split
      exact .stay _
  | cons s rest ih =>
      cases a with
      | none => simp at split
      | some t =>
          obtain ⟨rfl, -, split⟩ := path_below split
          exact .leave (ih split)

theorem walk_enters {f : Forest σ} {a b : Option σ} {front : List (Option σ)}
    (split : f.path a = front ++ f.path b) :
    Walk f b (front.reverse.filterMap (Option.map .enter)) a := by
  induction front generalizing a with
  | nil =>
      cases path_injective f split
      exact .stay _
  | cons s rest ih =>
      cases a with
      | none => simp at split
      | some t =>
          obtain ⟨rfl, -, split⟩ := path_below split
          have last : Walk f (f.parent t) [.enter t] (some t) := .enter (.stay _)
          simpa using (ih split).append last

end QpRs.Lib
