import Mathlib.Data.List.Forall2
import Mathlib.Data.List.Nodup
import QpRs.Lib.Stock

/-! Stocks of things of different sizes, side by side: a request is served from the first stock
whose things are large enough and that has enough of them. -/

namespace QpRs.Lib

/-! ## Places in lists -/

section Places

variable {γ δ : Type} {related related' : γ → δ → Prop} {xs : List γ} {ys : List δ} {i j : Nat}

theorem forall₂_right (all : List.Forall₂ related xs ys) {y : δ} (found : ys[i]? = some y) :
    ∃ x, xs[i]? = some x ∧ related x y := by
  induction all generalizing i with
  | nil => cases found
  | cons here rest ih =>
      cases i with
      | zero =>
          cases found
          exact ⟨_, rfl, here⟩
      | succ i => exact ih found

theorem forall₂_left (all : List.Forall₂ related xs ys) {x : γ} (found : xs[i]? = some x) :
    ∃ y, ys[i]? = some y ∧ related x y := by
  have flipped : List.Forall₂ (flip related) ys xs := List.Forall₂.flip all
  exact forall₂_right flipped found

theorem forall₂_set (all : List.Forall₂ related xs ys) {a : γ} {c : δ} (here : related' a c)
    (others : ∀ j x y, j ≠ i → xs[j]? = some x → ys[j]? = some y → related x y → related' x y) :
    List.Forall₂ related' (xs.set i a) (ys.set i c) := by
  induction all generalizing i with
  | nil => exact .nil
  | @cons x y xs ys first rest ih =>
      cases i with
      | zero =>
          refine .cons here ?_
          have later : List.Forall₂ related' xs ys := by
            refine List.forall₂_iff_get.mpr ⟨rest.length_eq, ?_⟩
            intro j low low'
            exact others (j + 1) _ _ (Nat.succ_ne_zero j) (List.getElem?_eq_getElem low)
              (List.getElem?_eq_getElem low') (rest.get low low')
          exact later
      | succ i =>
          refine .cons (others 0 x y (Nat.succ_ne_zero i).symm rfl rfl first) (ih ?_)
          intro j x' y' other known known' holds
          exact others (j + 1) x' y' (fun same => other (Nat.succ.inj same)) known known' holds

theorem forall₂_at (all : List.Forall₂ related xs ys) {x : γ} {y : δ} (at_x : xs[i]? = some x)
    (at_y : ys[i]? = some y) (here : related' x y)
    (others : ∀ j x y, j ≠ i → xs[j]? = some x → ys[j]? = some y → related x y → related' x y) :
    List.Forall₂ related' xs ys := by
  have all_set := forall₂_set all here others
  obtain ⟨_, rfl⟩ := List.getElem?_eq_some_iff.mp at_x
  obtain ⟨_, rfl⟩ := List.getElem?_eq_some_iff.mp at_y
  rwa [List.set_getElem_self, List.set_getElem_self] at all_set

theorem map_set_same (f : γ → δ) {x y : γ} (here : xs[i]? = some x) (same : f y = f x) :
    (xs.set i y).map f = xs.map f := by
  induction xs generalizing i with
  | nil => cases here
  | cons z rest ih =>
      cases i with
      | zero =>
          cases here
          exact congrArg (· :: rest.map f) same
      | succ i => exact congrArg (f z :: ·) (ih here)

theorem getElem?_map_of {f : γ → δ} {x : γ} (here : xs[i]? = some x) :
    (xs.map f)[i]? = some (f x) := by
  rw [List.getElem?_map, here]
  rfl

theorem rel_of_lt {rel : γ → γ → Prop} (pairwise : xs.Pairwise rel) {x y : γ}
    (here : xs[i]? = some x) (there : xs[j]? = some y) (before : i < j) : rel x y := by
  obtain ⟨i_low, rfl⟩ := List.getElem?_eq_some_iff.mp here
  obtain ⟨j_low, rfl⟩ := List.getElem?_eq_some_iff.mp there
  exact List.pairwise_iff_getElem.mp pairwise i j i_low j_low before

theorem rel_of_ne {rel : γ → γ → Prop} (symm : ∀ x y, rel x y → rel y x)
    (pairwise : xs.Pairwise rel) {x y : γ} (here : xs[i]? = some x) (there : xs[j]? = some y)
    (other : i ≠ j) : rel x y := by
  rcases Nat.lt_or_gt_of_ne other with before | after
  · exact rel_of_lt pairwise here there before
  · exact symm y x (rel_of_lt pairwise there here after)

end Places

/-! ## Shelves -/

/-- The label is the caller's, and stays with the shelf. -/
structure Shelf (κ α : Type) where
  label : κ
  size : Nat
  stock : Stock α

variable {κ α : Type}

namespace Shelf

/-- Things of size `n` fit, and `margin` stay free when one is taken. -/
def Serves (s : Shelf κ α) (n margin : Nat) : Prop :=
  n ≤ s.size ∧ margin + 1 ≤ s.stock.free.length

instance (s : Shelf κ α) (n margin : Nat) : Decidable (s.Serves n margin) :=
  inferInstanceAs (Decidable (_ ∧ _))

def taken (s : Shelf κ α) (margin : Nat) : Shelf κ α :=
  { s with stock := (s.stock.get margin).2 }

def returned [DecidableEq α] (s : Shelf κ α) (x : α) : Shelf κ α :=
  { s with stock := s.stock.put x }

/-- What decides which requests the shelf serves. -/
def offer (s : Shelf κ α) : Nat × Nat := (s.size, s.stock.free.length)

theorem offer_returned [DecidableEq α] {s : Shelf κ α} {margin : Nat} {x : α}
    (granted : (s.stock.get margin).1 = some x) :
    (s.taken margin).stock.Lent x ∧ ((s.taken margin).returned x).offer = s.offer := by
  obtain ⟨shape, _, _⟩ := Stock.get_some granted
  obtain ⟨_, lent⟩ := Stock.get_lent granted
  have out : (s.taken margin).stock.Lent x := (lent x).mpr (.inl rfl)
  have pushed : ((s.taken margin).stock.put x).free = s.stock.free :=
    (Stock.put_lent out).1.trans shape.symm
  refine ⟨out, ?_⟩
  rw [offer, returned, pushed]
  rfl

theorem serves_iff_offer {s : Shelf κ α} {n margin : Nat} :
    s.Serves n margin ↔ n ≤ s.offer.1 ∧ margin + 1 ≤ s.offer.2 := Iff.rfl

end Shelf

namespace Shelves

def take (n margin : Nat) : List (Shelf κ α) → Option (Nat × α) × List (Shelf κ α)
  | [] => (none, [])
  | s :: rest =>
    if s.Serves n margin then
      ((s.stock.get margin).1.map fun x => (0, x), s.taken margin :: rest)
    else ((take n margin rest).1.map fun found => (found.1 + 1, found.2),
      s :: (take n margin rest).2)

variable {n margin i : Nat} {x : α} {s : Shelf κ α} {shelves : List (Shelf κ α)}

theorem take_here (serves : s.Serves n margin) :
    take n margin (s :: shelves) =
      ((s.stock.get margin).1.map fun x => (0, x), s.taken margin :: shelves) :=
  if_pos serves

theorem take_later (refuses : ¬s.Serves n margin) :
    take n margin (s :: shelves) =
      ((take n margin shelves).1.map fun found => (found.1 + 1, found.2),
        s :: (take n margin shelves).2) :=
  if_neg refuses

theorem take_none : (take n margin shelves).1 = none ↔ ∀ s ∈ shelves, ¬s.Serves n margin := by
  induction shelves with
  | nil => simp [take]
  | cons s rest ih =>
      by_cases serves : s.Serves n margin
      · obtain ⟨x, granted⟩ := Option.isSome_iff_exists.mp (Stock.get_isSome.mpr serves.2)
        rw [take_here serves, granted]
        simp [serves]
      · rw [take_later serves, Option.map_eq_none_iff, ih, List.forall_mem_cons]
        simp [serves]

theorem take_kept (refused : (take n margin shelves).1 = none) :
    (take n margin shelves).2 = shelves := by
  induction shelves with
  | nil => rfl
  | cons s rest ih =>
      have refuses := take_none.mp refused s List.mem_cons_self
      rw [take_later refuses] at refused ⊢
      rw [ih (Option.map_eq_none_iff.mp refused)]

theorem take_some (found : (take n margin shelves).1 = some (i, x)) :
    ∃ s, shelves[i]? = some s ∧ s.Serves n margin ∧ (s.stock.get margin).1 = some x ∧
      (take n margin shelves).2 = shelves.set i (s.taken margin) ∧
      ∀ j < i, ∀ t, shelves[j]? = some t → ¬t.Serves n margin := by
  induction shelves generalizing i with
  | nil => cases found
  | cons s rest ih =>
      by_cases serves : s.Serves n margin
      · rw [take_here serves] at found ⊢
        obtain ⟨y, granted, same⟩ := Option.map_eq_some_iff.mp found
        cases same
        exact ⟨s, rfl, serves, granted, rfl, fun j before => absurd before (Nat.not_lt_zero j)⟩
      · rw [take_later serves] at found ⊢
        obtain ⟨⟨k, y⟩, later, same⟩ := Option.map_eq_some_iff.mp found
        cases same
        obtain ⟨t, here, fits, granted, left, passed⟩ := ih later
        refine ⟨t, here, fits, granted, congrArg (s :: ·) left, ?_⟩
        intro j before u known
        cases j with
        | zero =>
            cases known
            exact serves
        | succ j => exact passed j (Nat.lt_of_succ_lt_succ before) u known

/-- On shelves in order of size the thing taken is of the smallest size that serves. -/
theorem take_smallest (sorted : (shelves.map Shelf.size).Pairwise (· ≤ ·))
    (found : (take n margin shelves).1 = some (i, x)) {j : Nat} {t : Shelf κ α}
    (here : shelves[i]? = some s) (there : shelves[j]? = some t) (serves : t.Serves n margin) :
    s.size ≤ t.size := by
  obtain ⟨s', same, _, _, _, passed⟩ := take_some found
  rw [here] at same
  cases same
  rcases Nat.lt_trichotomy i j with before | same | after
  · exact rel_of_lt sorted (getElem?_map_of here) (getElem?_map_of there) before
  · subst same
    rw [here] at there
    cases there
    exact Nat.le_refl _
  · exact absurd serves (passed j after t there)

theorem serves_congr {shelves' : List (Shelf κ α)}
    (same : shelves'.map Shelf.offer = shelves.map Shelf.offer) :
    (∃ s ∈ shelves', s.Serves n margin) ↔ ∃ s ∈ shelves, s.Serves n margin := by
  have by_offer (xs : List (Shelf κ α)) : (∃ s ∈ xs, s.Serves n margin) ↔
      ∃ o ∈ xs.map Shelf.offer, n ≤ o.1 ∧ margin + 1 ≤ o.2 := by
    simp [Shelf.serves_iff_offer]
  rw [by_offer, by_offer, same]

end Shelves

namespace Stock

theorem length_lent {s : Stock α} {lent : List α} (once : lent.Nodup)
    (known : ∀ x, x ∈ lent ↔ s.Lent x) : s.free.length + lent.length = s.all.length := by
  have apart : (s.free ++ lent).Nodup := by
    refine List.Nodup.append s.once once ?_
    intro x free out
    exact ((known x).mp out).2 free
  have same : List.Perm (s.free ++ lent) s.all := by
    refine (List.perm_ext_iff_of_nodup apart s.distinct).mpr ?_
    intro x
    rw [List.mem_append, known]
    constructor
    · intro part
      exact part.elim (s.owned x) And.left
    · intro owned
      by_cases free : x ∈ s.free
      · exact .inl free
      · exact .inr ⟨owned, free⟩
  rw [← List.length_append]
  exact same.length_eq

end Stock

end QpRs.Lib
