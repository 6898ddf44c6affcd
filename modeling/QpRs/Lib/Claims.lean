import Mathlib.Data.List.Count
import Mathlib.Data.List.Nodup
import Mathlib.Logic.Function.Basic

/-! Exclusive claims of tasks by contexts.

A context may reserve one task before it takes it. A task that is taken carries the mark of its
context, and each context has the list of the tasks that it holds, nested ones first. The lemmas say
when reserving, taking and releasing keep every task with at most one holder. -/

namespace QpRs.Lib

variable {κ τ : Type}

@[ext]
structure Claims (κ τ : Type) where
  mark : τ → Option κ
  held : κ → List τ
  reserved : κ → Option τ

namespace Claims

variable [DecidableEq κ] [DecidableEq τ]

/-- The mark of a task names its only holder, and a reserved task is free and reserved once. -/
structure Exclusive (c : Claims κ τ) : Prop where
  counted : ∀ k t, (c.held k).count t = if c.mark t = some k then 1 else 0
  free : ∀ k t, c.reserved k = some t → c.mark t = none
  apart : ∀ k k' t, c.reserved k = some t → c.reserved k' = some t → k = k'

variable {c : Claims κ τ} {k : κ} {t : τ}

namespace Exclusive

theorem none_held {reserved : κ → Option τ} (unreserved : ∀ k, reserved k = none) :
    Exclusive (⟨fun _ => none, fun _ => [], reserved⟩ : Claims κ τ) where
  counted k t := by simp
  free k t found := by simp [unreserved] at found
  apart k k' t found := by simp [unreserved] at found

theorem mem_iff (inv : Exclusive c) (k : κ) (t : τ) : t ∈ c.held k ↔ c.mark t = some k := by
  rw [← List.count_pos_iff, inv.counted k t]
  by_cases marked : c.mark t = some k <;> simp [marked]

theorem mark_of_mem (inv : Exclusive c) (member : t ∈ c.held k) : c.mark t = some k :=
  (inv.mem_iff k t).mp member

theorem unique (inv : Exclusive c) {k' : κ} (here : t ∈ c.held k) (there : t ∈ c.held k') :
    k = k' := by
  have same := (inv.mark_of_mem here).symm.trans (inv.mark_of_mem there)
  exact Option.some.inj same

theorem nodup (inv : Exclusive c) (k : κ) : (c.held k).Nodup := by
  rw [List.nodup_iff_count_le_one]
  intro t
  rw [inv.counted k t]
  split <;> omega

theorem reserve (inv : Exclusive c) (choice : Option τ)
    (unheld : ∀ t, choice = some t → c.mark t = none)
    (others : ∀ t, choice = some t → ∀ k', k' ≠ k → c.reserved k' ≠ some t) :
    Exclusive { c with reserved := Function.update c.reserved k choice } where
  counted := inv.counted
  free := by
    intro k' t found
    simp only at found ⊢
    by_cases here : k' = k
    · subst here
      rw [Function.update_self] at found
      exact unheld t found
    · rw [Function.update_of_ne here] at found
      exact inv.free k' t found
  apart := by
    intro k₁ k₂ t first second
    simp only at first second
    by_cases here : k₁ = k
    · by_cases there : k₂ = k
      · rw [here, there]
      · rw [here, Function.update_self] at first
        rw [Function.update_of_ne there] at second
        exact absurd second (others t first k₂ there)
    · rw [Function.update_of_ne here] at first
      by_cases there : k₂ = k
      · rw [there, Function.update_self] at second
        exact absurd first (others t second k₁ here)
      · rw [Function.update_of_ne there] at second
        exact inv.apart k₁ k₂ t first second

theorem take (inv : Exclusive c) (unheld : c.mark t = none)
    (others : ∀ k', k' ≠ k → c.reserved k' ≠ some t) :
    Exclusive
      { mark := Function.update c.mark t (some k)
        held := Function.update c.held k (t :: c.held k)
        reserved := Function.update c.reserved k none } where
  counted := by
    intro k' u
    have before := inv.counted k' u
    by_cases task : u = t
    · subst task
      simp only [unheld, reduceCtorEq, if_false] at before
      by_cases here : k' = k
      · subst here
        simp [before]
      · have other : ¬ k = k' := fun same => here same.symm
        simp [here, other, before]
    · have other : ¬ t = u := fun same => task same.symm
      by_cases here : k' = k
      · subst here
        simpa [task, other, List.count_cons] using before
      · simpa [task, here] using before
  free := by
    intro k' u found
    simp only at found ⊢
    have here : k' ≠ k := by
      intro same
      rw [same, Function.update_self] at found
      cases found
    rw [Function.update_of_ne here] at found
    have task : u ≠ t := by
      intro same
      rw [same] at found
      exact others k' here found
    rw [Function.update_of_ne task]
    exact inv.free k' u found
  apart := by
    intro k₁ k₂ u first second
    have reserved {k' : κ} (found : Function.update c.reserved k none k' = some u) :
        c.reserved k' = some u := by
      by_cases here : k' = k
      · rw [here, Function.update_self] at found
        cases found
      · rwa [Function.update_of_ne here] at found
    exact inv.apart k₁ k₂ u (reserved first) (reserved second)

theorem release (inv : Exclusive c) {rest : List τ} (holds : (c.held k).Perm (t :: rest)) :
    Exclusive
      { c with
        mark := Function.update c.mark t none
        held := Function.update c.held k rest } where
  counted := by
    intro k' u
    have before := inv.counted k' u
    have holder := inv.mark_of_mem (holds.mem_iff.mpr List.mem_cons_self)
    by_cases task : u = t
    · subst task
      by_cases here : k' = k
      · subst here
        rw [holds.count_eq, if_pos holder, List.count_cons_self] at before
        simp only [Function.update_self, reduceCtorEq, if_false]
        omega
      · have other : ¬ k = k' := fun same => here same.symm
        simpa [holder, here, other] using before
    · by_cases here : k' = k
      · subst here
        have other : ¬ t = u := fun same => task same.symm
        rw [holds.count_eq, List.count_cons] at before
        simpa [task, other] using before
      · simpa [task, here] using before
  free := by
    intro k' u found
    simp only
    by_cases task : u = t
    · rw [task, Function.update_self]
    · rw [Function.update_of_ne task]
      exact inv.free k' u found
  apart := inv.apart

end Exclusive

end Claims

end QpRs.Lib
