import Mathlib.Data.List.Nodup
import Mathlib.Data.List.Perm.Basic

/-! Units handed to waiting parties by wake-ups.

A unit is granted by adding it to those available and waking one waiting party, which then retries.
The wake-up reserves nothing: another party may take the unit first. `woken` holds the wake-ups that
were not yet retried. -/

namespace QpRs.Lib

structure Handoff (τ : Type) where
  available : Nat
  waiting : List τ
  woken : List τ

namespace Handoff

variable {τ : Type} {h h' : Handoff τ}

/-- While a party waits, each available unit has a wake-up that will try to take it. -/
def Covered (h : Handoff τ) : Prop := h.waiting ≠ [] → h.available ≤ h.woken.length

/-- Each party waits once or has one wake-up to retry, not both. -/
def Single (h : Handoff τ) : Prop := (h.woken ++ h.waiting).Nodup

inductive Grants (h : Handoff τ) : Handoff τ → Prop where
  | unclaimed (none : h.waiting = []) : Grants h { h with available := h.available + 1 }
  | woke {t : τ} {rest : List τ} (taken : h.waiting.Perm (t :: rest)) :
      Grants h ⟨h.available + 1, rest, h.woken ++ [t]⟩

/-- A unit is added and no party is woken. -/
def add (h : Handoff τ) : Handoff τ := { h with available := h.available + 1 }

theorem Covered.grants (covered : Covered h) (granted : Grants h h') : Covered h' := by
  cases granted with
  | unclaimed none =>
      intro listed
      exact absurd none listed
  | @woke t rest taken =>
      intro _
      have listed : h.waiting ≠ [] := by
        intro none
        rw [none] at taken
        exact List.cons_ne_nil t rest taken.nil_eq.symm
      have before := covered listed
      simp only [List.length_append, List.length_singleton]
      omega

/-- Adding a unit without a wake-up is harmless exactly when nobody waits or a wake-up is left. -/
theorem Covered.add_iff (covered : Covered h) :
    Covered h.add ↔ h.waiting = [] ∨ h.available < h.woken.length := by
  by_cases none : h.waiting = []
  · simp [Covered, add, none]
  · have before := covered none
    simp only [Covered, add, none, ne_eq, not_false_eq_true, forall_const, false_or]
    omega

theorem Single.grants (single : Single h) (granted : Grants h h') : Single h' := by
  cases granted with
  | unclaimed none => exact single
  | @woke t rest taken =>
      have regrouped : (h.woken ++ h.waiting).Perm (h.woken ++ [t] ++ rest) := by
        rw [List.append_assoc]
        exact taken.append_left h.woken
      exact regrouped.nodup_iff.mp single

variable [DecidableEq τ]

def retried (woken : List τ) (caller : Option τ) : List τ := caller.elim woken woken.erase

/-- A caller takes a unit, or finds none and may put itself on the waiting list. -/
inductive Retries (h : Handoff τ) (caller : Option τ) (entry : List τ) : Handoff τ → Prop where
  | taken {left : Nat} (one : left + 1 = h.available) :
      Retries h caller entry ⟨left, h.waiting, retried h.woken caller⟩
  | refused (none : h.available = 0) :
      Retries h caller entry ⟨0, h.waiting ++ entry, retried h.woken caller⟩

theorem length_retried (woken : List τ) (caller : Option τ) :
    woken.length - 1 ≤ (retried woken caller).length := by
  cases caller with
  | none => exact Nat.sub_le _ 1
  | some t => exact List.le_length_erase

theorem Covered.retries {caller : Option τ} {entry : List τ} (covered : Covered h)
    (retry : Retries h caller entry h') : Covered h' := by
  have left := length_retried h.woken caller
  cases retry with
  | taken one =>
      intro listed
      have before := covered listed
      simp only
      omega
  | refused none =>
      intro _
      exact Nat.zero_le _

theorem nodup_retried {woken : List τ} (once : woken.Nodup) (caller : Option τ) :
    (retried woken caller).Nodup := by
  cases caller with
  | none => exact once
  | some t => exact once.erase t

theorem mem_of_mem_retried {woken : List τ} {caller : Option τ} {t : τ}
    (member : t ∈ retried woken caller) : t ∈ woken := by
  cases caller with
  | none => exact member
  | some c => exact List.mem_of_mem_erase member

theorem Single.retries {caller : Option τ} {entry : List τ} (single : Single h)
    (retry : Retries h caller entry h') (once : entry.Nodup)
    (own : ∀ t ∈ entry, caller = some t) (fresh : ∀ t ∈ entry, t ∉ h.waiting) : Single h' := by
  rcases List.nodup_append.mp single with ⟨woken, listed, apart⟩
  have erased := nodup_retried woken caller
  cases retry with
  | taken one =>
      refine List.nodup_append.mpr ⟨erased, listed, ?_⟩
      intro a member b other
      exact apart a (mem_of_mem_retried member) b other
  | refused none =>
      refine List.nodup_append.mpr ⟨erased, ?_, ?_⟩
      · refine List.nodup_append.mpr ⟨listed, once, ?_⟩
        intro a member b other same
        rw [same] at member
        exact fresh b other member
      · intro a member b other same
        rw [same] at member
        rcases List.mem_append.mp other with old | new
        · exact apart b (mem_of_mem_retried member) b old rfl
        · rw [own b new] at member
          exact woken.not_mem_erase member

end Handoff

end QpRs.Lib
