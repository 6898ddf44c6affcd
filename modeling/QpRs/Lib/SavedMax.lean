import Mathlib.Data.Fintype.Lattice
import Mathlib.Data.Finset.Lattice.Fold
import Mathlib.Order.Lattice.Nat

/-! A maximum that is kept by saving and restoring.

Each holder has a value. A holder that raises the maximum saves the maximum it found; when it
leaves, the saved value is restored. A holder that does not raise the maximum saves nothing. The
lemmas say which departures keep the maximum exact. -/

namespace QpRs.Lib

variable {ι : Type} [Fintype ι]

/-- `top` is the maximum of `held`, holders without a saved value are covered by one with a saved
value, and each saved value is 0 or the value of another holder that saved. -/
structure SavedMax (top : Nat) (held : ι → Nat) (saved : ι → Option Nat) : Prop where
  exact : top = Finset.univ.sup held
  covered : ∀ i, saved i = none → held i = 0 ∨ ∃ j, (saved j).isSome ∧ held i ≤ held j
  raised : ∀ i v, saved i = some v → v < held i ∧ (v = 0 ∨ ∃ j, (saved j).isSome ∧ held j = v)

theorem eq_sup_iff {top : Nat} {held : ι → Nat} :
    top = Finset.univ.sup held ↔ (∀ i, held i ≤ top) ∧ (top = 0 ∨ ∃ i, held i = top) := by
  constructor
  · rintro rfl
    refine ⟨fun i => Finset.le_sup (Finset.mem_univ i), ?_⟩
    by_cases empty : (Finset.univ : Finset ι).Nonempty
    · rcases Finset.exists_mem_eq_sup Finset.univ empty held with ⟨i, -, same⟩
      exact .inr ⟨i, same.symm⟩
    · rw [Finset.not_nonempty_iff_eq_empty.mp empty]
      exact .inl rfl
  · rintro ⟨above, attained⟩
    apply le_antisymm
    · rcases attained with rfl | ⟨i, rfl⟩
      · exact Nat.zero_le _
      · exact Finset.le_sup (Finset.mem_univ i)
    · exact Finset.sup_le fun i _ => above i

namespace SavedMax

variable {top : Nat} {held : ι → Nat} {saved : ι → Option Nat}

theorem empty : SavedMax 0 (fun _ : ι => 0) (fun _ => none) where
  exact := eq_sup_iff.mpr ⟨fun _ => le_refl 0, .inl rfl⟩
  covered _ _ := .inl rfl
  raised i v found := by cases found

theorem le_top (max : SavedMax top held saved) (i : ι) : held i ≤ top :=
  (eq_sup_iff.mp max.exact).1 i

theorem top_raised (max : SavedMax top held saved) :
    top = 0 ∨ ∃ j, (saved j).isSome ∧ held j = top := by
  rcases (eq_sup_iff.mp max.exact).2 with zero | ⟨i, same⟩
  · exact .inl zero
  · cases found : saved i with
    | some v => exact .inr ⟨i, by simp [found], same⟩
    | none =>
        rcases max.covered i found with none | ⟨j, raiser, above⟩
        · exact .inl (by omega)
        · have := max.le_top j
          exact .inr ⟨j, raiser, by omega⟩

variable [DecidableEq ι]

omit [Fintype ι] in
theorem held_update_le {i : ι} {c bound : Nat} (here : c ≤ bound)
    (others : ∀ j, j ≠ i → held j ≤ bound) (j : ι) : Function.update held i c j ≤ bound := by
  by_cases same : j = i
  · subst same
    simpa using here
  · simpa [same] using others j same

theorem replace (max : SavedMax top held saved) {i : ι} {c : Nat} (unsaved : saved i = none)
    (low : c ≤ top) :
    SavedMax top (Function.update held i c) saved := by
  have kept {j : ι} (raiser : (saved j).isSome) : Function.update held i c j = held j := by
    apply Function.update_of_ne
    rintro rfl
    simp [unsaved] at raiser
  refine ⟨eq_sup_iff.mpr ⟨held_update_le low fun j _ => max.le_top j, ?_⟩, ?_, ?_⟩
  · rcases max.top_raised with zero | ⟨j, raiser, same⟩
    · exact .inl zero
    · exact .inr ⟨j, (kept raiser).trans same⟩
  · intro j found
    by_cases here : j = i
    · subst here
      rcases max.top_raised with zero | ⟨k, raiser, same⟩
      · left
        simp only [Function.update_self]
        omega
      · right
        refine ⟨k, raiser, ?_⟩
        rw [kept raiser, Function.update_self]
        omega
    · rw [Function.update_of_ne here]
      rcases max.covered j found with zero | ⟨k, raiser, above⟩
      · exact .inl zero
      · exact .inr ⟨k, raiser, by rwa [kept raiser]⟩
  · intro j v found
    rcases max.raised j v found with ⟨below, source⟩
    rw [kept (by simp [found])]
    refine ⟨below, ?_⟩
    rcases source with zero | ⟨k, raiser, same⟩
    · exact .inl zero
    · exact .inr ⟨k, raiser, (kept raiser).trans same⟩

theorem raise (max : SavedMax top held saved) {i : ι} {c : Nat} (unsaved : saved i = none)
    (high : top < c) :
    SavedMax c (Function.update held i c) (Function.update saved i (some top)) := by
  have kept {j : ι} (raiser : (saved j).isSome) :
      Function.update held i c j = held j ∧
        (Function.update saved i (some top) j).isSome := by
    have other : j ≠ i := by
      rintro rfl
      simp [unsaved] at raiser
    simp [other, raiser]
  refine ⟨eq_sup_iff.mpr ⟨?_, .inr ⟨i, by simp⟩⟩, ?_, ?_⟩
  · apply held_update_le (le_refl c)
    intro j _
    have := max.le_top j
    omega
  · intro j found
    have other : j ≠ i := by
      rintro rfl
      simp at found
    rw [Function.update_of_ne other] at found
    rw [Function.update_of_ne other]
    rcases max.covered j found with zero | ⟨k, raiser, above⟩
    · exact .inl zero
    · exact .inr ⟨k, (kept raiser).2, by rwa [(kept raiser).1]⟩
  · intro j v found
    by_cases here : j = i
    · subst here
      simp only [Function.update_self, Option.some.injEq] at found
      subst found
      refine ⟨by simpa using high, ?_⟩
      rcases max.top_raised with zero | ⟨k, raiser, same⟩
      · exact .inl zero
      · exact .inr ⟨k, (kept raiser).2, (kept raiser).1.trans same⟩
    · rw [Function.update_of_ne here] at found
      rcases max.raised j v found with ⟨below, source⟩
      rw [(kept (by simp [found])).1]
      refine ⟨below, ?_⟩
      rcases source with zero | ⟨k, raiser, same⟩
      · exact .inl zero
      · exact .inr ⟨k, (kept raiser).2, (kept raiser).1.trans same⟩

theorem restore (max : SavedMax top held saved) {i : ι} {v : Nat} (found : saved i = some v)
    (last : ∀ j, j ≠ i → held j ≤ v) :
    SavedMax v (Function.update held i 0) (Function.update saved i none) := by
  rcases max.raised i v found with ⟨below, source⟩
  -- No other saved value is that of the leaving holder: it would be above all the others.
  have other {j : ι} {u : Nat} (there : j ≠ i) (saves : saved j = some u) : u ≠ held i := by
    rintro rfl
    have := (max.raised j _ saves).1
    have := last j there
    omega
  have kept {j : ι} (there : j ≠ i) (raiser : (saved j).isSome) :
      Function.update held i 0 j = held j ∧ (Function.update saved i none j).isSome := by
    simp [there, raiser]
  have distinct {j : ι} (same : held j = v) : j ≠ i := by
    rintro rfl
    omega
  refine ⟨eq_sup_iff.mpr ⟨held_update_le (Nat.zero_le _) last, ?_⟩, ?_, ?_⟩
  · rcases source with zero | ⟨j, raiser, same⟩
    · exact .inl zero
    · exact .inr ⟨j, (kept (distinct same) raiser).1.trans same⟩
  · intro j unsaved
    by_cases here : j = i
    · subst here
      exact .inl (by simp)
    · rw [Function.update_of_ne here] at unsaved ⊢
      have low := last j here
      rcases source with zero | ⟨k, raiser, same⟩
      · exact .inl (by omega)
      · refine .inr ⟨k, (kept (distinct same) raiser).2, ?_⟩
        rw [(kept (distinct same) raiser).1]
        omega
  · intro j u saves
    have here : j ≠ i := by
      rintro rfl
      simp at saves
    rw [Function.update_of_ne here] at saves
    rcases max.raised j u saves with ⟨less, origin⟩
    rw [Function.update_of_ne here]
    refine ⟨less, ?_⟩
    rcases origin with zero | ⟨k, raiser, same⟩
    · exact .inl zero
    · have there : k ≠ i := by
        rintro rfl
        exact other here saves same.symm
      exact .inr ⟨k, (kept there raiser).2, (kept there raiser).1.trans same⟩

end SavedMax

end QpRs.Lib
