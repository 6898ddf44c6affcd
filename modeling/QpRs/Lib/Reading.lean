import Mathlib.Data.Nat.Notation

/-! Readers: computations that take values off a source one after the other, and may fail.

`left` measures what a source still holds. A reader that spends more than is left fails, so a
source that is too short for a sequence of reads is refused, whatever the reads are for.

`holds` says what a source still holds. A reader that takes a text off every source that starts
with it can be followed by a reader of the next text, so what was written part by part is read
part by part. -/

namespace QpRs.Lib

variable {σ ι α β : Type}

abbrev Read (σ α : Type) := StateT σ Option α

/-- Whenever the reader gives a value it has taken `n` off the source. -/
def Spends (left : σ → Nat) (n : Nat) (read : Read σ α) : Prop :=
  ∀ s a t, read s = some (a, t) → left t + n ≤ left s

variable {left : σ → Nat}

theorem Spends.pure (a : α) : Spends left 0 (pure a : Read σ α) := by
  intro s a t read
  cases read
  exact Nat.le_refl _

theorem Spends.weaken {m n : Nat} {read : Read σ α} (spends : Spends left m read) (le : n ≤ m) :
    Spends left n read := by
  intro s a t ran
  have taken := spends s a t ran
  omega

theorem Spends.fails (n : Nat) : Spends left n (failure : Read σ α) := by
  intro s a t read
  cases read

theorem Spends.bind {m n : Nat} {read : Read σ α} {next : α → Read σ β}
    (first : Spends left m read) (later : ∀ a, Spends left n (next a)) :
    Spends left (m + n) (read >>= next) := by
  intro s b u both
  obtain ⟨⟨a, t⟩, one, two⟩ := Option.bind_eq_some_iff.mp both
  have before := first s a t one
  have after := later a t b u two
  omega

theorem Spends.map {n : Nat} {read : Read σ α} (f : α → β) (first : Spends left n read) :
    Spends left n (f <$> read) := by
  intro s b t both
  obtain ⟨⟨a, _⟩, one, two⟩ := Option.bind_eq_some_iff.mp both
  cases two
  exact first s a _ one

theorem Spends.refuses {n : Nat} {read : Read σ α} (spends : Spends left n read) {s : σ}
    (short : left s < n) : read s = none := by
  cases ran : read s with
  | none => rfl
  | some result =>
      have taken := spends s result.1 result.2 ran
      omega

/-- Off a source that starts with `taken` the reader takes just that, and gives `a`. -/
def Takes (holds : σ → List ι → Prop) (taken : List ι) (a : α) (read : Read σ α) : Prop :=
  ∀ s rest, holds s (taken ++ rest) → ∃ t, read s = some (a, t) ∧ holds t rest

variable {holds : σ → List ι → Prop} {taken more : List ι} {a : α}

theorem Takes.pure (a : α) : Takes holds [] a (pure a : Read σ α) := by
  intro s rest held
  exact ⟨s, rfl, held⟩

theorem Takes.bind {b : β} {read : Read σ α} {next : α → Read σ β}
    (first : Takes holds taken a read) (later : Takes holds more b (next a)) :
    Takes holds (taken ++ more) b (read >>= next) := by
  intro s rest held
  rw [List.append_assoc] at held
  obtain ⟨t, one, between⟩ := first s _ held
  obtain ⟨u, two, after⟩ := later t rest between
  exact ⟨u, Option.bind_eq_some_iff.mpr ⟨(a, t), one, two⟩, after⟩

/-- The last reader of a sequence. -/
theorem Takes.last {b : β} {read : Read σ α} {next : α → Read σ β}
    (first : Takes holds taken a read) (returns : next a = Pure.pure b) :
    Takes holds taken b (read >>= next) := by
  have later : Takes holds [] b (next a) := by
    rw [returns]
    exact .pure b
  have both := first.bind later
  rw [List.append_nil] at both
  exact both

theorem Takes.map {read : Read σ α} (f : α → β) (first : Takes holds taken a read) :
    Takes holds taken (f a) (f <$> read) := by
  intro s rest held
  obtain ⟨t, one, after⟩ := first s rest held
  exact ⟨t, Option.bind_eq_some_iff.mpr ⟨(a, t), one, rfl⟩, after⟩

end QpRs.Lib
