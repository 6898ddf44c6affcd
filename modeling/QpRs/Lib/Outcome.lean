import Mathlib.Data.List.Basic

/-! Fallible computations: that one returns, and the agreement of two, which both return, with
related values, or both fail with the same error. -/

namespace QpRs.Lib

variable {ε α β γ δ : Type}

def Agree (related : α → β → Prop) : Except ε α → Except ε β → Prop
  | .ok a, .ok b => related a b
  | .error e, .error e' => e = e'
  | _, _ => False

theorem Agree.ok {related : α → β → Prop} {a : α} {b : β} (same : related a b) :
    Agree related (.ok a : Except ε α) (.ok b) := same

theorem Agree.returns {related : α → β → Prop} {x : Except ε α} {y : Except ε β} {a : α}
    (same : Agree related x y) (ran : x = .ok a) : ∃ b, y = .ok b ∧ related a b := by
  subst ran
  cases y with
  | error e => exact same.elim
  | ok b => exact ⟨b, rfl, same⟩

theorem Agree.bind {related : α → β → Prop} {related' : γ → δ → Prop}
    {x : Except ε α} {y : Except ε β} {f : α → Except ε γ} {g : β → Except ε δ}
    (first : Agree related x y) (next : ∀ a b, related a b → Agree related' (f a) (g b)) :
    Agree related' (x >>= f) (y >>= g) := by
  cases x with
  | error e =>
      cases y with
      | error e' => exact first
      | ok b => exact first.elim
  | ok a =>
      cases y with
      | error e' => exact first.elim
      | ok b => exact next a b first

theorem Agree.map {related : α → β → Prop} {related' : γ → δ → Prop} {x : Except ε α}
    {y : Except ε β} {f : α → γ} {g : β → δ} (first : Agree related x y)
    (next : ∀ a b, related a b → related' (f a) (g b)) : Agree related' (x.map f) (y.map g) := by
  cases x with
  | error e =>
      cases y with
      | error e' => exact first
      | ok b => exact first.elim
  | ok a =>
      cases y with
      | error e' => exact first.elim
      | ok b => exact next a b first

theorem Agree.of_map {related : γ → β → Prop} {x : Except ε α} {y : Except ε β} {f : α → γ}
    (same : Agree related (x.map f) y) : Agree (fun a b => related (f a) b) x y := by
  cases x with
  | error e =>
      cases y with
      | error e' => exact same
      | ok b => exact same.elim
  | ok a =>
      cases y with
      | error e' => exact same.elim
      | ok b => exact same

theorem Agree.imp {related related' : α → β → Prop} {x : Except ε α} {y : Except ε β}
    (first : Agree related x y) (next : ∀ a b, related a b → related' a b) :
    Agree related' x y := by
  cases x with
  | error e =>
      cases y with
      | error e' => exact first
      | ok b => exact first.elim
  | ok a =>
      cases y with
      | error e' => exact first.elim
      | ok b => exact next a b first

theorem Agree.and_right {related : α → β → Prop} {holds : β → Prop} {x : Except ε α}
    {y : Except ε β} (same : Agree related x y) (known : ∀ b, y = .ok b → holds b) :
    Agree (fun a b => related a b ∧ holds b) x y := by
  cases x with
  | error e =>
      cases y with
      | error e' => exact same
      | ok b => exact same.elim
  | ok a =>
      cases y with
      | error e' => exact same.elim
      | ok b => exact ⟨same, known b rfl⟩

def Returns (x : Except ε α) : Prop := ∃ a, x = .ok a

theorem Returns.ok (a : α) : Returns (.ok a : Except ε α) := ⟨a, rfl⟩

theorem Returns.ite {p : Prop} [Decidable p] {x y : Except ε α} (yes : p → Returns x)
    (no : ¬p → Returns y) : Returns (if p then x else y) := by
  by_cases holds : p
  · rw [if_pos holds]
    exact yes holds
  · rw [if_neg holds]
    exact no holds

theorem Returns.bind_ok {x : Except ε α} {f : α → Except ε γ} {a : α} (ran : x = .ok a)
    (next : Returns (f a)) : Returns (x >>= f) := by
  rw [ran]
  exact next

theorem Returns.bind {x : Except ε α} {f : α → Except ε γ} (first : Returns x)
    (next : ∀ a, Returns (f a)) : Returns (x >>= f) := by
  obtain ⟨a, ran⟩ := first
  exact Returns.bind_ok ran (next a)

@[simp] theorem ok_bind (a : α) (f : α → Except ε γ) : (Except.ok a >>= f) = f a := rfl

theorem bind_ok {x : Except ε α} {f : α → Except ε γ} {c : γ} (ran : x >>= f = .ok c) :
    ∃ a, x = .ok a ∧ f a = .ok c := by
  cases x with
  | error e => cases ran
  | ok a => exact ⟨a, rfl, ran⟩

theorem map_ok {x : Except ε α} {f : α → γ} {c : γ} (ran : x.map f = .ok c) :
    ∃ a, x = .ok a ∧ f a = c := by
  cases x with
  | error e => cases ran
  | ok a => exact ⟨a, rfl, Except.ok.inj ran⟩

theorem ok_of_toOption {x : Except ε α} {a : α} (some_value : x.toOption = some a) :
    x = .ok a := by
  cases x with
  | error e => cases some_value
  | ok b => exact congrArg Except.ok (Option.some.inj some_value)

end QpRs.Lib
