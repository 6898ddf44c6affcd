import Mathlib.Data.List.Basic
import Mathlib.Data.Nat.Notation

/-! Messages numbered by a counter of which only the low part is sent. A receiver that has the same
counter finds the number again, as long as it does not miss too many messages in a row. -/

namespace QpRs.Lib

variable {α β γ : Type}

/-- The messages in the order of their numbers, which only go up. -/
def Increasing (number : α → ℕ) (sent : List α) : Prop :=
  sent.Pairwise fun x y => number x < number y

theorem Increasing.push {number : α → ℕ} {sent : List α} (increasing : Increasing number sent)
    {x : α} (above : ∀ y ∈ sent, number y < number x) : Increasing number (sent ++ [x]) := by
  apply List.pairwise_append.mpr
  refine ⟨increasing, List.pairwise_singleton _ x, ?_⟩
  intro y earlier z last
  rw [List.mem_singleton.mp last]
  exact above y earlier

theorem Increasing.congr {number : α → ℕ} {sent again : List α}
    (increasing : Increasing number sent) (same : again.map number = sent.map number) :
    Increasing number again := by
  apply List.pairwise_map.mp
  rw [same]
  exact List.pairwise_map.mpr increasing

theorem Increasing.unique {number : α → ℕ} {sent : List α} (increasing : Increasing number sent)
    {x y : α} (first : x ∈ sent) (second : y ∈ sent) (same : number x = number y) : x = y := by
  induction sent with
  | nil => cases first
  | cons z rest ih =>
      have parts := List.pairwise_cons.mp increasing
      rcases List.mem_cons.mp first with head | first
      · rcases List.mem_cons.mp second with head' | second
        · exact head.trans head'.symm
        · have below := parts.1 y second
          rw [← head, same] at below
          exact absurd below (Nat.lt_irrefl _)
      · rcases List.mem_cons.mp second with head | second
        · have below := parts.1 x first
          rw [← head, same] at below
          exact absurd below (Nat.lt_irrefl _)
        · exact ih parts.2 first second

/-- The first number from `next` on that is `low` modulo `m`. -/
def fromLow (m next low : ℕ) : ℕ := next + (low + (m - next % m)) % m

theorem fromLow_eq {m next n : ℕ} (reached : next ≤ n) (near : n < next + m) :
    fromLow m next (n % m) = n := by
  have bound : next % m < m := Nat.mod_lt next (by omega)
  have ahead : (n % m + (m - next % m)) % m = n - next := by
    have split : n = next + (n - next) := by omega
    have low : n % m = (next % m + (n - next)) % m := by
      rw [Nat.mod_add_mod, ← split]
    rw [low, Nat.mod_add_mod]
    have turn : next % m + (n - next) + (m - next % m) = n - next + m := by omega
    rw [turn, Nat.add_mod_right, Nat.mod_eq_of_lt (by omega)]
  rw [fromLow, ahead]
  omega

/-- A receiver at the number `next` and what it makes of a message: it opens it under the number
that it finds, and then expects larger ones. -/
def hear (m : ℕ) (low : β → ℕ) (opened : ℕ → β → Option γ) (next : ℕ) (b : β) :
    Option γ × ℕ :=
  match opened (fromLow m next (low b)) b with
  | some c => (some c, fromLow m next (low b) + 1)
  | none => (none, next)

def hearAll (m : ℕ) (low : β → ℕ) (opened : ℕ → β → Option γ) : ℕ → List β → List γ
  | _, [] => []
  | next, b :: rest =>
    (hear m low opened next b).1.toList ++
      hearAll m low opened (hear m low opened next b).2 rest

/-- Fewer than `m` messages in a row are missing, the first one counted from `next`. -/
def Near (m : ℕ) (number : α → ℕ) : ℕ → List α → Prop
  | _, [] => True
  | next, x :: rest => next ≤ number x ∧ number x < next + m ∧ Near m number (number x + 1) rest

theorem Increasing.length_le {number : α → ℕ} {sent : List α} (increasing : Increasing number sent)
    {first last : ℕ} (ordered : first ≤ last)
    (inside : ∀ x ∈ sent, first ≤ number x ∧ number x < last) :
    first + sent.length ≤ last := by
  induction sent generalizing first with
  | nil => exact ordered
  | cons x rest ih =>
      have parts := List.pairwise_cons.mp increasing
      have here := inside x List.mem_cons_self
      have later : number x + 1 + rest.length ≤ last := by
        apply ih parts.2 here.2
        intro y there
        exact ⟨parts.1 y there, (inside y (List.mem_cons_of_mem x there)).2⟩
      rw [List.length_cons]
      omega

/-- When as many messages are sent as there are numbers, none is missing. -/
theorem Increasing.near {number : α → ℕ} {sent : List α} (increasing : Increasing number sent)
    {m next : ℕ} (some_low : 0 < m)
    (inside : ∀ x ∈ sent, next ≤ number x ∧ number x < next + sent.length) :
    Near m number next sent := by
  induction sent generalizing next with
  | nil => trivial
  | cons x rest ih =>
      have parts := List.pairwise_cons.mp increasing
      have here := inside x List.mem_cons_self
      have above (y : α) (there : y ∈ rest) :
          number x + 1 ≤ number y ∧ number y < next + (x :: rest).length :=
        ⟨parts.1 y there, (inside y (List.mem_cons_of_mem x there)).2⟩
      have room := Increasing.length_le parts.2 here.2 above
      rw [List.length_cons] at room here above
      have first : number x = next := by omega
      refine ⟨here.1, by omega, ih parts.2 ?_⟩
      intro y there
      have bounds := above y there
      omega

theorem Increasing.near_of_lt {number : α → ℕ} {sent : List α} (increasing : Increasing number sent)
    {m next : ℕ} (inside : ∀ x ∈ sent, next ≤ number x ∧ number x < next + m) :
    Near m number next sent := by
  induction sent generalizing next with
  | nil => trivial
  | cons x rest ih =>
      have parts := List.pairwise_cons.mp increasing
      have here := inside x List.mem_cons_self
      refine ⟨here.1, here.2, ih parts.2 ?_⟩
      intro y there
      have above := parts.1 y there
      have bounds := inside y (List.mem_cons_of_mem x there)
      omega

/-- The receiver gets the contents of all messages that come to it, in order. -/
theorem hearAll_near {m : ℕ} {low : β → ℕ} {opened : ℕ → β → Option γ} {number : α → ℕ}
    {wire : α → β} {content : α → γ} (heard : List α)
    (numbered : ∀ x ∈ heard, low (wire x) = number x % m)
    (opens : ∀ x ∈ heard, opened (number x) (wire x) = some (content x)) {next : ℕ}
    (near : Near m number next heard) :
    hearAll m low opened next (heard.map wire) = heard.map content := by
  induction heard generalizing next with
  | nil => rfl
  | cons x rest ih =>
      have here := List.mem_cons_self (a := x) (l := rest)
      have found : fromLow m next (low (wire x)) = number x := by
        rw [numbered x here]
        exact fromLow_eq near.1 near.2.1
      have heard : hear m low opened next (wire x) = (some (content x), number x + 1) := by
        rw [hear, found, opens x here]
      have later := ih (fun y there => numbered y (List.mem_cons_of_mem x there))
        (fun y there => opens y (List.mem_cons_of_mem x there)) near.2.2
      rw [List.map_cons, hearAll, heard, later]
      rfl

end QpRs.Lib
