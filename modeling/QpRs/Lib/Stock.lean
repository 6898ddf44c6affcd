import Mathlib.Data.List.Basic

/-! A stock of distinct things that are lent out and given back. The one given back last is lent
first. -/

namespace QpRs.Lib

structure Stock (α : Type) where
  all : List α
  free : List α
  least : Nat
  distinct : all.Nodup
  owned : ∀ x ∈ free, x ∈ all
  once : free.Nodup
  low : least ≤ free.length

namespace Stock

variable {α : Type} {s : Stock α} {x y : α} {margin : Nat}

def full (all : List α) (distinct : all.Nodup) : Stock α :=
  ⟨all, all, all.length, distinct, fun _ member => member, distinct, Nat.le_refl _⟩

def Lent (s : Stock α) (x : α) : Prop := x ∈ s.all ∧ x ∉ s.free

instance [DecidableEq α] (s : Stock α) (x : α) : Decidable (s.Lent x) :=
  inferInstanceAs (Decidable (_ ∧ _))

/-- What is lent leaves at least `margin` free. -/
def get (s : Stock α) (margin : Nat) : Option α × Stock α :=
  if margin + 1 ≤ s.free.length then
    (s.free.head?,
      { s with
        free := s.free.tail
        least := min s.least s.free.tail.length
        owned := fun x member => s.owned x (List.mem_of_mem_tail member)
        once := s.once.tail
        low := Nat.min_le_right _ _ })
  else (none, s)

def put [DecidableEq α] (s : Stock α) (x : α) : Stock α :=
  if lent : s.Lent x then
    { s with
      free := x :: s.free
      owned := fun y member =>
        (List.mem_cons.mp member).elim (fun same => same ▸ lent.1) (s.owned y)
      once := List.nodup_cons.mpr ⟨lent.2, s.once⟩
      low := Nat.le_succ_of_le s.low }
  else s

theorem length_free_le (s : Stock α) : s.free.length ≤ s.all.length :=
  s.once.length_le_of_subset s.owned

theorem get_some (granted : (s.get margin).1 = some x) :
    s.free = x :: (s.get margin).2.free ∧ (s.get margin).2.all = s.all ∧
      (s.get margin).2.least = min s.least (s.get margin).2.free.length := by
  by_cases enough : margin + 1 ≤ s.free.length
  · rw [get, if_pos enough] at granted ⊢
    exact ⟨List.eq_cons_of_mem_head? granted, rfl, rfl⟩
  · rw [get, if_neg enough] at granted
    cases granted

theorem get_isSome : (s.get margin).1.isSome ↔ margin + 1 ≤ s.free.length := by
  by_cases enough : margin + 1 ≤ s.free.length
  · have some_free : s.free ≠ [] := List.ne_nil_of_length_pos (by omega)
    simp [get, enough, some_free]
  · simp [get, enough]

theorem get_none (refused : (s.get margin).1 = none) : (s.get margin).2 = s := by
  have short : ¬margin + 1 ≤ s.free.length := by
    rw [← get_isSome, refused]
    exact Bool.false_ne_true
  rw [get, if_neg short]

theorem get_lent (granted : (s.get margin).1 = some x) :
    ¬s.Lent x ∧ ∀ y, (s.get margin).2.Lent y ↔ y = x ∨ s.Lent y := by
  obtain ⟨shape, all, _⟩ := get_some granted
  have head : x ∈ s.free := by
    rw [shape]
    exact List.mem_cons_self
  have gone : x ∉ (s.get margin).2.free := by
    have once := s.once
    rw [shape] at once
    exact (List.nodup_cons.mp once).1
  refine ⟨fun lent => lent.2 head, ?_⟩
  intro y
  rw [Lent, Lent, all, shape, List.mem_cons]
  constructor
  · rintro ⟨owned, out⟩
    by_cases same : y = x
    · exact Or.inl same
    · exact Or.inr ⟨owned, not_or.mpr ⟨same, out⟩⟩
  · rintro (rfl | ⟨owned, out⟩)
    · exact ⟨s.owned y head, gone⟩
    · exact ⟨owned, (not_or.mp out).2⟩

variable [DecidableEq α]

theorem put_lent (lent : s.Lent x) :
    (s.put x).free = x :: s.free ∧ (s.put x).all = s.all ∧ (s.put x).least = s.least ∧
      ∀ y, (s.put x).Lent y ↔ y ≠ x ∧ s.Lent y := by
  rw [put, dif_pos lent]
  refine ⟨rfl, rfl, rfl, ?_⟩
  intro y
  simp only [Lent, List.mem_cons, not_or]
  constructor
  · rintro ⟨owned, other, out⟩
    exact ⟨other, owned, out⟩
  · rintro ⟨other, owned, out⟩
    exact ⟨owned, other, out⟩

end Stock

end QpRs.Lib
