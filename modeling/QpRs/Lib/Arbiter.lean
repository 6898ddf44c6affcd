import Mathlib.Data.Set.Insert
import Mathlib.Data.List.Nodup

/-! Clients that need several resources at once, and an arbiter that grants all of them together.

`needs i` are the resources of client `i`. Two holders never share a resource, and a client that
waits holds nothing. -/

namespace QpRs.Lib

/-- The clients `i` and `j` need a common resource. -/
def Shares {ι ρ : Type*} (needs : ι → Set ρ) (i j : ι) : Prop := ∃ r ∈ needs i, r ∈ needs j

structure Arbiter {ι ρ : Type*} (needs : ι → Set ρ) where
  holders : Set ι
  waiting : Set ι
  exclusive : ∀ i ∈ holders, ∀ j ∈ holders, i ≠ j → ¬Shares needs i j
  empty_handed : ∀ i ∈ waiting, i ∉ holders

namespace Arbiter

variable {ι ρ : Type*} {needs : ι → Set ρ}

def idle : Arbiter needs where
  holders := ∅
  waiting := ∅
  exclusive _ member := absurd member (Set.notMem_empty _)
  empty_handed _ member := absurd member (Set.notMem_empty _)

def Free (a : Arbiter needs) (r : ρ) : Prop := ∀ i ∈ a.holders, r ∉ needs i

/-- All that `i` needs is free. -/
def Servable (a : Arbiter needs) (i : ι) : Prop := ∀ r ∈ needs i, a.Free r

/-- Nobody waits for resources that are free. -/
def Settled (a : Arbiter needs) : Prop := ∀ i ∈ a.waiting, ¬a.Servable i

def grant (a : Arbiter needs) (i : ι) (servable : a.Servable i) : Arbiter needs where
  holders := insert i a.holders
  waiting := a.waiting \ {i}
  exclusive := by
    have apart (j : ι) (held : j ∈ a.holders) : ¬Shares needs i j :=
      fun ⟨r, wanted, used⟩ => servable r wanted j held used
    intro j first k second other
    rcases first with rfl | first
    · rcases second with rfl | second
      · exact absurd rfl other
      · exact apart k second
    · rcases second with rfl | second
      · exact fun ⟨r, used, wanted⟩ => apart j first ⟨r, wanted, used⟩
      · exact a.exclusive j first k second other
  empty_handed := by
    intro j waits holds
    rcases holds with rfl | holds
    · exact waits.2 rfl
    · exact a.empty_handed j waits.1 holds

def wait (a : Arbiter needs) (i : ι) (unserved : i ∉ a.holders) : Arbiter needs where
  holders := a.holders
  waiting := insert i a.waiting
  exclusive := a.exclusive
  empty_handed := by
    intro j waits
    rcases waits with rfl | waits
    · exact unserved
    · exact a.empty_handed j waits

def release (a : Arbiter needs) (i : ι) : Arbiter needs where
  holders := a.holders \ {i}
  waiting := a.waiting
  exclusive j first k second := a.exclusive j first.1 k second.1
  empty_handed j waits holds := a.empty_handed j waits holds.1

section Resources

variable {a : Arbiter needs} {i : ι} {r : ρ}

theorem free_idle (r : ρ) : (idle : Arbiter needs).Free r :=
  fun _ member => absurd member (Set.notMem_empty _)

theorem free_grant {servable : a.Servable i} :
    (a.grant i servable).Free r ↔ a.Free r ∧ r ∉ needs i := by
  constructor
  · intro free
    exact ⟨fun j held => free j (Set.mem_insert_of_mem i held), free i (Set.mem_insert i _)⟩
  · intro ⟨free, unused⟩ j held
    rcases held with rfl | held
    · exact unused
    · exact free j held

theorem free_release (held : i ∈ a.holders) :
    (a.release i).Free r ↔ a.Free r ∨ r ∈ needs i := by
  constructor
  · intro free
    by_cases used : r ∈ needs i
    · exact .inr used
    · left
      intro j holds
      by_cases same : j = i
      · rw [same]
        exact used
      · exact free j ⟨holds, same⟩
  · intro either j holds
    rcases either with free | used
    · exact free j holds.1
    · have apart := a.exclusive i held j holds.1 (Ne.symm holds.2)
      exact fun wanted => apart ⟨r, used, wanted⟩

theorem blocked (unservable : ¬a.Servable i) :
    ∃ j ∈ a.holders, Shares needs i j := by
  unfold Servable Free at unservable
  push Not at unservable
  obtain ⟨r, wanted, j, held, used⟩ := unservable
  exact ⟨j, held, r, wanted, used⟩

theorem servable_release {j : ι} (held : i ∈ a.holders) (later : (a.release i).Servable j)
    (before : ¬a.Servable j) : Shares needs i j := by
  by_contra apart
  apply before
  intro r wanted
  rcases (free_release held).mp (later r wanted) with free | used
  · exact free
  · exact absurd ⟨r, used, wanted⟩ apart

end Resources

/-- From `a` on, the clients `granted` got their turn, each once, and nothing else happened. -/
structure Serving (a b : Arbiter needs) (granted : List ι) : Prop where
  holders : ∀ i, i ∈ b.holders ↔ i ∈ a.holders ∨ i ∈ granted
  waiting : ∀ i, i ∈ b.waiting ↔ i ∈ a.waiting ∧ i ∉ granted
  waited : ∀ i ∈ granted, i ∈ a.waiting
  once : granted.Nodup

section Serving

variable {a b c : Arbiter needs} {first second : List ι}

theorem Serving.refl (a : Arbiter needs) : Serving a a [] :=
  ⟨by simp, by simp, by simp, .nil⟩

theorem Serving.grant {i : ι} (waits : i ∈ a.waiting) (servable : a.Servable i) :
    Serving a (a.grant i servable) [i] := by
  refine ⟨?_, ?_, ?_, List.nodup_singleton i⟩
  · intro j
    rw [List.mem_singleton]
    exact or_comm
  · intro j
    rw [List.mem_singleton]
    exact Iff.rfl
  · intro j member
    rw [List.mem_singleton.mp member]
    exact waits

theorem Serving.trans (one : Serving a b first) (two : Serving b c second) :
    Serving a c (first ++ second) := by
  refine ⟨?_, ?_, ?_, ?_⟩
  · intro i
    rw [two.holders, one.holders, List.mem_append, or_assoc]
  · intro i
    rw [two.waiting, one.waiting, List.mem_append, not_or, and_assoc]
  · intro i member
    rcases List.mem_append.mp member with early | late
    · exact one.waited i early
    · exact ((one.waiting i).mp (two.waited i late)).1
  · apply List.nodup_append.mpr
    refine ⟨one.once, two.once, ?_⟩
    intro i early j late same
    subst same
    exact ((one.waiting i).mp (two.waited i late)).2 early

/-- Serving makes nobody servable. -/
theorem Serving.servable (serving : Serving a b first) {i : ι} (later : b.Servable i) :
    a.Servable i := by
  intro r wanted j held
  exact later r wanted j ((serving.holders j).mpr (.inl held))

end Serving

end Arbiter

end QpRs.Lib
