import Mathlib.Data.List.Basic

/-! Logs of changes of a holder: each entry names the holder before and after a change. When the
entries form a chain, the times of the changes give the time that each holder had. -/

namespace QpRs.Lib

variable {α : Type}

/-- The first entry leaves `start`, each later one the holder of the entry before it, and none stays
at the same holder. -/
def Chained : α → List (α × α) → Prop
  | _, [] => True
  | start, (before, after) :: rest => before = start ∧ before ≠ after ∧ Chained after rest

def holder (start : α) (log : List (α × α)) : α := log.foldl (fun _ change => change.2) start

@[simp] theorem holder_append (start : α) (log more : List (α × α)) :
    holder start (log ++ more) = holder (holder start log) more := List.foldl_append

theorem chained_append {start : α} {log more : List (α × α)} :
    Chained start (log ++ more) ↔ Chained start log ∧ Chained (holder start log) more := by
  induction log generalizing start with
  | nil => exact ⟨fun chained => ⟨trivial, chained⟩, And.right⟩
  | cons change rest ih =>
      obtain ⟨before, after⟩ := change
      rw [List.cons_append, Chained, Chained, ih, and_assoc, and_assoc]
      rfl

theorem Chained.change {start : α} {log : List (α × α)} (chained : Chained start log)
    {before after : α}
    (present : holder start log = before) (other : before ≠ after) :
    Chained start (log ++ [(before, after)]) :=
  chained_append.mpr ⟨chained, present.symm, other, trivial⟩

def Until (stop : Nat) (log : List ((α × α) × Nat)) : Prop := ∀ entry ∈ log, entry.2 ≤ stop

theorem Until.later {stop later : Nat} {log : List ((α × α) × Nat)} (past : Until stop log)
    (after : stop ≤ later) : Until later log :=
  fun entry member => Nat.le_trans (past entry member) after

theorem Until.append_now {stop : Nat} {log : List ((α × α) × Nat)} (past : Until stop log)
    (changes : List (α × α)) : Until stop (log ++ changes.map (·, stop)) := by
  intro entry member
  rcases List.mem_append.mp member with before | now
  · exact past entry before
  · obtain ⟨change, -, rfl⟩ := List.mem_map.mp now
    exact Nat.le_refl stop

variable [DecidableEq α]

/-- The time up to `stop` that the log gives to `who`: `present` holds since `since`, and each entry
carries the time of its change. -/
def spent (who : α) : α → Nat → List ((α × α) × Nat) → Nat → Nat
  | present, since, [], stop => if present = who then stop - since else 0
  | present, since, (change, time) :: rest, stop =>
      (if present = who then time - since else 0) + spent who change.2 time rest stop

theorem spent_append_now (who present : α) (since : Nat) (log : List ((α × α) × Nat))
    (changes : List (α × α)) (stop : Nat) :
    spent who present since (log ++ changes.map (·, stop)) stop =
      spent who present since log stop := by
  have nothing (present : α) (changes : List (α × α)) :
      spent who present stop (changes.map (·, stop)) stop = 0 := by
    induction changes generalizing present with
    | nil => simp [spent]
    | cons change rest ih => simp [spent, ih]
  induction log generalizing present since with
  | nil =>
      cases changes with
      | nil => rfl
      | cons change rest => simp [spent, nothing]
  | cons entry rest ih => rw [List.cons_append, spent, spent, ih]

theorem spent_later (who present : α) {since stop : Nat} {log : List ((α × α) × Nat)}
    (started : since ≤ stop) (past : Until stop log) (elapsed : Nat) :
    spent who present since log (stop + elapsed) =
      spent who present since log stop +
        if holder present (log.map Prod.fst) = who then elapsed else 0 := by
  induction log generalizing present since with
  | nil =>
      rw [spent, spent, List.map_nil, holder, List.foldl_nil]
      split <;> omega
  | cons entry rest ih =>
      obtain ⟨change, time⟩ := entry
      have later := ih change.2 (past (change, time) List.mem_cons_self)
        fun entry member => past entry (List.mem_cons_of_mem _ member)
      rw [spent, spent, later, Nat.add_assoc]
      rfl

end QpRs.Lib
