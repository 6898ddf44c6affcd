import Mathlib.Data.List.Basic

/-! Runs of a labelled step function and the invariant rules for them.

A system is a function `step : σ → α → Option σ`; a label that is not enabled in a state gives
`none`. The labels carry every choice of the environment, so a run is a list of labels. -/

namespace QpRs.Lib

variable {σ α : Type}

def run (step : σ → α → Option σ) : σ → List α → Option σ
  | s, [] => some s
  | s, a :: rest => (step s a).bind fun t => run step t rest

/-- `Along step good s labels`: every step of the run meets `good` in the state it starts from. -/
def Along (step : σ → α → Option σ) (good : σ → α → Prop) : σ → List α → Prop
  | _, [] => True
  | s, a :: rest => good s a ∧ ∀ t, step s a = some t → Along step good t rest

variable {step : σ → α → Option σ}

theorem run_cons {s t : σ} {a : α} {rest : List α} (ran : run step s (a :: rest) = some t) :
    ∃ u, step s a = some u ∧ run step u rest = some t := by
  simpa [run, Option.bind_eq_some_iff] using ran

theorem run_append (s : σ) (first later : List α) :
    run step s (first ++ later) = (run step s first).bind fun t => run step t later := by
  induction first generalizing s with
  | nil => rfl
  | cons a rest ih =>
      cases stepped : step s a with
      | none => simp [run, stepped]
      | some u => simp [run, stepped, ih u]

/-- The invariant rule for runs whose steps all meet a condition on the state before the step. -/
theorem along_preserves {Inv : σ → Prop} {good : σ → α → Prop}
    (preserved : ∀ s a t, Inv s → good s a → step s a = some t → Inv t)
    {s t : σ} {labels : List α} (start : Inv s) (met : Along step good s labels)
    (ran : run step s labels = some t) : Inv t := by
  induction labels generalizing s with
  | nil =>
      cases ran
      exact start
  | cons a rest ih =>
      obtain ⟨u, stepped, ran⟩ := run_cons ran
      exact ih (preserved s a u start met.1 stepped) (met.2 u stepped) ran

theorem along_cons {good : σ → α → Prop} {s u : σ} {a : α} {rest : List α}
    (stepped : step s a = some u) (met : good s a) (later : Along step good u rest) :
    Along step good s (a :: rest) := by
  refine ⟨met, ?_⟩
  intro t same
  rw [stepped] at same
  cases same
  exact later

theorem along_stuck {good : σ → α → Prop} {s : σ} {a : α} {rest : List α}
    (stuck : step s a = none) (met : good s a) : Along step good s (a :: rest) := by
  refine ⟨met, ?_⟩
  intro t stepped
  rw [stuck] at stepped
  cases stepped

instance along_decidable {good : σ → α → Prop} [decides : ∀ s a, Decidable (good s a)] (s : σ) :
    (labels : List α) → Decidable (Along step good s labels)
  | [] => .isTrue trivial
  | a :: rest =>
    match decides s a, h : step s a with
    | .isFalse no, _ => .isFalse fun met => no met.1
    | .isTrue met, none => .isTrue (along_stuck h met)
    | .isTrue met, some u =>
      match along_decidable u rest with
      | .isTrue later => .isTrue (along_cons h met later)
      | .isFalse no => .isFalse fun all => no (all.2 u h)

/-- One condition on the steps gives another, by way of an invariant of the runs that meet it. -/
theorem along_weaken {Inv : σ → Prop} {good weaker : σ → α → Prop}
    (preserved : ∀ s a t, Inv s → good s a → step s a = some t → Inv t)
    (implied : ∀ s a, Inv s → good s a → weaker s a)
    {s : σ} {labels : List α} (start : Inv s) (met : Along step good s labels) :
    Along step weaker s labels := by
  induction labels generalizing s with
  | nil => trivial
  | cons a rest ih =>
      refine ⟨implied s a start met.1, ?_⟩
      intro t stepped
      exact ih (preserved s a t start met.1 stepped) (met.2 t stepped)

theorem along_of_forall {good : σ → α → Prop} (always : ∀ s a, good s a) (s : σ) (labels : List α) :
    Along step good s labels := by
  induction labels generalizing s with
  | nil => trivial
  | cons a rest ih => exact ⟨always s a, fun t _ => ih t⟩

theorem along_of_mem {good : α → Prop} (s : σ) {labels : List α} (all : ∀ a ∈ labels, good a) :
    Along step (fun _ a => good a) s labels := by
  induction labels generalizing s with
  | nil => trivial
  | cons a rest ih =>
      exact ⟨all a List.mem_cons_self, fun t _ => ih t fun b member =>
        all b (List.mem_cons_of_mem a member)⟩

/-- The invariant rule for an invariant that also reads the labels of the run so far. -/
theorem along_history {Inv : List α → σ → Prop} {good : σ → α → Prop}
    (preserved : ∀ past s a t, Inv past s → good s a → step s a = some t → Inv (past ++ [a]) t)
    {past : List α} {s t : σ} {labels : List α} (start : Inv past s)
    (met : Along step good s labels) (ran : run step s labels = some t) :
    Inv (past ++ labels) t := by
  induction labels generalizing past s with
  | nil =>
      cases ran
      rw [List.append_nil]
      exact start
  | cons a rest ih =>
      obtain ⟨u, stepped, ran⟩ := run_cons ran
      have next := ih (preserved past s a u start met.1 stepped) (met.2 u stepped) ran
      rwa [List.append_assoc, List.singleton_append] at next

theorem run_preserves {Inv : σ → Prop}
    (preserved : ∀ s a t, Inv s → step s a = some t → Inv t)
    {s t : σ} {labels : List α} (start : Inv s) (ran : run step s labels = some t) : Inv t := by
  have always : Along step (fun _ _ => True) s labels :=
    along_of_forall (fun _ _ => trivial) s labels
  exact along_preserves (fun s a t inv _ => preserved s a t inv) start always ran

/-- Two conditions that agree on every step that can be taken while the invariant holds, and keep
it there, agree on a run that comes to its end. -/
theorem along_iff {Inv : σ → Prop} {good cond : σ → α → Prop}
    (same : ∀ s a t, Inv s → step s a = some t → (good s a ↔ cond s a))
    (kept : ∀ s a t, Inv s → step s a = some t → cond s a → Inv t)
    {s last : σ} {labels : List α} (start : Inv s) (ran : run step s labels = some last) :
    Along step good s labels ↔ Along step cond s labels := by
  induction labels generalizing s with
  | nil => exact Iff.rfl
  | cons a rest ih =>
      obtain ⟨u, stepped, ran⟩ := run_cons ran
      have here := same s a u start stepped
      constructor
      · rintro ⟨met, later⟩
        have cond_met := here.mp met
        exact along_cons stepped cond_met
          ((ih (kept s a u start stepped cond_met) ran).mp (later u stepped))
      · rintro ⟨met, later⟩
        exact along_cons stepped (here.mpr met)
          ((ih (kept s a u start stepped met) ran).mpr (later u stepped))

/-- Two conditions that agree in every state of an invariant, which one of them keeps, agree on
every run, also one that stops early. -/
theorem along_congr {Inv : σ → Prop} {good cond : σ → α → Prop}
    (same : ∀ s a, Inv s → (good s a ↔ cond s a))
    (kept : ∀ s a t, Inv s → cond s a → step s a = some t → Inv t)
    {s : σ} {labels : List α} (start : Inv s) :
    Along step good s labels ↔ Along step cond s labels := by
  constructor
  · intro met
    refine along_weaken ?_ (fun s a inv => (same s a inv).mp) start met
    intro s a t inv here stepped
    exact kept s a t inv ((same s a inv).mp here) stepped
  · intro met
    exact along_weaken kept (fun s a inv => (same s a inv).mpr) start met

/-- Every state that the run comes to after its start meets `good`. -/
def After (step : σ → α → Option σ) (good : σ → Prop) : σ → List α → Prop :=
  Along step fun s a => ∀ t, step s a = some t → good t

/-- When a step keeps an invariant exactly where it meets a condition, a run stays good exactly
where all its steps meet that condition. -/
theorem after_iff_along {Inv good : σ → Prop} {cond : σ → α → Prop}
    (implied : ∀ s, Inv s → good s)
    (kept : ∀ s a t, Inv s → step s a = some t → cond s a → Inv t)
    (needed : ∀ s a t, Inv s → step s a = some t → good t → cond s a)
    {s last : σ} {labels : List α} (start : Inv s) (ran : run step s labels = some last) :
    After step good s labels ↔ Along step cond s labels := by
  have same (s : σ) (a : α) (t : σ) (inv : Inv s) (stepped : step s a = some t) :
      (∀ t, step s a = some t → good t) ↔ cond s a := by
    constructor
    · intro reached
      exact needed s a t inv stepped (reached t stepped)
    · intro met u stepped
      exact implied u (kept s a u inv stepped met)
  exact along_iff same kept start ran

/-- What the steps of a run add up to, each by the state that it starts from. -/
def total (weight : σ → α → ℕ) (step : σ → α → Option σ) : σ → List α → ℕ
  | _, [] => 0
  | s, a :: rest => weight s a + (step s a).elim 0 fun t => total weight step t rest

theorem along_total (weight : σ → α → ℕ) {Inv : ℕ → σ → Prop} {good : σ → α → Prop}
    (preserved : ∀ n s a t, Inv n s → good s a → step s a = some t → Inv (n + weight s a) t)
    {n : ℕ} {s t : σ} {labels : List α} (start : Inv n s) (met : Along step good s labels)
    (ran : run step s labels = some t) : Inv (n + total weight step s labels) t := by
  induction labels generalizing n s with
  | nil =>
      cases ran
      exact start
  | cons a rest ih =>
      obtain ⟨u, stepped, ran⟩ := run_cons ran
      have next := ih (preserved n s a u start met.1 stepped) (met.2 u stepped) ran
      rw [Nat.add_assoc] at next
      rw [total, stepped]
      exact next

/-- A label was a mark, given those before it, and none after it stops what it began. -/
def Since (mark : List α → α → Prop) (stop : α → Prop) (past : List α) : Prop :=
  ∃ before a later, past = before ++ a :: later ∧ mark before a ∧ ∀ b ∈ later, ¬stop b

theorem not_since_nil {mark : List α → α → Prop} {stop : α → Prop} : ¬Since mark stop [] := by
  intro since
  obtain ⟨before, a, later, same, _⟩ := since
  exact List.append_ne_nil_of_right_ne_nil before (List.cons_ne_nil a later) same.symm

theorem since_snoc {mark : List α → α → Prop} {stop : α → Prop} {past : List α} {a : α} :
    Since mark stop (past ++ [a]) ↔ mark past a ∨ ¬stop a ∧ Since mark stop past := by
  constructor
  · intro since
    obtain ⟨before, b, later, same, marked, kept⟩ := since
    rcases List.eq_nil_or_concat' later with rfl | ⟨rest, last, rfl⟩
    · obtain ⟨rfl, single⟩ := List.append_inj' same rfl
      cases single
      exact .inl marked
    · rw [← List.cons_append, ← List.append_assoc] at same
      obtain ⟨rfl, single⟩ := List.append_inj' same rfl
      cases single
      refine .inr ⟨kept a (List.mem_append_right _ List.mem_cons_self), before, b, rest, rfl,
        marked, ?_⟩
      intro c member
      exact kept c (List.mem_append_left _ member)
  · intro now_or_before
    rcases now_or_before with marked | ⟨kept, before, b, later, rfl, marked, kept_later⟩
    · exact ⟨past, a, [], rfl, marked, fun c member => absurd member List.not_mem_nil⟩
    · refine ⟨before, b, later ++ [a], List.append_assoc _ _ _, marked, ?_⟩
      intro c member
      rcases List.mem_append.mp member with old | new
      · exact kept_later c old
      · rw [List.mem_singleton.mp new]
        exact kept

end QpRs.Lib
