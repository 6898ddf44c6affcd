import QpRs.Lib.Outcome

/-! Objects behind an interface: each call gives an answer and leaves a state, or fails. Two objects
are compared by what they answer to a call after the same calls. -/

namespace QpRs.Lib

variable {ε σ τ α β : Type}

def after (step : σ → α → Except ε (β × σ)) : σ → List α → Except ε σ
  | s, [] => .ok s
  | s, a :: rest => step s a >>= fun out => after step out.2 rest

/-- The answer to a call that follows others; a call that failed before is the answer of all later
ones. -/
def answer (step : σ → α → Except ε (β × σ)) (s : σ) (past : List α) (a : α) : Except ε β :=
  after step s past >>= fun t => (step t a).map Prod.fst

variable {step : σ → α → Except ε (β × σ)} {step' : τ → α → Except ε (β × τ)}

/-- The simulation rule: the relation of the states may depend on the calls so far. -/
theorem after_agree {related : List α → σ → τ → Prop}
    (simulated : ∀ past s t a, related past s t →
      Agree (fun x y => related (past ++ [a]) x.2 y.2) (step s a) (step' t a))
    {past : List α} {s : σ} {t : τ} (start : related past s t) (calls : List α) :
    Agree (related (past ++ calls)) (after step s calls) (after step' t calls) := by
  induction calls generalizing past s t with
  | nil =>
      rw [List.append_nil]
      exact start
  | cons a rest ih =>
      refine Agree.bind (simulated past s t a start) fun x y next => ?_
      have later := ih next
      rwa [List.append_assoc, List.singleton_append] at later

/-- Related states that answer a call alike do so after every sequence of calls. -/
theorem answer_agree {related : List α → σ → τ → Prop}
    (simulated : ∀ past s t a, related past s t →
      Agree (fun x y => related (past ++ [a]) x.2 y.2) (step s a) (step' t a))
    {s : σ} {t : τ} (start : related [] s t) (past : List α) {a : α}
    (alike : ∀ s t, related past s t → Agree (fun x y => x.1 = y.1) (step s a) (step' t a)) :
    answer step s past a = answer step' t past a := by
  have reached := after_agree simulated start past
  unfold answer
  cases left : after step s past with
  | error e =>
      rw [left] at reached
      cases right : after step' t past with
      | error e' =>
          rw [right] at reached
          exact congrArg Except.error reached
      | ok u =>
          rw [right] at reached
          exact reached.elim
  | ok u =>
      rw [left] at reached
      obtain ⟨v, right, same⟩ := reached.returns rfl
      have last := alike u v same
      rw [right]
      simp only [ok_bind]
      cases x : step u a with
      | error e =>
          cases y : step' v a with
          | error e' => simpa [x, y, Agree, Except.map] using last
          | ok out => simp [x, y, Agree] at last
      | ok out =>
          cases y : step' v a with
          | error e' => simp [x, y, Agree] at last
          | ok out' => simpa [x, y, Agree, Except.map] using last

end QpRs.Lib
