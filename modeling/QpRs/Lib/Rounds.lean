import Mathlib.Data.List.Perm.Basic
import Mathlib.Logic.Function.Basic

/-! Rounds in which every object of a list takes its turn, and some turns set off a reaction that
calls the objects. A reaction may run in the middle of the round, right after the turn that set it
off, or after all the turns: the two are the same round as long as no reaction calls an object whose
turn is still to come. -/

namespace QpRs.Lib

variable {ι S C A σ : Type}

/-- Objects with the state `S`: what a call answers and leaves, whether the next turn sets off a
reaction, and what a turn leaves. -/
structure Objects (S C A : Type) where
  call : S → C → A × S
  fires : S → Bool
  turn : S → S

/-- What a reaction does: it calls one object after the other, and sees the answers. -/
inductive Reaction (ι C A σ : Type) where
  | done (memory : σ)
  | call (i : ι) (c : C) (next : A → Reaction ι C A σ)

namespace Reaction

variable [DecidableEq ι] (O : Objects S C A)

def finish : Reaction ι C A σ → (ι → S) → σ × (ι → S)
  | .done memory, objects => (memory, objects)
  | .call i c next, objects =>
      (next (O.call (objects i) c).1).finish
        (Function.update objects i (O.call (objects i) c).2)

end Reaction

namespace Objects

variable [DecidableEq ι] (O : Objects S C A) (react : σ → ι → Reaction ι C A σ)

def turnAll (order : List ι) (objects : ι → S) : ι → S := fun k =>
  if k ∈ order then O.turn (objects k) else objects k

/-- The reactions of the objects of a list, one after the other. -/
def serve (order : List ι) (s : σ × (ι → S)) : σ × (ι → S) :=
  order.foldl (fun s i => (react s.1 i).finish O s.2) s

def firing (order : List ι) (objects : ι → S) : List ι := order.filter fun i => O.fires (objects i)

/-- The round with its reactions after all the turns. -/
def round (order : List ι) (s : σ × (ι → S)) : σ × (ι → S) :=
  O.serve react (O.firing order s.2) (s.1, O.turnAll order s.2)

/-- The state before the round with the number `m`, counted from 0. -/
def rounds (order : List ι) (s : σ × (ι → S)) : Nat → σ × (ι → S)
  | 0 => s
  | m + 1 => O.round react order (rounds order s m)

variable {O react} {order rest : List ι} {objects : ι → S} {i : ι}

theorem turnAll_nil : O.turnAll [] objects = objects := by
  funext k
  simp [turnAll]

theorem turnAll_cons (apart : i ∉ rest) :
    O.turnAll (i :: rest) objects =
      O.turnAll rest (Function.update objects i (O.turn (objects i))) := by
  funext k
  by_cases here : k = i
  · subst here
    simp [turnAll, apart]
  · simp [turnAll, here]

theorem turnAll_update (apart : i ∉ rest) (s : S) :
    O.turnAll rest (Function.update objects i s) =
      Function.update (O.turnAll rest objects) i s := by
  funext k
  by_cases here : k = i
  · subst here
    simp [turnAll, apart]
  · simp [turnAll, here]

theorem turnAll_of_not_mem (apart : i ∉ rest) : O.turnAll rest objects i = objects i :=
  if_neg apart

theorem serve_append (first later : List ι) (s : σ × (ι → S)) :
    O.serve react (first ++ later) s = O.serve react later (O.serve react first s) :=
  List.foldl_append

variable (O react)

/-- In the middle of a round that began with `s`: the objects of `past` have had their turns, those
of `rest` are as they were, and `reaction` is still to run on `now`. -/
structure Midway (order : List ι) (s : σ × (ι → S)) (past rest : List ι)
    (reaction : Reaction ι C A σ) (now : ι → S) : Prop where
  split : past ++ rest = order
  untouched : ∀ k ∈ rest, now k = s.2 k
  served : reaction.finish O (O.turnAll rest now) =
    O.serve react (O.firing past s.2) (s.1, O.turnAll order s.2)

namespace Midway

variable {O react} {past : List ι} {s : σ × (ι → S)} {reaction : Reaction ι C A σ} {now : ι → S}
  {x : σ}

theorem start (order : List ι) (x : σ) (objects : ι → S) :
    Midway O react order (x, objects) [] order (.done x) objects where
  split := rfl
  untouched _ _ := rfl
  served := rfl

theorem apart (midway : Midway O react order s past (i :: rest) reaction now)
    (nodup : order.Nodup) : i ∉ rest := by
  rw [← midway.split] at nodup
  exact (List.nodup_cons.mp (List.nodup_append.mp nodup).2.1).1

theorem split_turn (midway : Midway O react order s past (i :: rest) reaction now) :
    past ++ [i] ++ rest = order := by
  rw [List.append_assoc, List.singleton_append]
  exact midway.split

theorem untouched_turn (midway : Midway O react order s past (i :: rest) reaction now)
    (nodup : order.Nodup) (k : ι) (member : k ∈ rest) :
    Function.update now i (O.turn (now i)) k = s.2 k := by
  have other : k ≠ i := fun same => midway.apart nodup (same ▸ member)
  rw [Function.update_of_ne other]
  exact midway.untouched k (List.mem_cons_of_mem i member)

theorem firing_turn (midway : Midway O react order s past (i :: rest) reaction now) :
    O.firing (past ++ [i]) s.2 = O.firing past s.2 ++ if O.fires (now i) then [i] else [] := by
  have same : now i = s.2 i := midway.untouched i List.mem_cons_self
  rw [firing, List.filter_append, same]
  cases fires : O.fires (s.2 i) with
  | true => simp [firing, fires]
  | false => simp [firing, fires]

theorem waits (midway : Midway O react order s past (i :: rest) (.done x) now)
    (nodup : order.Nodup) (quiet : O.fires (now i) = false) :
    Midway O react order s (past ++ [i]) rest (.done x)
      (Function.update now i (O.turn (now i))) where
  split := midway.split_turn
  untouched := midway.untouched_turn nodup
  served := by
    rw [midway.firing_turn, quiet, if_neg Bool.false_ne_true, List.append_nil, ← midway.served,
      turnAll_cons (midway.apart nodup)]

theorem sets_off (midway : Midway O react order s past (i :: rest) (.done x) now)
    (nodup : order.Nodup) (fires : O.fires (now i) = true) :
    Midway O react order s (past ++ [i]) rest (react x i)
      (Function.update now i (O.turn (now i))) where
  split := midway.split_turn
  untouched := midway.untouched_turn nodup
  served := by
    rw [midway.firing_turn, if_pos fires, serve_append, ← midway.served,
      turnAll_cons (midway.apart nodup)]
    rfl

theorem called {c : C} {next : A → Reaction ι C A σ}
    (midway : Midway O react order s past rest (.call i c next) now) (behind : i ∉ rest) :
    Midway O react order s past rest (next (O.call (now i) c).1)
      (Function.update now i (O.call (now i) c).2) where
  split := midway.split
  untouched k member := by
    have other : k ≠ i := fun same => behind (same ▸ member)
    rw [Function.update_of_ne other]
    exact midway.untouched k member
  served := by
    rw [← midway.served, turnAll_update behind, Reaction.finish, turnAll_of_not_mem behind]

theorem finished (midway : Midway O react order s past [] (.done x) now) :
    past = order ∧ (x, now) = O.round react order s := by
  have all : past = order := by rw [← midway.split, List.append_nil]
  refine ⟨all, ?_⟩
  have served := midway.served
  rw [all, turnAll_nil] at served
  exact served

end Midway

end Objects

end QpRs.Lib
