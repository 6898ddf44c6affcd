import Mathlib.Data.List.Basic
import QpRs.Lib.Outcome

/-! Machines that read a stream one symbol at a time, and byte stuffing for such streams.

A step may fail, and may give one result. `feed` reads a stretch of the stream and collects the
results; how the stream is cut into stretches does not matter. -/

namespace QpRs.Lib

section Feeding

variable {ε σ β ρ ι : Type}

def feed (step : σ → β → Except ε (σ × Option ρ)) : σ → List β → Except ε (σ × List ρ)
  | s, [] => .ok (s, [])
  | s, b :: rest => do
      let (t, out) ← step s b
      let (u, later) ← feed step t rest
      return (u, out.toList ++ later)

/-- One call after another, each on its own chunk. -/
def feedChunks (step : σ → β → Except ε (σ × Option ρ)) :
    σ → List (List β) → Except ε (σ × List ρ)
  | s, [] => .ok (s, [])
  | s, chunk :: rest => do
      let (t, out) ← feed step s chunk
      let (u, later) ← feedChunks step t rest
      return (u, out ++ later)

variable {step : σ → β → Except ε (σ × Option ρ)} {s t u : σ}

theorem feed_append (s : σ) (xs ys : List β) :
    feed step s (xs ++ ys) = (do
      let (t, out) ← feed step s xs
      let (u, later) ← feed step t ys
      return (u, out ++ later)) := by
  induction xs generalizing s with
  | nil =>
      simp only [List.nil_append, feed, bind, Except.bind]
      cases feed step s ys with
      | error e => rfl
      | ok r => rfl
  | cons b rest ih =>
      simp only [List.cons_append, feed, bind, Except.bind] at ih ⊢
      cases step s b with
      | error e => rfl
      | ok r =>
          simp only [ih]
          cases feed step r.1 rest with
          | error e => rfl
          | ok r' =>
              simp only [pure, Except.pure]
              cases feed step r'.1 ys with
              | error e => rfl
              | ok r'' => simp only [List.append_assoc]

theorem feedChunks_eq (s : σ) (chunks : List (List β)) :
    feedChunks step s chunks = feed step s chunks.flatten := by
  induction chunks generalizing s with
  | nil => rfl
  | cons chunk rest ih =>
      rw [List.flatten_cons, feed_append, feedChunks]
      simp only [ih]

theorem feed_cons_ok {b : β} {rest : List β} {out : Option ρ} {later : List ρ}
    (first : step s b = .ok (t, out)) (second : feed step t rest = .ok (u, later)) :
    feed step s (b :: rest) = .ok (u, out.toList ++ later) := by
  simp only [feed, first, second, bind, Except.bind, pure, Except.pure]

theorem feed_singleton_ok {b : β} {out : Option ρ} (stepped : step s b = .ok (t, out)) :
    feed step s [b] = .ok (t, out.toList) := by
  rw [← List.append_nil out.toList]
  exact feed_cons_ok stepped rfl

theorem feed_append_ok {xs ys : List β} {out later : List ρ}
    (first : feed step s xs = .ok (t, out)) (second : feed step t ys = .ok (u, later)) :
    feed step s (xs ++ ys) = .ok (u, out ++ later) := by
  rw [feed_append, first]
  simp only [second, bind, Except.bind, pure, Except.pure]

theorem feed_returns (total : ∀ s b, Returns (step s b)) (s : σ) (xs : List β) :
    ∃ t out, feed step s xs = .ok (t, out) := by
  induction xs generalizing s with
  | nil => exact ⟨s, [], rfl⟩
  | cons b rest ih =>
      obtain ⟨⟨t, out⟩, stepped⟩ := total s b
      obtain ⟨u, later, fed⟩ := ih t
      exact ⟨u, out.toList ++ later, feed_cons_ok stepped fed⟩

/-- A machine that reads each segment from a state at rest to a state at rest reads them all. -/
theorem feed_segments {atRest : σ → Prop} {segment : ι → List β} {results : ι → List ρ}
    (each : ∀ s i, atRest s → ∃ t, atRest t ∧ feed step s (segment i) = .ok (t, results i))
    (start : atRest s) (items : List ι) :
    ∃ t, atRest t ∧ feed step s (items.flatMap segment) = .ok (t, items.flatMap results) := by
  induction items generalizing s with
  | nil => exact ⟨s, start, rfl⟩
  | cons i rest ih =>
      obtain ⟨t, rested, first⟩ := each s i start
      obtain ⟨u, ended, later⟩ := ih rested
      refine ⟨u, ended, ?_⟩
      rw [List.flatMap_cons, List.flatMap_cons]
      exact feed_append_ok first later

/-- A symbol that takes every state to the same one ends whatever came before it. -/
theorem feed_delimited {delimiter : β} {fresh : σ} (total : ∀ s b, Returns (step s b))
    (resets : ∀ s, ∃ out, step s delimiter = .ok (fresh, out)) (s : σ) (xs : List β) :
    ∃ out, feed step s (xs ++ [delimiter]) = .ok (fresh, out) := by
  obtain ⟨t, before, fed⟩ := feed_returns total s xs
  obtain ⟨out, stepped⟩ := resets t
  exact ⟨before ++ out.toList, feed_append_ok fed (feed_singleton_ok stepped)⟩

end Feeding

/-- A code that keeps one symbol out of a text: the flag and the escape symbol are sent as the
escape symbol and a stand-in. -/
structure Stuffing (β : Type) where
  flag : β
  esc : β
  flip : β → β
  flip_flip : ∀ b, flip (flip b) = b
  flip_flag : flip flag ≠ flag
  flip_esc : flip esc ≠ flag

namespace Stuffing

variable {ε σ β ρ : Type} [DecidableEq β] (c : Stuffing β)

def stuffByte (b : β) : List β := if b = c.flag ∨ b = c.esc then [c.esc, c.flip b] else [b]

def stuff (raw : List β) : List β := raw.flatMap c.stuffByte

theorem stuff_append (xs ys : List β) : c.stuff (xs ++ ys) = c.stuff xs ++ c.stuff ys :=
  List.flatMap_append

theorem flag_notMem_stuff (other : c.esc ≠ c.flag) (raw : List β) : c.flag ∉ c.stuff raw := by
  intro member
  obtain ⟨b, -, inside⟩ := List.mem_flatMap.mp member
  by_cases special : b = c.flag ∨ b = c.esc
  · rw [stuffByte, if_pos special, List.mem_cons, List.mem_singleton] at inside
    rcases inside with same | same
    · exact other same.symm
    · rcases special with rfl | rfl
      · exact c.flip_flag same.symm
      · exact c.flip_esc same.symm
  · rw [stuffByte, if_neg special, List.mem_singleton] at inside
    exact special (.inl inside.symm)

/-- A machine undoes the code: `opened raw` and `escaped raw` are its states inside a text of which
`raw` is known, the second after an escape symbol. -/
structure Unstuffs (step : σ → β → Except ε (σ × Option ρ)) (opened escaped : List β → σ) :
    Prop where
  plain : ∀ raw b, b ≠ c.flag → b ≠ c.esc → step (opened raw) b = .ok (opened (raw ++ [b]), none)
  escape : ∀ raw, step (opened raw) c.esc = .ok (escaped raw, none)
  stood : ∀ raw b, b ≠ c.flag → step (escaped raw) b = .ok (opened (raw ++ [c.flip b]), none)

variable {c} {step : σ → β → Except ε (σ × Option ρ)} {opened escaped : List β → σ}

theorem Unstuffs.feed_stuffByte (undoes : c.Unstuffs step opened escaped) (raw : List β) (b : β) :
    feed step (opened raw) (c.stuffByte b) = .ok (opened (raw ++ [b]), []) := by
  by_cases special : b = c.flag ∨ b = c.esc
  · have other : c.flip b ≠ c.flag := by
      rcases special with same | same
      · rw [same]
        exact c.flip_flag
      · rw [same]
        exact c.flip_esc
    have back : feed step (escaped raw) [c.flip b] = .ok (opened (raw ++ [b]), []) := by
      have stood := undoes.stood raw (c.flip b) other
      rw [c.flip_flip] at stood
      exact feed_cons_ok stood rfl
    rw [stuffByte, if_pos special]
    exact feed_cons_ok (undoes.escape raw) back
  · rw [stuffByte, if_neg special]
    rw [not_or] at special
    exact feed_cons_ok (undoes.plain raw b special.1 special.2) rfl

/-- A stuffed text is read back symbol for symbol, and gives no result on the way. -/
theorem Unstuffs.feed_stuff (undoes : c.Unstuffs step opened escaped) (raw text : List β) :
    feed step (opened raw) (c.stuff text) = .ok (opened (raw ++ text), []) := by
  induction text generalizing raw with
  | nil =>
      rw [List.append_nil]
      rfl
  | cons b rest ih =>
      have later := ih (raw ++ [b])
      rw [List.append_assoc, List.singleton_append] at later
      exact feed_append_ok (undoes.feed_stuffByte raw b) later

end Stuffing

end QpRs.Lib
