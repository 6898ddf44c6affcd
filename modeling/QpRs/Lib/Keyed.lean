import Mathlib.Data.List.Nodup

/-! Lists of items with different keys, as partial maps from the keys. Each operation on the list
does one thing at every key. -/

namespace QpRs.Lib

/-- Items with different keys, in the order they came. -/
structure Keyed {δ κ : Type} (key : δ → κ) where
  items : List δ
  distinct : (items.map key).Nodup

namespace Keyed

variable {δ κ μ : Type} {key : δ → κ}

def empty : Keyed key := ⟨[], .nil⟩

theorem distinct_filterMap {f : δ → Option δ} (same : ∀ d e, f d = some e → key e = key d)
    {items : List δ} (distinct : (items.map key).Nodup) : ((items.filterMap f).map key).Nodup := by
  have sub : ((items.filterMap f).map key).Sublist (items.map key) := by
    clear distinct
    induction items with
    | nil => exact .slnil
    | cons d rest ih =>
        cases result : f d with
        | none =>
            rw [List.filterMap_cons_none result]
            exact ih.cons (key d)
        | some e =>
            rw [List.filterMap_cons_some result, List.map_cons, List.map_cons, same d e result]
            exact ih.cons_cons (key d)
  exact distinct.sublist sub

variable [DecidableEq κ]

def find (k : Keyed key) (a : κ) : Option δ := k.items.find? fun d => key d = a

theorem find_key {k : Keyed key} {a : κ} {d : δ} (found : k.find a = some d) : key d = a := by
  simpa using List.find?_some found

theorem fresh_of_find {k : Keyed key} {a : κ} (absent : k.find a = none) :
    a ∉ k.items.map key := by
  intro member
  obtain ⟨d, inside, same⟩ := List.mem_map.mp member
  have other := List.find?_eq_none.mp absent d inside
  simp [same] at other

theorem distinct_append {k : Keyed key} {d : δ} (absent : k.find (key d) = none) :
    ((k.items ++ [d]).map key).Nodup := by
  rw [List.map_append]
  apply List.nodup_append.mpr
  refine ⟨k.distinct, List.nodup_singleton _, ?_⟩
  intro a old b new same
  rw [List.map_singleton, List.mem_singleton] at new
  exact fresh_of_find absent (new ▸ same ▸ old)

def push (k : Keyed key) (d : δ) (absent : k.find (key d) = none) : Keyed key :=
  ⟨k.items ++ [d], distinct_append absent⟩

/-- Every item is changed to another one under its key, or goes. -/
def visit (k : Keyed key) (f : δ → Option δ) (same : ∀ d e, f d = some e → key e = key d) :
    Keyed key := ⟨k.items.filterMap f, distinct_filterMap same k.distinct⟩

theorem find_push (k : Keyed key) (d : δ) (absent : k.find (key d) = none) (a : κ) :
    (k.push d absent).find a = if key d = a then some d else k.find a := by
  by_cases here : key d = a
  · subst here
    have before : k.items.find? (fun e => key e = key d) = none := absent
    simp [find, push, List.find?_append, before]
  · simp [find, push, List.find?_append, here]

theorem find?_filterMap {f : δ → Option δ} (same : ∀ d e, f d = some e → key e = key d) {a : κ}
    {items : List δ} (distinct : (items.map key).Nodup) :
    (items.filterMap f).find? (fun d => key d = a) =
      (items.find? fun d => key d = a).bind f := by
  induction items with
  | nil => rfl
  | cons d rest ih =>
      obtain ⟨fresh, distinct⟩ := List.nodup_cons.mp distinct
      have later := ih distinct
      by_cases here : key d = a
      · rw [List.find?_cons_of_pos (by simpa using here), Option.bind_some]
        cases result : f d with
        | none =>
            rw [List.filterMap_cons_none result, later, Option.bind_eq_none_iff]
            intro e found
            have member : key e ∈ rest.map key :=
              List.mem_map_of_mem (List.mem_of_find?_eq_some found)
            have there : key e = a := by simpa using List.find?_some found
            exact absurd (here.trans there.symm ▸ member) fresh
        | some e =>
            rw [List.filterMap_cons_some result, List.find?_cons_of_pos]
            simpa using (same d e result).trans here
      · rw [List.find?_cons_of_neg (by simpa using here)]
        cases result : f d with
        | none =>
            rw [List.filterMap_cons_none result]
            exact later
        | some e =>
            rw [List.filterMap_cons_some result, List.find?_cons_of_neg]
            · exact later
            · simpa [same d e result] using here

theorem find_visit (k : Keyed key) {f : δ → Option δ}
    (same : ∀ d e, f d = some e → key e = key d) (a : κ) :
    (k.visit f same).find a = (k.find a).bind f :=
  find?_filterMap same k.distinct

theorem sent_to {f : δ → Option μ} {a : κ} {items : List δ} (distinct : (items.map key).Nodup) :
    (items.filterMap fun d => (f d).map (key d, ·)).filter (fun m => m.1 = a) =
      (((items.find? fun d => key d = a).bind f).map (a, ·)).toList := by
  induction items with
  | nil => rfl
  | cons d rest ih =>
      obtain ⟨fresh, distinct⟩ := List.nodup_cons.mp distinct
      have later := ih distinct
      by_cases here : key d = a
      · have none_left : rest.find? (fun e => key e = a) = none := by
          apply List.find?_eq_none.mpr
          intro e inside there
          have same : key e = key d := by simpa [here] using there
          exact fresh (same ▸ List.mem_map_of_mem inside)
        rw [none_left] at later
        rw [List.find?_cons_of_pos (by simpa using here), Option.bind_some]
        cases result : f d with
        | none =>
            rw [List.filterMap_cons_none (by rw [result]; rfl), later]
            rfl
        | some m =>
            rw [List.filterMap_cons_some (by rw [result]; rfl),
              List.filter_cons_of_pos (by simpa using here), later, here]
            rfl
      · rw [List.find?_cons_of_neg (by simpa using here), ← later]
        cases result : f d with
        | none => rw [List.filterMap_cons_none (by rw [result]; rfl)]
        | some m =>
            rw [List.filterMap_cons_some (by rw [result]; rfl),
              List.filter_cons_of_neg (by simpa using here)]

end Keyed

end QpRs.Lib
