import Mathlib.Data.List.Basic
import Mathlib.Logic.Function.Basic

/-! Tables that are filled entry by entry, where an entry replaces the earlier one under its key. -/

namespace QpRs.Lib

abbrev Table (κ ν : Type) := κ → Option ν

namespace Table

variable {κ ν δ ρ : Type} [DecidableEq κ]

def insert (table : Table κ ν) (key : κ) (value : ν) : Table κ ν :=
  Function.update table key (some value)

/-- What the last entry under a key says. -/
def latest : List (κ × ν) → Table κ ν
  | [], _ => none
  | (k, v) :: later, key => (latest later key).or (if key = k then some v else none)

theorem latest_isSome {log : List (κ × ν)} {key : κ} :
    (latest log key).isSome ↔ key ∈ log.map Prod.fst := by
  induction log with
  | nil => exact iff_of_false Bool.false_ne_true List.not_mem_nil
  | cons entry later ih =>
      obtain ⟨k, v⟩ := entry
      rw [latest, Option.isSome_or, Bool.or_eq_true, ih, List.map_cons, List.mem_cons, or_comm]
      by_cases same : key = k <;> simp [same]

theorem latest_eq_some {log : List (κ × ν)} (apart : (log.map Prod.fst).Nodup) {key : κ}
    {value : ν} : latest log key = some value ↔ (key, value) ∈ log := by
  induction log with
  | nil => exact iff_of_false (Option.some_ne_none value).symm List.not_mem_nil
  | cons entry later ih =>
      obtain ⟨k, v⟩ := entry
      rw [List.map_cons, List.nodup_cons] at apart
      rw [latest, List.mem_cons, ← ih apart.2]
      by_cases same : key = k
      · have absent : latest later key = none := by
          rw [← Option.not_isSome_iff_eq_none, latest_isSome, same]
          exact apart.1
        rw [absent, if_pos same]
        simp [Prod.ext_iff, same, eq_comm]
      · simp [Prod.ext_iff, same]

/-- Entries that go through a medium come out as they were, under different keys, exactly when the
medium keeps every value. -/
theorem latest_restored {log : List (κ × ν)} (apart : (log.map Prod.fst).Nodup)
    (restore : ν → Option ν) :
    latest (log.filterMap fun e => (restore e.2).map (e.1, ·)) = latest log ↔
      ∀ e ∈ log, restore e.2 = some e.2 := by
  have keys : ((log.filterMap fun e => (restore e.2).map (e.1, ·)).map Prod.fst).Sublist
      (log.map Prod.fst) := by
    clear apart
    induction log with
    | nil => exact .slnil
    | cons e later ih =>
        cases restored : restore e.2 with
        | none => simpa [restored] using ih.cons e.1
        | some v => simpa [restored] using ih.cons_cons e.1
  constructor
  · intro same e e_mem
    have whole : latest log e.1 = some e.2 := (latest_eq_some apart).mpr e_mem
    have kept := whole
    rw [← same, latest_eq_some (apart.sublist keys)] at kept
    obtain ⟨f, f_mem, made⟩ := List.mem_filterMap.mp kept
    obtain ⟨v, restored, pair⟩ := Option.map_eq_some_iff.mp made
    obtain ⟨key, value⟩ := Prod.mk.inj pair
    have other : latest log f.1 = some f.2 := (latest_eq_some apart).mpr f_mem
    rw [key, whole] at other
    rw [Option.some.inj other, restored, ← Option.some.inj other, value]
  · intro kept
    have made : ∀ e ∈ log, (restore e.2).map (e.1, ·) = some e := by
      intro e e_mem
      rw [kept e e_mem]
      rfl
    rw [List.filterMap_congr made, List.filterMap_some]

/-- A run of steps that each insert at most one entry into a table leaves it with the latest
entries, over what it had. -/
theorem foldl_latest (view : δ → Table κ ν) {step : δ → ρ → δ} {entry : ρ → Option (κ × ν)}
    (changes : ∀ d r, view (step d r) =
      (entry r).elim (view d) fun e => (view d).insert e.1 e.2) (records : List ρ) (d : δ)
    (key : κ) :
    view (records.foldl step d) key =
      (latest (records.filterMap entry) key).or (view d key) := by
  induction records generalizing d with
  | nil => rfl
  | cons r later ih =>
      rw [List.foldl_cons, ih, changes]
      cases made : entry r with
      | none => rw [List.filterMap_cons_none made, Option.elim_none]
      | some e =>
          rw [List.filterMap_cons_some made, latest, Option.or_assoc, Option.elim_some]
          by_cases same : key = e.1 <;> simp [insert, Function.update, same]

end Table

end QpRs.Lib
