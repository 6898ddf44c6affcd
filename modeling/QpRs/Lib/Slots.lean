import Mathlib.Data.List.FinRange
import QpRs.Lib.Table

/-! A table kept in a fixed number of slots, any of which may be empty. -/

namespace QpRs.Lib

abbrev Slots (κ ν : Type) := List (Option (κ × ν))

namespace Slots

variable {κ ν : Type} {slots slots' : Slots κ ν} {key : κ} {value : ν} {i : Nat}

/-- The first slot that is empty is filled; none where all are full. -/
def fill (entry : κ × ν) : Slots κ ν → Option (Slots κ ν)
  | [] => none
  | none :: rest => some (some entry :: rest)
  | some e :: rest => (fill entry rest).map (some e :: ·)

theorem fill_cases (entry : κ × ν) (slots : Slots κ ν) :
    (fill entry slots = none ∧ none ∉ slots) ∨
      ∃ i : Nat, slots[i]? = some none ∧ fill entry slots = some (slots.set i (some entry)) := by
  induction slots with
  | nil => exact .inl ⟨rfl, List.not_mem_nil⟩
  | cons slot rest ih =>
      cases slot with
      | none => exact .inr ⟨0, rfl, rfl⟩
      | some e =>
          rcases ih with ⟨full, no_hole⟩ | ⟨i, hole, filled⟩
          · refine .inl ⟨by rw [fill, full]; rfl, ?_⟩
            simp [no_hole]
          · exact .inr ⟨i + 1, hole, by rw [fill, filled]; rfl⟩

/-- The slots hold the entries of the table, each of them once. -/
structure Represents (slots : Slots κ ν) (table : Table κ ν) : Prop where
  entries : ∀ k v, table k = some v ↔ ∃ i : Nat, slots[i]? = some (some (k, v))
  once : ∀ (i j : Nat) k v v',
    slots[i]? = some (some (k, v)) → slots[j]? = some (some (k, v')) → i = j

variable {table : Table κ ν}

theorem Represents.absent (represents : Represents slots table)
    (nowhere : ∀ (i : Nat) v, slots[i]? ≠ some (some (key, v))) : table key = none := by
  cases known : table key with
  | none => rfl
  | some v =>
      obtain ⟨i, here⟩ := (represents.entries key v).mp known
      exact absurd here (nowhere i v)

theorem represents_empty (n : Nat) :
    Represents (List.replicate n (none : Option (κ × ν))) fun _ => none := by
  have nothing {i : Nat} {k : κ} {v : ν} :
      (List.replicate n (none : Option (κ × ν)))[i]? ≠ some (some (k, v)) := by
    intro here
    cases (List.mem_replicate.mp (List.mem_of_getElem? here)).2
  constructor
  · intro k v
    exact iff_of_false nofun fun ⟨i, here⟩ => nothing here
  · intro i j k v v' here _
    exact absurd here nothing

theorem Represents.full (represents : Represents slots table) (full : none ∉ slots) :
    ∃ keys : List κ, keys.Nodup ∧ keys.length = slots.length ∧
      ∀ k ∈ keys, ∃ v, table k = some v := by
  have taken (i : Fin slots.length) : ∃ e, slots[(i : Nat)]? = some (some e) := by
    cases here : slots.get i with
    | none => exact absurd (here ▸ List.get_mem slots i) full
    | some e => exact ⟨e, (List.getElem?_eq_getElem i.isLt).trans (congrArg some here)⟩
  choose entry using_slot using taken
  refine ⟨List.ofFn fun i => (entry i).1, List.nodup_ofFn.mpr ?_, List.length_ofFn, ?_⟩
  · intro i j same
    have there := using_slot j
    rw [show entry j = ((entry i).1, (entry j).2) from Prod.ext same.symm rfl] at there
    exact Fin.ext (represents.once i j _ _ _ (using_slot i) there)
  · intro k member
    obtain ⟨i, rfl⟩ := List.mem_ofFn.mp member
    exact ⟨_, (represents.entries _ _).mpr ⟨i, using_slot i⟩⟩

variable [DecidableEq κ]

/-- The value of the first entry under the key is replaced; none where there is no such entry. -/
def replace (key : κ) (value : ν) : Slots κ ν → Option (Slots κ ν)
  | [] => none
  | none :: rest => (replace key value rest).map (none :: ·)
  | some e :: rest =>
    if e.1 = key then some (some (e.1, value) :: rest)
    else (replace key value rest).map (some e :: ·)

/-- The first entry under the key leaves its slot empty. -/
def take (key : κ) : Slots κ ν → Option ν × Slots κ ν
  | [] => (none, [])
  | none :: rest => ((take key rest).1, none :: (take key rest).2)
  | some e :: rest =>
    if e.1 = key then (some e.2, none :: rest)
    else ((take key rest).1, some e :: (take key rest).2)

theorem replace_cases (key : κ) (value : ν) (slots : Slots κ ν) :
    (replace key value slots = none ∧ ∀ (i : Nat) v, slots[i]? ≠ some (some (key, v))) ∨
      ∃ (i : Nat) (v : ν), slots[i]? = some (some (key, v)) ∧
        replace key value slots = some (slots.set i (some (key, value))) := by
  induction slots with
  | nil => exact .inl ⟨rfl, fun _ _ => nofun⟩
  | cons slot rest ih =>
      by_cases mine : ∃ v, slot = some (key, v)
      · obtain ⟨v, rfl⟩ := mine
        exact .inr ⟨0, v, rfl, if_pos rfl⟩
      · have passed : replace key value (slot :: rest) =
            (replace key value rest).map (slot :: ·) := by
          cases slot with
          | none => rfl
          | some e =>
              rw [replace, if_neg]
              rintro rfl
              exact mine ⟨e.2, rfl⟩
        rw [passed]
        rcases ih with ⟨nowhere, absent⟩ | ⟨i, v, here, replaced⟩
        · refine .inl ⟨by rw [nowhere]; rfl, ?_⟩
          intro i v here
          cases i with
          | zero => exact mine ⟨v, Option.some.inj here⟩
          | succ i => exact absent i v here
        · exact .inr ⟨i + 1, v, here, by rw [replaced]; rfl⟩

theorem take_cases (key : κ) (slots : Slots κ ν) :
    (take key slots = (none, slots) ∧ ∀ (i : Nat) v, slots[i]? ≠ some (some (key, v))) ∨
      ∃ (i : Nat) (v : ν), slots[i]? = some (some (key, v)) ∧
        take key slots = (some v, slots.set i none) := by
  induction slots with
  | nil => exact .inl ⟨rfl, fun _ _ => nofun⟩
  | cons slot rest ih =>
      by_cases mine : ∃ v, slot = some (key, v)
      · obtain ⟨v, rfl⟩ := mine
        exact .inr ⟨0, v, rfl, if_pos rfl⟩
      · have passed : take key (slot :: rest) =
            ((take key rest).1, slot :: (take key rest).2) := by
          cases slot with
          | none => rfl
          | some e =>
              rw [take, if_neg]
              rintro rfl
              exact mine ⟨e.2, rfl⟩
        rw [passed]
        rcases ih with ⟨nowhere, absent⟩ | ⟨i, v, here, taken⟩
        · refine .inl ⟨by rw [nowhere], ?_⟩
          intro i v here
          cases i with
          | zero => exact mine ⟨v, Option.some.inj here⟩
          | succ i => exact absent i v here
        · exact .inr ⟨i + 1, v, here, by rw [taken]; rfl⟩

/-- A slot changes that was empty or held an entry under the key. -/
theorem Represents.set (represents : Represents slots table) {old : Option (κ × ν)}
    (here : slots[i]? = some old) (mine : ∀ e, old = some e → e.1 = key)
    (absent : old = none → table key = none) (new : Option ν) :
    Represents (slots.set i (new.map (key, ·))) (Function.update table key new) := by
  have inside : i < slots.length := (List.getElem?_eq_some_iff.mp here).1
  have at_i : (slots.set i (new.map (key, ·)))[i]? = some (new.map (key, ·)) :=
    List.getElem?_set_self inside
  have elsewhere {j : Nat} (other : j ≠ i) :
      (slots.set i (new.map (key, ·)))[j]? = slots[j]? := List.getElem?_set_ne (Ne.symm other)
  -- No other slot holds an entry under the key.
  have alone {j : Nat} {v : ν} (there : slots[j]? = some (some (key, v))) : j = i := by
    cases old with
    | none =>
        have known := (represents.entries key v).mpr ⟨j, there⟩
        rw [absent rfl] at known
        cases known
    | some e =>
        obtain ⟨k, u⟩ := e
        cases mine _ rfl
        exact represents.once j i _ v u there here
  have lands {j : Nat} {k : κ} {v : ν} :
      (slots.set i (new.map (key, ·)))[j]? = some (some (k, v)) ↔
        (k = key ∧ j = i ∧ new = some v) ∨ (k ≠ key ∧ slots[j]? = some (some (k, v))) := by
    by_cases same : k = key
    · subst same
      by_cases moved : j = i
      · subst moved
        rw [at_i]
        cases new <;> simp
      · rw [elsewhere moved]
        simp only [moved, false_and, and_false, ne_eq, not_true_eq_false, or_false, iff_false]
        exact fun there => moved (alone there)
    · by_cases moved : j = i
      · subst moved
        rw [at_i, here]
        refine iff_of_false ?_ ?_
        · intro other
          obtain ⟨u, _, entry⟩ := Option.map_eq_some_iff.mp (Option.some.inj other)
          exact same (Prod.mk.inj entry).1.symm
        · rintro (⟨mine', _⟩ | ⟨_, there⟩)
          · exact same mine'
          · exact same (mine _ (Option.some.inj there))
      · rw [elsewhere moved]
        simp [same]
  constructor
  · intro k v
    simp only [lands]
    by_cases same : k = key
    · subst same
      simp
    · rw [Function.update_of_ne same, represents.entries]
      simp [same]
  · intro j j' k v v' there there'
    rw [lands] at there there'
    rcases there with ⟨same, rfl, _⟩ | ⟨other, there⟩
    · rcases there' with ⟨_, rfl, _⟩ | ⟨other, _⟩
      · rfl
      · exact absurd same other
    · rcases there' with ⟨same, _, _⟩ | ⟨_, there'⟩
      · exact absurd same other
      · exact represents.once j j' k v v' there there'

end Slots

end QpRs.Lib
