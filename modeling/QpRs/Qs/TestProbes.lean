import Mathlib.Data.List.Induction
import QpRs.Lib.Run
import QpRs.Lib.Slots

/-! The test probes of the target (`qs/src/qutest.rs`): what the host registers for a function is
taken once. -/

namespace QpRs.Qs

open QpRs.Lib

abbrev MAX_TEST_PROBES : Nat := 8

/-- A slot holds a function handle and the data for it. -/
structure ProbeRegistry where
  slots : Slots UInt64 UInt32
  deriving DecidableEq, Repr

namespace ProbeRegistry

def new : ProbeRegistry := ⟨List.replicate MAX_TEST_PROBES none⟩

def set (r : ProbeRegistry) (fnPtr : UInt64) (data : UInt32) : ProbeRegistry :=
  match r.slots.replace fnPtr data with
  | some slots => ⟨slots⟩
  | none =>
    match Slots.fill (fnPtr, data) r.slots with
    | some slots => ⟨slots⟩
    | none => ⟨r.slots.set 0 (some (fnPtr, data))⟩

def take (r : ProbeRegistry) (fnPtr : UInt64) : Option UInt32 × ProbeRegistry :=
  let (data, slots) := Slots.take fnPtr r.slots
  (data, ⟨slots⟩)

def clear (_ : ProbeRegistry) : ProbeRegistry := new

end ProbeRegistry

inductive ProbeCall where
  | setTestProbe (fnPtr : UInt64) (data : UInt32)
  | takeTestProbe (fnPtr : UInt64)
  | clearTestProbes
  deriving DecidableEq, Repr

namespace ProbeCall

def perform (r : ProbeRegistry) : ProbeCall → ProbeRegistry
  | .setTestProbe fnPtr data => r.set fnPtr data
  | .takeTestProbe fnPtr => (r.take fnPtr).2
  | .clearTestProbes => r.clear

def registry (calls : List ProbeCall) : ProbeRegistry := calls.foldl perform .new

def taken (calls : List ProbeCall) (fnPtr : UInt64) : Option UInt32 :=
  ((registry calls).take fnPtr).1

def Concerns (fnPtr : UInt64) : ProbeCall → Prop
  | .setTestProbe f _ => f = fnPtr
  | .takeTestProbe f => f = fnPtr
  | .clearTestProbes => True

/-- The function was registered with the data, and since then neither registered again nor taken
nor cleared. -/
def Registered (calls : List ProbeCall) (fnPtr : UInt64) (data : UInt32) : Prop :=
  Since (fun _ call => call = .setTestProbe fnPtr data) (Concerns fnPtr) calls

/-- At no time more functions are registered and untaken than there are slots. -/
def Within (calls : List ProbeCall) : Prop :=
  ∀ past, past <+: calls → ∀ fns : List UInt64, fns.Nodup →
    (∀ f ∈ fns, ∃ data, Registered past f data) → fns.length ≤ MAX_TEST_PROBES

/-! ## The table behind the slots -/

def note (table : Table UInt64 UInt32) : ProbeCall → Table UInt64 UInt32
  | .setTestProbe fnPtr data => Function.update table fnPtr (some data)
  | .takeTestProbe fnPtr => Function.update table fnPtr none
  | .clearTestProbes => fun _ => none

def noted (calls : List ProbeCall) : Table UInt64 UInt32 := calls.foldl note fun _ => none

theorem registry_snoc (past : List ProbeCall) (call : ProbeCall) :
    registry (past ++ [call]) = perform (registry past) call := List.foldl_concat ..

theorem noted_snoc (past : List ProbeCall) (call : ProbeCall) :
    noted (past ++ [call]) = note (noted past) call := List.foldl_concat ..

variable {past calls : List ProbeCall} {call : ProbeCall} {fnPtr : UInt64} {data : UInt32}

theorem noted_iff : noted calls fnPtr = some data ↔ Registered calls fnPtr data := by
  induction calls using List.reverseRecOn with
  | nil => exact iff_of_false nofun not_since_nil
  | append_singleton past call ih =>
      rw [noted_snoc, Registered, since_snoc]
      change _ ↔ _ ∨ _ ∧ Registered past fnPtr data
      rw [← ih]
      cases call with
      | setTestProbe f d =>
          by_cases mine : fnPtr = f
          · subst mine
            simp [note, Concerns, eq_comm]
          · simp [note, Concerns, Function.update_of_ne mine, Ne.symm mine]
      | takeTestProbe f =>
          by_cases mine : fnPtr = f
          · subst mine
            simp [note, Concerns]
          · simp [note, Concerns, Function.update_of_ne mine, Ne.symm mine]
      | clearTestProbes => simp [note, Concerns]

theorem set_represents {r : ProbeRegistry} {table : Table UInt64 UInt32}
    (represents : Slots.Represents r.slots table)
    (room : none ∈ r.slots ∨ ∃ d, table fnPtr = some d) :
    Slots.Represents (r.set fnPtr data).slots (Function.update table fnPtr (some data)) := by
  rw [ProbeRegistry.set]
  rcases Slots.replace_cases fnPtr data r.slots with ⟨nowhere, absent⟩ | ⟨i, d, here, replaced⟩
  · have unknown : table fnPtr = none := represents.absent absent
    rw [nowhere]
    rcases Slots.fill_cases (fnPtr, data) r.slots with ⟨_, full⟩ | ⟨i, hole, filled⟩
    · rcases room with hole | ⟨d, known⟩
      · exact absurd hole full
      · rw [unknown] at known
        cases known
    · simp only [filled]
      exact represents.set hole (fun e same => nomatch same) (fun _ => unknown) (some data)
  · rw [replaced]
    exact represents.set here (fun e same => by cases same; rfl) (fun same => nomatch same)
      (some data)

theorem take_represents {r : ProbeRegistry} {table : Table UInt64 UInt32}
    (represents : Slots.Represents r.slots table) :
    (r.take fnPtr).1 = table fnPtr ∧
      Slots.Represents (r.take fnPtr).2.slots (Function.update table fnPtr none) := by
  rw [ProbeRegistry.take]
  rcases Slots.take_cases fnPtr r.slots with ⟨nothing, absent⟩ | ⟨i, d, here, found⟩
  · have unknown : table fnPtr = none := represents.absent absent
    rw [nothing, unknown, Function.update_eq_self_iff.mpr unknown.symm]
    exact ⟨rfl, represents⟩
  · rw [found, (represents.entries fnPtr d).mpr ⟨i, here⟩]
    exact ⟨rfl, represents.set here (fun e same => by cases same; rfl) (fun same => nomatch same)
      none⟩

theorem Within.before (within : Within (past ++ [call])) : Within past := by
  intro start before
  exact within start (before.trans (List.prefix_append past [call]))

theorem Within.room (within : Within (past ++ [.setTestProbe fnPtr data]))
    (represents : Slots.Represents (registry past).slots (noted past))
    (length : (registry past).slots.length = MAX_TEST_PROBES) :
    none ∈ (registry past).slots ∨ ∃ d, noted past fnPtr = some d := by
  by_contra stuck
  rw [not_or] at stuck
  obtain ⟨keys, once, count, known⟩ := represents.full stuck.1
  have fresh : fnPtr ∉ keys := fun member => stuck.2 (known fnPtr member)
  have registered : ∀ f ∈ fnPtr :: keys,
      ∃ d, Registered (past ++ [.setTestProbe fnPtr data]) f d := by
    intro f member
    rcases List.mem_cons.mp member with rfl | old
    · exact ⟨data, since_snoc.mpr (.inl rfl)⟩
    · obtain ⟨d, holds⟩ := known f old
      refine ⟨d, since_snoc.mpr (.inr ⟨?_, noted_iff.mp holds⟩)⟩
      rintro rfl
      exact fresh old
  have few := within _ (List.prefix_refl _) (fnPtr :: keys) (List.nodup_cons.mpr ⟨fresh, once⟩)
    registered
  rw [List.length_cons, count, length] at few
  exact absurd few (Nat.not_succ_le_self _)

theorem length_perform (r : ProbeRegistry) (length : r.slots.length = MAX_TEST_PROBES) :
    (perform r call).slots.length = MAX_TEST_PROBES := by
  cases call with
  | setTestProbe f d =>
      rw [perform, ProbeRegistry.set]
      rcases Slots.replace_cases f d r.slots with ⟨nowhere, _⟩ | ⟨i, v, _, replaced⟩
      · rw [nowhere]
        rcases Slots.fill_cases (f, d) r.slots with ⟨full, _⟩ | ⟨i, _, filled⟩
        · simp only [full]
          exact List.length_set.trans length
        · simp only [filled]
          exact List.length_set.trans length
      · rw [replaced]
        exact List.length_set.trans length
  | takeTestProbe f =>
      rw [perform, ProbeRegistry.take]
      rcases Slots.take_cases f r.slots with ⟨nothing, _⟩ | ⟨i, v, _, found⟩
      · rw [nothing]
        exact length
      · rw [found]
        exact List.length_set.trans length
  | clearTestProbes => exact List.length_replicate

theorem registry_represents (within : Within calls) :
    (registry calls).slots.length = MAX_TEST_PROBES ∧
      Slots.Represents (registry calls).slots (noted calls) := by
  induction calls using List.reverseRecOn with
  | nil => exact ⟨List.length_replicate, Slots.represents_empty MAX_TEST_PROBES⟩
  | append_singleton past call ih =>
      obtain ⟨length, represents⟩ := ih within.before
      rw [registry_snoc, noted_snoc]
      refine ⟨length_perform _ length, ?_⟩
      cases call with
      | setTestProbe f d => exact set_represents represents (within.room represents length)
      | takeTestProbe f => exact (take_represents represents).2
      | clearTestProbes => exact Slots.represents_empty MAX_TEST_PROBES

/-- A probe is taken once with the data it was registered with last, and registering one leaves
those of the other functions alone. -/
theorem taken_iff_registered (calls : List ProbeCall) (within : Within calls) :
    (∀ fnPtr data, taken calls fnPtr = some data ↔ Registered calls fnPtr data) ∧
      ∀ other data, Within (calls ++ [.setTestProbe other data]) → ∀ fnPtr ≠ other,
        taken (calls ++ [.setTestProbe other data]) fnPtr = taken calls fnPtr := by
  have takes (calls : List ProbeCall) (within : Within calls) (fnPtr : UInt64) :
      taken calls fnPtr = noted calls fnPtr :=
    (take_represents (registry_represents within).2).1
  constructor
  · intro fnPtr data
    rw [takes calls within]
    exact noted_iff
  · intro other data within_next fnPtr differs
    rw [takes calls within, takes _ within_next, noted_snoc]
    exact Function.update_of_ne differs _ _

theorem within_of_few {fns : List UInt64} (few : fns.length ≤ MAX_TEST_PROBES)
    (all : ∀ f data, .setTestProbe f data ∈ calls → f ∈ fns) : Within calls := by
  intro past before others once registered
  refine (once.length_le_of_subset ?_).trans few
  intro f member
  obtain ⟨data, start, _, later, rfl, rfl, _⟩ := registered f member
  exact all f data (before.subset (List.mem_append_right _ List.mem_cons_self))

def twoProbes : List ProbeCall :=
  [.setTestProbe 1 10, .setTestProbe 2 20, .takeTestProbe 1, .setTestProbe 1 11]

theorem taken_iff_registered_two : taken twoProbes 1 = some 11 := by
  have few : [(1 : UInt64), 2].length ≤ MAX_TEST_PROBES := by decide
  have all : ∀ f data, .setTestProbe f data ∈ twoProbes → f ∈ [(1 : UInt64), 2] := by
    intro f data member
    simp only [twoProbes, List.mem_cons, setTestProbe.injEq, reduceCtorEq, List.not_mem_nil,
      or_false, false_or] at member ⊢
    rcases member with ⟨rfl, _⟩ | ⟨rfl, _⟩ | ⟨rfl, _⟩ <;> simp
  apply ((taken_iff_registered twoProbes (within_of_few few all)).1 1 11).mpr
  exact ⟨[.setTestProbe 1 10, .setTestProbe 2 20, .takeTestProbe 1], _, [], rfl, rfl,
    fun _ member => absurd member List.not_mem_nil⟩

end ProbeCall

end QpRs.Qs
