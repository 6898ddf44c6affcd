import QpRs.Lib.Outcome
import QpRs.Qk.Kernel

/-! The builder of the QK kernel (`QkKernelBuilder` and `QkKernel::new` of `qk/src/kernel.rs`):
which sequences of registrations it accepts, and where the kernel it builds schedules the active
objects. -/

namespace QpRs.Qk

open QpRs.Lib

def QPrioSpec.priority (spec : QPrioSpec) : Nat := spec.low

inductive Registering where
  | register (object : ActiveObjectRef)
  | registerWithThreshold (object : ActiveObjectRef) (threshold : Nat)
  | registerPrio (object : ActiveObjectRef) (spec : QPrioSpec)
  deriving DecidableEq, Repr

namespace Registering

def object : Registering → ActiveObjectRef
  | .register object | .registerWithThreshold object _ | .registerPrio object _ => object

def apply (b : QkKernelBuilder) : Registering → Except QkKernelError QkKernelBuilder
  | .register object => b.register object
  | .registerWithThreshold object threshold => b.registerWithThreshold object threshold
  | .registerPrio object spec => b.registerPrio object spec

/-- The calls in turn, then `build`. -/
def build (pubsub : Option PubSubTable) (calls : List Registering) :
    Except QkKernelError (QkKernel × Option PubSubTable) := do
  let b ← calls.foldlM apply ⟨[], pubsub⟩
  QkKernel.build b

def requested : Registering → Nat × Nat
  | .register object => (object.priority, object.priority)
  | .registerWithThreshold object threshold => (object.priority, threshold)
  | .registerPrio _ spec => (spec.priority, spec.threshold)

/-- What a call asks for if the priority in a `QPrioSpec` is not read. -/
def ownRequest (c : Registering) : Nat × Nat := (c.object.priority, c.requested.2)

/-- Priorities distinct and in `1..=63`, each threshold between its priority and 63. -/
def Admissible (requests : List (Nat × Nat)) : Prop :=
  (requests.map Prod.fst).Nodup ∧
    ∀ r ∈ requests, 0 < r.1 ∧ r.1 ≤ maxPriority ∧ r.1 ≤ r.2 ∧ r.2 ≤ maxPriority

instance (requests : List (Nat × Nat)) : Decidable (Admissible requests) :=
  inferInstanceAs (Decidable (_ ∧ _))

/-- The kernel runs the active objects of the calls at the priorities and thresholds they asked for
and nothing else, and what is posted to an id makes a priority ready that its object asked for. -/
structure Schedules (k : QkKernel) (calls : List Registering) : Prop where
  slots : ∀ p slot, k.slots p = some slot ↔
    ∃ c ∈ calls, c.object = slot.object ∧ c.requested = (p, slot.threshold)
  thresholds : ∀ c ∈ calls, k.thresholdFor c.requested.1 = some c.requested.2
  posts : ∀ id p, k.idToPrio id = some p → ∃ c ∈ calls, c.object.id = id ∧ c.requested.1 = p
  reached : ∀ c ∈ calls, (k.idToPrio c.object.id).isSome

/-- Registrations and `build` succeed exactly on admissible requests, which the kernel keeps. -/
def Honoured (pubsub : Option PubSubTable) (calls : List Registering) : Prop :=
  (Returns (build pubsub calls) ↔ Admissible (calls.map requested)) ∧
    ∀ k table, build pubsub calls = .ok (k, table) → Schedules k calls

/-- Every `QPrioSpec` names the priority of its active object. -/
def OwnPriorities (calls : List Registering) : Prop :=
  ∀ c ∈ calls, c.requested.1 = c.object.priority

instance (calls : List Registering) : Decidable (OwnPriorities calls) :=
  inferInstanceAs (Decidable (∀ c ∈ calls, _))

end Registering

def Registration.request (r : Registration) : Nat × Nat := (r.object.priority, r.threshold)

section Calls

variable {b made : QkKernelBuilder} {calls : List Registering} {c : Registering}

theorem validatePriority_returns {priority : Nat} :
    Returns (validatePriority priority) ↔ 0 < priority ∧ priority ≤ maxPriority := by
  constructor
  · rintro ⟨⟨valid⟩, -⟩
    exact valid
  · rintro ⟨positive, inRange⟩
    refine ⟨⟨positive, inRange⟩, ?_⟩
    rw [validatePriority, dif_neg (by omega), dif_neg (by omega)]

theorem validateThreshold_returns {threshold priority : Nat} :
    Returns (validateThreshold threshold priority) ↔
      priority ≤ threshold ∧ threshold ≤ maxPriority := by
  constructor
  · rintro ⟨⟨valid⟩, -⟩
    exact valid
  · rintro ⟨above, inRange⟩
    refine ⟨⟨above, inRange⟩, ?_⟩
    rw [validateThreshold, dif_neg (by omega), dif_neg (by omega)]

theorem registerWithThreshold_ok {object : ActiveObjectRef} {threshold : Nat} :
    b.registerWithThreshold object threshold = .ok made ↔
      ∃ r : Registration, r.object = object ∧ r.threshold = threshold ∧
        made = { b with registrations := b.registrations ++ [r] } := by
  constructor
  · intro registered
    obtain ⟨⟨valid⟩, -, registered⟩ := bind_ok registered
    obtain ⟨⟨above⟩, -, registered⟩ := bind_ok registered
    cases registered
    exact ⟨⟨object, threshold, valid.1, valid.2, above.1, above.2⟩, rfl, rfl, rfl⟩
  · rintro ⟨r, rfl, rfl, rfl⟩
    obtain ⟨valid, first⟩ := validatePriority_returns.mpr ⟨r.positive, r.inRange⟩
    obtain ⟨above, second⟩ := validateThreshold_returns.mpr ⟨r.above, r.thresholdInRange⟩
    rw [QkKernelBuilder.registerWithThreshold, first, ok_bind, second]
    rfl

/-- `register` is `register_with_threshold` with the priority itself. -/
theorem register_eq (b : QkKernelBuilder) (object : ActiveObjectRef) :
    b.register object = b.registerWithThreshold object object.priority := by
  unfold QkKernelBuilder.register QkKernelBuilder.registerWithThreshold
  cases checked : validatePriority object.priority with
  | error err => rfl
  | ok valid =>
      obtain ⟨above, second⟩ :=
        validateThreshold_returns.mpr ⟨le_refl object.priority, valid.down.2⟩
      rw [ok_bind, ok_bind, second]
      rfl

theorem apply_ok :
    c.apply b = .ok made ↔ ∃ r : Registration, r.object = c.object ∧ r.request = c.ownRequest ∧
      made = { b with registrations := b.registrations ++ [r] } := by
  have registered (threshold : Nat) :
      b.registerWithThreshold c.object threshold = .ok made ↔
        ∃ r : Registration, r.object = c.object ∧ r.request = (c.object.priority, threshold) ∧
          made = { b with registrations := b.registrations ++ [r] } := by
    rw [registerWithThreshold_ok]
    refine exists_congr fun r => and_congr_right fun same => and_congr_left fun _ => ?_
    simp [Registration.request, same]
  cases c with
  | register object =>
      rw [Registering.apply, register_eq]
      exact registered object.priority
  | registerWithThreshold object threshold => exact registered threshold
  | registerPrio object spec => exact registered spec.threshold

theorem applyAll_ok :
    calls.foldlM Registering.apply b = .ok made ↔ ∃ rs : List Registration,
      rs.map (fun r => (r.object, r.request)) = calls.map (fun c => (c.object, c.ownRequest)) ∧
        made = { b with registrations := b.registrations ++ rs } := by
  induction calls generalizing b with
  | nil =>
      constructor
      · intro applied
        cases applied
        exact ⟨[], rfl, by rw [List.append_nil]⟩
      · rintro ⟨rs, none, rfl⟩
        cases List.map_eq_nil_iff.mp none
        rw [List.append_nil]
        rfl
  | cons c more ih =>
      rw [List.foldlM_cons]
      constructor
      · intro applied
        obtain ⟨next, first, later⟩ := bind_ok applied
        obtain ⟨r, object, request, rfl⟩ := apply_ok.mp first
        obtain ⟨rs, follow, rfl⟩ := ih.mp later
        refine ⟨r :: rs, ?_, by rw [List.append_assoc]; rfl⟩
        rw [List.map_cons, List.map_cons, follow, object, request]
      · rintro ⟨rs, follow, rfl⟩
        obtain ⟨r, rest, rfl, head, tail⟩ := List.map_eq_cons_iff.mp follow
        obtain ⟨object, request⟩ := Prod.mk.inj head
        rw [apply_ok.mpr ⟨r, object, request, rfl⟩, ok_bind]
        exact ih.mpr ⟨rest, tail, by rw [List.append_assoc]; rfl⟩

end Calls

section Build

variable {k made : QkKernel} {rs : List Registration} {r : Registration}

theorem add_ok :
    k.add r = .ok made → k.slots r.object.priority = none ∧
      made.slots = Function.update k.slots r.object.priority (some ⟨r.object, r.threshold⟩) ∧
      made.idToPrio = Function.update k.idToPrio r.object.id (some r.object.priority) := by
  intro added
  unfold QkKernel.add at added
  split at added
  · cases added
  · rename_i free
    cases added
    exact ⟨Option.not_isSome_iff_eq_none.mp free, rfl, rfl⟩

theorem add_returns : Returns (k.add r) ↔ k.slots r.object.priority = none := by
  constructor
  · rintro ⟨made, added⟩
    exact (add_ok added).1
  · intro free
    have untaken : ¬(k.slots r.object.priority).isSome = true := by simp [free]
    exact ⟨_, dif_neg untaken⟩

theorem addAll_returns :
    Returns (rs.foldlM QkKernel.add k) ↔
      (rs.map fun r => r.object.priority).Nodup ∧
        ∀ r ∈ rs, k.slots r.object.priority = none := by
  induction rs generalizing k with
  | nil => simp [Returns, pure, Except.pure]
  | cons r more ih =>
      rw [List.foldlM_cons, List.map_cons, List.nodup_cons]
      constructor
      · rintro ⟨made, folded⟩
        obtain ⟨next, first, later⟩ := bind_ok folded
        obtain ⟨free, slots, -⟩ := add_ok first
        obtain ⟨apart, empty⟩ := ih.mp ⟨made, later⟩
        have others (q : Registration) (member : q ∈ more) :
            q.object.priority ≠ r.object.priority ∧ k.slots q.object.priority = none := by
          have untaken := empty q member
          rw [slots] at untaken
          by_cases same : q.object.priority = r.object.priority
          · simp [same] at untaken
          · exact ⟨same, by rwa [Function.update_of_ne same] at untaken⟩
        refine ⟨⟨?_, apart⟩, ?_⟩
        · intro again
          obtain ⟨q, member, same⟩ := List.mem_map.mp again
          exact (others q member).1 same
        · intro q member
          rcases List.mem_cons.mp member with rfl | member
          · exact free
          · exact (others q member).2
      · rintro ⟨⟨fresh, apart⟩, empty⟩
        obtain ⟨next, first⟩ := add_returns.mpr (empty r List.mem_cons_self)
        apply Returns.bind_ok first
        apply ih.mpr
        refine ⟨apart, ?_⟩
        intro q member
        have other : q.object.priority ≠ r.object.priority := fun same =>
          fresh (same ▸ List.mem_map_of_mem (f := fun r => r.object.priority) member)
        rw [(add_ok first).2.1, Function.update_of_ne other]
        exact empty q (List.mem_cons_of_mem r member)

theorem addAll_slots (folded : rs.foldlM QkKernel.add k = .ok made) (p : Nat) (slot : ActiveSlot) :
    made.slots p = some slot ↔
      k.slots p = some slot ∨
        ∃ r ∈ rs, r.object = slot.object ∧ r.request = (p, slot.threshold) := by
  induction rs generalizing k with
  | nil =>
      cases folded
      simp
  | cons r more ih =>
      rw [List.foldlM_cons] at folded
      obtain ⟨next, first, later⟩ := bind_ok folded
      obtain ⟨free, slots, -⟩ := add_ok first
      have added : next.slots p = some slot ↔
          k.slots p = some slot ∨ r.object = slot.object ∧ r.request = (p, slot.threshold) := by
        rw [slots]
        by_cases here : p = r.object.priority
        · subst here
          rw [Function.update_self, free]
          obtain ⟨object, threshold⟩ := slot
          simp [Registration.request]
        · have other : r.object.priority ≠ p := fun same => here same.symm
          simp [here, Registration.request, other]
      rw [ih later, added, or_assoc]
      simp

theorem addAll_ids (folded : rs.foldlM QkKernel.add k = .ok made) (id : ActiveObjectId) (p : Nat) :
    made.idToPrio id = some p →
      k.idToPrio id = some p ∨ ∃ r ∈ rs, r.object.id = id ∧ r.object.priority = p := by
  induction rs generalizing k with
  | nil =>
      cases folded
      exact .inl
  | cons r more ih =>
      rw [List.foldlM_cons] at folded
      obtain ⟨next, first, later⟩ := bind_ok folded
      obtain ⟨-, -, ids⟩ := add_ok first
      intro found
      rcases ih later found with before | ⟨q, member, posts⟩
      · rw [ids] at before
        by_cases here : id = r.object.id
        · rw [here, Function.update_self] at before
          exact .inr ⟨r, List.mem_cons_self, here.symm, Option.some.inj before⟩
        · rw [Function.update_of_ne here] at before
          exact .inl before
      · exact .inr ⟨q, List.mem_cons_of_mem r member, posts⟩

theorem addAll_reached (folded : rs.foldlM QkKernel.add k = .ok made) {id : ActiveObjectId}
    (known : (k.idToPrio id).isSome ∨ ∃ r ∈ rs, r.object.id = id) : (made.idToPrio id).isSome := by
  induction rs generalizing k with
  | nil =>
      cases folded
      simpa using known
  | cons r more ih =>
      rw [List.foldlM_cons] at folded
      obtain ⟨next, first, later⟩ := bind_ok folded
      obtain ⟨-, -, ids⟩ := add_ok first
      apply ih later
      by_cases here : id = r.object.id
      · left
        rw [ids, here, Function.update_self]
        rfl
      · rw [ids, Function.update_of_ne here]
        apply known.imp_right
        rintro ⟨q, member, same⟩
        rcases List.mem_cons.mp member with rfl | member
        · exact absurd same.symm here
        · exact ⟨q, member, same⟩

end Build

namespace Registering

variable {pubsub : Option PubSubTable} {calls : List Registering} {k : QkKernel}
  {table : Option PubSubTable}

theorem build_ok (built : build pubsub calls = .ok (k, table)) :
    ∃ rs : List Registration,
      rs.map (fun r => (r.object, r.request)) = calls.map (fun c => (c.object, c.ownRequest)) ∧
        rs.foldlM QkKernel.add QkKernel.none = .ok k := by
  obtain ⟨b, applied, built⟩ := bind_ok built
  obtain ⟨rs, follow, rfl⟩ := applyAll_ok.mp applied
  obtain ⟨k', folded, rest⟩ := bind_ok built
  cases rest
  exact ⟨rs, follow, folded⟩

theorem requests_follow {rs : List Registration}
    (follow :
      rs.map (fun r => (r.object, r.request)) = calls.map (fun c => (c.object, c.ownRequest))) :
    calls.map ownRequest = rs.map Registration.request := by
  have seconds := congrArg (List.map Prod.snd) follow
  rw [List.map_map, List.map_map] at seconds
  exact seconds.symm

theorem build_returns : Returns (build pubsub calls) ↔ Admissible (calls.map ownRequest) := by
  constructor
  · rintro ⟨⟨k, table⟩, built⟩
    obtain ⟨rs, follow, folded⟩ := build_ok built
    rw [requests_follow follow]
    refine ⟨?_, ?_⟩
    · rw [List.map_map]
      exact (addAll_returns.mp ⟨k, folded⟩).1
    · intro request member
      obtain ⟨r, -, rfl⟩ := List.mem_map.mp member
      exact ⟨r.positive, r.inRange, r.above, r.thresholdInRange⟩
  · rintro ⟨apart, valid⟩
    have accepted (c : Registering) (member : c ∈ calls) :
        ∃ r : Registration, (r.object, r.request) = (c.object, c.ownRequest) := by
      obtain ⟨positive, inRange, above, bounded⟩ := valid _ (List.mem_map_of_mem member)
      exact ⟨⟨c.object, c.requested.2, positive, inRange, above, bounded⟩, rfl⟩
    obtain ⟨rs, follow⟩ : ∃ rs : List Registration,
        rs.map (fun r => (r.object, r.request)) =
          calls.map (fun c => (c.object, c.ownRequest)) := by
      clear apart valid
      induction calls with
      | nil => exact ⟨[], rfl⟩
      | cons c more ih =>
          obtain ⟨r, same⟩ := accepted c List.mem_cons_self
          obtain ⟨rs, follow⟩ := ih fun c member => accepted c (List.mem_cons_of_mem _ member)
          exact ⟨r :: rs, by rw [List.map_cons, List.map_cons, same, follow]⟩
    rw [requests_follow follow, List.map_map] at apart
    obtain ⟨k, folded⟩ := addAll_returns.mpr (⟨apart, fun _ _ => rfl⟩ :
      _ ∧ ∀ r ∈ rs, QkKernel.none.slots r.object.priority = none)
    apply Returns.bind_ok (applyAll_ok.mpr ⟨rs, follow, rfl⟩)
    exact Returns.bind_ok folded (.ok _)

theorem mem_follow {rs : List Registration}
    (follow :
      rs.map (fun r => (r.object, r.request)) = calls.map (fun c => (c.object, c.ownRequest)))
    (object : ActiveObjectRef) (request : Nat × Nat) :
    (∃ r ∈ rs, r.object = object ∧ r.request = request) ↔
      ∃ c ∈ calls, c.object = object ∧ c.ownRequest = request := by
  have same := congrArg ((object, request) ∈ ·) follow
  simpa using same

theorem ownRequest_eq {c : Registering} (own : c.requested.1 = c.object.priority) :
    c.ownRequest = c.requested := by
  rw [ownRequest, ← own]

theorem schedules_of_own (own : OwnPriorities calls) (built : build pubsub calls = .ok (k, table)) :
    Schedules k calls := by
  obtain ⟨rs, follow, folded⟩ := build_ok built
  have slots (p : Nat) (slot : ActiveSlot) : k.slots p = some slot ↔
      ∃ c ∈ calls, c.object = slot.object ∧ c.requested = (p, slot.threshold) := by
    rw [addAll_slots folded, mem_follow follow]
    have fresh : QkKernel.none.slots p ≠ some slot := nofun
    rw [or_iff_right fresh]
    refine exists_congr fun c => and_congr_right fun member => ?_
    rw [ownRequest_eq (own c member)]
  refine ⟨slots, ?_, ?_, ?_⟩
  · intro c member
    have slot := (slots c.requested.1 ⟨c.object, c.requested.2⟩).mpr ⟨c, member, rfl, rfl⟩
    have positive : c.requested.1 ≠ 0 := by
      have := k.slot_positive _ _ slot
      omega
    simp [QkKernel.thresholdFor, positive, slot]
  · intro id p found
    rcases addAll_ids folded id p found with none | ⟨r, member, sameId, samePrio⟩
    · cases none
    · obtain ⟨c, member, object, request⟩ :=
        (mem_follow follow r.object r.request).mp ⟨r, member, rfl, rfl⟩
      refine ⟨c, member, by rw [object, sameId], ?_⟩
      rw [own c member, object, samePrio]
  · intro c member
    apply addAll_reached folded
    obtain ⟨r, member, object, -⟩ :=
      (mem_follow follow c.object c.ownRequest).mpr ⟨c, member, rfl, rfl⟩
    exact .inr ⟨r, member, by rw [object]⟩

/-- When the builder honours its calls. Whatever is registered through the three entry points,
registrations and build succeed exactly for admissible requests and the kernel schedules them, if
and only if every `QPrioSpec` names the priority of its active object, or the requests are not
admissible with either priority. -/
theorem builder_honours_iff (pubsub : Option PubSubTable) (calls : List Registering) :
    Honoured pubsub calls ↔
      OwnPriorities calls ∨
        ¬Admissible (calls.map requested) ∧ ¬Admissible (calls.map ownRequest) := by
  constructor
  · rintro ⟨succeeds, scheduled⟩
    by_cases accepted : Admissible (calls.map ownRequest)
    · left
      obtain ⟨⟨k, table⟩, built⟩ := build_returns.mpr accepted
      intro c member
      have slot := ((scheduled k table built).slots c.requested.1 ⟨c.object, c.requested.2⟩).mpr
        ⟨c, member, rfl, rfl⟩
      exact (k.slot_priority _ _ slot).symm
    · right
      refine ⟨?_, accepted⟩
      intro asked
      exact accepted (build_returns.mp (succeeds.mpr asked))
  · rintro (own | ⟨refused, rejected⟩)
    · have same : calls.map ownRequest = calls.map requested :=
        List.map_congr_left fun c member => ownRequest_eq (own c member)
      refine ⟨?_, fun k table built => schedules_of_own own built⟩
      rw [build_returns, same]
    · have fails : ¬Returns (build pubsub calls) := fun built => rejected (build_returns.mp built)
      exact ⟨iff_of_false fails refused, fun k table built => (fails ⟨_, built⟩).elim⟩

/-- The active object of priority 3 asks for priority 5 and threshold 7, and runs at priority 3. -/
theorem prio_spec_ignored :
    ¬Honoured none [.registerPrio ⟨⟨1⟩, 3⟩ ⟨5, 7⟩] := by
  rintro ⟨-, scheduled⟩
  obtain ⟨⟨k, table⟩, built⟩ : Returns (build none [.registerPrio ⟨⟨1⟩, 3⟩ ⟨5, 7⟩]) :=
    build_returns.mpr (by decide)
  have slot := ((scheduled k table built).slots 5 ⟨⟨⟨1⟩, 3⟩, 7⟩).mpr
    ⟨_, List.mem_cons_self, rfl, rfl⟩
  exact absurd (k.slot_priority _ _ slot) (by decide)

end Registering

end QpRs.Qk
