import QpRs.Qv.Kernel

/-! What the registry scan of `dispatch_once` selects, and what every run of kernel calls keeps of
the queues and of the scheduler records. -/

namespace QpRs.Qv

variable {π : Type}

section Registry

theorem build_ordered {b : KernelBuilder} (distinct : b.Distinct) :
    b.build.objects.Pairwise fun x y => x.priority < y.priority := by
  have total : Std.Total fun x y : ActiveObjectRef => x.priority ≤ y.priority :=
    ⟨fun x y => Nat.le_total x.priority y.priority⟩
  have transitive : IsTrans ActiveObjectRef fun x y => x.priority ≤ y.priority :=
    ⟨fun _ _ _ => Nat.le_trans⟩
  have ordered : b.build.objects.Pairwise fun x y => x.priority ≤ y.priority :=
    List.pairwise_insertionSort _ b.objects
  have same : b.build.objects.Perm b.objects := List.perm_insertionSort _ _
  have unique : b.build.objects.Pairwise fun x y => x.priority ≠ y.priority := by
    have nodup := (same.map ActiveObjectRef.priority).nodup_iff.mpr distinct.priorities
    exact List.pairwise_map.mp nodup
  apply (ordered.and unique).imp
  rintro x y ⟨low, other⟩
  omega

theorem find_highest {objects : List ActiveObjectRef} {looked : ActiveObjectRef → Bool}
    {ao : ActiveObjectRef} (ordered : objects.Pairwise fun x y => x.priority < y.priority)
    (found : objects.reverse.find? looked = some ao) :
    ao ∈ objects ∧ looked ao = true ∧
      ∀ other ∈ objects, looked other = true → other ≠ ao → other.priority < ao.priority := by
  rcases List.find?_eq_some_iff_append.mp found with ⟨holds, above, below, split, missed⟩
  have shape : objects = below.reverse ++ ao :: above.reverse := by
    have := congrArg List.reverse split
    simpa using this
  subst shape
  refine ⟨by simp, holds, ?_⟩
  intro other member wanted different
  rcases List.mem_append.mp member with low | high
  · exact (List.pairwise_append.mp ordered).2.2 other low ao List.mem_cons_self
  · rcases List.mem_cons.mp high with same | high
    · exact absurd same different
    · have := missed other (List.mem_reverse.mp high)
      simp [wanted] at this

end Registry

section Records

/-- The priority that the scheduler records name as running. -/
def track (active : Nat) : Record → Nat
  | .next prio _ => prio
  | .idle _ => 0
  | _ => active

/-- A record of the scheduler names the running priority as the previous one. -/
def Follows (active : Nat) : Record → Prop
  | .next prio previous => previous = active ∧ prio ≠ previous
  | .idle previous => previous = active ∧ previous ≠ 0
  | _ => True

def Chained (records : List Record) : Prop :=
  ∀ front record back, records = front ++ record :: back → Follows (front.foldl track 0) record

theorem Chained.snoc {records : List Record} {record : Record} (chained : Chained records)
    (follows : Follows (records.foldl track 0) record) : Chained (records ++ [record]) := by
  intro front middle back split
  rcases List.eq_nil_or_concat back with rfl | ⟨rest, last, rfl⟩
  · rcases List.append_inj' split rfl with ⟨rfl, same⟩
    cases same
    exact follows
  · have regrouped : records ++ [record] = (front ++ middle :: rest) ++ [last] := by
      simpa using split
    exact chained front middle rest (List.append_inj' regrouped rfl).1

end Records

/-- A dispatched event was the front of the queue of the highest object with events, above the
ceiling in force. -/
structure Selected (d : Dispatch π) : Prop where
  above : d.ceiling < d.ao.priority
  front : d.queue.head? = some d.event
  waiting : d.ao ∈ d.waiting
  highest : ∀ ao ∈ d.waiting, ao ≠ d.ao → ao.priority < d.ao.priority

/-- No behavior was locked twice. -/
def World.Unstuck (w : World π) : Prop := ∀ ao, w.fault ≠ some (.deadlock ao)

structure Inv (w : World π) : Prop where
  selected : ∀ d ∈ w.dispatches, Selected d
  account : w.Unstuck → ∀ ao, w.enqueued ao = w.handled ao ++ (w.queues ao).buf
  chained : Chained w.records
  active : w.records.foldl track 0 = w.prevPrio

/-- No object above the ceiling has an event. -/
def Drained (k : QvKernel) (w : World π) : Prop :=
  ∀ ao ∈ k.objects, (w.queues ao).buf ≠ [] → ao.priority ≤ w.schedCeiling

section Calls

variable {k : QvKernel} {w : World π}

theorem Inv.withStack (inv : Inv w) (stack : List Frame) : Inv { w with stack := stack } :=
  ⟨inv.selected, inv.account, inv.chained, inv.active⟩

theorem Inv.refuse (inv : Inv w) (running : w.fault = none) : Inv (w.fail .pubsub) where
  selected := inv.selected
  account := by
    intro _
    apply inv.account
    intro ao stuck
    rw [running] at stuck
    cases stuck
  chained := inv.chained
  active := inv.active

theorem Inv.deadlock (inv : Inv w) (ao : ActiveObjectRef) : Inv (w.fail (.deadlock ao)) where
  selected := inv.selected
  account := by
    intro unstuck
    exact absurd rfl (unstuck ao)
  chained := inv.chained
  active := inv.active

theorem Inv.push (inv : Inv w) (ao : ActiveObjectRef) (e : DynEvent π) : Inv (w.push ao e) where
  selected := inv.selected
  account := by
    intro unstuck other
    have before := inv.account unstuck other
    simp only [World.push, World.handled] at before ⊢
    by_cases here : other = ao
    · subst here
      simp [before]
    · simpa [here] using before
  chained := inv.chained
  active := inv.active

theorem Inv.emit (inv : Inv w) {record : Record} (follows : ∀ active, Follows active record)
    (untracked : ∀ active, track active record = active) : Inv (w.emit record) where
  selected := inv.selected
  account := inv.account
  chained := inv.chained.snoc (follows _)
  active := by simp [World.emit, untracked, inv.active]

theorem Inv.noteIdle (inv : Inv w) : Inv w.noteIdle := by
  unfold World.noteIdle
  by_cases running : w.prevPrio ≠ 0
  · rw [if_pos running]
    refine ⟨inv.selected, inv.account, inv.chained.snoc ⟨inv.active.symm, running⟩, ?_⟩
    simp [World.emit, track]
  · rw [if_neg running]
    exact inv

theorem Inv.noteNext (inv : Inv w) (prio : Nat) : Inv (w.noteNext prio) := by
  unfold World.noteNext
  by_cases moved : prio ≠ w.prevPrio
  · rw [if_pos moved]
    refine ⟨inv.selected, inv.account, inv.chained.snoc ⟨inv.active.symm, moved⟩, ?_⟩
    simp [World.emit, track]
  · rw [if_neg moved]
    refine ⟨inv.selected, inv.account, inv.chained, ?_⟩
    rw [not_not.mp moved]
    exact inv.active

theorem Inv.multicast (inv : Inv w) (running : w.fault = none) (checks : Bool)
    (subscribers : BitVec 64) (e : DynEvent π)
    (objects : List ActiveObjectRef) : Inv (w.multicast checks subscribers e objects) := by
  induction objects generalizing w with
  | nil => exact inv
  | cons ao rest ih =>
      unfold World.multicast
      split
      · exact inv.refuse running
      · split
        · exact ih (inv.push ao e) running
        · exact ih inv running

theorem Inv.broadcast (inv : Inv w) (e : DynEvent π) (objects : List ActiveObjectRef) :
    Inv (w.broadcast e objects) := by
  induction objects generalizing w with
  | nil => exact inv
  | cons ao rest ih => exact ih (inv.push ao e)

theorem Inv.publish (inv : Inv w) (running : w.fault = none) (checks : Bool) (signal : Signal)
    (e : DynEvent π) :
    Inv (w.publish k checks signal e) := by
  have told : Inv (w.emit (.publish signal)) := inv.emit (fun _ => trivial) fun _ => rfl
  unfold World.publish
  split
  · split
    · exact told.refuse running
    · exact told.multicast running checks _ _ _
  · exact inv.broadcast _ _

theorem hasEvents_iff (ao : ActiveObjectRef) :
    w.hasEvents ao = true ↔ (w.queues ao).buf ≠ [] := by
  simp [World.hasEvents, ← EventQueue.isEmpty_iff]

@[simp] theorem hasEvents_noteNext (prio : Nat) : (w.noteNext prio).hasEvents = w.hasEvents := by
  unfold World.noteNext
  split <;> rfl

@[simp] theorem schedCeiling_noteNext (prio : Nat) :
    (w.noteNext prio).schedCeiling = w.schedCeiling := by
  unfold World.noteNext
  split <;> rfl

@[simp] theorem stack_noteNext (prio : Nat) : (w.noteNext prio).stack = w.stack := by
  unfold World.noteNext
  split <;> rfl

@[simp] theorem stack_noteIdle : w.noteIdle.stack = w.stack := by
  unfold World.noteIdle
  split <;> rfl

theorem Inv.dispatchOne (inv : Inv w) {ao : ActiveObjectRef} {waiting : List ActiveObjectRef}
    (above : w.schedCeiling < ao.priority) (among : ao ∈ waiting)
    (highest : ∀ other ∈ waiting, other ≠ ao → other.priority < ao.priority) :
    Inv (w.dispatchOne ao waiting).2 := by
  unfold World.dispatchOne
  cases queue : (w.queues ao).buf with
  | nil => simpa [EventQueue.popFront, queue] using inv
  | cons e rest =>
      simp only [EventQueue.popFront, queue]
      by_cases held : ao ∈ heldBehaviors w.stack
      · rw [if_pos held]
        refine ⟨inv.selected, ?_, inv.chained, inv.active⟩
        intro unstuck
        exact absurd rfl (unstuck ao)
      · rw [if_neg held]
        refine ⟨?_, ?_, inv.chained, inv.active⟩
        · intro d member
          rcases List.mem_append.mp member with old | new
          · exact inv.selected d old
          · rw [List.mem_singleton.mp new]
            exact ⟨above, rfl, among, highest⟩
        · intro unstuck other
          have before := inv.account unstuck other
          simp only [World.handled] at before ⊢
          by_cases here : other = ao
          · subst here
            simp [before, queue]
          · have there : ¬ ao = other := fun same => here same.symm
            simpa [here, there] using before

theorem Inv.dispatchOnce (ordered : k.objects.Pairwise fun x y => x.priority < y.priority)
    (inv : Inv w) : Inv (w.dispatchOnce k).2 := by
  unfold World.dispatchOnce
  cases found : k.objects.reverse.find? w.hasEvents with
  | none => exact inv.noteIdle
  | some ao =>
      rcases find_highest ordered found with ⟨member, events, highest⟩
      simp only
      by_cases low : ao.priority ≤ w.schedCeiling
      · rw [if_pos low]
        exact inv.noteIdle
      · rw [if_neg low]
        apply (inv.noteNext ao.priority).dispatchOne
        · simpa using low
        · exact List.mem_filter.mpr ⟨member, events⟩
        · intro other waiting
          rcases List.mem_filter.mp waiting with ⟨registered, events⟩
          exact highest other registered events

/-- `dispatch_once` that returns without a handler leaves nothing above the ceiling. -/
theorem dispatchOnce_drained (ordered : k.objects.Pairwise fun x y => x.priority < y.priority)
    {w' : World π} (returned : w.dispatchOnce k = (false, w')) :
    Drained k w' ∧ w'.stack = w.stack := by
  have kept : Drained k w → Drained k w.noteIdle := by
    intro drained ao registered
    unfold World.noteIdle
    split <;> exact drained ao registered
  unfold World.dispatchOnce at returned
  cases found : k.objects.reverse.find? w.hasEvents with
  | none =>
      rw [found] at returned
      cases returned
      refine ⟨kept ?_, stack_noteIdle⟩
      intro ao registered events
      have missed := List.find?_eq_none.mp found ao (List.mem_reverse.mpr registered)
      exact absurd ((hasEvents_iff ao).mpr events) missed
  | some ao =>
      rcases find_highest ordered found with ⟨member, events, highest⟩
      rw [found] at returned
      simp only at returned
      by_cases low : ao.priority ≤ w.schedCeiling
      · rw [if_pos low] at returned
        cases returned
        refine ⟨kept ?_, stack_noteIdle⟩
        intro other registered waiting
        by_cases same : other = ao
        · rw [same]
          exact low
        · have := highest other registered ((hasEvents_iff other).mpr waiting) same
          omega
      · rw [if_neg low] at returned
        -- The selected object has an event, so `dispatch_one` starts its handler.
        have queued : ((w.noteNext ao.priority).queues ao).buf ≠ [] := by
          rw [← hasEvents_iff, hasEvents_noteNext]
          exact events
        unfold World.dispatchOne at returned
        cases queue : ((w.noteNext ao.priority).queues ao).buf with
        | nil => exact absurd queue queued
        | cons e rest =>
            simp only [EventQueue.popFront, queue] at returned
            split at returned <;> cases returned

theorem dispatchOne_stack (ao : ActiveObjectRef) (waiting : List ActiveObjectRef) :
    (w.dispatchOne ao waiting).2.stack = w.stack ∨
      (w.dispatchOne ao waiting).2.stack = .handling ao :: w.stack := by
  unfold World.dispatchOne
  cases (w.queues ao).popFront with
  | mk event rest =>
      cases event with
      | none => exact .inl rfl
      | some e =>
          by_cases held : ao ∈ heldBehaviors w.stack
          · simp [held, World.fail]
          · simp [held]

theorem dispatchOnce_stack : (w.dispatchOnce k).2.stack = w.stack ∨
    ∃ ao, (w.dispatchOnce k).2.stack = .handling ao :: w.stack := by
  unfold World.dispatchOnce
  split
  · rename_i ao _
    split
    · exact .inl stack_noteIdle
    · have dispatched := dispatchOne_stack (w := w.noteNext ao.priority) ao
        (k.objects.filter w.hasEvents)
      rw [stack_noteNext] at dispatched
      exact dispatched.imp id fun handling => ⟨ao, handling⟩
  · exact .inl stack_noteIdle

theorem Inv.runUntilIdle (ordered : k.objects.Pairwise fun x y => x.priority < y.priority)
    (inv : Inv w) : Inv (w.runUntilIdle k) := by
  have next := (inv.withStack (.loop :: w.stack)).dispatchOnce ordered
  unfold World.runUntilIdle
  split
  · rename_i same
    rw [same] at next
    exact next
  · rename_i same
    rw [same] at next
    unfold World.idle
    split
    · exact next.withStack _
    · exact next.withStack _

theorem Inv.resume (ordered : k.objects.Pairwise fun x y => x.priority < y.priority)
    (inv : Inv w) : Inv (w.resume k) := by
  unfold World.resume
  split
  · exact (inv.withStack _).runUntilIdle ordered
  · exact inv

theorem Inv.startFrom (inv : Inv w) (rest : List ActiveObjectRef) : Inv (w.startFrom rest) := by
  unfold World.startFrom
  split
  · exact inv
  · split
    · exact inv.deadlock _
    · exact inv.withStack _

theorem Inv.setCeiling (inv : Inv w) (ceiling : Nat) : Inv { w with schedCeiling := ceiling } :=
  ⟨inv.selected, inv.account, inv.chained, inv.active⟩

theorem Inv.lockScheduler (inv : Inv w) (ceiling : Nat) : Inv (w.lockScheduler ceiling) := by
  unfold World.lockScheduler
  split
  · exact (inv.setCeiling ceiling).emit (fun _ => trivial) fun _ => rfl
  · exact inv

theorem Inv.unlockScheduler (inv : Inv w) : Inv w.unlockScheduler := by
  unfold World.unlockScheduler
  split
  · exact (inv.setCeiling 0).emit (fun _ => trivial) fun _ => rfl
  · exact inv

theorem Inv.updateTable (inv : Inv w) (running : w.fault = none)
    (change : PubSubTable → Except Halt PubSubTable)
    {record : Option Record} (follows : ∀ r ∈ record, ∀ active, Follows active r)
    (untracked : ∀ r ∈ record, ∀ active, track active r = active) :
    Inv (w.updateTable change record) := by
  unfold World.updateTable
  split
  · exact inv
  · split
    · exact inv.refuse running
    · rename_i table _
      have changed : Inv { w with pubsub := some table } :=
        ⟨inv.selected, inv.account, inv.chained, inv.active⟩
      cases record with
      | none => exact changed
      | some r => exact changed.emit (follows r rfl) (untracked r rfl)

theorem Inv.perform (ordered : k.objects.Pairwise fun x y => x.priority < y.priority)
    (inv : Inv w) (running : w.fault = none) (checks : Bool) (c : Call π) :
    Inv (w.perform k checks c) := by
  cases c with
  | start => exact inv.startFrom k.objects
  | post target e =>
      simp only [World.perform, World.post]
      cases k.byId target with
      | none => exact inv
      | some ao => exact inv.push ao e
  | publish signal e => exact inv.publish running checks signal e
  | dispatchOnce => exact inv.dispatchOnce ordered
  | runUntilIdle => exact inv.runUntilIdle ordered
  | lockScheduler ceiling => exact inv.lockScheduler ceiling
  | unlockScheduler => exact inv.unlockScheduler
  | subscribe signal prio =>
      apply inv.updateTable running
      · rintro r ⟨⟩ active
        trivial
      · rintro r ⟨⟩ active
        rfl
  | unsubscribe signal prio =>
      apply inv.updateTable running
      · rintro r ⟨⟩ active
        trivial
      · rintro r ⟨⟩ active
        rfl
  | unsubscribeAll prio =>
      apply inv.updateTable running
      · rintro r ⟨⟩
      · rintro r ⟨⟩

end Calls

theorem step_cases {k : QvKernel} {checks : Bool} {w w' : World π} {a : Action π}
    (stepped : w.step k checks a = some w') :
    w.fault = none ∧ ((∃ c, a = .call c ∧ w' = w.perform k checks c) ∨
    (∃ ao rest, a = .ret ∧ w.stack = .handling ao :: rest ∧
      w' = World.resume k { w with stack := rest }) ∨
    (∃ ao more rest, a = .ret ∧ w.stack = .starting ao more :: rest ∧
      w' = World.startFrom { w with stack := rest } more) ∨
    (∃ rest, a = .ret ∧ w.stack = .idling :: rest ∧ w' = { w with stack := rest })) := by
  unfold World.step at stepped
  split at stepped
  · cases stepped
  · rename_i running
    refine ⟨by simpa using running, ?_⟩
    cases a with
    | call c =>
        left
        refine ⟨c, rfl, ?_⟩
        split at stepped <;> simp_all
    | ret =>
        right
        split at stepped <;> simp_all

theorem inv_step {k : QvKernel} (ordered : k.objects.Pairwise fun x y => x.priority < y.priority)
    (checks : Bool) (w : World π) (a : Action π) (w' : World π) (inv : Inv w)
    (stepped : w.step k checks a = some w') : Inv w' := by
  rcases step_cases stepped with ⟨running, ⟨c, -, rfl⟩ | ⟨ao, rest, -, -, rfl⟩ |
    ⟨ao, more, rest, -, -, rfl⟩ | ⟨rest, -, -, rfl⟩⟩
  · exact inv.perform ordered running checks c
  · exact (inv.withStack rest).resume ordered
  · exact (inv.withStack rest).startFrom more
  · exact inv.withStack rest

theorem inv_init (pubsub : Option PubSubTable) : Inv (World.init pubsub : World π) where
  selected := by
    intro d member
    cases member
  account := fun _ _ => rfl
  chained := by
    intro front record back split
    simp [World.init] at split
  active := rfl

def loops (stack : List Frame) : Nat := stack.count .loop

/-- The step ends the loop of a `run_until_idle`. It returns then, or goes on to the idle callback
if there is one. -/
def LoopEnds (w : World π) (a : Action π) (w' : World π) : Prop :=
  loops w'.stack < loops w.stack ∨ a = .call .runUntilIdle ∧ loops w'.stack = loops w.stack

section Loops

variable {k : QvKernel} {w : World π}

theorem runUntilIdle_ends (ordered : k.objects.Pairwise fun x y => x.priority < y.priority) :
    loops (w.runUntilIdle k).stack = loops w.stack + 1 ∨
      loops (w.runUntilIdle k).stack = loops w.stack ∧ Drained k (w.runUntilIdle k) := by
  have pushed := dispatchOnce_stack (k := k) (w := { w with stack := .loop :: w.stack })
  unfold World.runUntilIdle
  split
  · rename_i same
    rw [same] at pushed
    simp only at pushed
    left
    rcases pushed with stays | ⟨ao, grows⟩
    · simp [stays, loops]
    · simp [grows, loops]
  · rename_i same
    right
    have drained := (dispatchOnce_drained ordered same).1
    unfold World.idle
    split
    · exact ⟨by simp [loops], drained⟩
    · exact ⟨rfl, drained⟩

/-- A call that starts no application code: it can only be refused by the subscription table. -/
def Settles (w w' : World π) : Prop :=
  w'.stack = w.stack ∧ (w'.fault = w.fault ∨ w'.fault = some .pubsub)

theorem settles_multicast (checks : Bool) (subscribers : BitVec 64) (e : DynEvent π)
    (objects : List ActiveObjectRef) : Settles w (w.multicast checks subscribers e objects) := by
  induction objects generalizing w with
  | nil => exact ⟨rfl, .inl rfl⟩
  | cons ao rest ih =>
      unfold World.multicast
      split
      · exact ⟨rfl, .inr rfl⟩
      · split
        · exact ih (w := w.push ao e)
        · exact ih

theorem settles_broadcast (e : DynEvent π) (objects : List ActiveObjectRef) :
    Settles w (w.broadcast e objects) := by
  induction objects generalizing w with
  | nil => exact ⟨rfl, .inl rfl⟩
  | cons ao rest ih => exact ih (w := w.push ao e)

theorem settles_publish (checks : Bool) (signal : Signal) (e : DynEvent π) :
    Settles w (w.publish k checks signal e) := by
  unfold World.publish
  split
  · split
    · exact ⟨rfl, .inr rfl⟩
    · exact settles_multicast (w := w.emit (.publish signal)) checks _ _ _
  · exact settles_broadcast _ _

theorem settles_updateTable (change : PubSubTable → Except Halt PubSubTable)
    (record : Option Record) : Settles w (w.updateTable change record) := by
  unfold World.updateTable
  split
  · exact ⟨rfl, .inl rfl⟩
  · split
    · exact ⟨rfl, .inr rfl⟩
    · cases record <;> exact ⟨rfl, .inl rfl⟩

def Starts : Call π → Prop
  | .start | .dispatchOnce | .runUntilIdle => True
  | _ => False

theorem settles_perform (checks : Bool) {c : Call π} (quiet : ¬ Starts c) :
    Settles w (w.perform k checks c) := by
  cases c with
  | start => exact absurd trivial quiet
  | post target e =>
      simp only [World.perform, World.post]
      cases k.byId target <;> exact ⟨rfl, .inl rfl⟩
  | publish signal e => exact settles_publish checks signal e
  | dispatchOnce => exact absurd trivial quiet
  | runUntilIdle => exact absurd trivial quiet
  | lockScheduler ceiling =>
      simp only [World.perform, World.lockScheduler]
      split <;> exact ⟨rfl, .inl rfl⟩
  | unlockScheduler =>
      simp only [World.perform, World.unlockScheduler]
      split <;> exact ⟨rfl, .inl rfl⟩
  | subscribe signal prio => exact settles_updateTable _ _
  | unsubscribe signal prio => exact settles_updateTable _ _
  | unsubscribeAll prio => exact settles_updateTable _ _

theorem loops_startFrom (rest : List ActiveObjectRef) :
    loops (w.startFrom rest).stack = loops w.stack := by
  unfold World.startFrom
  split
  · rfl
  · split
    · rfl
    · simp [loops]

theorem perform_loops (checks : Bool) {c : Call π} (other : c ≠ .runUntilIdle) :
    loops (w.perform k checks c).stack = loops w.stack := by
  by_cases quiet : Starts c
  · cases c with
    | start => exact loops_startFrom k.objects
    | dispatchOnce =>
        rcases dispatchOnce_stack (k := k) (w := w) with stays | ⟨ao, grows⟩
        · simp [World.perform, stays]
        · simp [World.perform, grows, loops]
    | runUntilIdle => exact absurd rfl other
    | _ => exact absurd quiet id
  · exact congrArg loops (settles_perform checks quiet).1

theorem loopEnds_drained (ordered : k.objects.Pairwise fun x y => x.priority < y.priority)
    {checks : Bool} {a : Action π} {w' : World π} (stepped : w.step k checks a = some w')
    (ends : LoopEnds w a w') : Drained k w' := by
  rcases step_cases stepped with ⟨-, ⟨c, rfl, rfl⟩ | ⟨ao, rest, rfl, top, rfl⟩ |
    ⟨ao, more, rest, rfl, top, rfl⟩ | ⟨rest, rfl, top, rfl⟩⟩
  · by_cases same : c = .runUntilIdle
    · subst same
      rcases runUntilIdle_ends (w := w) ordered with more | ⟨-, drained⟩
      · rcases ends with fewer | ⟨-, equal⟩
        · simp only [World.perform] at fewer
          omega
        · simp only [World.perform] at equal
          omega
      · exact drained
    · have kept := perform_loops (k := k) (w := w) checks same
      rcases ends with fewer | ⟨called, -⟩
      · omega
      · cases called
        exact absurd rfl same
  · have fewer : loops (World.resume k { w with stack := rest }).stack < loops w.stack := by
      rcases ends with fewer | ⟨called, -⟩
      · exact fewer
      · cases called
    have outer : loops w.stack = loops rest := by simp [top, loops]
    unfold World.resume at fewer ⊢
    split at fewer
    · rename_i below loop
      rcases runUntilIdle_ends (w := { w with stack := below }) ordered with more | ⟨-, drained⟩
      · simp only at loop
        simp only [loop, loops, List.count_cons_self] at outer more
        simp only [loops] at fewer
        omega
      · exact drained
    · simp only at fewer
      omega
  · have kept := loops_startFrom (w := { w with stack := rest }) more
    rcases ends with fewer | ⟨called, -⟩
    · simp only [kept] at fewer
      simp [top, loops] at fewer
    · cases called
  · rcases ends with fewer | ⟨called, -⟩
    · simp [top, loops] at fewer
    · cases called

end Loops

/-- Handlers, `on_start` and the idle callback start no dispatch: they post, publish, lock, unlock
and subscribe. -/
def FromOutside (w : World π) : Action π → Prop
  | .call c => Starts c → w.stack = []
  | .ret => True

/-- Only the innermost frame holds a behavior. -/
def Shallow (w : World π) : Prop := w.Unstuck ∧ heldBehaviors w.stack.tail = []

section Nesting

variable {k : QvKernel} {w : World π}

theorem held_tail {stack : List Frame} (free : heldBehaviors stack = []) :
    heldBehaviors stack.tail = [] := by
  cases stack with
  | nil => rfl
  | cons frame rest => cases frame <;> simp_all [heldBehaviors]

theorem fault_noteIdle : w.noteIdle.fault = w.fault := by
  unfold World.noteIdle
  split <;> rfl

theorem fault_noteNext (prio : Nat) : (w.noteNext prio).fault = w.fault := by
  unfold World.noteNext
  split <;> rfl

theorem fault_dispatchOnce (free : heldBehaviors w.stack = []) :
    (w.dispatchOnce k).2.fault = w.fault := by
  unfold World.dispatchOnce
  split
  · rename_i ao _
    split
    · exact fault_noteIdle
    · unfold World.dispatchOne
      cases ((w.noteNext ao.priority).queues ao).popFront with
      | mk event rest =>
          cases event with
          | none => exact fault_noteNext ao.priority
          | some e => simp [free, fault_noteNext]
  · exact fault_noteIdle

theorem Shallow.dispatchOnce (unstuck : w.Unstuck) (free : heldBehaviors w.stack = []) :
    Shallow (w.dispatchOnce k).2 := by
  constructor
  · unfold World.Unstuck
    rw [fault_dispatchOnce free]
    exact unstuck
  · rcases dispatchOnce_stack (k := k) (w := w) with stays | ⟨ao, grows⟩
    · rw [stays]
      exact held_tail free
    · rw [grows]
      exact free

theorem Shallow.runUntilIdle (unstuck : w.Unstuck) (free : heldBehaviors w.stack = []) :
    Shallow (w.runUntilIdle k) := by
  have next := Shallow.dispatchOnce (k := k) (w := { w with stack := .loop :: w.stack }) unstuck
      free
  unfold World.runUntilIdle
  split
  · rename_i same
    rw [same] at next
    exact next
  · rename_i same
    rw [same] at next
    unfold World.idle
    split
    · exact ⟨next.1, free⟩
    · exact ⟨next.1, held_tail free⟩

theorem Shallow.startFrom (unstuck : w.Unstuck) (free : heldBehaviors w.stack = [])
    (rest : List ActiveObjectRef) : Shallow (w.startFrom rest) := by
  unfold World.startFrom
  split
  · exact ⟨unstuck, held_tail free⟩
  · rw [free, if_neg List.not_mem_nil]
    exact ⟨unstuck, free⟩

theorem Shallow.perform (shallow : Shallow w) (checks : Bool) (c : Call π)
    (outside : FromOutside w (.call c)) : Shallow (w.perform k checks c) := by
  by_cases starts : Starts c
  · have empty := outside starts
    have free : heldBehaviors w.stack = [] := by
      rw [empty]
      rfl
    cases c with
    | start => exact .startFrom shallow.1 free _
    | dispatchOnce => exact .dispatchOnce shallow.1 free
    | runUntilIdle => exact .runUntilIdle shallow.1 free
    | _ => exact absurd starts id
  · rcases settles_perform (k := k) (w := w) checks starts with ⟨stack, same | refused⟩
    · refine ⟨?_, by rw [stack]; exact shallow.2⟩
      intro ao
      rw [same]
      exact shallow.1 ao
    · refine ⟨?_, by rw [stack]; exact shallow.2⟩
      intro ao
      rw [refused]
      intro same
      cases same

end Nesting

theorem shallow_step (k : QvKernel) (checks : Bool) (w : World π) (a : Action π) (w' : World π)
    (shallow : Shallow w) (outside : FromOutside w a) (stepped : w.step k checks a = some w') :
    Shallow w' := by
  rcases step_cases stepped with ⟨-, ⟨c, rfl, rfl⟩ | ⟨ao, rest, -, top, rfl⟩ |
    ⟨ao, more, rest, -, top, rfl⟩ | ⟨rest, -, top, rfl⟩⟩
  · exact shallow.perform checks c outside
  · have free := shallow.2
    rw [top, List.tail_cons] at free
    unfold World.resume
    split
    · rename_i below loop
      simp only at loop
      rw [loop] at free
      exact .runUntilIdle (w := { w with stack := below }) shallow.1 free
    · exact ⟨shallow.1, held_tail free⟩
  · have free := shallow.2
    rw [top, List.tail_cons] at free
    exact .startFrom (w := { w with stack := rest }) shallow.1 free more
  · have free := shallow.2
    rw [top, List.tail_cons] at free
    exact ⟨shallow.1, held_tail free⟩

theorem shallow_init (pubsub : Option PubSubTable) : Shallow (World.init pubsub : World π) := by
  refine ⟨?_, rfl⟩
  intro ao stuck
  cases stuck

end QpRs.Qv
