import QpRs.PubSub
import QpRs.Qv.Dispatch

/-! Delivery of published events in QV. -/

namespace QpRs.Qv

variable {π : Type}

def Call.subscription : Call π → Option Subscription
  | .subscribe signal prio => some (.subscribe signal prio)
  | .unsubscribe signal prio => some (.unsubscribe signal prio)
  | .unsubscribeAll prio => some (.unsubscribeAll prio)
  | _ => none

def Action.subscription : Action π → Option Subscription
  | .call c => c.subscription
  | .ret => none

/-- Each registered object that wants the signal gets one copy at the end of its queue; nothing else
is enqueued, and the table stays. -/
structure Delivers (k : QvKernel) (checks : Bool) (history : List Subscription) (w : World π)
    (signal : Signal) (e : DynEvent π) : Prop where
  queues : ∀ ao, ((w.publish k checks signal e).queues ao).buf = (w.queues ao).buf ++
    if ao ∈ k.objects ∧ wants history signal ao.priority then [e.withSignal signal] else []
  pubsub : (w.publish k checks signal e).pubsub = w.pubsub
  returns : (w.publish k checks signal e).fault = none

variable {k : QvKernel} {w : World π}

theorem multicast_eq {checks : Bool} {objects : List ActiveObjectRef}
    (fits : checks = true → ∀ ao ∈ objects, ao.priority < 64) (subscribers : BitVec 64)
    (e : DynEvent π) (w : World π) :
    World.multicast checks subscribers e w objects =
      World.broadcast e w
        (objects.filter fun ao => subscribers.getLsbD (ao.priority % 64)) := by
  induction objects generalizing w with
  | nil => rfl
  | cons first rest ih =>
      have shift : shiftOne checks first.priority = .ok (1#64 <<< (first.priority % 64)) :=
        shiftOne_ok fun checked => fits checked first List.mem_cons_self
      have read : ((subscribers &&& 1#64 <<< (first.priority % 64)) != 0#64) =
          subscribers.getLsbD (first.priority % 64) := ReadySet.contains_eq ⟨subscribers⟩ _
      have tail := ih fun checked ao member => fits checked ao (List.mem_cons_of_mem first member)
      simp only [World.multicast, shift, read, List.filter_cons]
      by_cases wanted : subscribers.getLsbD (first.priority % 64) = true
      · simp only [wanted, if_true, World.broadcast]
        exact tail (w.push first e)
      · simp only [wanted]
        exact tail w

theorem broadcast_spec {recipients : List ActiveObjectRef} (once : recipients.Nodup)
    (e : DynEvent π)
    (w : World π) :
    (World.broadcast e w recipients).pubsub = w.pubsub ∧
    (World.broadcast e w recipients).fault = w.fault ∧
    ∀ ao, ((World.broadcast e w recipients).queues ao).buf =
      (w.queues ao).buf ++ if ao ∈ recipients then [e] else [] := by
  induction recipients generalizing w with
  | nil => simp [World.broadcast]
  | cons first rest ih =>
      rcases List.nodup_cons.mp once with ⟨fresh, once⟩
      rcases ih once (w.push first e) with ⟨pubsub, fault, queues⟩
      refine ⟨pubsub, fault, ?_⟩
      intro ao
      simp only [World.broadcast, queues]
      by_cases here : ao = first
      · subst here
        simp [World.push, fresh]
      · simp [World.push, here]

theorem objects_nodup {b : KernelBuilder}
    (distinct : (b.objects.map ActiveObjectRef.priority).Nodup) : b.build.objects.Nodup := by
  have sorted := List.perm_insertionSort (fun x y : ActiveObjectRef => x.priority ≤ y.priority)
    b.objects
  exact sorted.nodup_iff.mpr (List.Nodup.of_map _ distinct)

theorem publish_delivers {maxSignal : Nat} {registered : List Nat} {history : List Subscription}
    {table : PubSubTable} {checks : Bool} (once : k.objects.Nodup)
    (included : ∀ ao ∈ k.objects, ao.priority ∈ registered)
    (fits : checks = true → ∀ ao ∈ k.objects, ao.priority < 64)
    (installed : w.pubsub = some table) (clean : w.fault = none)
    (tracks : table.Tracks maxSignal registered history)
    {signal : Signal} (bounded : signal.val ≤ maxSignal) (e : DynEvent π) :
    Delivers k checks history w signal e := by
  have sent : w.publish k checks signal e =
      World.broadcast (e.withSignal signal) (w.emit (.publish signal))
        (k.objects.filter fun ao =>
          (table.subscriptions signal.val).getLsbD (ao.priority % 64)) := by
    simp only [World.publish, installed, tracks.subscribers bounded]
    exact multicast_eq fits _ _ _
  rcases broadcast_spec (once.filter _) (e.withSignal signal) (w.emit (.publish signal)) with
    ⟨pubsub, fault, queues⟩
  rw [← sent] at pubsub fault queues
  refine ⟨?_, pubsub, fault.trans clean⟩
  intro ao
  rw [queues ao]
  by_cases member : ao ∈ k.objects
  · have bit := tracks.bits signal bounded ao.priority (included ao member)
    simp [World.emit, List.mem_filter, member, bit]
  · simp [World.emit, List.mem_filter, member]

theorem pubsub_multicast (checks : Bool) (subscribers : BitVec 64) (e : DynEvent π)
    (objects : List ActiveObjectRef) (w : World π) :
    (World.multicast checks subscribers e w objects).pubsub = w.pubsub := by
  induction objects generalizing w with
  | nil => rfl
  | cons first rest ih =>
      simp only [World.multicast]
      split
      · rfl
      · split
        · exact ih (w.push first e)
        · exact ih w

theorem pubsub_broadcast (e : DynEvent π) (objects : List ActiveObjectRef) (w : World π) :
    (World.broadcast e w objects).pubsub = w.pubsub := by
  induction objects generalizing w with
  | nil => rfl
  | cons first rest ih => exact ih (w.push first e)

theorem pubsub_publish (checks : Bool) (signal : Signal) (e : DynEvent π) :
    (w.publish k checks signal e).pubsub = w.pubsub := by
  simp only [World.publish]
  split
  · split
    · rfl
    · exact pubsub_multicast _ _ _ _ _
  · exact pubsub_broadcast _ _ _

theorem pubsub_dispatchOne (ao : ActiveObjectRef) (waiting : List ActiveObjectRef) :
    (w.dispatchOne ao waiting).2.pubsub = w.pubsub := by
  simp only [World.dispatchOne]
  split
  · rfl
  · split <;> rfl

theorem pubsub_noteIdle : w.noteIdle.pubsub = w.pubsub := by
  unfold World.noteIdle
  split <;> rfl

theorem pubsub_noteNext (prio : Nat) : (w.noteNext prio).pubsub = w.pubsub := by
  simp only [World.noteNext]
  split <;> rfl

theorem pubsub_dispatchOnce : (w.dispatchOnce k).2.pubsub = w.pubsub := by
  simp only [World.dispatchOnce]
  split
  · split
    · exact pubsub_noteIdle
    · rw [pubsub_dispatchOne, pubsub_noteNext]
  · exact pubsub_noteIdle

theorem pubsub_runUntilIdle : (w.runUntilIdle k).pubsub = w.pubsub := by
  have kept := pubsub_dispatchOnce (k := k) (w := { w with stack := .loop :: w.stack })
  unfold World.runUntilIdle
  split
  · rename_i result
    rw [result] at kept
    exact kept
  · rename_i result
    rw [result] at kept
    unfold World.idle
    split <;> exact kept

theorem pubsub_resume : (w.resume k).pubsub = w.pubsub := by
  unfold World.resume
  split
  · exact pubsub_runUntilIdle
  · rfl

theorem pubsub_startFrom (objects : List ActiveObjectRef) :
    (w.startFrom objects).pubsub = w.pubsub := by
  unfold World.startFrom
  split
  · rfl
  · split <;> rfl

theorem pubsub_perform (checks : Bool) {c : Call π} (other : c.subscription = none) :
    (w.perform k checks c).pubsub = w.pubsub := by
  cases c with
  | start => exact pubsub_startFrom k.objects
  | post target e =>
      simp only [World.perform, World.post]
      cases k.byId target <;> rfl
  | publish signal e => exact pubsub_publish checks signal e
  | dispatchOnce => exact pubsub_dispatchOnce
  | runUntilIdle => exact pubsub_runUntilIdle
  | lockScheduler ceiling =>
      simp only [World.perform, World.lockScheduler]
      split <;> rfl
  | unlockScheduler =>
      simp only [World.perform, World.unlockScheduler]
      split <;> rfl
  | subscribe signal prio => cases other
  | unsubscribe signal prio => cases other
  | unsubscribeAll prio => cases other

theorem subscription_tracks {maxSignal : Nat} {registered : List Nat} {history : List Subscription}
    {table : PubSubTable} {checks : Bool} {c : Call π} {a : Subscription}
    (call : c.subscription = some a) (installed : w.pubsub = some table)
    (tracks : table.Tracks maxSignal registered history) (inRange : a.InRange maxSignal)
    (careful : a.Careful checks registered) :
    (w.perform k checks c).fault = w.fault ∧ ∃ table',
      (w.perform k checks c).pubsub = some table' ∧
      table'.Tracks maxSignal registered (history ++ [a]) := by
  rcases tracks.apply inRange careful with ⟨table', applied, tracks'⟩
  have updated (record : Option Record) :
      (w.updateTable (fun t => t.apply checks a) record).fault = w.fault ∧
      (w.updateTable (fun t => t.apply checks a) record).pubsub = some table' := by
    simp only [World.updateTable, installed, applied]
    cases record <;> exact ⟨rfl, rfl⟩
  cases c with
  | subscribe signal prio =>
      cases call
      exact ⟨(updated _).1, table', (updated _).2, tracks'⟩
  | unsubscribe signal prio =>
      cases call
      exact ⟨(updated _).1, table', (updated _).2, tracks'⟩
  | unsubscribeAll prio =>
      cases call
      exact ⟨(updated _).1, table', (updated _).2, tracks'⟩
  | _ => cases call

/-- The table follows the subscription calls of the run, while nothing has faulted. -/
def Tracked (maxSignal : Nat) (registered : List Nat) (past : List (Action π)) (w : World π) :
    Prop :=
  w.fault = none → ∃ table, w.pubsub = some table ∧
    table.Tracks maxSignal registered (past.filterMap Action.subscription)

theorem tracked_init (maxSignal : Nat) (registered : List Nat) :
    Tracked maxSignal registered [] (World.init (some (.new maxSignal)) : World π) :=
  fun _ => ⟨_, rfl, PubSubTable.tracks_new maxSignal registered⟩

theorem tracked_step {maxSignal : Nat} {registered : List Nat} (checks : Bool)
    (past : List (Action π)) (w : World π) (a : Action π) (w' : World π)
    (tracked : Tracked maxSignal registered past w)
    (careful : Subscription.Admitted checks maxSignal registered a.subscription)
    (stepped : w.step k checks a = some w') : Tracked maxSignal registered (past ++ [a]) w' := by
  rcases step_cases stepped with ⟨clean, ran⟩
  rcases tracked clean with ⟨table, installed, tracks⟩
  intro _
  cases kind : a.subscription with
  | some s =>
      rcases ran with ⟨c, rfl, rfl⟩ | ⟨ao, rest, rfl, -⟩ | ⟨ao, more, rest, rfl, -⟩ | ⟨rest, rfl, -⟩
      · rcases careful s kind with ⟨inRange, own⟩
        rcases (subscription_tracks kind installed tracks inRange own).2 with
          ⟨table', kept, tracks'⟩
        refine ⟨table', kept, ?_⟩
        simpa [kind] using tracks'
      all_goals cases kind
  | none =>
      refine ⟨table, ?_, by simpa [kind] using tracks⟩
      rw [← installed]
      rcases ran with ⟨c, rfl, rfl⟩ | ⟨ao, rest, rfl, -, rfl⟩ | ⟨ao, more, rest, rfl, -, rfl⟩ |
        ⟨rest, rfl, -, rfl⟩
      · exact pubsub_perform checks kind
      · exact pubsub_resume
      · exact pubsub_startFrom more
      · rfl

end QpRs.Qv
