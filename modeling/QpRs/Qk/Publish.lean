import QpRs.PubSub
import QpRs.Qk.Frame

/-! Delivery of published events in QK. -/

namespace QpRs.Qk

variable {π : Type}

def Call.subscription : Call π → Option Subscription
  | .subscribe signal prio => some (.subscribe signal prio)
  | .unsubscribe signal prio => some (.unsubscribe signal prio)
  | .unsubscribeAll prio => some (.unsubscribeAll prio)
  | _ => none

def Action.subscription : Action π → Option Subscription
  | .call c => c.subscription
  | .ret => none

/-- Each registered object that wants the signal gets one copy at the end of its queue; nothing else
is enqueued, and the table stays. -/
structure Delivers (k : QkKernel) (history : List Subscription) (w : World π) (signal : Signal)
    (e : DynEvent π) : Prop where
  queues : ∀ p, ((w.publish k signal e).queues p).buf = (w.queues p).buf ++
    if k.Registered p ∧ wants history signal p then [e.withSignal signal] else []
  pubsub : (w.publish k signal e).pubsub = w.pubsub
  returns : (w.publish k signal e).fault = none

variable {k : QkKernel} {w : World π}

theorem deliver_queues (w : World π) (p : Nat) (e : DynEvent π) (q : Nat) :
    ((w.deliver p e).queues q).buf = (w.queues q).buf ++ if q = p then [e] else [] := by
  have pushed : (w.deliver p e).queues = (w.push p e).queues := by
    simp only [World.deliver]
    split <;> rfl
  rw [pushed]
  by_cases here : q = p
  · subst here
    simp [World.push]
  · simp [World.push, here]

theorem deliverAll_queues {recipients : List Nat} (once : recipients.Nodup) (e : DynEvent π)
    (w : World π) (q : Nat) :
    ((World.deliverAll e w recipients).queues q).buf =
      (w.queues q).buf ++ if q ∈ recipients then [e] else [] := by
  induction recipients generalizing w with
  | nil => simp [World.deliverAll]
  | cons first rest ih =>
      rcases List.nodup_cons.mp once with ⟨fresh, once⟩
      simp only [World.deliverAll, ih once, deliver_queues]
      by_cases here : q = first
      · subst here
        simp [fresh]
      · simp [here]

theorem deliverAll_fault (e : DynEvent π) (recipients : List Nat) (w : World π) :
    (World.deliverAll e w recipients).fault = w.fault := by
  induction recipients generalizing w with
  | nil => rfl
  | cons first rest ih =>
      simp only [World.deliverAll]
      rw [ih, (deliver_stack w first e).2.1]

theorem mem_registered_iff (p : Nat) : p ∈ k.registered ↔ k.Registered p := by
  constructor
  · exact mem_registered
  · intro registered
    have inRange := registered_lt registered
    simp only [QkKernel.registered, List.mem_filter, List.mem_range, maxPriority]
    exact ⟨by omega, registered⟩

theorem registered_nodup (k : QkKernel) : k.registered.Nodup := List.nodup_range.filter _

theorem publish_delivers {maxSignal : Nat} {history : List Subscription} {table : PubSubTable}
    (installed : w.pubsub = some table) (clean : w.fault = none)
    (tracks : table.Tracks maxSignal k.registered history)
    {signal : Signal} (bounded : signal.val ≤ maxSignal) (e : DynEvent π) :
    Delivers k history w signal e := by
  have sent : w.publish k signal e =
      World.deliverAll (e.withSignal signal)
        { w with sched := w.sched.emitRecord (.publish signal) }
        (k.registered.filter fun p =>
          (table.subscriptions signal.val &&& (1#64 <<< p)) != 0#64) := by
    simp only [World.publish, installed, tracks.subscribers bounded]
  refine ⟨?_, (kept_publish signal e).pubsub, ?_⟩
  · intro p
    rw [sent, deliverAll_queues ((registered_nodup k).filter _)]
    by_cases member : p ∈ k.registered
    · have registered := mem_registered member
      have bit := tracks.bits signal bounded p member
      rw [Nat.mod_eq_of_lt (registered_lt registered)] at bit
      have read : ((table.subscriptions signal.val &&& (1#64 <<< p)) != 0#64) =
          wants history signal p := (ReadySet.contains_eq ⟨_⟩ p).trans bit
      simp only [List.mem_filter, member, read, registered, true_and]
    · have absent : ¬ k.Registered p := fun registered =>
        member ((mem_registered_iff p).mpr registered)
      simp only [List.mem_filter, member, absent, false_and, if_false]
  · rw [sent, deliverAll_fault]
    exact clean

theorem build_pubsub {b : QkKernelBuilder} {table : Option PubSubTable}
    (built : QkKernel.build b = .ok (k, table)) : table = b.pubsub := by
  unfold QkKernel.build at built
  cases folded : b.registrations.foldlM QkKernel.add QkKernel.none with
  | error err =>
      rw [folded] at built
      cases built
  | ok k' =>
      rw [folded] at built
      cases built
      rfl

theorem subscription_tracks {maxSignal : Nat} {registered : List Nat} {history : List Subscription}
    {table : PubSubTable} {checks : Bool} {c : Call π} {a : Subscription}
    (call : c.subscription = some a) (installed : w.pubsub = some table)
    (tracks : table.Tracks maxSignal registered history) (inRange : a.InRange maxSignal)
    (careful : a.Careful checks registered) :
    (w.perform k checks c).fault = w.fault ∧ ∃ table',
      (w.perform k checks c).pubsub = some table' ∧
      table'.Tracks maxSignal registered (history ++ [a]) := by
  rcases tracks.apply inRange careful with ⟨table', applied, tracks'⟩
  have updated (record : Option Record) :
      (w.updateTable (fun t => t.apply checks a) record).fault = w.fault ∧
      (w.updateTable (fun t => t.apply checks a) record).pubsub = some table' := by
    simp only [World.updateTable, installed, applied, and_self]
  cases c with
  | subscribe signal prio =>
      cases call
      exact ⟨(updated _).1, table', (updated _).2, tracks'⟩
  | unsubscribe signal prio =>
      cases call
      exact ⟨(updated _).1, table', (updated _).2, tracks'⟩
  | unsubscribeAll prio =>
      cases call
      exact ⟨(updated _).1, table', (updated _).2, tracks'⟩
  | _ => cases call

theorem pubsub_perform (checks : Bool) {c : Call π} (other : c.subscription = none) :
    (w.perform k checks c).pubsub = w.pubsub := by
  cases kind : c.plain with
  | true => exact (kept_perform checks kind).pubsub
  | false =>
      cases c with
      | lockScheduler ceiling => rfl
      | unlockScheduler status => exact pubsub_unlockScheduler status
      | subscribe signal prio => cases other
      | unsubscribe signal prio => cases other
      | unsubscribeAll prio => cases other
      | _ => cases kind

/-- The table follows the subscription calls of the run, while nothing has faulted. -/
def Tracked (maxSignal : Nat) (registered : List Nat) (past : List (Action π)) (w : World π) :
    Prop :=
  w.fault = none → ∃ table, w.pubsub = some table ∧
    table.Tracks maxSignal registered (past.filterMap Action.subscription)

theorem tracked_init (maxSignal : Nat) (registered : List Nat) :
    Tracked maxSignal registered [] (World.init (some (.new maxSignal)) : World π) :=
  fun _ => ⟨_, rfl, PubSubTable.tracks_new maxSignal registered⟩

theorem tracked_step {maxSignal : Nat} {registered : List Nat} (checks : Bool)
    (past : List (Action π)) (w : World π) (a : Action π) (w' : World π)
    (tracked : Tracked maxSignal registered past w)
    (careful : Subscription.Admitted checks maxSignal registered a.subscription)
    (stepped : w.step k checks a = some w') : Tracked maxSignal registered (past ++ [a]) w' := by
  rcases step_cases stepped with ⟨clean, ran⟩
  rcases tracked clean with ⟨table, installed, tracks⟩
  intro _
  cases kind : a.subscription with
  | some s =>
      rcases ran with ⟨c, rfl, -, rfl⟩ | ⟨p, rp, rt, before, rest, rfl, -⟩ |
        ⟨p, more, below, rfl, -⟩
      · rcases careful s kind with ⟨inRange, own⟩
        rcases (subscription_tracks kind installed tracks inRange own).2 with
          ⟨table', kept, tracks'⟩
        refine ⟨table', kept, ?_⟩
        simpa [kind] using tracks'
      all_goals cases kind
  | none =>
      refine ⟨table, ?_, by simpa [kind] using tracks⟩
      rw [← installed]
      rcases ran with ⟨c, rfl, -, rfl⟩ | ⟨p, rp, rt, before, rest, rfl, -, rfl⟩ |
        ⟨p, more, below, rfl, -, rfl⟩
      · exact pubsub_perform checks kind
      · exact (kept_finish p rp rt before).pubsub
      · exact (kept_started p more).pubsub

end QpRs.Qk
