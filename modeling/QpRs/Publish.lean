import QpRs.Qk.Publish
import QpRs.Qv.Publish

/-! Publish-subscribe over whole runs of both kernels, from any code that may call them. -/

namespace QpRs

variable {π : Type}

/-- A run whose subscription calls are careful delivers each published event to exactly the
registered objects whose last call for the signal was `subscribe`, in QV and in QK, and accepts a
further careful call. QK checks at registration that its priorities fit the table; QV does not. -/
theorem publish_by_history (maxSignal : Nat) (checks : Bool) :
    (∀ (b : Qv.KernelBuilder) (actions : List (Qv.Action π)) (w : Qv.World π),
      (b.objects.map ActiveObjectRef.priority).Nodup →
      (checks = true → ∀ ao ∈ b.objects, ao.priority < 64) →
      Lib.Along (Qv.World.step (b.psInit maxSignal).build checks)
        (fun _ a => Subscription.Admitted checks maxSignal
          (b.objects.map ActiveObjectRef.priority) a.subscription)
        (.init (b.psInit maxSignal).pubsub) actions →
      Lib.run (Qv.World.step (b.psInit maxSignal).build checks)
        (.init (b.psInit maxSignal).pubsub) actions = some w →
      w.fault = none →
      (∀ signal : Signal, signal.val ≤ maxSignal → ∀ e,
        Qv.Delivers (b.psInit maxSignal).build checks
          (actions.filterMap Qv.Action.subscription) w signal e) ∧
      ∀ (c : Qv.Call π) (s : Subscription), c.subscription = some s → s.InRange maxSignal →
        s.Careful checks (b.objects.map ActiveObjectRef.priority) →
        (w.perform (b.psInit maxSignal).build checks c).fault = none) ∧
    ∀ (b : Qk.QkKernelBuilder) (k : Qk.QkKernel) (table : Option PubSubTable)
      (actions : List (Qk.Action π)) (w : Qk.World π),
      Qk.QkKernel.build (b.psInit maxSignal) = .ok (k, table) →
      Lib.Along (Qk.World.step k checks)
        (fun _ a => Subscription.Admitted checks maxSignal k.registered a.subscription)
        (.init table) actions →
      Lib.run (Qk.World.step k checks) (.init table) actions = some w →
      w.fault = none →
      (∀ signal : Signal, signal.val ≤ maxSignal → ∀ e,
        Qk.Delivers k (actions.filterMap Qk.Action.subscription) w signal e) ∧
      ∀ (c : Qk.Call π) (s : Subscription), c.subscription = some s → s.InRange maxSignal →
        s.Careful checks k.registered → (w.perform k checks c).fault = none := by
  constructor
  · intro b actions w distinct fits careful ran clean
    have tracked := Lib.along_history (Qv.tracked_step checks)
      (Qv.tracked_init maxSignal (b.objects.map ActiveObjectRef.priority)) careful ran
    rw [List.nil_append] at tracked
    rcases tracked clean with ⟨table, installed, tracks⟩
    have member {ao : ActiveObjectRef} (found : ao ∈ (b.psInit maxSignal).build.objects) :
        ao ∈ b.objects := (List.mem_insertionSort _).mp found
    constructor
    · intro signal bounded e
      refine Qv.publish_delivers (Qv.objects_nodup distinct) ?_ ?_ installed clean tracks bounded e
      · intro ao found
        exact List.mem_map_of_mem (member found)
      · intro checked ao found
        exact fits checked ao (member found)
    · intro c s call inRange own
      rw [(Qv.subscription_tracks call installed tracks inRange own).1]
      exact clean
  · intro b k table actions w built careful ran clean
    have installed : table = some (.new maxSignal) := Qk.build_pubsub built
    subst installed
    have tracked := Lib.along_history (Qk.tracked_step checks)
      (Qk.tracked_init maxSignal k.registered) careful ran
    rw [List.nil_append] at tracked
    rcases tracked clean with ⟨table, installed, tracks⟩
    constructor
    · intro signal bounded e
      exact Qk.publish_delivers installed clean tracks bounded e
    · intro c s call inRange own
      rw [(Qk.subscription_tracks call installed tracks inRange own).1]
      exact clean

def Qv.twoAt (first second : Nat) : Qv.KernelBuilder :=
  ((Qv.KernelBuilder.new false).register ⟨⟨1⟩, first⟩).register ⟨⟨2⟩, second⟩

def Qv.takenBack : List (Qv.Action Unit) :=
  [.call (.subscribe qUserSig 1), .call (.subscribe qUserSig 70), .call (.unsubscribeAll 1)]

def Qk.oneBuilder : Qk.QkKernelBuilder :=
  ⟨[⟨⟨⟨1⟩, 2⟩, 2, by decide, by decide, by decide, by decide⟩], none⟩

/-- Without overflow checks a priority above 63 is served as long as it shares no bit. -/
theorem publish_by_history_pair :
    (∃ w : Qv.World Unit,
      Lib.run (Qv.World.step ((Qv.twoAt 1 70).psInit 9).build false)
        (.init ((Qv.twoAt 1 70).psInit 9).pubsub) Qv.takenBack = some w ∧
      Qv.Delivers ((Qv.twoAt 1 70).psInit 9).build false
        [.subscribe qUserSig 1, .subscribe qUserSig 70, .unsubscribeAll 1] w qUserSig
        (.emptyDyn qEmptySig)) ∧
    ∃ (k : Qk.QkKernel) (table : Option PubSubTable) (w : Qk.World Unit),
      Qk.QkKernel.build (Qk.oneBuilder.psInit 9) = .ok (k, table) ∧
      Lib.run (Qk.World.step k true) (.init table) [.call (.subscribe qUserSig 2)] = some w ∧
      Qk.Delivers k [.subscribe qUserSig 2] w qUserSig (.emptyDyn qEmptySig) := by
  constructor
  · refine ⟨_, rfl, ?_⟩
    refine ((publish_by_history 9 false).1 (Qv.twoAt 1 70) Qv.takenBack _ (by decide)
      (by simp) ?_ rfl rfl).1 qUserSig (by decide) (.emptyDyn qEmptySig)
    apply Lib.along_of_mem
    simp only [Qv.takenBack, List.mem_cons, List.not_mem_nil, or_false, forall_eq_or_imp, forall_eq,
      Qv.Action.subscription, Qv.Call.subscription, Subscription.Admitted, Option.mem_def,
      Option.some.injEq, forall_eq']
    refine ⟨⟨by decide, by simp, by decide⟩, ⟨by decide, by simp, by decide⟩, trivial, by simp,
      by decide⟩
  · refine ⟨_, _, _, rfl, rfl, ?_⟩
    refine ((publish_by_history 9 true).2 Qk.oneBuilder _ _ [.call (.subscribe qUserSig 2)] _ rfl
      ?_ rfl rfl).1 qUserSig (by decide) (.emptyDyn qEmptySig)
    refine Lib.along_cons rfl ?_ trivial
    intro s same
    cases same
    exact ⟨by decide, by decide, by decide⟩

/-- QV accepts objects at 1 and 65. With overflow checks `publish` stops at the second one although
nobody has subscribed; without them the subscription of 65 is also one of 1. -/
theorem wide_priority_misdelivers :
    (∃ w : Qv.World Unit,
      Lib.run (Qv.World.step ((Qv.twoAt 1 65).psInit 9).build true)
        (.init ((Qv.twoAt 1 65).psInit 9).pubsub)
        [.call (.publish qUserSig (.emptyDyn qUserSig))] = some w ∧ w.fault = some .pubsub) ∧
    ∃ w : Qv.World Unit,
      Lib.run (Qv.World.step ((Qv.twoAt 1 65).psInit 9).build false)
        (.init ((Qv.twoAt 1 65).psInit 9).pubsub)
        [.call (.subscribe qUserSig 65), .call (.publish qUserSig (.emptyDyn qUserSig))] = some w ∧
      wants [.subscribe qUserSig 65] qUserSig 1 = false ∧
      (w.queues ⟨⟨1⟩, 1⟩).buf = [.emptyDyn qUserSig] := by
  exact ⟨⟨_, rfl, rfl⟩, _, rfl, by decide, by decide⟩

end QpRs
