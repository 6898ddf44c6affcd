import QpRs.Qk.World

/-! The activation stack of QK on one core: the invariant that every kernel call keeps, at any
nesting of handlers and calls. -/

namespace QpRs.Qk

variable {π : Type}

/-- Each activation is above the threshold of the activation below it, and remembers its pair. -/
def Stacked (k : QkKernel) : List Frame → Prop
  | [] => True
  | .activation p restorePrio restoreThreshold before :: rest =>
      k.Registered p ∧ (restorePrio, restoreThreshold) = topPair k rest ∧
        before = (restorePrio, restoreThreshold) ∧ restoreThreshold < p ∧ Stacked k rest
  | .loop :: rest => Stacked k rest
  | .starting p more :: rest => k.Registered p ∧ (∀ q ∈ more, k.Registered q) ∧ Stacked k rest

/-- The invariant, apart from the active pair: an active object that is not running is ready exactly
when it has events, and a running one stays ready. -/
structure Sound (k : QkKernel) (w : World π) : Prop where
  stacked : Stacked k w.stack
  waiting : ∀ p, p ∉ activePrios w.stack →
    (w.sched.ready.contains p = true ↔ (w.queues p).buf ≠ [])
  running : ∀ p, p ∈ activePrios w.stack → w.sched.ready.contains p = true
  unused : ∀ p, ¬ k.Registered p → (w.queues p).buf = []
  account : w.fault = none → ∀ p, w.posted p = w.handled p ++ (w.queues p).buf
  starts : ∀ s ∈ w.starts, s.below < s.prio ∧ s.ceiling < s.prio
  returns : ∀ r ∈ w.returns, r.2 = r.1
  faults : ∀ f, w.fault = some f → f = .pubsub ∨ ∃ p, f = .deadlock p

/-- The scheduler's active pair is the pair of the innermost activation. -/
structure Inv (k : QkKernel) (w : World π) : Prop extends Sound k w where
  active : (w.sched.activePrio, w.sched.activeThreshold) = topPair k w.stack

section Stack

variable {k : QkKernel}

theorem registered_threshold {p : Nat} (registered : k.Registered p) :
    ∃ t, k.thresholdFor p = some t ∧ p ≤ t := by
  rcases Option.isSome_iff_exists.mp registered with ⟨slot, found⟩
  have positive := k.slot_positive p slot found
  refine ⟨slot.threshold, ?_, k.slot_threshold p slot found⟩
  have : p ≠ 0 := by omega
  simp [QkKernel.thresholdFor, this, found]

theorem topPair_threshold {stack : List Frame} (stacked : Stacked k stack) :
    k.thresholdFor (topPair k stack).1 = some (topPair k stack).2 := by
  induction stack with
  | nil => rfl
  | cons frame rest ih =>
      cases frame with
      | activation p rp rt before =>
          rcases registered_threshold stacked.1 with ⟨t, found, -⟩
          simp [topPair, activePrios, found]
      | loop => exact ih stacked
      | starting p more => exact ih stacked.2.2

theorem le_topThreshold {stack : List Frame} (stacked : Stacked k stack) :
    ∀ q ∈ activePrios stack, q ≤ (topPair k stack).2 := by
  induction stack with
  | nil => simp [activePrios]
  | cons frame rest ih =>
      cases frame with
      | activation p rp rt before =>
          rcases stacked with ⟨registered, pair, -, above, below⟩
          rcases registered_threshold registered with ⟨t, found, high⟩
          have lower : rt = (topPair k rest).2 := congrArg Prod.snd pair
          intro q member
          simp only [topPair, activePrios, found, Option.getD_some]
          rcases List.mem_cons.mp member with rfl | member
          · exact high
          · have := ih below q member
            omega
      | loop => exact ih stacked
      | starting p more => exact ih stacked.2.2

theorem stacked_decreasing {stack : List Frame} (stacked : Stacked k stack) :
    (activePrios stack).Pairwise (· > ·) := by
  induction stack with
  | nil => exact .nil
  | cons frame rest ih =>
      cases frame with
      | activation p rp rt before =>
          rcases stacked with ⟨-, pair, -, above, below⟩
          have lower : rt = (topPair k rest).2 := congrArg Prod.snd pair
          refine .cons ?_ (ih below)
          intro q member
          have := le_topThreshold below q member
          omega
      | loop => exact ih stacked
      | starting p more => exact ih stacked.2.2

end Stack

section Frames

variable {k : QkKernel} {w : World π}

theorem Sound.withSched (sound : Sound k w) (sched : QkScheduler)
    (same : sched.ready = w.sched.ready) : Sound k { w with sched := sched } where
  stacked := sound.stacked
  waiting := by
    intro p idle
    rw [same]
    exact sound.waiting p idle
  running := by
    intro p active
    rw [same]
    exact sound.running p active
  unused := sound.unused
  account := sound.account
  starts := sound.starts
  returns := sound.returns
  faults := sound.faults

theorem Sound.withStack (sound : Sound k w) (stack : List Frame) (stacked : Stacked k stack)
    (same : activePrios stack = activePrios w.stack) : Sound k { w with stack := stack } where
  stacked := stacked
  waiting := by
    intro p idle
    rw [same] at idle
    exact sound.waiting p idle
  running := by
    intro p active
    rw [same] at active
    exact sound.running p active
  unused := sound.unused
  account := sound.account
  starts := sound.starts
  returns := sound.returns
  faults := sound.faults

theorem Sound.fail (sound : Sound k w) {f : Fault} (known : f = .pubsub ∨ ∃ p, f = .deadlock p) :
    Sound k (w.fail f) where
  stacked := sound.stacked
  waiting := sound.waiting
  running := sound.running
  unused := sound.unused
  account := by
    intro clean
    simp [World.fail] at clean
  starts := sound.starts
  returns := sound.returns
  faults := by
    intro g same
    simp only [World.fail, Option.some.injEq] at same
    rw [← same]
    exact known

theorem topPair_congr {stack stack' : List Frame} (same : activePrios stack = activePrios stack') :
    topPair k stack = topPair k stack' := by
  unfold topPair
  rw [same]

theorem Sound.eligible (sound : Sound k w) {p : Nat} (ready : w.sched.ready.contains p = true)
    (above : (topPair k w.stack).2 < p) :
    p ∉ activePrios w.stack ∧ k.Registered p ∧ (w.queues p).buf ≠ [] := by
  have idle : p ∉ activePrios w.stack := by
    intro member
    have := le_topThreshold sound.stacked p member
    omega
  have events := (sound.waiting p idle).mp ready
  refine ⟨idle, ?_, events⟩
  by_contra unregistered
  exact events (sound.unused p unregistered)

end Frames

section Operations

variable {k : QkKernel} {w : World π}

theorem hasEvents_iff (w : World π) (p : Nat) : w.hasEvents p = true ↔ (w.queues p).buf ≠ [] := by
  simp [World.hasEvents, EventQueue.isEmpty]

theorem deliver_stack (w : World π) (p : Nat) (e : DynEvent π) :
    (w.deliver p e).stack = w.stack ∧ (w.deliver p e).fault = w.fault ∧
      (w.deliver p e).sched.activePrio = w.sched.activePrio ∧
      (w.deliver p e).sched.activeThreshold = w.sched.activeThreshold := by
  unfold World.deliver
  by_cases empty : w.hasEvents p = true
  · simp [empty, World.push]
  · simp [empty, World.push, QkScheduler.markReady]

theorem deliver_effect (registered : k.Registered p) (sound : Sound k w) (e : DynEvent π) :
    (w.deliver p e).queues = Function.update w.queues p ((w.queues p).pushBack e) ∧
      (w.deliver p e).posted = Function.update w.posted p (w.posted p ++ [e]) ∧
      (w.deliver p e).handled = w.handled ∧ (w.deliver p e).starts = w.starts ∧
      (w.deliver p e).returns = w.returns ∧
      ∀ q, (w.deliver p e).sched.ready.contains q =
        (decide (q = p) || w.sched.ready.contains q) := by
  have inRange := registered_lt registered
  unfold World.deliver
  by_cases events : w.hasEvents p = true
  · have ready : w.sched.ready.contains p = true := by
      by_cases active : p ∈ activePrios w.stack
      · exact sound.running p active
      · exact (sound.waiting p active).mpr ((hasEvents_iff w p).mp events)
    simp only [events, Bool.not_true, Bool.false_eq_true, if_false]
    refine ⟨rfl, rfl, rfl, rfl, rfl, ?_⟩
    intro q
    by_cases here : q = p
    · simp [here, World.push, ready]
    · simp [here, World.push]
  · simp only [events, Bool.not_false, if_true]
    refine ⟨rfl, rfl, rfl, rfl, rfl, ?_⟩
    intro q
    exact ReadySet.contains_insert w.sched.ready inRange q

theorem Sound.deliver (sound : Sound k w) {p : Nat} (registered : k.Registered p) (e : DynEvent π) :
    Sound k (w.deliver p e) := by
  rcases deliver_stack w p e with ⟨stack, fault, -, -⟩
  rcases deliver_effect registered sound e with ⟨queues, posted, handled, starts, returns, ready⟩
  constructor
  · rw [stack]
    exact sound.stacked
  · intro q idle
    rw [stack] at idle
    rw [ready q, queues]
    by_cases here : q = p
    · subst here
      simp
    · simpa [here] using sound.waiting q idle
  · intro q active
    rw [stack] at active
    rw [ready q, sound.running q active, Bool.or_true]
  · intro q unregistered
    have apart : q ≠ p := by
      rintro rfl
      exact unregistered registered
    rw [queues, Function.update_of_ne apart]
    exact sound.unused q unregistered
  · intro clean q
    rw [fault] at clean
    rw [queues, posted, handled]
    by_cases here : q = p
    · subst here
      simp [sound.account clean q]
    · simpa [here] using sound.account clean q
  · rw [starts]
    exact sound.starts
  · rw [returns]
    exact sound.returns
  · rw [fault]
    exact sound.faults

theorem Inv.deliver (inv : Inv k w) {p : Nat} (registered : k.Registered p) (e : DynEvent π) :
    Inv k (w.deliver p e) := by
  rcases deliver_stack w p e with ⟨stack, -, prio, threshold⟩
  refine ⟨inv.toSound.deliver registered e, ?_⟩
  rw [prio, threshold, stack]
  exact inv.active

theorem Inv.deliverAll (e : DynEvent π) (recipients : List Nat)
    (registered : ∀ p ∈ recipients, k.Registered p) (w : World π) (inv : Inv k w) :
    Inv k (World.deliverAll e w recipients) ∧
      (World.deliverAll e w recipients).fault = w.fault := by
  induction recipients generalizing w with
  | nil => exact ⟨inv, rfl⟩
  | cons p rest ih =>
      have next := ih (fun q member => registered q (List.mem_cons_of_mem p member)) (w.deliver p e)
        (inv.deliver (registered p List.mem_cons_self) e)
      rw [(deliver_stack w p e).2.1] at next
      exact next

theorem post_cases {target : ActiveObjectId} {e : DynEvent π} {w' : World π}
    (posted : w.post k target e = .ok w') : ∃ p, k.Registered p ∧ w' = w.deliver p e := by
  unfold World.post at posted
  cases found : k.idToPrio target with
  | none => simp [found] at posted
  | some p =>
      have registered := k.id_registered target p found
      rcases Option.isSome_iff_exists.mp registered with ⟨slot, present⟩
      simp only [found, present, Except.ok.injEq] at posted
      exact ⟨p, registered, posted.symm⟩

theorem Inv.post (inv : Inv k w) (target : ActiveObjectId) (e : DynEvent π) (w' : World π)
    (posted : w.post k target e = .ok w') : Inv k w' := by
  obtain ⟨p, registered, same⟩ := post_cases posted
  rw [same]
  exact inv.deliver registered e

theorem Inv.withSched (inv : Inv k w) (sched : QkScheduler)
    (ready : sched.ready = w.sched.ready) (prio : sched.activePrio = w.sched.activePrio)
    (threshold : sched.activeThreshold = w.sched.activeThreshold) :
    Inv k { w with sched := sched } := by
  refine ⟨inv.toSound.withSched sched ready, ?_⟩
  rw [← inv.active, prio, threshold]

theorem Inv.fail (inv : Inv k w) {f : Fault} (known : f = .pubsub ∨ ∃ p, f = .deadlock p) :
    Inv k (w.fail f) :=
  ⟨inv.toSound.fail known, inv.active⟩

theorem Inv.publish (inv : Inv k w) (signal : Signal) (e : DynEvent π) :
    Inv k (w.publish k signal e) := by
  unfold World.publish
  cases table : w.pubsub with
  | none =>
      exact (inv.deliverAll (e.withSignal signal) k.registered (fun p => mem_registered) w).1
  | some t =>
      have recorded := inv.withSched (w.sched.emitRecord (.publish signal)) rfl rfl rfl
      rw [table] at recorded
      cases found : t.subscribers signal with
      | error halt =>
          simp only [found]
          exact recorded.fail (.inl rfl)
      | ok subscribers =>
          simp only [found]
          apply (Inv.deliverAll _ _ _ _ recorded).1
          intro p member
          exact mem_registered (List.mem_filter.mp member).1

theorem dispatchOne_frame (w : World π) (p : Nat) (below : List Frame) :
    (w.dispatchOne p below).sched = w.sched ∧ (w.dispatchOne p below).stack = w.stack := by
  unfold World.dispatchOne
  cases popped : (w.queues p).popFront with
  | mk event rest =>
      cases event with
      | none => exact ⟨rfl, rfl⟩
      | some e =>
          simp only
          split <;> exact ⟨rfl, rfl⟩

/-- `dispatch_one` of a running active object that has an event: the event leaves the queue, and is
handled unless the behavior is locked. -/
theorem Sound.dispatchOne (sound : Sound k w) (clean : w.fault = none) {p : Nat}
    (active : p ∈ activePrios w.stack) (events : (w.queues p).buf ≠ []) (below : List Frame) :
    Sound k (w.dispatchOne p below) := by
  unfold World.dispatchOne EventQueue.popFront
  cases content : (w.queues p).buf with
  | nil => exact absurd content events
  | cons e rest =>
      simp only
      have popped : Sound k { w with
          queues := Function.update w.queues p { w.queues p with buf := rest }
          handled := Function.update w.handled p (w.handled p ++ [e]) } := by
        constructor
        · exact sound.stacked
        · intro q idle
          have apart : q ≠ p := by
            rintro rfl
            exact idle active
          simpa [apart] using sound.waiting q idle
        · exact sound.running
        · intro q unregistered
          have apart : q ≠ p := by
            rintro rfl
            exact events (sound.unused q unregistered)
          simpa [apart] using sound.unused q unregistered
        · intro _ q
          have before := sound.account clean q
          by_cases here : q = p
          · subst here
            simp [before, content]
          · simpa [here] using before
        · exact sound.starts
        · exact sound.returns
        · exact sound.faults
      split
      · -- The event is lost with the program: the account is kept of runs without a fault.
        refine ⟨popped.stacked, popped.waiting, popped.running, popped.unused, ?_, popped.starts,
          popped.returns, ?_⟩
        · intro free
          simp [World.fail] at free
        · intro f same
          simp only [World.fail, Option.some.injEq] at same
          exact .inr ⟨p, same.symm⟩
      · exact popped

theorem Sound.activateNext (sound : Sound k w) (clean : w.fault = none) {d : ScheduleDecision}
    {restorePrio restoreThreshold : Nat} {before : Nat × Nat}
    (pair : (restorePrio, restoreThreshold) = topPair k w.stack)
    (same : before = (restorePrio, restoreThreshold))
    (ready : w.sched.ready.contains d.nextPrio = true) (above : restoreThreshold < d.nextPrio)
    (free : w.sched.lockCeiling < d.nextPrio) (planned : w.sched.nextPrio = d.nextPrio) :
    Inv k (World.activateNext k w restorePrio restoreThreshold before d) := by
  have threshold : restoreThreshold = (topPair k w.stack).2 := congrArg Prod.snd pair
  rcases sound.eligible ready (threshold ▸ above) with ⟨idle, registered, events⟩
  rcases Option.isSome_iff_exists.mp registered with ⟨slot, present⟩
  rcases w.sched.commitActivation_frame d slot.threshold with ⟨records, switches, committed⟩
  unfold World.activateNext
  simp only [present, planned, ne_eq, not_true_eq_false, if_false, committed]
  set entered : World π := { w with
    sched := { w.sched with
      activePrio := d.nextPrio, activeThreshold := slot.threshold, nextPrio := 0,
      records := records, switches := switches }
    stack := .activation d.nextPrio restorePrio restoreThreshold before :: w.stack
    starts := w.starts ++ [⟨d.nextPrio, (topPair k w.stack).2, w.sched.lockCeiling⟩] }
    with entered_def
  have soundEntered : Sound k entered := by
    constructor
    · exact ⟨registered, pair, same, above, sound.stacked⟩
    · intro q other
      simp only [entered_def, activePrios, List.mem_cons, not_or] at other
      exact sound.waiting q other.2
    · intro q active
      simp only [entered_def, activePrios, List.mem_cons] at active
      rcases active with rfl | active
      · exact ready
      · exact sound.running q active
    · exact sound.unused
    · exact sound.account
    · intro s member
      simp only [entered_def, List.mem_append, List.mem_singleton] at member
      rcases member with old | rfl
      · exact sound.starts s old
      · exact ⟨threshold ▸ above, free⟩
    · exact sound.returns
    · exact sound.faults
  refine ⟨soundEntered.dispatchOne clean List.mem_cons_self events w.stack, ?_⟩
  rcases dispatchOne_frame entered d.nextPrio w.stack with ⟨sched, stack⟩
  rw [sched, stack]
  have known : k.thresholdFor d.nextPrio = some slot.threshold := by
    have positive := k.slot_positive d.nextPrio slot present
    have : d.nextPrio ≠ 0 := by omega
    simp [QkKernel.thresholdFor, this, present]
  simp [entered_def, topPair, activePrios, known]

theorem Inv.activate (inv : Inv k w) (clean : w.fault = none) {d : ScheduleDecision}
    (ready : w.sched.ready.contains d.nextPrio = true)
    (above : w.sched.activeThreshold < d.nextPrio) (free : w.sched.lockCeiling < d.nextPrio)
    (planned : w.sched.nextPrio = d.nextPrio) (previous : d.previousPrio = w.sched.activePrio) :
    Inv k (World.activate k w d) := by
  have threshold : k.thresholdFor w.sched.activePrio = some w.sched.activeThreshold := by
    have known := topPair_threshold inv.stacked
    rw [← inv.active] at known
    exact known
  unfold World.activate
  simp only [previous, threshold]
  exact inv.toSound.activateNext clean inv.active rfl ready above free planned

theorem Inv.dispatchOnce (inv : Inv k w) (clean : w.fault = none) : Inv k (w.dispatchOnce k) := by
  unfold World.dispatchOnce
  cases plan : w.sched.planActivation with
  | mk decision sched =>
      cases decision with
      | none =>
          rcases QkScheduler.planAbove_none plan with ⟨-, rfl⟩
          exact inv.withSched _ rfl rfl rfl
      | some d =>
          rcases QkScheduler.planAbove_some plan with ⟨ready, above, free, previous, rfl⟩
          have planned := inv.withSched { w.sched with nextPrio := d.nextPrio } rfl rfl rfl
          exact planned.activate clean ready above free rfl previous

theorem Inv.withStack (inv : Inv k w) (stack : List Frame) (stacked : Stacked k stack)
    (same : activePrios stack = activePrios w.stack) : Inv k { w with stack := stack } := by
  refine ⟨inv.toSound.withStack stack stacked same, ?_⟩
  rw [topPair_congr same]
  exact inv.active

theorem Inv.runUntilIdle (inv : Inv k w) (clean : w.fault = none) : Inv k (w.runUntilIdle k) := by
  unfold World.runUntilIdle
  cases plan : w.sched.planActivation with
  | mk decision sched =>
      cases decision with
      | none =>
          rcases QkScheduler.planAbove_none plan with ⟨-, rfl⟩
          exact inv.withSched _ rfl rfl rfl
      | some d =>
          rcases QkScheduler.planAbove_some plan with ⟨ready, above, free, previous, rfl⟩
          have planned := inv.withSched { w.sched with nextPrio := d.nextPrio } rfl rfl rfl
          have looping := planned.withStack (.loop :: w.stack) inv.stacked rfl
          exact looping.activate clean ready above free rfl previous

theorem Inv.thenRun (inv : Inv k w) : Inv k (w.thenRun k) := by
  unfold World.thenRun
  cases fault : w.fault with
  | none => simpa using inv.runUntilIdle fault
  | some f => simpa using inv

theorem Inv.resume (inv : Inv k w) (clean : w.fault = none) : Inv k (w.resume k) := by
  unfold World.resume
  cases content : w.stack with
  | nil => exact inv
  | cons frame rest =>
      cases frame with
      | loop =>
          have stacked := inv.stacked
          rw [content] at stacked
          have popped := inv.withStack rest stacked (by rw [content]; rfl)
          exact popped.runUntilIdle clean
      | activation p rp rt before => exact inv
      | starting p more => exact inv

theorem Sound.settle {p restorePrio restoreThreshold : Nat} {before : Nat × Nat}
    {rest : List Frame} (sound : Sound k w)
    (top : w.stack = .activation p restorePrio restoreThreshold before :: rest) :
    Sound k { w with
      stack := rest
      sched := if w.hasEvents p then w.sched else w.sched.markNotReady p } := by
  have stacked := sound.stacked
  rw [top] at stacked
  have decreasing := stacked_decreasing sound.stacked
  rw [top] at decreasing
  have gone : p ∉ activePrios rest := by
    intro member
    have := (List.pairwise_cons.mp decreasing).1 p member
    omega
  have ready := sound.running p (by rw [top]; exact List.mem_cons_self)
  have content (q : Nat) :
      (if w.hasEvents p then w.sched else w.sched.markNotReady p).ready.contains q
      = (w.sched.ready.contains q && (decide (q ≠ p) || w.hasEvents p)) := by
    by_cases events : w.hasEvents p = true
    · simp [events]
    · simp [events, QkScheduler.markNotReady, ReadySet.contains_remove, Bool.and_comm]
  constructor
  · exact stacked.2.2.2.2
  · intro q idle
    simp only
    rw [content q]
    by_cases here : q = p
    · subst here
      simp [ready, hasEvents_iff]
    · have other : q ∉ activePrios w.stack := by
        rw [top]
        simp only [activePrios, List.mem_cons, not_or]
        exact ⟨here, idle⟩
      simpa [here] using sound.waiting q other
  · intro q active
    simp only
    have apart : q ≠ p := by
      rintro rfl
      exact gone active
    rw [content q, sound.running q (by rw [top]; exact List.mem_cons_of_mem p active)]
    simp [apart]
  · exact sound.unused
  · exact sound.account
  · exact sound.starts
  · exact sound.returns
  · exact sound.faults

theorem finish_cases {p restorePrio restoreThreshold : Nat} {before : Nat × Nat}
    {rest : List Frame} (inv : Inv k w) (clean : w.fault = none)
    (top : w.stack = .activation p restorePrio restoreThreshold before :: rest) :
    (∃ d u, World.finish k { w with stack := rest } p restorePrio restoreThreshold before =
        World.activateNext k u restorePrio restoreThreshold before d ∧
      Inv k (World.activateNext k u restorePrio restoreThreshold before d)) ∨
    ∃ u, World.finish k { w with stack := rest } p restorePrio restoreThreshold before =
        u.resume k ∧ Inv k u ∧ u.fault = none ∧ u.stack = rest := by
  have stacked := inv.stacked
  rw [top] at stacked
  rcases stacked with ⟨-, pair, same, -, below⟩
  have settled := inv.toSound.settle top
  have flat : (if World.hasEvents { w with stack := rest } p = true then { w with stack := rest }
      else { w with stack := rest, sched := w.sched.markNotReady p }) =
      { w with
        stack := rest
        sched := if w.hasEvents p = true then w.sched else w.sched.markNotReady p } := by
    have same : World.hasEvents { w with stack := rest } p = w.hasEvents p := rfl
    rw [same]
    split <;> rfl
  simp only [World.finish, flat]
  generalize (if w.hasEvents p = true then w.sched else w.sched.markNotReady p) = sched at settled
  cases plan : sched.nextAfterDispatch restoreThreshold with
  | mk decision sched' =>
      cases decision with
      | some d =>
          rcases QkScheduler.planAbove_some plan with ⟨ready, above, free, -, rfl⟩
          have planned := settled.withSched { sched with nextPrio := d.nextPrio } rfl
          exact .inl ⟨d, _, rfl, planned.activateNext clean pair same ready above free rfl⟩
      | none =>
          rcases QkScheduler.planAbove_none plan with ⟨-, rfl⟩
          rcases QkScheduler.restoreActive_frame { sched with nextPrio := 0 } restorePrio
            restoreThreshold with ⟨records, switches, restored⟩
          simp only [restored]
          refine .inr ⟨_, rfl, ?_, clean, rfl⟩
          refine ⟨⟨settled.stacked, settled.waiting, settled.running, settled.unused,
            settled.account, settled.starts, ?_, settled.faults⟩, pair⟩
          intro r member
          rcases List.mem_append.mp member with old | new
          · exact settled.returns r old
          · rw [List.mem_singleton.mp new, same]

theorem Inv.finish {p restorePrio restoreThreshold : Nat} {before : Nat × Nat} {rest : List Frame}
    (inv : Inv k w) (clean : w.fault = none)
    (top : w.stack = .activation p restorePrio restoreThreshold before :: rest) :
    Inv k (World.finish k { w with stack := rest } p restorePrio restoreThreshold before) := by
  rcases finish_cases inv clean top with ⟨d, u, same, next⟩ | ⟨u, same, restored, free, -⟩
  · rw [same]
    exact next
  · rw [same]
    exact restored.resume free

theorem Inv.startFrom (inv : Inv k w) (more : List Nat) (registered : ∀ p ∈ more, k.Registered p) :
    Inv k (w.startFrom more) := by
  cases more with
  | nil => exact inv
  | cons p rest =>
      simp only [World.startFrom]
      split
      · exact inv.fail (.inr ⟨p, rfl⟩)
      · refine inv.withStack (.starting p rest :: w.stack) ?_ rfl
        exact ⟨registered p List.mem_cons_self,
          fun q member => registered q (List.mem_cons_of_mem p member), inv.stacked⟩

theorem Inv.started {p : Nat} {more : List Nat} {below : List Frame} (inv : Inv k w)
    (top : w.stack = .starting p more :: below) :
    Inv k (World.started { w with stack := below } p more) := by
  have stacked := inv.stacked
  rw [top] at stacked
  rcases stacked with ⟨registered, others, rest⟩
  have popped := inv.withStack below rest (by rw [top]; rfl)
  unfold World.started
  apply Inv.startFrom _ more others
  split
  · rename_i events
    have nonempty := (hasEvents_iff _ p).mp events
    -- The bit is set already: the kernel's own posts have set it.
    have ready : w.sched.ready.contains p = true := by
      by_cases active : p ∈ activePrios below
      · exact popped.running p active
      · exact (popped.waiting p active).mpr nonempty
    have insert (q : Nat) : (w.sched.markReady p).ready.contains q = w.sched.ready.contains q := by
      have added := ReadySet.contains_insert w.sched.ready (registered_lt registered) q
      by_cases here : q = p
      · subst here
        simpa [QkScheduler.markReady, ready] using added
      · simpa [QkScheduler.markReady, here] using added
    refine ⟨⟨popped.stacked, ?_, ?_, popped.unused, popped.account, popped.starts, popped.returns,
      popped.faults⟩, popped.active⟩
    · intro q idle
      simp only
      rw [insert q]
      exact popped.waiting q idle
    · intro q active
      simp only
      rw [insert q]
      exact popped.running q active
  · exact popped

theorem Inv.unlockScheduler (inv : Inv k w) (clean : w.fault = none) (status : SchedStatus) :
    Inv k (w.unlockScheduler k status) := by
  have frame := w.sched.unlock_frame status
  have released := inv.withSched (w.sched.unlock status) frame.1 frame.2.1 frame.2.2
  cases status with
  | unlocked => exact released
  | locked value => exact released.dispatchOnce clean

theorem Inv.updateTable (inv : Inv k w) (change : PubSubTable → Except Halt PubSubTable)
    (record : Option Record) : Inv k (w.updateTable change record) := by
  unfold World.updateTable
  cases w.pubsub with
  | none => exact inv
  | some table =>
      cases changed : change table with
      | error halt =>
          simp only [changed]
          exact inv.fail (.inl rfl)
      | ok table' =>
          simp only [changed]
          have recorded : Inv k { w with sched := record.elim w.sched w.sched.emitRecord } := by
            cases record with
            | none => exact inv
            | some r => exact inv.withSched (w.sched.emitRecord r) rfl rfl rfl
          exact ⟨⟨recorded.stacked, recorded.waiting, recorded.running, recorded.unused,
            recorded.account, recorded.starts, recorded.returns, recorded.faults⟩, recorded.active⟩

theorem Inv.perform (inv : Inv k w) (clean : w.fault = none) (checks : Bool) (c : Call π) :
    Inv k (w.perform k checks c) := by
  cases c with
  | start => exact inv.startFrom k.registered fun p => mem_registered
  | post target e =>
      cases posted : w.post k target e with
      | ok w' => simpa only [World.perform, posted] using inv.post target e w' posted
      | error err => simpa only [World.perform, posted] using inv
  | postAndRun target e =>
      cases posted : w.post k target e with
      | ok w' => simpa only [World.perform, posted] using (inv.post target e w' posted).thenRun
      | error err => simpa only [World.perform, posted] using inv
  | publish signal e => exact inv.publish signal e
  | publishAndRun signal e => exact (inv.publish signal e).thenRun
  | dispatchOnce => exact inv.dispatchOnce clean
  | runUntilIdle => exact inv.runUntilIdle clean
  | lockScheduler ceiling =>
      have frame := w.sched.lock_frame ceiling
      exact inv.withSched _ frame.1 frame.2.1 frame.2.2
  | unlockScheduler status => exact inv.unlockScheduler clean status
  | subscribe signal prio => exact inv.updateTable _ _
  | unsubscribe signal prio => exact inv.updateTable _ _
  | unsubscribeAll prio => exact inv.updateTable _ _

end Operations

theorem inv_init (k : QkKernel) (pubsub : Option PubSubTable) :
    Inv k (World.init pubsub : World π) := by
  refine ⟨⟨trivial, ?_, ?_, ?_, ?_, ?_, ?_, ?_⟩, rfl⟩
  · intro p _
    simp [World.init, QkScheduler.new, QkScheduler.configureActive, EventQueue.new]
  · intro p active
    cases active
  · intro p _
    rfl
  · intro _ p
    rfl
  · intro s member
    cases member
  · intro r member
    cases member
  · intro f fault
    cases fault

theorem step_cases {k : QkKernel} {checks : Bool} {w w' : World π} {a : Action π}
    (stepped : w.step k checks a = some w') :
    w.fault = none ∧
      ((∃ c, a = .call c ∧ w.stack.head? ≠ some .loop ∧ w' = w.perform k checks c) ∨
        (∃ p restorePrio restoreThreshold before rest, a = .ret ∧
          w.stack = .activation p restorePrio restoreThreshold before :: rest ∧
          w' = World.finish k { w with stack := rest } p restorePrio restoreThreshold before) ∨
        ∃ p more below, a = .ret ∧ w.stack = .starting p more :: below ∧
          w' = World.started { w with stack := below } p more) := by
  unfold World.step at stepped
  by_cases clean : w.fault = none
  · refine ⟨clean, ?_⟩
    have enabled : w.fault.isSome = false := by simp [clean]
    rw [enabled] at stepped
    simp only [Bool.false_eq_true, if_false] at stepped
    cases a with
    | call c =>
        left
        refine ⟨c, rfl, ?_⟩
        cases top : w.stack with
        | nil =>
            simp only [top, Option.some.injEq] at stepped
            exact ⟨by simp, stepped.symm⟩
        | cons frame rest =>
            cases frame with
            | loop => simp [top] at stepped
            | _ =>
                simp only [top, Option.some.injEq] at stepped
                exact ⟨by simp, stepped.symm⟩
    | ret =>
        right
        cases top : w.stack with
        | nil => simp [top] at stepped
        | cons frame rest =>
            cases frame with
            | loop => simp [top] at stepped
            | activation p rp rt before =>
                simp only [top, Option.some.injEq] at stepped
                exact .inl ⟨p, rp, rt, before, rest, rfl, rfl, stepped.symm⟩
            | starting p more =>
                simp only [top, Option.some.injEq] at stepped
                exact .inr ⟨p, more, rest, rfl, rfl, stepped.symm⟩
  · have faulted : w.fault.isSome = true := Option.isSome_iff_ne_none.mpr clean
    simp [faulted] at stepped

theorem inv_step (k : QkKernel) (checks : Bool) (w : World π) (a : Action π) (w' : World π)
    (inv : Inv k w) (stepped : w.step k checks a = some w') : Inv k w' := by
  rcases step_cases stepped with ⟨clean, ⟨c, -, -, rfl⟩ | ⟨p, rp, rt, before, rest, -, top, rfl⟩ |
    ⟨p, more, below, -, top, rfl⟩⟩
  · exact inv.perform clean checks c
  · exact inv.finish clean top
  · exact inv.started top

/-- The activation stack of QK. In every state of every run each activation began above the
threshold of the activation below it and above the lock ceiling; priorities on the stack decrease
from the innermost one, so no active object is activated twice; an activated object always had an
event; and each activation left the active pair as it found it. -/
theorem activation_stack (k : QkKernel) (pubsub : Option PubSubTable) (checks : Bool)
    (actions : List (Action π)) (w : World π)
    (ran : Lib.run (World.step k checks) (World.init pubsub) actions = some w) :
    (∀ s ∈ w.starts, s.below < s.prio ∧ s.ceiling < s.prio) ∧
      (activePrios w.stack).Pairwise (· > ·) ∧ (activePrios w.stack).Nodup ∧
      w.fault ≠ some .noEvent ∧ w.fault ≠ some .noSlot ∧ w.fault ≠ some .planMismatch ∧
      (w.sched.activePrio, w.sched.activeThreshold) = topPair k w.stack ∧
      ∀ r ∈ w.returns, r.2 = r.1 := by
  have inv := Lib.run_preserves (inv_step k checks) (inv_init k pubsub) ran
  have decreasing := stacked_decreasing inv.stacked
  have blamed (f : Fault) (other : f ≠ .pubsub) (living : ∀ p, f ≠ .deadlock p) :
      w.fault ≠ some f := by
    intro fault
    rcases inv.faults f fault with same | ⟨p, same⟩
    · exact other same
    · exact living p same
  refine ⟨inv.starts, decreasing, decreasing.imp ?_, blamed _ ?_ ?_, blamed _ ?_ ?_,
    blamed _ ?_ ?_, inv.active, inv.returns⟩
  · intro a b above
    omega
  all_goals simp

/-- The handler of priority 2 posts to priority 5 and runs the scheduler from inside. -/
theorem pair_activation_stack :
    ∃ w : World Unit, Lib.run (World.step pairKernel true) (World.init none)
        [.call (.post ⟨1⟩ (.emptyDyn qUserSig)), .call .runUntilIdle,
          .call (.postAndRun ⟨2⟩ (.emptyDyn qUserSig))] = some w ∧
      activePrios w.stack = [5, 2] ∧ (activePrios w.stack).Nodup := by
  refine ⟨_, rfl, by decide, ?_⟩
  exact (activation_stack pairKernel none true
    [.call (.post ⟨1⟩ (.emptyDyn qUserSig)), .call .runUntilIdle,
      .call (.postAndRun ⟨2⟩ (.emptyDyn qUserSig))] _ rfl).2.2.1

end QpRs.Qk
