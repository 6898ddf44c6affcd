import QpRs.Comms.Queue

/-! One outcome for each transmission: what is posted to the application against the requests that
were passed to `start_tx`. -/

namespace QpRs.Comms

open QpRs.Lib

def Posted.isOutcome : Posted → Bool
  | .txDone => true
  | .txFail => true
  | .rxFrame _ => false

theorem countP_frames (frames : List RfRxFramePayload) :
    (frames.map Posted.rxFrame).countP Posted.isOutcome = 0 := by
  rw [List.countP_eq_zero]
  intro event member
  obtain ⟨frame, _, rfl⟩ := List.mem_map.mp member
  simp [Posted.isOutcome]

namespace RfStackAO

variable {T N M P : Type}

def outcomes (ao : RfStackAO T N M P) : Nat := ao.posted.countP Posted.isOutcome

/-- Every started request has had its outcome, the one in flight excepted. -/
def Balanced (ao : RfStackAO T N M P) : Prop :=
  ao.outcomes + (if ao.Busy then 1 else 0) = ao.started.length

/-- By how much the outcomes and the transmission in flight exceed the started requests. -/
def excess (ao : RfStackAO T N M P) : Int :=
  ao.outcomes + (if ao.Busy then 1 else 0) - ao.started.length

theorem balanced_iff (ao : RfStackAO T N M P) : ao.Balanced ↔ ao.excess = 0 := by
  unfold Balanced excess
  split <;> omega

theorem excess_same {ao t : RfStackAO T N M P} (state : t.state = ao.state)
    (posted : t.posted = ao.posted) (started : t.started = ao.started) : t.excess = ao.excess := by
  have busy : t.Busy ↔ ao.Busy := by rw [Busy, Busy, state]
  simp only [excess, outcomes, posted, started, busy]

theorem excess_resolved {ao t : RfStackAO T N M P} {event : Posted} (free : ¬t.Busy)
    (outcome : event.isOutcome = true) (posted : t.posted = ao.posted ++ [event])
    (started : t.started = ao.started) : t.excess = ao.excess + (if ao.Busy then 0 else 1) := by
  simp only [excess, outcomes, posted, started, if_neg free, List.countP_append,
    List.countP_singleton, outcome, if_true]
  split <;> omega

variable {ao : RfStackAO T N M P}

theorem idle_excess (even : ao.excess = 0) :
    ({ ao with state := .idle } : RfStackAO T N M P).excess = 0 ↔ ¬ao.Busy := by
  have free : ¬({ ao with state := .idle } : RfStackAO T N M P).Busy := by simp [Busy]
  unfold excess outcomes at even ⊢
  rw [if_neg free]
  by_cases busy : ao.Busy
  · rw [if_pos busy] at even
    simp only [busy, not_true_eq_false, iff_false]
    omega
  · rw [if_neg busy] at even
    simp only [busy, not_false_eq_true, iff_true]
    exact even

theorem answered_busy {answer : Except CommsError (Option Frame)} {stack : RfStack T N M P}
    {u : RfStackAO T N M P} (told : Answered ao answer stack u) :
    u.Busy ↔ ao.Busy ∧ ¬(accepted answer = true ∧ ao.state = .waitingAck) := by
  rw [Busy, told.state]
  by_cases ends : accepted answer = true ∧ ao.state = .waitingAck
  · rw [if_pos (.inr (.inr ends))]
    simp [ends]
  · by_cases window : ao.state = .listening ∨ ao.state = .processingRx
    · rw [if_pos (window.imp_right .inl)]
      rcases window with listening | processing
      · simp [Busy, listening]
      · simp [Busy, processing]
    · have stays : ¬(ao.state = .listening ∨ ao.state = .processingRx ∨
          accepted answer = true ∧ ao.state = .waitingAck) := by
        rintro (listening | processing | taken)
        · exact window (.inl listening)
        · exact window (.inr processing)
        · exact ends taken
      rw [if_neg stays, Busy]
      exact (and_iff_left ends).symm

theorem answered_excess {answer : Except CommsError (Option Frame)} {stack : RfStack T N M P}
    {u : RfStackAO T N M P} (told : Answered ao answer stack u) : u.excess = ao.excess := by
  have busy := answered_busy told
  obtain ⟨frames, posted⟩ := told.posted
  unfold excess outcomes
  rw [posted, told.started, List.countP_append, List.countP_append, countP_frames]
  by_cases ends : accepted answer = true ∧ ao.state = .waitingAck
  · have flight : ao.Busy := .inr ends.2
    have free : ¬u.Busy := fun still => (busy.mp still).2 ends
    rw [if_pos ends, if_pos flight, if_neg free, List.countP_singleton]
    simp [Posted.isOutcome]
  · have same : u.Busy ↔ ao.Busy := busy.trans (and_iff_left ends)
    simp only [if_neg ends, same, List.countP_nil]
    omega

variable [Layer T] [Layer N] [Layer M] [Wraps T] [Wraps N] [Wraps M]

def QueueFits (ao : RfStackAO T N M P) : Prop :=
  ∀ req, ao.pendingTx = some req → RfStack.Fits T N M req.data

variable [RfPhy P] {checked : Bool} {t : RfStackAO T N M P}

omit [RfPhy P] in
theorem launched_refused_iff {req : RfTxReqPayload} {result : Launch}
    (launched : Launched checked ao req result t) :
    result = .refused ↔ ¬RfStack.Fits T N M req.data := by
  obtain ⟨answer, stack, ran, _, refused, readable⟩ := launched.built
  exact refused.trans (RfStack.buildFrame_refuses_iff ran readable)

omit [RfPhy P] in
/-- A launch answers for its request, unless no frame can be built. -/
theorem launched_excess {req : RfTxReqPayload} {result : Launch} (free : ¬ao.Busy)
    (launched : Launched checked ao req result t) :
    (RfStack.Fits T N M req.data → t.excess = ao.excess) ∧
      (¬RfStack.Fits T N M req.data → t.excess = ao.excess - 1) := by
  have refused := launched_refused_iff launched
  have counted : t.started.length = ao.started.length + 1 := by
    rw [launched.started, List.length_append]
    rfl
  have state := launched.state
  have posted := launched.posted
  cases result with
  | refused =>
      have large := refused.mp rfl
      have same : ¬t.Busy := by
        rw [Busy, state]
        exact free
      simp only [reduceCtorEq, if_false] at posted
      refine ⟨fun fits => absurd fits large, fun _ => ?_⟩
      simp only [excess, outcomes, posted, counted, if_neg same, if_neg free]
      omega
  | failed =>
      have same : ¬t.Busy := by
        rw [Busy, state]
        exact free
      simp only [if_true] at posted
      refine ⟨fun _ => ?_, fun large => absurd (refused.mpr large) (by simp)⟩
      simp only [excess, outcomes, posted, counted, if_neg same, if_neg free, List.countP_append,
        List.countP_singleton, Posted.isOutcome, if_true]
      omega
  | sent =>
      have busy : t.Busy := by
        rw [Busy, state]
        cases req.reliable <;> simp
      simp only [reduceCtorEq, if_false] at posted
      refine ⟨fun _ => ?_, fun large => absurd (refused.mpr large) (by simp)⟩
      simp only [excess, outcomes, posted, counted, if_pos busy, if_neg free]
      omega

theorem drain_excess (ran : drainPendingTx checked ao = .ok t) :
    (ao.Busy ∨ ao.QueueFits → t.excess = ao.excess) ∧
      (¬ao.Busy → ¬ao.QueueFits → t.excess = ao.excess - 1) := by
  obtain ⟨rfl, still⟩ | ⟨free, req, result, slot, launched⟩ := drained ran
  · refine ⟨fun _ => rfl, fun free large => ?_⟩
    have empty := still.resolve_left free
    exact absurd (fun req queued => by simp [empty] at queued) large
  · have taken : ({ ao with pendingTx := none } : RfStackAO T N M P).excess = ao.excess :=
      excess_same rfl rfl rfl
    have still : ¬({ ao with pendingTx := none } : RfStackAO T N M P).Busy := free
    obtain ⟨fitting, large⟩ := launched_excess still launched
    have only : ao.QueueFits ↔ RfStack.Fits T N M req.data := by
      simp [QueueFits, slot]
    rw [only]
    rw [taken] at fitting large
    exact ⟨fun met => fitting (met.resolve_left free), fun _ => large⟩

/-! The events. An event that is in order keeps the balance, every other one breaks it. -/

/-- The transport takes a timeout for the end of the transmission. -/
def Resolves (ao : RfStackAO T N M P) : Prop :=
  (Layer.onTimeout ao.stack.transport).1 = .giveUp ∨
    (Layer.onTimeout ao.stack.transport).1 = .txComplete

def Delivers [Strips T] [Strips N] [Strips M] (ao : RfStackAO T N M P) (rx : RxMetadata) : Prop :=
  ∃ bytes left, ao.received rx = some bytes ∧ ao.stack.unwrap bytes = some left ∧
    left.length ≤ 224

/-- The event is in order: a request that is started can be encoded, and the radio and the timer
end a transmission only while there is one, the radio with its word that it is done. -/
def InOrder [Strips T] [Strips N] [Strips M] (ao : RfStackAO T N M P) : RfEvent → Prop
  | .txReq (some req) => ao.Busy ∨ RfStack.Fits T N M req.data
  | .txDone => ao.state = .waitingAck ∨ ao.state = .transmitting ∧ ao.QueueFits
  | .rxTimeout => ¬ao.Busy
  | .crcError => ¬ao.Busy
  | .transportTimeout => ao.Resolves → ao.Busy ∧ ao.QueueFits
  | .rxDone (some rx) => ao.state = .waitingAck → ao.Delivers rx → ao.QueueFits
  | _ => True

omit [RfPhy P] in
theorem Queued.fits (queued : ao.Queued) (free : ¬ao.Busy) : ao.QueueFits := by
  intro req slot
  rw [queued.empty free] at slot
  cases slot

theorem resolved_excess {u : RfStackAO T N M P} (ran : drainPendingTx checked u = .ok t)
    (event : Posted) (outcome : event.isOutcome = true) (queued : ao.Queued)
    (even : ao.excess = 0) (free : ¬u.Busy) (posted : u.posted = ao.posted ++ [event])
    (started : u.started = ao.started) (pendingTx : u.pendingTx = ao.pendingTx) :
    t.excess = 0 ↔ ao.Busy ∧ ao.QueueFits := by
  have counted := excess_resolved free outcome posted started
  have slots : u.QueueFits ↔ ao.QueueFits := by rw [QueueFits, QueueFits, pendingTx]
  obtain ⟨fitting, large⟩ := drain_excess ran
  rw [even] at counted
  by_cases busy : ao.Busy
  · rw [if_pos busy] at counted
    by_cases fits : ao.QueueFits
    · have same := fitting (.inr (slots.mpr fits))
      exact ⟨fun _ => ⟨busy, fits⟩, fun _ => by omega⟩
    · have less := large free fun met => fits (slots.mp met)
      exact ⟨fun zero => by omega, fun met => absurd met.2 fits⟩
  · rw [if_neg busy] at counted
    have same := fitting (.inr (slots.mpr (queued.fits busy)))
    exact ⟨fun zero => by omega, fun met => absurd met.1 busy⟩

theorem txReq_excess (queued : ao.Queued) (even : ao.excess = 0) {req : RfTxReqPayload}
    (ran : handleTxReq checked ao (some req) = .ok t) :
    t.excess = 0 ↔ ao.Busy ∨ RfStack.Fits T N M req.data := by
  obtain ⟨busy, same⟩ | ⟨free, starts⟩ := txReq_ran ran
  · have kept : t.excess = ao.excess := by
      rw [same]
      exact excess_same rfl rfl rfl
    simp only [kept, even, busy, true_or]
  · obtain ⟨result, launched⟩ := startedTx_empty (queued.empty free) starts
    obtain ⟨fitting, large⟩ := launched_excess free launched
    rw [even] at fitting large
    by_cases fits : RfStack.Fits T N M req.data
    · simp only [fitting fits, free, fits, or_true]
    · simp only [large fits, free, fits, or_false, iff_false]
      decide

theorem txDone_excess (queued : ao.Queued) (even : ao.excess = 0)
    (ran : handleTxDone checked ao = .ok t) :
    t.excess = 0 ↔ ao.state = .waitingAck ∨ ao.state = .transmitting ∧ ao.QueueFits := by
  obtain ⟨waits, rfl⟩ | ⟨other, phy, drains⟩ := txDone_ran ran
  · simp only [even, waits, true_or]
  · have flight : ao.Busy ↔ ao.state = .transmitting := by simp [Busy, other]
    rw [resolved_excess drains .txDone rfl queued even (by simp [Busy]) rfl rfl rfl, flight]
    simp only [other, false_or]

theorem transportTimeout_excess (queued : ao.Queued) (even : ao.excess = 0)
    (ran : handleTransportTimeout checked ao = .ok t) :
    t.excess = 0 ↔ (ao.Resolves → ao.Busy ∧ ao.QueueFits) := by
  obtain ⟨goes, goesOn, phy, same⟩ |
    ⟨event, u, answered, idle, posted, started, pendingTx, drains⟩ := transportTimeout_ran ran
  · have kept : t.excess = ao.excess := by
      rw [same]
      exact excess_same rfl rfl rfl
    simp [kept, even, Resolves, goes, goesOn]
  · have free : ¬u.Busy := by simp [Busy, idle]
    have outcome : event.isOutcome = true := by
      obtain ⟨_, rfl⟩ | ⟨_, rfl⟩ := answered
      · rfl
      · rfl
    have resolves : ao.Resolves := answered.imp And.left And.left
    rw [resolved_excess drains event outcome queued even free posted started pendingTx]
    simp [resolves]

theorem rxDone_excess [Strips T] [Strips N] [Strips M] (queued : ao.Queued) (even : ao.excess = 0)
    {rx : RxMetadata} (ran : handleRxDone checked ao (some rx) = .ok t) :
    t.excess = 0 ↔ (ao.state = .waitingAck → ao.Delivers rx → ao.QueueFits) := by
  obtain ⟨unread, phy, frame, same⟩ |
    ⟨bytes, raw, phy, answer, stack, raw', u, read, holds, answers, told, drains⟩ := rxDone_ran ran
  · have kept : t.excess = ao.excess := by
      rw [same]
      exact excess_same rfl rfl rfl
    simp [kept, even, Delivers, unread]
  · have delivers : ao.Delivers rx ↔ accepted answer = true := by
      have some_iff := RfStack.receiveRaw_some_iff holds answers
      rw [accepted_iff, some_iff]
      simp only [Delivers, read, Option.some.injEq]
      constructor
      · rintro ⟨_, left, rfl, unwrapped, fits⟩
        exact ⟨left, unwrapped, fits⟩
      · rintro ⟨left, unwrapped, fits⟩
        exact ⟨bytes, left, rfl, unwrapped, fits⟩
    have level := (answered_excess told).trans even
    have busy := answered_busy told
    have slots : u.QueueFits ↔ ao.QueueFits := by rw [QueueFits, QueueFits, told.pendingTx]
    obtain ⟨fitting, large⟩ := drain_excess drains
    rw [level] at fitting large
    rw [delivers]
    by_cases fits : ao.QueueFits
    · simp only [fitting (.inr (slots.mpr fits)), fits, implies_true]
    · have flight : ao.Busy := by
        by_contra free
        exact fits (queued.fits free)
      by_cases ends : accepted answer = true ∧ ao.state = .waitingAck
      · have free : ¬u.Busy := fun still => (busy.mp still).2 ends
        have less := large free fun met => fits (slots.mp met)
        simp [less, ends, fits]
      · have zero := fitting (.inl (busy.mpr ⟨flight, ends⟩))
        simp only [zero, true_iff]
        exact fun waits taken => absurd ⟨taken, waits⟩ ends

omit [Layer T] [Layer N] [Layer M] [Wraps T] [Wraps N] [Wraps M] in
theorem rxStart_excess (ao : RfStackAO T N M P) : ao.handleRxStart.excess = ao.excess := by
  obtain ⟨phy, state, same, rfl | ⟨idle, rfl⟩⟩ := handleRxStart_spec ao
  · rw [same]
    exact excess_same rfl rfl rfl
  · have before : ¬ao.Busy := by simp [Busy, idle]
    have after : ¬ao.handleRxStart.Busy := by simp [same, Busy]
    simp only [excess, if_neg before, if_neg after]
    rw [same]
    rfl

variable [Strips T] [Strips N] [Strips M]

theorem step_excess (queued : ao.Queued) (even : ao.excess = 0) {e : RfEvent}
    (stepped : step checked ao e = some t) : t.excess = 0 ↔ ao.InOrder e := by
  have ran := step_ok stepped
  match e, ran with
  | .txReq none, ran =>
      cases ran
      simp [InOrder, even]
  | .txReq (some req), ran => exact txReq_excess queued even ran
  | .rxStart, ran =>
      cases ran
      simp [InOrder, rxStart_excess, even]
  | .phyIrq, ran =>
      cases ran
      simp [InOrder, even]
  | .rxDone none, ran =>
      cases ran
      simp [InOrder, even]
  | .rxDone (some rx), ran => exact rxDone_excess queued even ran
  | .txDone, ran => exact txDone_excess queued even ran
  | .rxTimeout, ran =>
      cases ran
      exact idle_excess even
  | .crcError, ran =>
      cases ran
      exact idle_excess even
  | .transportTimeout, ran => exact transportTimeout_excess queued even ran
  | .other, ran =>
      cases ran
      simp [InOrder, even]

theorem unbroken_of_inOrder (queued : ao.Queued) {e : RfEvent} (ordered : ao.InOrder e) :
    ao.Unbroken e := by
  cases e with
  | rxTimeout => exact queued.empty ordered
  | crcError => exact queued.empty ordered
  | _ => trivial

/-- A run answers every started request once exactly when all its events are in order. -/
theorem balanced_run_iff (checked : Bool) (stack : RfStack T N M P) (events : List RfEvent)
    (last : RfStackAO T N M P) (ran : run (step checked) (new stack) events = some last) :
    After (step checked) Balanced (new stack) events ↔
      Along (step checked) InOrder (new stack) events := by
  have fresh : (new stack).Queued ∧ (new stack).excess = 0 := ⟨queued_of_empty rfl, rfl⟩
  have level (s : RfStackAO T N M P) (inv : s.Queued ∧ s.excess = 0) : s.Balanced :=
    (balanced_iff s).mpr inv.2
  refine after_iff_along level ?_ ?_ fresh ran
  · rintro s e t ⟨queued, even⟩ stepped ordered
    exact ⟨queued_step queued (unbroken_of_inOrder queued ordered) stepped,
      (step_excess queued even stepped).mpr ordered⟩
  · rintro s e t ⟨queued, even⟩ stepped balanced
    exact (step_excess queued even stepped).mp ((balanced_iff t).mp balanced)

/-- A request, and the radio's word that it is sent. -/
theorem answered_request_balanced :
    After (step true) Balanced (new hostStack) [.txReq (some (hello false)), .txDone] := by
  have ran : (run (step true) (new hostStack)
      [.txReq (some (hello false)), .txDone]).isSome := by decide +kernel
  obtain ⟨last, ran⟩ := Option.isSome_iff_exists.mp ran
  refine (balanced_run_iff true hostStack _ last ran).mpr ?_
  have fits : RfStack.Fits UnreliableTransport NoopNetwork NoopMac (hello false).data :=
    ⟨⟨rfl, rfl, rfl⟩, by decide⟩
  refine ⟨.inr fits, fun sent stepped => ⟨.inr ⟨?_, ?_⟩, fun _ _ => trivial⟩⟩
  · have state : (step true (new hostStack) (.txReq (some (hello false)))).map
        RfStackAO.state = some .transmitting := by decide +kernel
    rw [stepped] at state
    exact Option.some.inj state
  · intro req slot
    have empty : (step true (new hostStack) (.txReq (some (hello false)))).map
        RfStackAO.pendingTx = some none := by decide +kernel
    rw [stepped] at empty
    rw [Option.some.inj empty] at slot
    cases slot

/-- A request of 225 bytes is dropped without a word: it was started and nothing was posted. -/
theorem large_request_unanswered : ∃ last, run (step true) (new hostStack)
    [.txReq (some { hello false with data := List.replicate 225 0 })] = some last ∧
      ¬last.Balanced := by
  have seen : (run (step true) (new hostStack)
      [.txReq (some { hello false with data := List.replicate 225 0 })]).map
        (fun last => (last.outcomes, last.state, last.started.length)) = some (0, .idle, 1) := by
    decide +kernel
  obtain ⟨last, ran, fields⟩ := Option.map_eq_some_iff.mp seen
  obtain ⟨outcomes, rest⟩ := Prod.mk.inj fields
  obtain ⟨idle, started⟩ := Prod.mk.inj rest
  refine ⟨last, ran, fun balanced => ?_⟩
  rw [Balanced, outcomes, started] at balanced
  simp [Busy, idle] at balanced

end RfStackAO

end QpRs.Comms
