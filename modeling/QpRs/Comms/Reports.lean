import QpRs.Comms.Acks
import QpRs.Comms.Outcomes

/-! What the active object over the reliable transport reports: whether a request that is
outstanding is reported as sent at its acknowledgement only. -/

namespace QpRs.Comms

open QpRs.Lib

theorem count_frames (frames : List RfRxFramePayload) :
    (frames.map Posted.rxFrame).count .txDone = 0 := by
  rw [List.count_eq_zero]
  intro member
  obtain ⟨frame, _, same⟩ := List.mem_map.mp member
  cases same

namespace RfStackAO

section Generic

variable {T N M P : Type}

def dones (ao : RfStackAO T N M P) : Nat := ao.posted.count .txDone

variable [Layer T] [Layer N] [Layer M] {checked : Bool} {ao t : RfStackAO T N M P}

theorem launched_dones {req : RfTxReqPayload} {result : Launch}
    (launched : Launched checked ao req result t) : t.dones = ao.dones := by
  rw [dones, launched.posted]
  split
  · rw [List.count_append]
    rfl
  · rfl

theorem launched_outcomes {req : RfTxReqPayload} {result : Launch}
    (launched : Launched checked ao req result t) : ao.outcomes ≤ t.outcomes := by
  rw [outcomes, outcomes, launched.posted]
  split
  · rw [List.countP_append]
    exact Nat.le_add_right _ _
  · exact Nat.le_refl _

variable [RfPhy P]

theorem drain_dones (ran : drainPendingTx checked ao = .ok t) : t.dones = ao.dones :=
  drain_keeps (fun s => s.dones = ao.dones) (fun _ same => same)
    (fun _ _ _ _ _ same launched => (launched_dones launched).trans same) rfl ran

theorem drain_outcomes (ran : drainPendingTx checked ao = .ok t) : ao.outcomes ≤ t.outcomes :=
  drain_keeps (fun s => ao.outcomes ≤ s.outcomes) (fun _ grown => grown)
    (fun _ _ _ _ _ grown launched => grown.trans (launched_outcomes launched)) (Nat.le_refl _) ran

theorem txReq_dones {req : RfTxReqPayload} (ran : handleTxReq checked ao (some req) = .ok t) :
    t.dones = ao.dones := by
  obtain ⟨_, rfl⟩ | ⟨free, starts⟩ := txReq_ran ran
  · rfl
  · exact startTx_keeps (fun s => s.dones = ao.dones) (fun _ same => same)
      (fun _ _ _ _ _ same launched => (launched_dones launched).trans same) free rfl starts

theorem txDone_dones (ran : handleTxDone checked ao = .ok t) :
    ao.dones < t.dones ↔ ao.state ≠ .waitingAck := by
  obtain ⟨waits, rfl⟩ | ⟨other, phy, drains⟩ := txDone_ran ran
  · simp [waits]
  · have told : t.dones = ao.dones + 1 := by
      rw [drain_dones drains]
      simp [dones, withPhy, post]
    simp [told, other]

end Generic

section Reliable

variable {N M P : Type} [Layer N] [Layer M] [RfPhy P] {checked : Bool}
  {ao t : RfStackAO ReliableTransport N M P}

theorem transportTimeout_dones (ran : handleTransportTimeout checked ao = .ok t) :
    t.dones = ao.dones := by
  obtain ⟨_, _, phy, rfl⟩ | ⟨event, u, answered, _, posted, _, _, drains⟩ :=
    transportTimeout_ran ran
  · rfl
  · obtain ⟨_, rfl⟩ | ⟨complete, _⟩ := answered
    · rw [drain_dones drains, dones, posted, List.count_append]
      rfl
    · exact absurd complete ao.stack.transport.onTimeout_spec.2.2.1

theorem quiet_dones {e : RfEvent} (ran : onEvent checked ao e = .ok t) (unsent : e ≠ .txDone)
    (unreceived : ∀ rx, e ≠ .rxDone (some rx)) : t.dones = ao.dones := by
  match e, ran, unsent, unreceived with
  | .txReq none, ran, _, _ =>
      cases ran
      rfl
  | .txReq (some req), ran, _, _ => exact txReq_dones ran
  | .rxStart, ran, _, _ =>
      obtain ⟨phy, state, same, _⟩ := handleRxStart_spec ao
      cases ran
      rw [same]
      rfl
  | .phyIrq, ran, _, _ =>
      cases ran
      rfl
  | .rxDone none, ran, _, _ =>
      cases ran
      rfl
  | .rxDone (some rx), _, _, unreceived => exact absurd rfl (unreceived rx)
  | .txDone, _, unsent, _ => exact absurd rfl unsent
  | .rxTimeout, ran, _, _ =>
      cases ran
      rfl
  | .crcError, ran, _, _ =>
      cases ran
      rfl
  | .transportTimeout, ran, _, _ => exact transportTimeout_dones ran
  | .other, ran, _, _ =>
      cases ran
      rfl

variable [Strips N] [Strips M]

theorem rxDone_dones {rx : RxMetadata} (ran : handleRxDone checked ao (some rx) = .ok t) :
    ao.dones < t.dones ↔ ao.state = .waitingAck ∧ ∃ p, ao.arriving rx = some p ∧
      (ao.stack.transport.receive p).1 = true ∧ p.payload.length ≤ 224 := by
  obtain ⟨unread, phy, frame, rfl⟩ |
    ⟨bytes, raw, phy, answer, stack, raw', u, read, holds, answers, told, drains⟩ := rxDone_ran ran
  · simp [arriving, unread, dones, withPhy]
  · obtain ⟨frames, posted⟩ := told.posted
    rw [drain_dones drains, ← accepted_arriving read holds answers, dones, dones, posted,
      List.count_append, List.count_append, count_frames]
    by_cases ends : accepted answer = true ∧ ao.state = .waitingAck
    · simp [ends]
    · rw [if_neg ends]
      simpa [and_comm] using ends

/-! ## Outstanding requests -/

/-- The number of the PDU that an event put on air for a reliable request, from the active object
before and after it: the last request started is in flight, and it was started by the event. -/
def putOnAir (ao t : RfStackAO ReliableTransport N M P) : Option UInt8 :=
  if t.state = .waitingAck ∧ ao.started.length < t.started.length then
    t.started.getLast?.map fun flight => flight.transport.seq
  else none

def acknowledged (ao : RfStackAO ReliableTransport N M P) : RfEvent → Option UInt8
  | .rxDone (some rx) => (ao.arriving rx).bind fun p => if p.IsAck then some p.seq else none
  | _ => none

/-- `outstanding` is ghost state: the numbers of the PDUs of the reliable requests that were put on
air and neither acknowledged nor answered. The application is answered by the first `RF_TX_DONE` or
`RF_TX_FAIL` that it is sent, since neither names a request. -/
structure Tracked (N M P : Type) where
  ao : RfStackAO ReliableTransport N M P
  outstanding : List UInt8

namespace Tracked

def new (stack : RfStack ReliableTransport N M P) : Tracked N M P := ⟨.new stack, []⟩

def left (s : Tracked N M P) (e : RfEvent) (t : RfStackAO ReliableTransport N M P) : List UInt8 :=
  if s.ao.outcomes < t.outcomes then []
  else s.outstanding.filter fun n => s.ao.acknowledged e ≠ some n

def step (checked : Bool) (s : Tracked N M P) (e : RfEvent) : Option (Tracked N M P) :=
  (s.ao.step checked e).map fun t => ⟨t, s.left e t ++ (putOnAir s.ao t).toList⟩

/-- Success is reported for an outstanding request at its acknowledgement only. -/
def ReportsAcked (checked : Bool) (s : Tracked N M P) (e : RfEvent) : Prop :=
  ∀ t ∈ s.ao.step checked e, s.ao.dones < t.dones → ∀ n ∈ s.outstanding,
    s.ao.acknowledged e = some n

/-- While a request is outstanding and waited for, no data arrives that the stack would hand over,
so none but repetitions and payloads too long for a frame; and while one is outstanding that is no
longer waited for, the radio ends no transmission. -/
def Undisturbed (s : Tracked N M P) : RfEvent → Prop
  | .rxDone (some rx) => s.outstanding ≠ [] → s.ao.state = .waitingAck →
    ∀ p ∈ s.ao.arriving rx, ¬p.IsAck → p.payload.length ≤ 224 →
      p.seq = s.ao.stack.transport.acked ∧ s.ao.stack.transport.state ≠ .idle
  | .txDone => s.outstanding ≠ [] → s.ao.state = .waitingAck
  | _ => True

/-- No timeout of the reception and no damaged frame breaks off the wait for an
acknowledgement. -/
def Awaited (s : Tracked N M P) : RfEvent → Prop
  | .rxTimeout => s.ao.state ≠ .waitingAck
  | .crcError => s.ao.state ≠ .waitingAck
  | _ => True

instance (checked : Bool) (s : Tracked N M P) (e : RfEvent) :
    Decidable (s.ReportsAcked checked e) :=
  inferInstanceAs (Decidable (∀ t ∈ s.ao.step checked e, _))

instance (s : Tracked N M P) : (e : RfEvent) → Decidable (s.Undisturbed e)
  | .rxDone (some _) => inferInstanceAs (Decidable (_ → _))
  | .txDone => inferInstanceAs (Decidable (_ → _))
  | .txReq _ => .isTrue trivial
  | .rxStart => .isTrue trivial
  | .phyIrq => .isTrue trivial
  | .rxDone none => .isTrue trivial
  | .rxTimeout => .isTrue trivial
  | .crcError => .isTrue trivial
  | .transportTimeout => .isTrue trivial
  | .other => .isTrue trivial

variable {s : Tracked N M P}

/-- What makes the active object report success on a reception is an accepted data PDU; an
acknowledgement never is. -/
theorem rxDone_acked_iff {rx : RxMetadata} (ran : handleRxDone checked s.ao (some rx) = .ok t) :
    (s.ao.dones < t.dones → ∀ n ∈ s.outstanding, s.ao.acknowledged (.rxDone (some rx)) = some n) ↔
      s.Undisturbed (.rxDone (some rx)) := by
  rw [rxDone_dones ran]
  constructor
  · intro acked some waits p known data fits
    by_contra fresh
    have taken : (s.ao.stack.transport.receive p).1 = true := by
      rw [ReliableTransport.receive_data _ data, if_neg fresh]
    obtain ⟨n, member⟩ := List.exists_mem_of_ne_nil _ some
    have named := acked ⟨waits, p, known, taken, fits⟩ n member
    simp [acknowledged, Option.mem_def.mp known, data] at named
  · rintro quiet ⟨waits, p, known, taken, fits⟩ n member
    have data := ReliableTransport.not_isAck_of_receive taken
    have dup := quiet (List.ne_nil_of_mem member) waits p known data fits
    rw [ReliableTransport.receive_data _ data, if_pos dup] at taken
    cases taken

theorem reportsAcked_iff {e : RfEvent} (stepped : s.ao.step checked e = some t) :
    s.ReportsAcked checked e ↔ s.Undisturbed e := by
  have ran := step_ok stepped
  have only : s.ReportsAcked checked e ↔
      (s.ao.dones < t.dones → ∀ n ∈ s.outstanding, s.ao.acknowledged e = some n) := by
    rw [ReportsAcked, stepped]
    simp only [Option.mem_def, Option.some.injEq, forall_eq']
  have quiet (unsent : e ≠ .txDone) (unreceived : ∀ rx, e ≠ .rxDone (some rx))
      (free : s.Undisturbed e) : s.ReportsAcked checked e ↔ s.Undisturbed e := by
    refine iff_of_true (only.mpr fun more => ?_) free
    rw [quiet_dones ran unsent unreceived] at more
    exact absurd more (Nat.lt_irrefl _)
  match e, ran, quiet, only with
  | .rxDone (some rx), ran, _, only => exact only.trans (rxDone_acked_iff ran)
  | .txDone, ran, _, only =>
      rw [only, txDone_dones ran]
      constructor
      · intro acked some
        by_contra other
        obtain ⟨n, member⟩ := List.exists_mem_of_ne_nil _ some
        cases acked other n member
      · intro waits other n member
        exact absurd (waits (List.ne_nil_of_mem member)) other
  | .txReq payload, _, quiet, _ => exact quiet (by simp) (by simp) trivial
  | .rxStart, _, quiet, _ => exact quiet (by simp) (by simp) trivial
  | .phyIrq, _, quiet, _ => exact quiet (by simp) (by simp) trivial
  | .rxDone none, _, quiet, _ => exact quiet (by simp) (by simp) trivial
  | .rxTimeout, _, quiet, _ => exact quiet (by simp) (by simp) trivial
  | .crcError, _, quiet, _ => exact quiet (by simp) (by simp) trivial
  | .transportTimeout, _, quiet, _ => exact quiet (by simp) (by simp) trivial
  | .other, _, quiet, _ => exact quiet (by simp) (by simp) trivial

omit [Strips N] [Strips M] in
/-- The wait ends with an outcome, unless it is broken off. -/
theorem waiting_ends {e : RfEvent} (ran : onEvent checked s.ao e = .ok t) (awaited : s.Awaited e)
    (waits : s.ao.state = .waitingAck) :
    t.state = .waitingAck ∨ s.ao.outcomes < t.outcomes := by
  match e, ran, awaited with
  | .txReq none, ran, _ =>
      cases ran
      exact .inl waits
  | .txReq (some req), ran, _ =>
      obtain ⟨_, rfl⟩ | ⟨free, _⟩ := txReq_ran ran
      · exact .inl waits
      · exact absurd (.inr waits) free
  | .rxStart, ran, _ =>
      obtain ⟨phy, state, same, rfl | ⟨idle, _⟩⟩ := handleRxStart_spec s.ao
      · cases ran
        rw [same]
        exact .inl waits
      · rw [waits] at idle
        cases idle
  | .phyIrq, ran, _ =>
      cases ran
      exact .inl waits
  | .rxDone none, ran, _ =>
      cases ran
      exact .inl waits
  | .rxDone (some rx), ran, _ =>
      obtain ⟨_, phy, frame, rfl⟩ |
        ⟨bytes, raw, phy, answer, stack, raw', u, _, _, _, told, drains⟩ := rxDone_ran ran
      · exact .inl waits
      · by_cases taken : accepted answer = true
        · obtain ⟨frames, posted⟩ := told.posted
          have grown : s.ao.outcomes < u.outcomes := by
            rw [outcomes, outcomes, posted, List.countP_append, List.countP_append, countP_frames]
            simp [taken, waits, Posted.isOutcome]
          exact .inr (grown.trans_le (drain_outcomes drains))
        · have still : u.state = .waitingAck := by
            rw [told.state, waits]
            simp [taken]
          obtain ⟨rfl, _⟩ | ⟨free, _⟩ := drained drains
          · exact .inl still
          · exact absurd (.inr still) free
  | .txDone, ran, _ =>
      obtain ⟨_, rfl⟩ | ⟨other, _⟩ := txDone_ran ran
      · exact .inl waits
      · exact absurd waits other
  | .rxTimeout, _, awaited => exact absurd waits awaited
  | .crcError, _, awaited => exact absurd waits awaited
  | .transportTimeout, ran, _ =>
      obtain ⟨_, _, phy, rfl⟩ | ⟨event, u, answered, _, posted, _, _, drains⟩ :=
        transportTimeout_ran ran
      · exact .inl waits
      · have outcome : event.isOutcome = true := by
          obtain ⟨_, rfl⟩ | ⟨_, rfl⟩ := answered
          · rfl
          · rfl
        have grown : s.ao.outcomes < u.outcomes := by
          rw [outcomes, outcomes, posted, List.countP_append, List.countP_singleton, outcome]
          simp
        exact .inr (grown.trans_le (drain_outcomes drains))
  | .other, ran, _ =>
      cases ran
      exact .inl waits

/-- A request is outstanding only while the active object waits. -/
def Waits (s : Tracked N M P) : Prop := s.outstanding ≠ [] → s.ao.state = .waitingAck

theorem waits_step {e : RfEvent} {s' : Tracked N M P} (inv : s.Waits) (awaited : s.Awaited e)
    (stepped : s.step checked e = some s') : s'.Waits := by
  obtain ⟨t, took, rfl⟩ := Option.map_eq_some_iff.mp stepped
  intro some
  by_contra other
  have none : putOnAir s.ao t = none := if_neg fun both => other both.1
  have kept : s.left e t ≠ [] := by simpa [none] using some
  have unanswered : ¬s.ao.outcomes < t.outcomes := by
    intro answered
    rw [left, if_pos answered] at kept
    exact kept rfl
  have before : s.outstanding ≠ [] := by
    intro nobody
    rw [left, if_neg unanswered, nobody] at kept
    exact kept rfl
  exact (waiting_ends (step_ok took) awaited (inv before)).elim other unanswered

/-- The runs with the ghost state are the runs of the active object. -/
theorem run_tracked {events : List RfEvent} {last : RfStackAO ReliableTransport N M P}
    (ran : run (RfStackAO.step checked) s.ao events = some last) :
    ∃ s', run (step checked) s events = some s' ∧ s'.ao = last := by
  induction events generalizing s with
  | nil =>
      cases ran
      exact ⟨s, rfl, rfl⟩
  | cons e rest ih =>
      obtain ⟨t, stepped, later⟩ := run_cons ran
      obtain ⟨s', ran', same⟩ := ih (s := ⟨t, s.left e t ++ (putOnAir s.ao t).toList⟩) later
      refine ⟨s', ?_, same⟩
      rw [run, step, stepped]
      exact ran'

end Tracked

/-- In a run over the reliable transport, success is reported for an outstanding request at its
acknowledgement only, exactly when no data but repetitions comes while one is waited for and the
radio ends no transmission while one is outstanding that is no longer waited for. As long as nothing
breaks off a wait, every request outstanding is waited for. -/
theorem reports_acked_run_iff (checked : Bool) (stack : RfStack ReliableTransport N M P)
    (events : List RfEvent) (last : RfStackAO ReliableTransport N M P)
    (ran : run (step checked) (new stack) events = some last) :
    (Along (Tracked.step checked) (Tracked.ReportsAcked checked) (.new stack) events ↔
      Along (Tracked.step checked) Tracked.Undisturbed (.new stack) events) ∧
    (Along (Tracked.step checked) Tracked.Awaited (.new stack) events →
      ∀ s, run (Tracked.step checked) (.new stack) events = some s →
        s.ao = last ∧ (s.outstanding ≠ [] → s.ao.state = .waitingAck)) := by
  obtain ⟨s', ran, same⟩ := Tracked.run_tracked (s := .new stack) ran
  constructor
  · have same (s : Tracked N M P) (e : RfEvent) (u : Tracked N M P) (_ : True)
        (stepped : s.step checked e = some u) :
        s.ReportsAcked checked e ↔ s.Undisturbed e := by
      obtain ⟨t, took, _⟩ := Option.map_eq_some_iff.mp stepped
      exact Tracked.reportsAcked_iff took
    exact along_iff same (fun _ _ _ _ _ _ => trivial) trivial ran
  · intro awaited s there
    rw [ran] at there
    cases there
    have fresh : (Tracked.new stack).Waits := fun some => absurd rfl some
    exact ⟨same, along_preserves (fun _ _ _ => Tracked.waits_step) fresh awaited ran⟩

end Reliable

/-- PDU 5 of the peer with one byte of data. -/
def dataFrame : List UInt8 := [5, 0, 7, 1, 0, 42]

theorem data_reported_as_ack :
    (run (step true) (new (radioStack dataFrame)) [reliableRequest, frameOf 6]).isSome ∧
      ¬Along (Tracked.step true) (Tracked.ReportsAcked true) (.new (radioStack dataFrame))
        [reliableRequest, frameOf 6] := by decide +kernel

/-- A timeout of the reception window breaks off the wait, the frame is sent once more, and the
radio's word that it is sent is reported as success. -/
theorem retransmission_reported_as_ack :
    (run (step true) (new (radioStack ackFrame))
      [reliableRequest, .txDone, .rxTimeout, .transportTimeout, .txDone]).isSome ∧
      ¬Along (Tracked.step true) (Tracked.ReportsAcked true) (.new (radioStack ackFrame))
        [reliableRequest, .txDone, .rxTimeout, .transportTimeout, .txDone] := by decide +kernel

/-- A request is sent, its frame is sent once more, and its acknowledgement comes. -/
theorem ack_not_mistaken :
    (run (Tracked.step true) (.new (radioStack ackFrame))
      [reliableRequest, .txDone, .transportTimeout, .txDone]).map Tracked.outstanding = some [0] ∧
    Along (Tracked.step true) (Tracked.ReportsAcked true) (.new (radioStack ackFrame))
      [reliableRequest, .txDone, .transportTimeout, .txDone, frameOf 5] := by
  have ran : (run (step true) (new (radioStack ackFrame))
      [reliableRequest, .txDone, .transportTimeout, .txDone, frameOf 5]).isSome := by
    decide +kernel
  obtain ⟨last, ran⟩ := Option.isSome_iff_exists.mp ran
  refine ⟨by decide +kernel, ?_⟩
  exact (reports_acked_run_iff true (radioStack ackFrame) _ last ran).1.mpr (by decide +kernel)

end RfStackAO

end QpRs.Comms
