import QpRs.Comms.StackAo
import QpRs.Lib.Run

/-! Acknowledgements: whether the active object and the reliable transport under it agree on what is
outstanding. -/

namespace QpRs.Comms

open QpRs.Lib

namespace RfStack

variable {N M P : Type} [Layer N] [Layer M]

theorem buildFrame_numbers {checked : Bool} {s s' : RfStack ReliableTransport N M P}
    {payload : List UInt8} {frame : Frame}
    (ran : buildFrame checked s payload = .ok (.ok frame, s')) :
    s'.transport.seq = s.transport.seq + 1 ∧ s'.transport.state = .waitingAck := by
  have short : payload.length ≤ 224 := by
    by_contra long
    obtain ⟨⟨e, refused⟩, _⟩ := buildFrame_long ran (by omega)
    cases refused
  obtain ⟨f₀, r₁, t, f₁, _, _, down₁, rfl, refused | passed⟩ := buildFrame_stages ran short
  · obtain ⟨e, _, refused⟩ := refused
    cases refused
  · obtain ⟨rfl, _⟩ := passed
    obtain ⟨⟨e, refused⟩, _⟩ | ⟨_, encoded⟩ := ReliableTransport.down_ran down₁
    · cases refused
    · rw [encoded]
      exact ⟨rfl, rfl⟩

variable [Strips N] [Strips M]

/-- The PDU that the received bytes bring to the transport. -/
def arrivingPdu (s : RfStack ReliableTransport N M P) (bytes : List UInt8) : Option Pdu :=
  (s.reaching bytes).bind Pdu.read

variable {checked : Bool} {s s' : RfStack ReliableTransport N M P} {raw raw' : Frame}
  {bytes : List UInt8} {answer : Except CommsError (Option Frame)}

theorem unwrap_reliable {left : List UInt8} : s.unwrap bytes = some left ↔
    ∃ p, s.arrivingPdu bytes = some p ∧ (s.transport.receive p).1 = true ∧ p.payload = left := by
  have same : s.unwrap bytes = (s.arrivingPdu bytes).bind fun p =>
      if (s.transport.receive p).1 then some p.payload else none := by
    rw [arrivingPdu, Option.bind_assoc]
    rfl
  rw [same, Option.bind_eq_some_iff]
  refine exists_congr fun p => and_congr_right fun _ => ?_
  split
  · rename_i taken
    simp [taken]
  · rename_i dropped
    simp [dropped]

theorem receiveRaw_transport (holds : raw.Holds bytes)
    (ran : receiveRaw checked s raw = .ok (answer, s', raw')) :
    s'.transport = match s.arrivingPdu bytes with
      | none => s.transport
      | some p => (s.transport.receive p).2 := by
  cases reached : s.reaching bytes with
  | none =>
      obtain ⟨_, _, _, same, kept, _⟩ := receiveRaw_stopped checked holds reached
      rw [ran] at same
      cases same
      simpa [arrivingPdu, reached] using kept
  | some inner =>
      obtain ⟨network, mac, raw₁, holds, same⟩ := receiveRaw_reaches checked holds reached
      rw [same] at ran
      obtain ⟨⟨r, t, raw₂⟩, upped, ran⟩ := bind_ok ran
      rw [arrivingPdu, reached, Option.bind_some]
      cases known : Pdu.read inner with
      | none =>
          have alone := s.transport.up_unread checked holds known
          rw [show Layer.up checked s.transport raw₁ = _ from alone] at upped
          cases upped
          cases ran
          rfl
      | some p =>
          obtain ⟨f', took, _⟩ := s.transport.up_read checked holds known
          rw [show Layer.up checked s.transport raw₁ = _ from took] at upped
          cases upped
          cases taken : (s.transport.receive p).1 with
          | false =>
              rw [taken] at ran
              cases ran
              rfl
          | true =>
              rw [taken] at ran
              obtain ⟨payload, _, ran⟩ := bind_ok ran
              obtain ⟨copied, _, ran⟩ := bind_ok ran
              cases ran
              rfl

end RfStack

namespace RfStackAO

section Reliable

variable {N M P : Type}

/-- The active object waits only for what the transport waits for. -/
def Agrees (ao : RfStackAO ReliableTransport N M P) : Prop :=
  ao.state = .waitingAck → ao.stack.transport.state = .waitingAck

/-- The request that is waited for is the last one started, and its PDU the last one numbered. -/
def Numbered (ao : RfStackAO ReliableTransport N M P) : Prop :=
  ao.state = .waitingAck → ∃ flight, ao.started.getLast? = some flight ∧
    ao.stack.transport.seq = flight.transport.seq + 1

theorem agrees_of_other {ao : RfStackAO ReliableTransport N M P} (other : ao.state ≠ .waitingAck) :
    ao.Agrees ∧ ao.Numbered :=
  ⟨fun waits => absurd waits other, fun waits => absurd waits other⟩

theorem answered_waits {ao u : RfStackAO ReliableTransport N M P}
    {answer : Except CommsError (Option Frame)}
    {stack : RfStack ReliableTransport N M P}
    (told : Answered ao answer stack u) (waits : u.state = .waitingAck) :
    ao.state = .waitingAck := by
  have state := told.state
  rw [waits] at state
  split at state
  · cases state
  · exact state.symm

variable [Layer N] [Layer M] {checked : Bool} {ao t : RfStackAO ReliableTransport N M P}

theorem launched_agrees {req : RfTxReqPayload} {result : Launch} (free : ¬ao.Busy)
    (launched : Launched checked ao req result t) : t.Agrees ∧ t.Numbered := by
  obtain ⟨answer, stack, built, transport, refused, _⟩ := launched.built
  have state := launched.state
  by_cases sent : result = .sent
  · cases answer with
    | error e =>
        have both := refused.mpr ⟨e, rfl⟩
        rw [sent] at both
        cases both
    | ok frame =>
        obtain ⟨seq, waiting⟩ := RfStack.buildFrame_numbers built
        refine ⟨fun _ => ?_, fun _ => ⟨⟨req, ao.stack.transport⟩, ?_, ?_⟩⟩
        · rw [transport]
          exact waiting
        · rw [launched.started]
          simp
        · rw [transport]
          exact seq
  · rw [if_neg sent] at state
    have idle : t.state ≠ .waitingAck := by
      rw [state]
      exact fun waits => free (.inr waits)
    exact ⟨fun waits => absurd waits idle, fun waits => absurd waits idle⟩

variable [RfPhy P]

theorem drain_agrees (agrees : ao.Agrees) (ran : drainPendingTx checked ao = .ok t) :
    t.Agrees :=
  drain_keeps Agrees (fun _ kept => kept)
    (fun _ _ _ _ free _ launched => (launched_agrees free launched).1) agrees ran

theorem drain_numbered (numbered : ao.Numbered) (ran : drainPendingTx checked ao = .ok t) :
    t.Numbered :=
  drain_keeps Numbered (fun _ kept => kept)
    (fun _ _ _ _ free _ launched => (launched_agrees free launched).2) numbered ran

theorem drain_other {u : RfStackAO ReliableTransport N M P} (other : u.state ≠ .waitingAck)
    (ran : drainPendingTx checked u = .ok t) : t.Agrees ∧ t.Numbered :=
  ⟨drain_agrees (agrees_of_other other).1 ran, drain_numbered (agrees_of_other other).2 ran⟩

theorem txReq_agrees (agrees : ao.Agrees) (numbered : ao.Numbered) {req : RfTxReqPayload}
    (ran : handleTxReq checked ao (some req) = .ok t) : t.Agrees ∧ t.Numbered := by
  obtain ⟨_, rfl⟩ | ⟨free, starts⟩ := txReq_ran ran
  · exact ⟨agrees, numbered⟩
  · exact startTx_keeps (fun s => s.Agrees ∧ s.Numbered) (fun _ kept => kept)
      (fun _ _ _ _ free _ launched => launched_agrees free launched) free ⟨agrees, numbered⟩ starts

theorem txDone_agrees (agrees : ao.Agrees) (numbered : ao.Numbered)
    (ran : handleTxDone checked ao = .ok t) : t.Agrees ∧ t.Numbered := by
  obtain ⟨_, rfl⟩ | ⟨_, phy, drains⟩ := txDone_ran ran
  · exact ⟨agrees, numbered⟩
  · exact drain_other (by simp) drains

theorem transportTimeout_agrees (agrees : ao.Agrees) (numbered : ao.Numbered)
    (ran : handleTransportTimeout checked ao = .ok t) : t.Agrees ∧ t.Numbered := by
  obtain ⟨seq, _, _, state⟩ := ao.stack.transport.onTimeout_spec
  obtain ⟨goes, _, phy, rfl⟩ | ⟨event, u, _, idle, _, _, _, drains⟩ := transportTimeout_ran ran
  · refine ⟨fun waits => (state goes).trans (agrees waits), fun waits => ?_⟩
    obtain ⟨flight, last, number⟩ := numbered waits
    exact ⟨flight, last, seq.trans number⟩
  · exact drain_other (by simp [idle]) drains

omit [Layer N] [Layer M] in
theorem rxStart_agrees (agrees : ao.Agrees) (numbered : ao.Numbered) :
    ao.handleRxStart.Agrees ∧ ao.handleRxStart.Numbered := by
  obtain ⟨phy, state, same, rfl | ⟨_, rfl⟩⟩ := handleRxStart_spec ao
  · rw [same]
    exact ⟨agrees, numbered⟩
  · exact agrees_of_other (by simp [same])

end Reliable

variable {N M P : Type} [Layer N] [Layer M] [RfPhy P] [Strips N] [Strips M]

def arriving (ao : RfStackAO ReliableTransport N M P) (rx : RxMetadata) : Option Pdu :=
  (ao.received rx).bind ao.stack.arrivingPdu

/-- The event brings an acknowledgement with the number of the PDU of the last request. -/
def Acknowledges (ao : RfStackAO ReliableTransport N M P) (e : RfEvent) : Prop :=
  ∃ rx p flight, e = .rxDone (some rx) ∧ ao.arriving rx = some p ∧ p.IsAck ∧
    ao.started.getLast? = some flight ∧ p.seq = flight.transport.seq

/-- No acknowledgement of the outstanding request arrives. -/
def Unheard (ao : RfStackAO ReliableTransport N M P) (e : RfEvent) : Prop :=
  ao.state = .waitingAck → ¬ao.Acknowledges e

variable {checked : Bool} {ao t : RfStackAO ReliableTransport N M P}

theorem accepted_arriving {rx : RxMetadata} {bytes : List UInt8} {raw raw' : Frame} {phy : P}
    {answer : Except CommsError (Option Frame)} {stack : RfStack ReliableTransport N M P}
    (read : ao.received rx = some bytes) (holds : raw.Holds bytes)
    (answers : RfStack.receiveRaw checked { ao.stack with phy := phy } raw =
      .ok (answer, stack, raw')) :
    accepted answer = true ↔ ∃ p, ao.arriving rx = some p ∧
      (ao.stack.transport.receive p).1 = true ∧ p.payload.length ≤ 224 := by
  rw [accepted_iff, RfStack.receiveRaw_some_iff holds answers, arriving, read]
  simp only [RfStack.unwrap_reliable, Option.bind_some]
  constructor
  · rintro ⟨_, ⟨p, known, taken, rfl⟩, fits⟩
    exact ⟨p, known, taken, fits⟩
  · rintro ⟨p, known, taken, fits⟩
    exact ⟨_, ⟨p, known, taken, rfl⟩, fits⟩

theorem acknowledges_iff (numbered : ao.Numbered) (waits : ao.state = .waitingAck)
    (rx : RxMetadata) : ao.Acknowledges (.rxDone (some rx)) ↔
      ∃ p, ao.arriving rx = some p ∧ p.IsAck ∧ p.seq = ao.stack.transport.seq - 1 := by
  obtain ⟨flight, last, seq⟩ := numbered waits
  have before : ao.stack.transport.seq - 1 = flight.transport.seq := by
    rw [seq]
    exact UInt8.add_sub_cancel _ _
  rw [before]
  constructor
  · rintro ⟨rx', p, flight', same, known, ack, last', number⟩
    cases same
    rw [last] at last'
    cases last'
    exact ⟨p, known, ack, number⟩
  · rintro ⟨p, known, ack, number⟩
    exact ⟨rx, p, flight, rfl, known, ack, last, number⟩

section Reception

variable {rx : RxMetadata} {bytes : List UInt8} {raw raw' : Frame} {phy : P}
  {answer : Except CommsError (Option Frame)} {stack : RfStack ReliableTransport N M P}
  {u : RfStackAO ReliableTransport N M P}
  (read : ao.received rx = some bytes) (holds : raw.Holds bytes)
  (answers : RfStack.receiveRaw checked { ao.stack with phy := phy } raw =
    .ok (answer, stack, raw'))
  (told : Answered ao answer stack u)

include read holds answers told

theorem answered_transport : u.stack.transport = match ao.arriving rx with
    | none => ao.stack.transport
    | some p => (ao.stack.transport.receive p).2 := by
  have pdu : ao.arriving rx = ao.stack.arrivingPdu bytes := by
    rw [arriving, read]
    rfl
  rw [told.stack, RfStack.receiveRaw_transport holds answers, pdu]
  rfl

theorem answered_numbered (numbered : ao.Numbered) : u.Numbered := by
  intro waits
  obtain ⟨flight, last, number⟩ := numbered (answered_waits told waits)
  have seq : u.stack.transport.seq = ao.stack.transport.seq := by
    rw [answered_transport read holds answers told]
    split
    · rfl
    · exact ReliableTransport.receive_seq _ _
  exact ⟨flight, by rw [told.started, last], by rw [seq, number]⟩

theorem answered_heard (numbered : ao.Numbered) (waits : ao.state = .waitingAck)
    (acked : ao.Acknowledges (.rxDone (some rx))) :
    u.state = .waitingAck ∧ u.stack.transport.state = .idle := by
  obtain ⟨p, known, ack, last⟩ := (acknowledges_iff numbered waits rx).mp acked
  have dropped : ¬accepted answer = true := by
    intro taken
    obtain ⟨p', known', taken', _⟩ := (accepted_arriving read holds answers).mp taken
    rw [known] at known'
    cases known'
    exact ReliableTransport.not_isAck_of_receive taken' ack
  constructor
  · rw [told.state, waits]
    simp [dropped]
  · rw [answered_transport read holds answers told, known]
    exact (ReliableTransport.receive_state _ p).trans (if_pos ⟨ack, last⟩)

theorem answered_unheard (agrees : ao.Agrees) (numbered : ao.Numbered)
    (unheard : ao.Unheard (.rxDone (some rx))) : u.Agrees := by
  intro waits
  have before := answered_waits told waits
  have quiet := fun acked => unheard before ((acknowledges_iff numbered before rx).mpr acked)
  rw [answered_transport read holds answers told]
  split
  · exact agrees before
  · rename_i p known
    rw [ReliableTransport.receive_state, if_neg fun both => quiet ⟨p, known, both⟩]
    exact agrees before

end Reception

theorem rxDone_agrees (agrees : ao.Agrees) (numbered : ao.Numbered) {rx : RxMetadata}
    (ran : handleRxDone checked ao (some rx) = .ok t) :
    t.Numbered ∧ (t.Agrees ↔ ao.Unheard (.rxDone (some rx))) := by
  obtain ⟨unread, phy, frame, rfl⟩ |
    ⟨bytes, raw, phy, answer, stack, raw', u, read, holds, answers, told, drains⟩ := rxDone_ran ran
  · refine ⟨numbered, iff_of_true agrees fun waits acked => ?_⟩
    obtain ⟨p, known, _⟩ := (acknowledges_iff numbered waits rx).mp acked
    rw [arriving, unread] at known
    cases known
  · refine ⟨drain_numbered (answered_numbered read holds answers told numbered) drains, ?_⟩
    by_cases heard : ao.state = .waitingAck ∧ ao.Acknowledges (.rxDone (some rx))
    · obtain ⟨waits, acked⟩ := heard
      obtain ⟨still, idle⟩ := answered_heard read holds answers told numbered waits acked
      -- the active object is still busy, so nothing is drained and the two stay apart
      obtain ⟨rfl, _⟩ | ⟨free, _⟩ := drained drains
      · refine iff_of_false (fun both => ?_) fun unheard => unheard waits acked
        rw [both still] at idle
        cases idle
      · exact absurd (.inr still) free
    · have unheard : ao.Unheard (.rxDone (some rx)) := fun waits acked => heard ⟨waits, acked⟩
      have kept := answered_unheard read holds answers told agrees numbered unheard
      exact iff_of_true (drain_agrees kept drains) unheard

theorem step_agrees (agrees : ao.Agrees) (numbered : ao.Numbered) {e : RfEvent}
    (stepped : step checked ao e = some t) : t.Numbered ∧ (t.Agrees ↔ ao.Unheard e) := by
  have ran := step_ok stepped
  have quiet (other : ∀ rx, e ≠ .rxDone (some rx)) (both : t.Agrees ∧ t.Numbered) :
      t.Numbered ∧ (t.Agrees ↔ ao.Unheard e) := by
    refine ⟨both.2, iff_of_true both.1 fun _ acked => ?_⟩
    obtain ⟨rx, _, _, same, _⟩ := acked
    exact other rx same
  match e, ran, quiet with
  | .txReq none, ran, quiet =>
      cases ran
      exact quiet (by simp) ⟨agrees, numbered⟩
  | .txReq (some req), ran, quiet => exact quiet (by simp) (txReq_agrees agrees numbered ran)
  | .rxStart, ran, quiet =>
      cases ran
      exact quiet (by simp) (rxStart_agrees agrees numbered)
  | .phyIrq, ran, quiet =>
      cases ran
      exact quiet (by simp) ⟨agrees, numbered⟩
  | .rxDone none, ran, quiet =>
      cases ran
      exact quiet (by simp) ⟨agrees, numbered⟩
  | .rxDone (some rx), ran, _ => exact rxDone_agrees agrees numbered ran
  | .txDone, ran, quiet => exact quiet (by simp) (txDone_agrees agrees numbered ran)
  | .rxTimeout, ran, quiet =>
      cases ran
      exact quiet (by simp) (agrees_of_other (by simp))
  | .crcError, ran, quiet =>
      cases ran
      exact quiet (by simp) (agrees_of_other (by simp))
  | .transportTimeout, ran, quiet =>
      exact quiet (by simp) (transportTimeout_agrees agrees numbered ran)
  | .other, ran, quiet =>
      cases ran
      exact quiet (by simp) ⟨agrees, numbered⟩

/-- In a run over the reliable transport, the active object and the transport agree on what is
outstanding exactly as long as no acknowledgement of it arrives. -/
theorem agrees_run_iff (checked : Bool) (stack : RfStack ReliableTransport N M P)
    (events : List RfEvent) (last : RfStackAO ReliableTransport N M P)
    (ran : run (step checked) (new stack) events = some last) :
    After (step checked) Agrees (new stack) events ↔
      Along (step checked) Unheard (new stack) events := by
  have fresh : (new stack).Agrees ∧ (new stack).Numbered := agrees_of_other (by simp [new])
  have first (s : RfStackAO ReliableTransport N M P) (inv : s.Agrees ∧ s.Numbered) : s.Agrees :=
    inv.1
  refine after_iff_along first ?_ ?_ fresh ran
  · rintro s e t ⟨agrees, numbered⟩ stepped unheard
    obtain ⟨counted, exactly⟩ := step_agrees agrees numbered stepped
    exact ⟨exactly.mpr unheard, counted⟩
  · rintro s e t ⟨agrees, numbered⟩ stepped both
    exact (step_agrees agrees numbered stepped).2.mp both

def radioStack (bytes : List UInt8) : RfStack ReliableTransport NoopNetwork NoopMac LoopbackPhy :=
  ⟨.new 3, ⟨⟩, ⟨⟩, ⟨[], some bytes⟩⟩

def reliableRequest : RfEvent :=
  .txReq (some { data := [1, 2, 3], fport := 1, reliable := true, dst := 0xFFFF, kind := 0 })

def frameOf (n : UInt8) : RfEvent :=
  .rxDone (some { rssiDbm := 0, snrDbX10 := 0, timestamp := 0, pktLen := n })

def ackFrame : List UInt8 := [0, 0, 8, 0, 0]

/-- The transport takes the acknowledgement and the active object waits on. -/
theorem ack_leaves_ao_waiting : ∃ last, run (step true) (new (radioStack ackFrame))
    [reliableRequest, frameOf 5] = some last ∧ ¬last.Agrees := by
  have seen : (run (step true) (new (radioStack ackFrame)) [reliableRequest, frameOf 5]).map
      (fun last => (last.state, last.stack.transport.state)) = some (.waitingAck, .idle) := by
    decide +kernel
  obtain ⟨last, ran, fields⟩ := Option.map_eq_some_iff.mp seen
  obtain ⟨waits, idle⟩ := Prod.mk.inj fields
  refine ⟨last, ran, fun agrees => ?_⟩
  rw [agrees waits] at idle
  cases idle

theorem sent_request_agrees :
    After (step true) Agrees (new (radioStack ackFrame)) [reliableRequest, .txDone] := by
  have ran : (run (step true) (new (radioStack ackFrame))
      [reliableRequest, .txDone]).isSome := by decide +kernel
  obtain ⟨last, ran⟩ := Option.isSome_iff_exists.mp ran
  refine (agrees_run_iff true (radioStack ackFrame) _ last ran).mpr ?_
  refine ⟨?_, fun _ _ => ⟨?_, fun _ _ => trivial⟩⟩
  · rintro _ ⟨_, _, _, same, _⟩
    cases same
  · rintro _ ⟨_, _, _, same, _⟩
    cases same

end RfStackAO

end QpRs.Comms
