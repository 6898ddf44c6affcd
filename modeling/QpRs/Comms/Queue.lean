import QpRs.Comms.StackAo
import QpRs.Lib.Run

/-! The one-deep queue of transmit requests: a queued request waits for a transmission in flight. -/

namespace QpRs.Comms

open QpRs.Lib

namespace RfStackAO

variable {T N M P : Type}

/-- A request is queued only behind a transmission in flight. -/
def Queued (ao : RfStackAO T N M P) : Prop := ao.pendingTx ≠ none → ao.Busy

/-- The radio reports no end of a reception while a request is queued. -/
def Unbroken (ao : RfStackAO T N M P) : RfEvent → Prop
  | .rxTimeout => ao.pendingTx = none
  | .crcError => ao.pendingTx = none
  | _ => True

theorem Queued.empty {ao : RfStackAO T N M P} (queued : ao.Queued) (free : ¬ao.Busy) :
    ao.pendingTx = none := by
  by_contra waits
  exact free (queued waits)

theorem queued_of_empty {ao : RfStackAO T N M P} (empty : ao.pendingTx = none) : ao.Queued :=
  fun waits => absurd empty waits

theorem Queued.same {ao t : RfStackAO T N M P} (queued : ao.Queued)
    (pendingTx : t.pendingTx = ao.pendingTx) (state : t.state = ao.state) : t.Queued := by
  intro waits
  rw [pendingTx] at waits
  have busy := queued waits
  rw [Busy, ← state] at busy
  exact busy

variable [Layer T] [Layer N] [Layer M] [RfPhy P] {checked : Bool} {ao t : RfStackAO T N M P}

theorem drain_queued (ran : drainPendingTx checked ao = .ok t) : t.Queued := by
  obtain ⟨rfl, busy | empty⟩ | ⟨_, req, result, _, launched⟩ := drained ran
  · exact fun _ => busy
  · exact queued_of_empty empty
  · exact queued_of_empty launched.pendingTx

theorem txReq_queued (queued : ao.Queued) {payload : Option RfTxReqPayload}
    (ran : handleTxReq checked ao payload = .ok t) : t.Queued := by
  cases payload with
  | none =>
      cases ran
      exact queued
  | some req =>
      obtain ⟨busy, rfl⟩ | ⟨free, starts⟩ := txReq_ran ran
      · exact fun _ => busy
      · obtain ⟨result, launched⟩ := startedTx_empty (queued.empty free) starts
        exact queued_of_empty (launched.pendingTx.trans (queued.empty free))

theorem txDone_queued (queued : ao.Queued) (ran : handleTxDone checked ao = .ok t) : t.Queued := by
  obtain ⟨_, rfl⟩ | ⟨_, phy, drains⟩ := txDone_ran ran
  · exact queued
  · exact drain_queued drains

theorem transportTimeout_queued (queued : ao.Queued)
    (ran : handleTransportTimeout checked ao = .ok t) : t.Queued := by
  obtain ⟨_, _, phy, rfl⟩ | ⟨event, u, _, _, _, _, _, drains⟩ := transportTimeout_ran ran
  · exact queued.same rfl rfl
  · exact drain_queued drains

theorem rxDone_queued (queued : ao.Queued) {payload : Option RxMetadata}
    (ran : handleRxDone checked ao payload = .ok t) : t.Queued := by
  cases payload with
  | none =>
      cases ran
      exact queued
  | some rx =>
      obtain ⟨_, phy, frame, rfl⟩ | ⟨_, _, _, _, _, _, u, _, _, _, _, drains⟩ := rxDone_ran ran
      · exact queued.same rfl rfl
      · exact drain_queued drains

omit [Layer T] [Layer N] [Layer M] in
theorem rxStart_queued (queued : ao.Queued) : ao.handleRxStart.Queued := by
  obtain ⟨phy, state, same, rfl | ⟨idle, rfl⟩⟩ := handleRxStart_spec ao
  · rw [same]
    exact queued.same rfl rfl
  · have free : ¬ao.Busy := by simp [Busy, idle]
    rw [same]
    exact queued_of_empty (queued.empty free)

theorem queued_step (queued : ao.Queued) {e : RfEvent} (unbroken : ao.Unbroken e)
    (stepped : step checked ao e = some t) : t.Queued := by
  have ran := step_ok stepped
  cases e with
  | txReq payload => exact txReq_queued queued ran
  | rxStart =>
      cases ran
      exact rxStart_queued queued
  | phyIrq =>
      cases ran
      exact queued
  | rxDone payload => exact rxDone_queued queued ran
  | txDone => exact txDone_queued queued ran
  | rxTimeout =>
      cases ran
      exact queued_of_empty unbroken
  | crcError =>
      cases ran
      exact queued_of_empty unbroken
  | transportTimeout => exact transportTimeout_queued queued ran
  | other =>
      cases ran
      exact queued

theorem unbroken_of_queued {e : RfEvent} (stepped : step checked ao e = some t)
    (queued : t.Queued) : ao.Unbroken e := by
  have ran := step_ok stepped
  cases e with
  | rxTimeout =>
      cases ran
      exact queued.empty (by simp [Busy])
  | crcError =>
      cases ran
      exact queued.empty (by simp [Busy])
  | _ => trivial

/-- A run strands no queued request exactly when the radio reports no reception timeout and no CRC
error while one is queued. -/
theorem queued_run_iff (checked : Bool) (stack : RfStack T N M P) (events : List RfEvent)
    (last : RfStackAO T N M P) (ran : run (step checked) (new stack) events = some last) :
    After (step checked) Queued (new stack) events ↔
      Along (step checked) Unbroken (new stack) events := by
  have fresh : (new stack).Queued := queued_of_empty rfl
  exact after_iff_along (fun _ queued => queued)
    (fun _ _ _ queued stepped unbroken => queued_step queued unbroken stepped)
    (fun _ _ _ _ stepped queued => unbroken_of_queued stepped queued) fresh ran

/-- A stack without encryption and addresses, over the radio of the host build. -/
def hostStack : RfStack UnreliableTransport NoopNetwork NoopMac NullRf := ⟨.new, ⟨⟩, ⟨⟩, ⟨false⟩⟩

def hello (reliable : Bool) : RfTxReqPayload :=
  { data := [1, 2, 3], fport := 1, reliable := reliable, dst := 0xFFFF, kind := 0 }

def twoRequests : List RfEvent :=
  [.txReq (some (hello false)), .txReq (some (hello false)), .txDone]

theorem twoRequests_queued : After (step true) Queued (new hostStack) twoRequests := by
  have ran : (run (step true) (new hostStack) twoRequests).isSome := by decide +kernel
  obtain ⟨last, ran⟩ := Option.isSome_iff_exists.mp ran
  refine (queued_run_iff true hostStack twoRequests last ran).mpr ?_
  exact ⟨trivial, fun _ _ => ⟨trivial, fun _ _ => ⟨trivial, fun _ _ => trivial⟩⟩⟩

/-- A reception timeout with a request queued: the active object is idle and the request stays. -/
theorem request_stranded : ∃ last, run (step true) (new hostStack)
    [.txReq (some (hello false)), .txReq (some (hello false)), .rxTimeout] = some last ∧
      ¬last.Queued := by
  have seen : (run (step true) (new hostStack)
      [.txReq (some (hello false)), .txReq (some (hello false)), .rxTimeout]).map
        (fun last => (last.pendingTx, last.state)) = some (some (hello false), .idle) := by
    decide +kernel
  obtain ⟨last, ran, fields⟩ := Option.map_eq_some_iff.mp seen
  obtain ⟨waits, idle⟩ := Prod.mk.inj fields
  refine ⟨last, ran, fun queued => ?_⟩
  have busy := queued (by simp [waits])
  simp [Busy, idle] at busy

end RfStackAO

end QpRs.Comms
