import QpRs.Comms.Stack

/-! The active object that drives the RF stack: one handler for each signal. The timer and the
trace records are left out; a timeout may come at any time. -/

namespace QpRs.Comms

open QpRs.Lib

inductive RadioMode where
  | sleep
  | standby
  | rx (timeoutMs : Option UInt32)
  | tx
  | cad
  deriving DecidableEq, Repr

structure RxMetadata where
  rssiDbm : Int16
  snrDbX10 : Int16
  timestamp : UInt32
  pktLen : UInt8
  deriving DecidableEq, Repr

/-- The radio. An operation answers whether it succeeded; of an error only that is used. -/
class RfPhy (P : Type) where
  setMode : P → RadioMode → Bool × P
  configureTx : P → Bool × P
  configureRx : P → Bool × P
  transmit : P → List UInt8 → Bool × P
  readRx : P → Vector UInt8 MAX_FRAME → RxMetadata → Bool × Vector UInt8 MAX_FRAME × P

/-- The radio that only prints what it is given to send. -/
structure NullRf where
  txDonePending : Bool
  deriving DecidableEq, Repr

instance : RfPhy NullRf where
  setMode phy _ := (true, phy)
  configureTx phy := (true, phy)
  configureRx phy := (true, phy)
  transmit _ _ := (true, ⟨true⟩)
  readRx phy buf _ := (true, buf, phy)

/-- The radio of the host tests: what is sent comes back, and `pendingRx` is what is read next. -/
structure LoopbackPhy where
  rxQueue : List (List UInt8)
  pendingRx : Option (List UInt8)
  deriving DecidableEq, Repr

instance : RfPhy LoopbackPhy where
  setMode phy _ := (true, phy)
  configureTx phy := (true, phy)
  configureRx phy := (true, phy)
  transmit phy bytes := (true, { phy with rxQueue := phy.rxQueue ++ [bytes] })
  readRx phy buf _ :=
    match phy.pendingRx with
    | none => (true, buf, phy)
    | some bytes =>
      let copied := overwrite Panic.bounds buf 0 (bytes.take (min bytes.length MAX_FRAME))
      (true, copied.toOption.getD buf, { phy with pendingRx := none })

structure RfTxReqPayload where
  data : List UInt8
  fport : UInt8
  reliable : Bool
  dst : UInt16
  kind : UInt8
  deriving DecidableEq, Repr

structure RfRxFramePayload where
  data : List UInt8
  port : UInt8
  rssi : Int16
  snr : Int16
  src : UInt16
  kind : UInt8
  deriving DecidableEq, Repr

/-- What the application's active object is sent. -/
inductive Posted where
  | txDone
  | txFail
  | rxFrame (payload : RfRxFramePayload)
  deriving DecidableEq, Repr

inductive AoState where
  | idle
  | transmitting
  | waitingAck
  | listening
  | processingRx
  deriving DecidableEq, Repr

/-- A request passed to `start_tx`, with the transport that was to number its PDU. -/
structure Started (T : Type) where
  request : RfTxReqPayload
  transport : T
  deriving DecidableEq, Repr

/-- `posted` is all that was sent to `app_ao`; `started` records the calls of `start_tx` and is
read by no handler. -/
structure RfStackAO (T N M P : Type) where
  stack : RfStack T N M P
  retransmitFrame : Option (Vector UInt8 MAX_FRAME)
  retransmitLen : Nat
  pendingTx : Option RfTxReqPayload
  rxFrame : Frame
  state : AoState
  posted : List Posted
  started : List (Started T)

/-- How far a transmission got: no frame could be built, the radio refused it, or it is on air. -/
inductive Launch where
  | refused
  | failed
  | sent
  deriving DecidableEq, Repr

/-- The signals of `on_event`. A payload of another type than the handler expects is none. -/
inductive RfEvent where
  | txReq (payload : Option RfTxReqPayload)
  | rxStart
  | phyIrq
  | rxDone (payload : Option RxMetadata)
  | txDone
  | rxTimeout
  | crcError
  | transportTimeout
  | other
  deriving DecidableEq, Repr

namespace RfStackAO

variable {T N M P : Type}

def new (stack : RfStack T N M P) : RfStackAO T N M P :=
  { stack := stack, retransmitFrame := none, retransmitLen := 0, pendingTx := none,
    rxFrame := .new, state := .idle, posted := [], started := [] }

def Busy (ao : RfStackAO T N M P) : Prop := ao.state = .transmitting ∨ ao.state = .waitingAck

instance (ao : RfStackAO T N M P) : Decidable ao.Busy := inferInstanceAs (Decidable (_ ∨ _))

def post (ao : RfStackAO T N M P) (event : Posted) : RfStackAO T N M P :=
  { ao with posted := ao.posted ++ [event] }

def withPhy (ao : RfStackAO T N M P) (phy : P) : RfStackAO T N M P :=
  { ao with stack := { ao.stack with phy := phy } }

/-- A frame that comes while an acknowledgement is awaited counts as one. -/
def acknowledge (ao : RfStackAO T N M P) : RfStackAO T N M P :=
  if ao.state = .waitingAck then { ao.post .txDone with retransmitFrame := none, state := .idle }
  else ao

theorem acknowledge_spec (ao : RfStackAO T N M P) : ao.acknowledge.stack = ao.stack ∧
    ao.acknowledge.pendingTx = ao.pendingTx ∧ ao.acknowledge.started = ao.started ∧
    ao.acknowledge.state = (if ao.state = .waitingAck then .idle else ao.state) ∧
    ao.acknowledge.posted =
      ao.posted ++ (if ao.state = .waitingAck then [.txDone] else []) := by
  unfold acknowledge
  split
  · exact ⟨rfl, rfl, rfl, rfl, rfl⟩
  · exact ⟨rfl, rfl, rfl, rfl, (List.append_nil _).symm⟩

def settle (ao : RfStackAO T N M P) : RfStackAO T N M P :=
  if ao.state = .listening ∨ ao.state = .processingRx then { ao with state := .idle } else ao

theorem settle_spec (ao : RfStackAO T N M P) : ao.settle.stack = ao.stack ∧
    ao.settle.pendingTx = ao.pendingTx ∧ ao.settle.started = ao.started ∧
    ao.settle.posted = ao.posted ∧ ao.settle.state =
      if ao.state = .listening ∨ ao.state = .processingRx then .idle else ao.state := by
  unfold settle
  split <;> exact ⟨rfl, rfl, rfl, rfl, rfl⟩

variable [Layer T] [Layer N] [Layer M] [RfPhy P]

/-- `start_tx` up to the call of `drain_pending_tx` with which both failures of the radio end. -/
def launch (checked : Bool) (ao : RfStackAO T N M P) (req : RfTxReqPayload) :
    Except Panic (Launch × RfStackAO T N M P) := do
  let ao : RfStackAO T N M P := { ao with
    started := ao.started ++ [⟨req, ao.stack.transport⟩]
    stack := { ao.stack with network := Layer.setTxMeta ao.stack.network req.dst req.kind } }
  match ← ao.stack.buildFrame checked req.data with
  | (.error _, stack) => pure (.refused, { ao with stack := stack })
  | (.ok frame, stack) =>
    let phyBytes ← frame.payload
    let len := min phyBytes.length MAX_FRAME
    let buf ← overwrite .bounds (Vector.replicate MAX_FRAME 0) 0 (phyBytes.take len)
    let ao := { ao with stack := stack, retransmitFrame := some buf, retransmitLen := len }
    let (configured, phy) := RfPhy.configureTx ao.stack.phy
    let ao := ao.withPhy phy
    if !configured then
      pure (.failed, { ao with retransmitFrame := none }.post .txFail)
    else
      let (sent, phy) := RfPhy.transmit ao.stack.phy phyBytes
      let ao := ao.withPhy phy
      if sent then
        pure (.sent, { ao with state := if req.reliable then .waitingAck else .transmitting })
      else
        pure (.failed, { ao with retransmitFrame := none }.post .txFail)

/-- `drain_pending_tx` and `start_tx` call each other; the slot is emptied before the call, so a
call of `start_tx` from here drains nothing more. -/
def drainPendingTx (checked : Bool) (ao : RfStackAO T N M P) :
    Except Panic (RfStackAO T N M P) :=
  if ao.Busy then pure ao
  else
    match ao.pendingTx with
    | none => pure ao
    | some req => do
      let (_, ao) ← launch checked { ao with pendingTx := none } req
      pure ao

def startTx (checked : Bool) (ao : RfStackAO T N M P) (req : RfTxReqPayload) :
    Except Panic (RfStackAO T N M P) := do
  let (result, ao) ← launch checked ao req
  if result = .failed then drainPendingTx checked ao else pure ao

def handleTxReq (checked : Bool) (ao : RfStackAO T N M P) (payload : Option RfTxReqPayload) :
    Except Panic (RfStackAO T N M P) :=
  match payload with
  | none => pure ao
  | some req =>
    if ao.Busy then
      pure (if ao.pendingTx.isNone then { ao with pendingTx := some req } else ao)
    else
      startTx checked ao req

def handleTxDone (checked : Bool) (ao : RfStackAO T N M P) : Except Panic (RfStackAO T N M P) :=
  if ao.state = .waitingAck then pure ao
  else
    let ao := ao.post .txDone
    let (_, phy) := RfPhy.setMode ao.stack.phy (.rx (some 1000))
    drainPendingTx checked { ao.withPhy phy with state := .listening }

def doRetransmit (ao : RfStackAO T N M P) : Except Panic (RfStackAO T N M P) :=
  match ao.retransmitFrame with
  | none => pure ao
  | some buf => do
    let bytes ← slice .bounds buf.toList 0 ao.retransmitLen
    let (_, phy) := RfPhy.transmit ao.stack.phy bytes
    pure (ao.withPhy phy)

def handleTransportTimeout (checked : Bool) (ao : RfStackAO T N M P) :
    Except Panic (RfStackAO T N M P) :=
  let (action, transport) := Layer.onTimeout ao.stack.transport
  let ao := { ao with stack := { ao.stack with transport := transport } }
  match action with
  | .shouldRetransmit => ao.doRetransmit
  | .giveUp =>
    drainPendingTx checked
      ({ ao with retransmitFrame := none, retransmitLen := 0, state := .idle }.post .txFail)
  | .txComplete =>
    drainPendingTx checked ({ ao with retransmitFrame := none, state := .idle }.post .txDone)
  | .nothing => pure ao

/-- The branch of `handle_rx_done` for a frame that came through the stack. -/
def acceptFrame (ao : RfStackAO T N M P) (rx : RxMetadata) (frame : Frame) :
    Except Panic (RfStackAO T N M P) := do
  let ao := ao.acknowledge
  let data ← frame.payload
  if data.length ≤ 242 then
    let (src, kind) := Layer.lastRxMeta ao.stack.network
    pure (ao.post (.rxFrame { data := data, port := 1, rssi := rx.rssiDbm, snr := rx.snrDbX10,
                              src := src, kind := kind }))
  else
    pure ao

def takeAnswer (ao : RfStackAO T N M P) (rx : RxMetadata)
    (answer : Except CommsError (Option Frame)) : Except Panic (RfStackAO T N M P) :=
  match answer with
  | .ok (some frame) => ao.acceptFrame rx frame
  | .ok none => pure ao
  | .error _ => pure ao

def handleRxDone (checked : Bool) (ao : RfStackAO T N M P) (payload : Option RxMetadata) :
    Except Panic (RfStackAO T N M P) :=
  match payload with
  | none => pure ao
  | some rx => do
    let (read, buf, phy) := RfPhy.readRx ao.stack.phy Frame.new.buf rx
    let ao := { ao.withPhy phy with rxFrame := { Frame.new with buf := buf } }
    if !read then
      pure ao
    else
      let (answer, stack, rxFrame) ←
        ao.stack.receiveRaw checked (ao.rxFrame.setReceivedLen rx.pktLen.toNat)
      let ao := { ao with stack := stack, rxFrame := rxFrame }
      let ao ← ao.takeAnswer rx answer
      drainPendingTx checked ao.settle

def handleRxStart (ao : RfStackAO T N M P) : RfStackAO T N M P :=
  if ao.state ≠ .idle then ao
  else
    let (_, phy) := RfPhy.configureRx ao.stack.phy
    let (armed, phy) := RfPhy.setMode phy (.rx none)
    let ao := ao.withPhy phy
    if armed then { ao with state := .listening } else ao

def onEvent (checked : Bool) (ao : RfStackAO T N M P) : RfEvent → Except Panic (RfStackAO T N M P)
  | .txReq payload => handleTxReq checked ao payload
  | .rxStart => pure ao.handleRxStart
  | .phyIrq => pure ao
  | .rxDone payload => handleRxDone checked ao payload
  | .txDone => handleTxDone checked ao
  | .rxTimeout => pure { ao with state := .idle }
  | .crcError => pure { ao with state := .idle }
  | .transportTimeout => handleTransportTimeout checked ao
  | .other => pure ao

/-- One event of a run; a panic ends the run. -/
def step (checked : Bool) (ao : RfStackAO T N M P) (e : RfEvent) : Option (RfStackAO T N M P) :=
  (onEvent checked ao e).toOption

/-! ## What a launch does -/

/-- Everything that a launch which returned did to the active object. -/
structure Launched (checked : Bool) (ao : RfStackAO T N M P) (req : RfTxReqPayload)
    (result : Launch) (t : RfStackAO T N M P) : Prop where
  pendingTx : t.pendingTx = ao.pendingTx
  started : t.started = ao.started ++ [⟨req, ao.stack.transport⟩]
  state : t.state =
    if result = .sent then (if req.reliable then .waitingAck else .transmitting) else ao.state
  posted : t.posted = if result = .failed then ao.posted ++ [.txFail] else ao.posted
  built : ∃ answer stack,
    RfStack.buildFrame checked
      { ao.stack with network := Layer.setTxMeta ao.stack.network req.dst req.kind } req.data =
        .ok (answer, stack) ∧
    t.stack.transport = stack.transport ∧ (result = .refused ↔ ∃ e, answer = .error e) ∧
    ∀ frame, answer = .ok frame → Returns frame.payload

variable {checked : Bool} {ao t : RfStackAO T N M P} {req : RfTxReqPayload} {result : Launch}

theorem launched (ran : launch checked ao req = .ok (result, t)) :
    Launched checked ao req result t := by
  obtain ⟨⟨answer, stack⟩, built, ran⟩ := bind_ok ran
  cases answer with
  | error e =>
      cases ran
      exact ⟨rfl, rfl, rfl, rfl, _, _, built, rfl, by simp, by simp⟩
  | ok frame =>
      obtain ⟨bytes, read, ran⟩ := bind_ok ran
      obtain ⟨buf, _, ran⟩ := bind_ok ran
      have readable : ∀ f, (.ok frame : Except CommsError Frame) = .ok f → Returns f.payload := by
        intro f same
        cases same
        exact ⟨bytes, read⟩
      dsimp only at ran
      split at ran
      · cases ran
        exact ⟨rfl, rfl, rfl, rfl, _, _, built, rfl, by simp, readable⟩
      · split at ran
        · cases ran
          exact ⟨rfl, rfl, rfl, rfl, _, _, built, rfl, by simp, readable⟩
        · cases ran
          exact ⟨rfl, rfl, rfl, rfl, _, _, built, rfl, by simp, readable⟩

theorem drained (ran : drainPendingTx checked ao = .ok t) :
    (t = ao ∧ (ao.Busy ∨ ao.pendingTx = none)) ∨
      ¬ao.Busy ∧ ∃ req result, ao.pendingTx = some req ∧
        Launched checked { ao with pendingTx := none } req result t := by
  unfold drainPendingTx at ran
  by_cases busy : ao.Busy
  · rw [if_pos busy] at ran
    cases ran
    exact .inl ⟨rfl, .inl busy⟩
  · rw [if_neg busy] at ran
    cases slot : ao.pendingTx with
    | none =>
        rw [slot] at ran
        cases ran
        exact .inl ⟨rfl, .inr rfl⟩
    | some req =>
        rw [slot] at ran
        obtain ⟨⟨result, u⟩, ran, same⟩ := bind_ok ran
        cases same
        exact .inr ⟨busy, req, result, rfl, launched ran⟩

theorem drainPendingTx_empty (checked : Bool) (empty : ao.pendingTx = none) :
    drainPendingTx checked ao = .ok ao := by
  rw [drainPendingTx, empty]
  split <;> rfl

theorem startedTx (ran : startTx checked ao req = .ok t) :
    ∃ result u, Launched checked ao req result u ∧
      (t = u ∨ result = .failed ∧ drainPendingTx checked u = .ok t) := by
  obtain ⟨⟨result, u⟩, ran, rest⟩ := bind_ok ran
  refine ⟨result, u, launched ran, ?_⟩
  dsimp only at rest
  by_cases failed : result = .failed
  · rw [if_pos failed] at rest
    exact .inr ⟨failed, rest⟩
  · rw [if_neg failed] at rest
    cases rest
    exact .inl rfl

theorem startedTx_empty (empty : ao.pendingTx = none) (ran : startTx checked ao req = .ok t) :
    ∃ result, Launched checked ao req result t := by
  obtain ⟨result, u, launched, rfl | ⟨_, drains⟩⟩ := startedTx ran
  · exact ⟨result, launched⟩
  · rw [drainPendingTx_empty checked (launched.pendingTx.trans empty)] at drains
    cases drains
    exact ⟨result, launched⟩

/-- The equation of the source: draining calls `start_tx` itself. -/
theorem drainPendingTx_eq (checked : Bool) (ao : RfStackAO T N M P) :
    drainPendingTx checked ao =
      if ao.Busy then .ok ao
      else match ao.pendingTx with
        | none => .ok ao
        | some req => startTx checked { ao with pendingTx := none } req := by
  unfold drainPendingTx
  split
  · rfl
  · cases slot : ao.pendingTx with
    | none => rfl
    | some req =>
        dsimp only
        rw [startTx]
        cases ran : launch checked { ao with pendingTx := none } req with
        | error p => rfl
        | ok pair =>
            obtain ⟨result, u⟩ := pair
            have empty : u.pendingTx = none := (launched ran).pendingTx
            simp only [ok_bind, drainPendingTx_empty checked empty]
            split <;> rfl

/-! What every launch and the emptying of the slot keep is kept by `start_tx` and by draining. -/

section Kept

variable (Kept : RfStackAO T N M P → Prop)

theorem drain_keeps (slot : ∀ s, Kept s → Kept { s with pendingTx := none })
    (launch : ∀ s req result t, ¬s.Busy → Kept s → Launched checked s req result t → Kept t)
    (kept : Kept ao) (ran : drainPendingTx checked ao = .ok t) : Kept t := by
  obtain ⟨rfl, _⟩ | ⟨free, req, result, _, launched⟩ := drained ran
  · exact kept
  · have still : ¬({ ao with pendingTx := none } : RfStackAO T N M P).Busy := free
    exact launch _ req result t still (slot ao kept) launched

theorem startTx_keeps (slot : ∀ s, Kept s → Kept { s with pendingTx := none })
    (launch : ∀ s req result t, ¬s.Busy → Kept s → Launched checked s req result t → Kept t)
    (free : ¬ao.Busy) (kept : Kept ao) (ran : startTx checked ao req = .ok t) : Kept t := by
  obtain ⟨result, u, launched, rfl | ⟨_, drains⟩⟩ := startedTx ran
  · exact launch ao req result t free kept launched
  · exact drain_keeps Kept slot launch (launch ao req result u free kept launched) drains

end Kept

/-! ## What a reception does -/

def received (ao : RfStackAO T N M P) (rx : RxMetadata) : Option (List UInt8) :=
  let (read, buf, _) := RfPhy.readRx ao.stack.phy Frame.new.buf rx
  if read then some (buf.toList.take rx.pktLen.toNat) else none

def accepted : Except CommsError (Option Frame) → Bool
  | .ok (some _) => true
  | _ => false

theorem accepted_iff {answer : Except CommsError (Option Frame)} :
    accepted answer = true ↔ ∃ frame, answer = .ok (some frame) := by
  match answer with
  | .error e => simp [accepted]
  | .ok none => simp [accepted]
  | .ok (some frame) => simp [accepted]

/-- `u` is the active object after the answer of the stack, before the queued request is drained. -/
structure Answered (ao : RfStackAO T N M P) (answer : Except CommsError (Option Frame))
    (stack : RfStack T N M P) (u : RfStackAO T N M P) : Prop where
  stack : u.stack = stack
  pendingTx : u.pendingTx = ao.pendingTx
  started : u.started = ao.started
  readable : ∀ frame, answer = .ok (some frame) → Returns frame.payload
  state : u.state =
    if ao.state = .listening ∨ ao.state = .processingRx ∨ accepted answer ∧ ao.state = .waitingAck
    then .idle else ao.state
  posted : ∃ frames : List RfRxFramePayload, u.posted = ao.posted ++
    (if accepted answer ∧ ao.state = .waitingAck then [.txDone] else []) ++ frames.map .rxFrame

omit [Layer T] [Layer M] [RfPhy P] in
theorem acceptFrame_ran {rx : RxMetadata} {frame : Frame} (ran : acceptFrame ao rx frame = .ok t) :
    Returns frame.payload ∧ ∃ frames : List RfRxFramePayload,
      t = { ao.acknowledge with posted := ao.acknowledge.posted ++ frames.map .rxFrame } := by
  obtain ⟨data, read, ran⟩ := bind_ok ran
  refine ⟨⟨data, read⟩, ?_⟩
  dsimp only at ran
  split at ran
  · cases ran
    exact ⟨[_], rfl⟩
  · cases ran
    exact ⟨[], by simp⟩

omit [Layer T] [Layer M] [RfPhy P] in
theorem answered {rx : RxMetadata} {answer : Except CommsError (Option Frame)}
    (ran : ao.takeAnswer rx answer = .ok t) : Answered ao answer ao.stack t.settle := by
  obtain ⟨stack, pendingTx, started, posted, state⟩ := settle_spec t
  match answer, ran with
  | .error e, ran =>
      cases ran
      exact ⟨stack, pendingTx, started, by simp, by simp [accepted, state], [],
        by simp [accepted, posted]⟩
  | .ok none, ran =>
      cases ran
      exact ⟨stack, pendingTx, started, by simp, by simp [accepted, state], [],
        by simp [accepted, posted]⟩
  | .ok (some frame), ran =>
      obtain ⟨readable, frames, rfl⟩ := acceptFrame_ran ran
      obtain ⟨sameStack, samePending, sameStarted, after, told⟩ := acknowledge_spec ao
      refine ⟨stack.trans sameStack, pendingTx.trans samePending, started.trans sameStarted, ?_, ?_,
        frames, ?_⟩
      · intro other same
        cases same
        exact readable
      · rw [state]
        dsimp only
        rw [after]
        by_cases waits : ao.state = .waitingAck <;> simp [accepted, waits]
      · rw [posted, told]
        simp [accepted]

theorem rxDone_ran {rx : RxMetadata} (ran : handleRxDone checked ao (some rx) = .ok t) :
    ao.received rx = none ∧ (∃ phy frame, t = { ao.withPhy phy with rxFrame := frame }) ∨
      ∃ bytes raw phy answer stack raw' u, ao.received rx = some bytes ∧ raw.Holds bytes ∧
        RfStack.receiveRaw checked { ao.stack with phy := phy } raw = .ok (answer, stack, raw') ∧
        Answered ao answer stack u ∧ drainPendingTx checked u = .ok t := by
  unfold handleRxDone at ran
  rcases answered : RfPhy.readRx ao.stack.phy Frame.new.buf rx with ⟨read, buf, phy⟩
  simp only [answered] at ran
  cases read with
  | false =>
      cases ran
      exact .inl ⟨by simp [received, answered], phy, _, rfl⟩
  | true =>
      have short : rx.pktLen.toNat ≤ 255 := Nat.le_of_lt_succ rx.pktLen.toNat_lt
      obtain ⟨⟨answer, stack, raw'⟩, ran, rest⟩ := bind_ok ran
      obtain ⟨u, told, drains⟩ := bind_ok rest
      refine .inr ⟨buf.toList.take rx.pktLen.toNat, _, phy, answer, stack, raw', u.settle,
        by simp [received, answered],
        Frame.setReceivedLen_holds { Frame.new with buf := buf } short, ran, ?_, drains⟩
      have told := RfStackAO.answered told
      exact ⟨told.stack, told.pendingTx, told.started, told.readable, told.state, told.posted⟩

/-! ## The other handlers -/

theorem step_ok {e : RfEvent} (stepped : step checked ao e = some t) :
    onEvent checked ao e = .ok t := by
  unfold step at stepped
  cases ran : onEvent checked ao e with
  | error p => simp [ran, Except.toOption] at stepped
  | ok u => simpa [ran, Except.toOption] using stepped

omit [Layer T] [Layer N] [Layer M] in
theorem doRetransmit_ran (ran : ao.doRetransmit = .ok t) : ∃ phy, t = ao.withPhy phy := by
  unfold doRetransmit at ran
  split at ran
  · cases ran
    exact ⟨ao.stack.phy, rfl⟩
  · obtain ⟨bytes, _, ran⟩ := bind_ok ran
    cases ran
    exact ⟨_, rfl⟩

theorem txReq_ran (ran : handleTxReq checked ao (some req) = .ok t) :
    ao.Busy ∧ t = { ao with pendingTx := ao.pendingTx.or (some req) } ∨
      ¬ao.Busy ∧ startTx checked ao req = .ok t := by
  simp only [handleTxReq] at ran
  by_cases busy : ao.Busy
  · rw [if_pos busy] at ran
    cases ran
    refine .inl ⟨busy, ?_⟩
    obtain ⟨stack, frame, len, slot, rxFrame, state, posted, started⟩ := ao
    cases slot <;> rfl
  · rw [if_neg busy] at ran
    exact .inr ⟨busy, ran⟩

theorem txDone_ran (ran : handleTxDone checked ao = .ok t) :
    ao.state = .waitingAck ∧ t = ao ∨ ao.state ≠ .waitingAck ∧ ∃ phy,
      drainPendingTx checked { (ao.post .txDone).withPhy phy with state := .listening } =
        .ok t := by
  unfold handleTxDone at ran
  split at ran
  · rename_i waits
    cases ran
    exact .inl ⟨waits, rfl⟩
  · rename_i other
    exact .inr ⟨other, _, ran⟩

theorem transportTimeout_ran (ran : handleTransportTimeout checked ao = .ok t) :
    ((Layer.onTimeout ao.stack.transport).1 ≠ .giveUp ∧
      (Layer.onTimeout ao.stack.transport).1 ≠ .txComplete ∧ ∃ phy, t = { ao with
        stack := { ao.stack with transport := (Layer.onTimeout ao.stack.transport).2, phy } }) ∨
      ∃ event u, ((Layer.onTimeout ao.stack.transport).1 = .giveUp ∧ event = .txFail ∨
          (Layer.onTimeout ao.stack.transport).1 = .txComplete ∧ event = .txDone) ∧
        u.state = .idle ∧ u.posted = ao.posted ++ [event] ∧ u.started = ao.started ∧
        u.pendingTx = ao.pendingTx ∧ drainPendingTx checked u = .ok t := by
  unfold handleTransportTimeout at ran
  dsimp only at ran
  cases action : (Layer.onTimeout ao.stack.transport).1 with
  | shouldRetransmit =>
      rw [action] at ran
      obtain ⟨phy, rfl⟩ := doRetransmit_ran ran
      exact .inl ⟨by simp, by simp, phy, rfl⟩
  | giveUp =>
      rw [action] at ran
      refine .inr ⟨.txFail, _, .inl ⟨rfl, rfl⟩, ?_, ?_, ?_, ?_, ran⟩ <;> rfl
  | txComplete =>
      rw [action] at ran
      refine .inr ⟨.txDone, _, .inr ⟨rfl, rfl⟩, ?_, ?_, ?_, ?_, ran⟩ <;> rfl
  | nothing =>
      rw [action] at ran
      cases ran
      exact .inl ⟨by simp, by simp, ao.stack.phy, rfl⟩

omit [Layer T] [Layer N] [Layer M] in
theorem handleRxStart_spec (ao : RfStackAO T N M P) : ∃ phy state,
    ao.handleRxStart = { ao.withPhy phy with state := state } ∧
      (state = ao.state ∨ ao.state = .idle ∧ state = .listening) := by
  unfold handleRxStart
  by_cases idle : ao.state = .idle
  · rw [if_neg (not_not.mpr idle)]
    dsimp only
    split
    · exact ⟨_, .listening, rfl, .inr ⟨idle, rfl⟩⟩
    · exact ⟨_, ao.state, rfl, .inl rfl⟩
  · rw [if_pos idle]
    exact ⟨ao.stack.phy, ao.state, rfl, .inl rfl⟩

end RfStackAO

end QpRs.Comms
