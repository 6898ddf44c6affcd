import QpRs.Comms.Signals
import QpRs.Hsm.QHsm
import QpRs.Lib.Utf8
import QpRs.Time.TimeEvent

/-! The LoRa example (`examples/lora_send/src/main.rs`): an active object that sends a text at every
fifth tick, and the RF stack on the radio of the host, which `main` pumps. Handlers run one at a
time; in which order the queues are served and the radio is polled is left open. `posts` are the
posts of the running dispatch. -/

namespace QpRs.LoraSend

open Comms Hsm Lib

def senderId : ActiveObjectId := ⟨1⟩
def rfAoId : ActiveObjectId := ⟨2⟩

def timeoutSig : Signal := ⟨10⟩

/-- `panicked` records that the count has overflowed in a build that checks it. -/
structure LoRaSenderData where
  timer : TimeEvent
  count : UInt32
  posts : List (ActiveObjectId × RfDynEvent)
  panicked : Bool

inductive SenderState where
  | sending
  deriving DecidableEq, Repr

def message (count : UInt32) : List UInt8 := utf8Bytes ("hello LoRa #" ++ toString count.toNat)

def request (count : UInt32) : RfTxReqPayload := .new (message count) 1

namespace LoRaSenderData

def new : LoRaSenderData := ⟨.new senderId ⟨timeoutSig, none, 0⟩, 0, [], false⟩

/-- The `TIMEOUT_SIG` arm of `sending`. -/
def send (checked : Bool) (sm : LoRaSenderData) : LoRaSenderData :=
  if checked = true ∧ sm.count = 0xFFFFFFFF then { sm with panicked := true }
  else
    { sm with
      count := sm.count + 1
      posts := sm.posts ++ [(rfAoId, .withPayload rfTxReqSig (.txReq (request (sm.count + 1))))] }

end LoRaSenderData

abbrev SenderFn := StateFn SenderState LoRaSenderData RfPayload

def senderInitial : SenderFn := fun sm _ => (.tran (some .sending), sm)

def sending (checked : Bool) : SenderFn := fun sm e =>
  match e.signal.val with
  | 1 => (.handled, { sm with timer := sm.timer.arm 5 (some 5) }) -- Q_ENTRY_SIG
  | 10 => (.handled, sm.send checked) -- TIMEOUT_SIG
  | 27 => (.handled, sm) -- RF_TX_DONE_SIG
  | _ => (.super topState, sm)

def senderHandler (checked : Bool) : SenderState → SenderFn
  | .sending => sending checked

abbrev SenderHsm := QHsm SenderState LoRaSenderData RfPayload

abbrev HostRfAo := RfStackAO UnreliableTransport NoopNetwork LoRaWanMac (Recorded NullRf)

structure Node where
  sender : SenderHsm
  rf : HostRfAo
  senderQueue : List RfDynEvent
  rfQueue : List RfDynEvent

inductive Label where
  | tick
  | dispatchSender
  | dispatchRf
  | pump
  deriving DecidableEq, Repr

def dispatchFuel : Nat := 8

def senderDispatch (checked traced : Bool) (m : SenderHsm) (e : RfDynEvent) :
    Except Halt SenderHsm :=
  QHsm.dispatchTraced (senderHandler checked) traced dispatchFuel
    { m with sm := { m.sm with posts := [] } } e

def postsTo (id : ActiveObjectId) (posts : List (ActiveObjectId × RfDynEvent)) : List RfDynEvent :=
  (posts.filter fun post => post.1 = id).map Prod.snd

namespace Node

/-- The radio's active object has run one of its handlers. -/
def withRf (s : Node) (rf : HostRfAo) : Node :=
  { s with rf := rf, senderQueue := s.senderQueue ++ rf.posted.map Posted.event }

end Node

variable [Crypto]

def step (checked traced : Bool) (s : Node) : Label → Option Node
  | .tick =>
    let polled := s.sender.sm.timer.poll RfPayload
    some { s with
      sender := { s.sender with sm := { s.sender.sm with timer := polled.2 } }
      senderQueue := s.senderQueue ++ postsTo senderId polled.1.toList }
  | .dispatchSender =>
    match s.senderQueue with
    | [] => none
    | e :: rest =>
      match senderDispatch checked traced s.sender e with
      | .error _ => none
      | .ok m =>
        if m.sm.panicked then none
        else some { s with
          sender := m, senderQueue := rest, rfQueue := s.rfQueue ++ postsTo rfAoId m.sm.posts }
  | .dispatchRf =>
    match s.rfQueue with
    | [] => none
    | e :: rest =>
      match RfStackAO.dispatch checked { s.rf with posted := [] } e with
      | .error _ => none
      | .ok rf => some ({ s with rfQueue := rest }.withRf rf)
  | .pump =>
    match RfStackAO.pump checked { s.rf with posted := [] } with
    | .error _ => none
    | .ok (_, rf) => some (s.withRf rf)

omit [Crypto] in
/-- The test session, with port 1. -/
def testAbp : LoRaSession :=
  ⟨#v[0x04, 0x03, 0x02, 0x01], Vector.replicate 16 0, Vector.replicate 16 0, 0⟩

def senderInit (checked traced : Bool) : Except Halt SenderHsm :=
  QHsm.initTraced (senderHandler checked) traced dispatchFuel (.new .new senderInitial)

/-- Both active objects are started: the timer is armed and the radio is in standby. -/
def start (checked traced : Bool) : Node where
  sender := (senderInit checked traced).toOption.getD (.new .new senderInitial)
  rf := .new ⟨.new, ⟨⟩, .new testAbp 1, ⟨⟨false⟩, []⟩⟩
  senderQueue := []
  rfQueue := []

end QpRs.LoraSend
