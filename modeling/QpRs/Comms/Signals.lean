import QpRs.Comms.OnAir
import QpRs.Event

/-! The signals and payloads of the RF stack (`comms/src/events.rs`): the events of the active
object as a kernel dispatches them, and the poll of the radio that stands in for its interrupt. -/

namespace QpRs.Comms

def rfTxReqSig : Signal := ⟨20⟩
def rfRxStartSig : Signal := ⟨21⟩
def rfPhyIrqSig : Signal := ⟨22⟩
def rfPhyTxDoneSig : Signal := ⟨23⟩
def rfPhyRxDoneSig : Signal := ⟨24⟩
def rfPhyRxTimeoutSig : Signal := ⟨25⟩
def rfPhyCrcErrorSig : Signal := ⟨26⟩
def rfTxDoneSig : Signal := ⟨27⟩
def rfTxFailSig : Signal := ⟨28⟩
def rfRxFrameSig : Signal := ⟨29⟩
def rfTransportTimeoutSig : Signal := ⟨30⟩

/-- `RfTxReqPayload::new` -/
def RfTxReqPayload.new (data : List UInt8) (fport : UInt8) : RfTxReqPayload :=
  { data := data, fport := fport, reliable := false, dst := BROADCAST_ADDR, kind := 0 }

inductive PhyEvent where
  | txDone
  | rxDone (rx : RxMetadata)
  | rxTimeout
  | crcError
  | cadDone (channelActive : Bool)
  | preambleDetected
  deriving DecidableEq, Repr

/-- The payloads of the events that the stack takes and posts. Of `PhyIrqPayload` only the metadata
are read. -/
inductive RfPayload where
  | txReq (payload : RfTxReqPayload)
  | phyIrq (rx : RxMetadata)
  | rxFrame (payload : RfRxFramePayload)
  deriving DecidableEq, Repr

abbrev RfDynEvent := DynEvent RfPayload

/-- The signal that `on_event` matches, with the payload that its handler casts down to. -/
def RfEvent.ofEvent (e : RfDynEvent) : RfEvent :=
  match e.signal.val with
  | 20 => .txReq (match e.payload with | .value (.txReq req) => some req | _ => none)
  | 21 => .rxStart
  | 22 => .phyIrq
  | 23 => .txDone
  | 24 => .rxDone (match e.payload with | .value (.phyIrq rx) => some rx | _ => none)
  | 25 => .rxTimeout
  | 26 => .crcError
  | 30 => .transportTimeout
  | _ => .other

def Posted.event : Posted → RfDynEvent
  | .txDone => .emptyDyn rfTxDoneSig
  | .txFail => .emptyDyn rfTxFailSig
  | .rxFrame payload => .withPayload rfRxFrameSig (.rxFrame payload)

/-- The event that `pump` makes of what the radio reports. -/
def PhyEvent.event : PhyEvent → RfDynEvent
  | .txDone => .emptyDyn rfPhyTxDoneSig
  | .rxDone rx => .withPayload rfPhyRxDoneSig (.phyIrq rx)
  | .rxTimeout => .emptyDyn rfPhyRxTimeoutSig
  | .crcError => .emptyDyn rfPhyCrcErrorSig
  | .cadDone _ | .preambleDetected => .emptyDyn rfPhyIrqSig

/-- `poll_irq`: none when it fails. -/
class PollIrq (P : Type) where
  pollIrq : P → Option (Option PhyEvent) × P

instance : PollIrq NullRf where
  pollIrq phy := if phy.txDonePending then (some (some .txDone), ⟨false⟩) else (some none, phy)

instance {P : Type} [PollIrq P] : PollIrq (Recorded P) where
  pollIrq r := ((PollIrq.pollIrq r.phy).1, { r with phy := (PollIrq.pollIrq r.phy).2 })

namespace RfStackAO

variable {T N M P : Type} [Layer T] [Layer N] [Layer M] [RfPhy P]

def dispatch (checked : Bool) (ao : RfStackAO T N M P) (e : RfDynEvent) :
    Except Panic (RfStackAO T N M P) := ao.onEvent checked (.ofEvent e)

def pump [PollIrq P] (checked : Bool) (ao : RfStackAO T N M P) :
    Except Panic (Bool × RfStackAO T N M P) :=
  let (polled, phy) := PollIrq.pollIrq ao.stack.phy
  let ao := ao.withPhy phy
  match polled with
  | some (some event) => do
    let ao ← ao.dispatch checked event.event
    pure (true, ao)
  | some none => pure (false, ao)
  | none => pure (false, ao)

end RfStackAO

end QpRs.Comms
