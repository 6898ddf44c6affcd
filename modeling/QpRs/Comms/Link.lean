import QpRs.Comms.FrameCalls
import QpRs.Comms.Stack

/-! One node that sends to another through the addressing layer: what the other one hears, frame by
frame. -/

namespace QpRs.Comms

open QpRs.Lib

inductive LinkCall where
  | setTxMeta (dst : UInt16) (kind : UInt8)
  | send (payload : List UInt8)
  deriving DecidableEq, Repr

/-- The payload of a frame that came out of the peer's stack, none when a layer dropped it, and the
peer's `last_rx_meta` after the frame. -/
structure Heard where
  received : Except CommsError (Option (List UInt8))
  lastRxMeta : UInt16 × UInt8

abbrev AddressedStack (P : Type) : Type := RfStack UnreliableTransport Network NoopMac P

structure Link (P : Type) where
  sender : AddressedStack P
  peer : AddressedStack P
  raw : Frame

namespace Link

variable {P : Type}

def new (a : UInt16) (phy : P) (peer : AddressedStack P) (raw : Frame) : Link P :=
  ⟨⟨.new, .new a, ⟨⟩, phy⟩, peer, raw⟩

def setTxMeta (l : Link P) (dst : UInt16) (kind : UInt8) : Link P :=
  { l with sender := { l.sender with network := Layer.setTxMeta l.sender.network dst kind } }

def readPayload : Except CommsError (Option Frame) →
    Except Panic (Except CommsError (Option (List UInt8)))
  | .ok (some frame) => frame.payload.map fun payload => .ok (some payload)
  | .ok none => .ok (.ok none)
  | .error e => .ok (.error e)

/-- The bytes come to the peer as the DMA leaves them, with their number. -/
def deliver (checked : Bool) (peer : AddressedStack P) (raw : Frame) (bytes : List UInt8) :
    Except Panic (Heard × AddressedStack P × Frame) := do
  let buf ← overwrite .bounds raw.buf 0 bytes
  let (answer, peer, raw) ←
    RfStack.receiveRaw checked peer ({ raw with buf := buf }.setReceivedLen bytes.length)
  let received ← readPayload answer
  pure (⟨received, Layer.lastRxMeta peer.network⟩, peer, raw)

def send (checked : Bool) (l : Link P) (payload : List UInt8) :
    Except Panic (Except CommsError Heard × Link P) := do
  match ← RfStack.buildFrame checked l.sender payload with
  | (.error e, sender) => pure (.error e, { l with sender := sender })
  | (.ok frame, sender) =>
    let bytes ← frame.payload
    let (heard, peer, raw) ← deliver checked l.peer l.raw bytes
    pure (.ok heard, ⟨sender, peer, raw⟩)

def talk (checked : Bool) : Link P → List LinkCall →
    Except Panic (List (Except CommsError Heard) × Link P)
  | l, [] => .ok ([], l)
  | l, .setTxMeta dst kind :: rest => talk checked (l.setTxMeta dst kind) rest
  | l, .send payload :: rest => do
    let (heard, l) ← l.send checked payload
    let (later, l) ← talk checked l rest
    pure (heard :: later, l)

/-- Node `a` talks to node `b`. A frame goes where the last `set_tx_meta` since the frame before
has sent it, and to every node where there was none. -/
def expected (a b : UInt16) :
    UInt16 × UInt8 → UInt16 × UInt8 → List LinkCall → List (Except CommsError Heard)
  | _, _, [] => []
  | _, last, .setTxMeta dst kind :: rest => expected a b (dst, kind) last rest
  | (dst, kind), last, .send payload :: rest =>
    if dst = b ∨ dst = BROADCAST_ADDR then
      .ok ⟨.ok (some payload), (a, kind)⟩ :: expected a b (BROADCAST_ADDR, 0) (a, kind) rest
    else .ok ⟨.ok none, last⟩ :: expected a b (BROADCAST_ADDR, 0) last rest

end Link

/-! One layer at a time, on the way down. -/

variable {f : Frame} {bytes : List UInt8}

theorem UnreliableTransport.down_eq (checked : Bool) (t : UnreliableTransport)
    (holds : f.Holds bytes) (room : 5 ≤ f.start.toNat) :
    ∃ hdr f', hdr.length = 5 ∧ t.down checked f = .ok (.ok (), ⟨t.seq + 1⟩, f') ∧
      f'.Holds (hdr ++ bytes) ∧ f'.start.toNat + 5 = f.start.toNat ∧ f'.stop = f.stop := by
  let len := UInt16.ofNat bytes.length
  let hdr : List UInt8 := [t.seq, 0, TransportFlags.FIRST_FRAG ||| TransportFlags.LAST_FRAG,
    len.toUInt8, (len >>> 8).toUInt8]
  obtain ⟨f', put, left, start, stop⟩ := holds.prependHeader_eq hdr room checked
  refine ⟨hdr, f', rfl, ?_, left, start, stop⟩
  rw [down, holds.len_eq, ok_bind]
  change (f.prependHeader checked hdr >>= fun out => _) = _
  rw [put]
  rfl

theorem Network.down_eq (checked : Bool) (net : Network) (holds : f.Holds bytes)
    (room : 5 ≤ f.start.toNat) :
    ∃ a b low high f', u16FromLeBytes a b = net.address ∧ u16FromLeBytes low high = net.pendingDst ∧
      net.down checked f =
        .ok (.ok (), { net with pendingDst := BROADCAST_ADDR, pendingKind := 0 }, f') ∧
      f'.Holds (a :: b :: low :: high :: net.pendingKind :: bytes) := by
  obtain ⟨a, b, source, named⟩ := u16FromLeBytes_toLeBytes net.address
  obtain ⟨low, high, target, meant⟩ := u16FromLeBytes_toLeBytes net.pendingDst
  obtain ⟨f', put, left, _⟩ :=
    holds.prependHeader_eq [a, b, low, high, net.pendingKind] room checked
  refine ⟨a, b, low, high, f', named, meant, ?_, left⟩
  rw [down, source, target]
  change (f.prependHeader checked [a, b, low, high, net.pendingKind] >>= fun out => _) = _
  rw [put]
  rfl

theorem UnreliableTransport.up_eq (checked : Bool) (t : UnreliableTransport) {hdr : List UInt8}
    (five : hdr.length = 5) (holds : f.Holds (hdr ++ bytes)) :
    ∃ f', t.up checked f = .ok (.ok true, t, f') ∧ f'.Holds bytes := by
  obtain ⟨f', stripped, left⟩ := holds.stripHeader_eq checked
  rw [five] at stripped
  have long : ¬(hdr ++ bytes).length < 5 := by
    rw [List.length_append]
    omega
  refine ⟨f', ?_, left⟩
  rw [up, holds.len_eq, ok_bind, if_neg long, stripped]
  rfl

namespace Link

variable {P : Type}

structure Sent (net : Network) (payload bytes : List UInt8) : Prop where
  short : bytes.length ≤ 255
  headed : ∃ a b low high hdr, hdr.length = 5 ∧ u16FromLeBytes a b = net.address ∧
    u16FromLeBytes low high = net.pendingDst ∧
    bytes = a :: b :: low :: high :: net.pendingKind :: (hdr ++ payload)

theorem buildFrame_sent (checked : Bool) (s : AddressedStack P) {payload : List UInt8}
    (short : payload.length ≤ 223) :
    ∃ frame bytes, RfStack.buildFrame checked s payload =
        .ok (.ok frame, { s with
          transport := ⟨s.transport.seq + 1⟩
          network := { s.network with pendingDst := BROADCAST_ADDR, pendingKind := 0 } }) ∧
      frame.payload = .ok bytes ∧ Sent s.network payload bytes := by
  obtain ⟨f₀, wrote, start, _⟩ := Frame.new.writePayload_eq (show payload.length ≤ 224 by omega)
  obtain ⟨_, same, holds⟩ := Frame.new.writePayload_holds (show payload.length < 224 by omega)
  rw [wrote] at same
  cases same
  obtain ⟨hdr, f₁, five, down₁, holds₁, start₁, _⟩ :=
    s.transport.down_eq checked holds (by omega)
  obtain ⟨a, b, low, high, f₂, source, target, down₂, holds₂⟩ :=
    s.network.down_eq checked holds₁ (by omega)
  refine ⟨f₂, _, ?_, holds₂.payload_eq, ?_, a, b, low, high, hdr, five, source, target, rfl⟩
  · have transport : Layer.down checked s.transport f₀ =
        .ok (.ok (), ⟨s.transport.seq + 1⟩, f₁) := down₁
    have network : Layer.down checked s.network f₁ = .ok (.ok (),
        { s.network with pendingDst := BROADCAST_ADDR, pendingKind := 0 }, f₂) := down₂
    rw [RfStack.buildFrame, wrote, ok_bind]
    dsimp only
    rw [transport, ok_bind]
    dsimp only
    rw [network]
    rfl
  · have length := holds₂.length
    have bound := f₂.stop.toNat_lt
    omega

theorem received_holds (raw : Frame) {bytes : List UInt8} (short : bytes.length ≤ 255) :
    ∃ buf, overwrite Panic.bounds raw.buf 0 bytes = .ok buf ∧
      ({ raw with buf := buf }.setReceivedLen bytes.length).Holds bytes := by
  obtain ⟨buf, copied, written⟩ := Frame.overwrite_buf raw (show 0 + bytes.length ≤ 256 by omega)
  refine ⟨buf, copied, ?_⟩
  have holds := { raw with buf := buf }.setReceivedLen_holds short
  have front : buf.toList.take bytes.length = bytes := by
    rw [written, List.take_zero, List.nil_append, List.take_left]
  rw [front] at holds
  exact holds

theorem receiveRaw_sent (checked : Bool) (peer : AddressedStack P) {raw : Frame} {net : Network}
    {payload bytes : List UInt8} (sent : Sent net payload bytes) (short : payload.length ≤ 223)
    (holds : raw.Holds bytes) :
    ∃ raw', if net.pendingDst = peer.network.address ∨ net.pendingDst = BROADCAST_ADDR then
        ∃ out, out.payload = .ok payload ∧ RfStack.receiveRaw checked peer raw =
          .ok (.ok (some out), { peer with network := { peer.network with
            lastRxSrc := net.address, lastRxKind := net.pendingKind } }, raw')
      else RfStack.receiveRaw checked peer raw = .ok (.ok none, peer, raw') := by
  obtain ⟨a, b, low, high, hdr, five, source, target, rfl⟩ := sent.headed
  obtain ⟨f₁, left, up₂⟩ := peer.network.up_eq checked holds
  have mac : Layer.up checked peer.mac raw = .ok (.ok true, peer.mac, raw) := rfl
  rw [source, target] at up₂
  by_cases meant : net.pendingDst = peer.network.address ∨ net.pendingDst = BROADCAST_ADDR
  · have mine : ¬(net.pendingDst ≠ peer.network.address ∧ net.pendingDst ≠ BROADCAST_ADDR) :=
      fun other => meant.elim other.1 other.2
    rw [if_neg mine] at up₂
    obtain ⟨f₂, up₁, holds₂⟩ := peer.transport.up_eq checked five left
    obtain ⟨out, copied, read⟩ :=
      RfStack.copyOut_fits (show payload.length < 224 by omega)
    have network : Layer.up checked peer.network raw = _ := up₂
    have transport : Layer.up checked peer.transport f₁ = _ := up₁
    refine ⟨f₂, ?_⟩
    rw [if_pos meant]
    refine ⟨out, read, ?_⟩
    rw [RfStack.receiveRaw, mac, ok_bind]
    dsimp only
    rw [network, ok_bind]
    dsimp only
    rw [RfStack.receiveTransport, transport, ok_bind]
    dsimp only
    rw [holds₂.payload_eq, ok_bind, copied]
    rfl
  · have other : net.pendingDst ≠ peer.network.address ∧ net.pendingDst ≠ BROADCAST_ADDR :=
      not_or.mp meant
    rw [if_pos other] at up₂
    have network : Layer.up checked peer.network raw = _ := up₂
    refine ⟨f₁, ?_⟩
    rw [if_neg meant, RfStack.receiveRaw, mac, ok_bind]
    dsimp only
    rw [network]
    rfl

theorem send_heard (checked : Bool) (l : Link P) {payload : List UInt8}
    (short : payload.length ≤ 223) :
    ∃ heard l', l.send checked payload = .ok (.ok heard, l') ∧
      heard = (if l.sender.network.pendingDst = l.peer.network.address ∨
          l.sender.network.pendingDst = BROADCAST_ADDR then
        ⟨.ok (some payload), (l.sender.network.address, l.sender.network.pendingKind)⟩
        else ⟨.ok none, l.peer.network.lastRxMeta⟩) ∧
      l'.peer.network.lastRxMeta = heard.lastRxMeta ∧
      l'.peer.network.address = l.peer.network.address ∧
      l'.sender.network =
        { l.sender.network with pendingDst := BROADCAST_ADDR, pendingKind := 0 } := by
  obtain ⟨frame, bytes, built, read, sent⟩ := buildFrame_sent checked l.sender short
  obtain ⟨buf, copied, holds⟩ := received_holds l.raw sent.short
  obtain ⟨raw', came⟩ := receiveRaw_sent checked l.peer sent short holds
  rw [send, built, ok_bind]
  dsimp only
  rw [read, ok_bind, deliver, copied, ok_bind]
  by_cases meant : l.sender.network.pendingDst = l.peer.network.address ∨
      l.sender.network.pendingDst = BROADCAST_ADDR
  · rw [if_pos meant] at came ⊢
    obtain ⟨out, payload_read, ran⟩ := came
    rw [ran, ok_bind]
    dsimp only
    rw [readPayload, payload_read]
    exact ⟨_, _, rfl, rfl, rfl, rfl, rfl⟩
  · rw [if_neg meant] at came ⊢
    rw [came, ok_bind]
    exact ⟨_, _, rfl, rfl, rfl, rfl, rfl⟩

theorem talk_eq (checked : Bool) (calls : List LinkCall) (l : Link P)
    (short : ∀ payload, LinkCall.send payload ∈ calls → payload.length ≤ 223) :
    ∃ l', talk checked l calls = .ok (expected l.sender.network.address l.peer.network.address
      (l.sender.network.pendingDst, l.sender.network.pendingKind) l.peer.network.lastRxMeta calls,
      l') := by
  induction calls generalizing l with
  | nil => exact ⟨l, rfl⟩
  | cons c rest ih =>
      have later (payload : List UInt8) (member : LinkCall.send payload ∈ rest) :
          payload.length ≤ 223 := short payload (List.mem_cons_of_mem c member)
      cases c with
      | setTxMeta dst kind => exact ih (l.setTxMeta dst kind) later
      | send payload =>
          obtain ⟨heard, l', ran, told, last, address, sender⟩ :=
            send_heard checked l (short payload List.mem_cons_self)
          obtain ⟨l'', talked⟩ := ih l' later
          refine ⟨l'', ?_⟩
          rw [talk, ran, ok_bind]
          dsimp only
          rw [talked, ok_bind, last, address, sender, told, expected]
          by_cases meant : l.sender.network.pendingDst = l.peer.network.address ∨
              l.sender.network.pendingDst = BROADCAST_ADDR
          · rw [if_pos meant, if_pos meant]
            rfl
          · rw [if_neg meant, if_neg meant]
            rfl

/-- Every payload of up to 223 bytes comes out of the stack of the node it is meant for, with the
sender's address and the kind that was set for it; a frame for another node leaves no mark. -/
theorem talk_addressed (checked : Bool) (a : UInt16) (phy : P) (peer : AddressedStack P)
    (raw : Frame) (calls : List LinkCall)
    (short : ∀ payload, LinkCall.send payload ∈ calls → payload.length ≤ 223) :
    ∃ l, talk checked (new a phy peer raw) calls = .ok (expected a peer.network.address
      (BROADCAST_ADDR, 0) peer.network.lastRxMeta calls, l) :=
  talk_eq checked calls (new a phy peer raw) short

/-- Node 5 sends to node 7 and then, with nothing set, to every node. -/
theorem talk_addressed_two :
    ∃ l, talk true (new 5 () ⟨.new, .new 7, ⟨⟩, ()⟩ Frame.new)
      [.setTxMeta 7 3, .send [1, 2], .setTxMeta 8 3, .send [], .send [9]] = .ok
        ([.ok ⟨.ok (some [1, 2]), (5, 3)⟩, .ok ⟨.ok none, (5, 3)⟩, .ok ⟨.ok (some [9]), (5, 0)⟩],
          l) := by
  refine talk_addressed true 5 () ⟨.new, .new 7, ⟨⟩, ()⟩ Frame.new
    [.setTxMeta 7 3, .send [1, 2], .setTxMeta 8 3, .send [], .send [9]] ?_
  intro payload member
  simp only [List.mem_cons, reduceCtorEq, LinkCall.send.injEq, List.not_mem_nil, or_false,
    false_or] at member
  rcases member with rfl | rfl | rfl
  all_goals decide

end Link

end QpRs.Comms
