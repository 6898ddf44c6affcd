import Mathlib.Data.List.Nodup
import QpRs.Comms.Uplink

/-! What a LoRaWAN device gives to its radio, over whole runs of the active object: each frame has a
number of its own, and is given again only as it was. -/

namespace QpRs.Comms

open QpRs.Lib

/-- A radio with a record of all that it was given to send. -/
structure Recorded (P : Type) where
  phy : P
  air : List (List UInt8)

instance {P : Type} [RfPhy P] : RfPhy (Recorded P) where
  setMode r mode := ((RfPhy.setMode r.phy mode).1, { r with phy := (RfPhy.setMode r.phy mode).2 })
  configureTx r := ((RfPhy.configureTx r.phy).1, { r with phy := (RfPhy.configureTx r.phy).2 })
  configureRx r := ((RfPhy.configureRx r.phy).1, { r with phy := (RfPhy.configureRx r.phy).2 })
  transmit r bytes :=
    ((RfPhy.transmit r.phy bytes).1, ⟨(RfPhy.transmit r.phy bytes).2, r.air ++ [bytes]⟩)
  readRx r buf rx :=
    ((RfPhy.readRx r.phy buf rx).1, (RfPhy.readRx r.phy buf rx).2.1,
      { r with phy := (RfPhy.readRx r.phy buf rx).2.2 })

/-- A frame of the device: its number, the request that it carries, the headers that the layers
above the MAC put before the data, and how often the radio was given it. -/
structure Uplink where
  number : ℕ
  request : RfTxReqPayload
  header : List UInt8
  times : ℕ

namespace Uplink

def pdu (u : Uplink) : List UInt8 := u.header ++ u.request.data

def wire [Crypto] (session : LoRaSession) (fport : UInt8) (u : Uplink) : List UInt8 :=
  uplinkFrame session fport (UInt32.ofNat u.number) u.pdu

def given [Crypto] (session : LoRaSession) (fport : UInt8) (u : Uplink) : List (List UInt8) :=
  List.replicate u.times (u.wire session fport)

def inputs (session : LoRaSession) (u : Uplink) : List (Vector UInt8 16) :=
  (List.range' 1 ((u.pdu.length + 15) / 16)).map fun i =>
    blockOf 0x01 0 session.devAddr (UInt32.ofNat u.number) (UInt8.ofNat i)

/-- The radio was given the frame, whose number is one of those up to `next`. -/
structure Valid (session : LoRaSession) (header next : ℕ) (u : Uplink) : Prop where
  first : session.fcntUp.toNat ≤ u.number
  below : u.number < next
  sized : u.header.length = header
  given : 0 < u.times
  short : u.pdu.length ≤ MAX_FRAME

end Uplink

namespace Uplink

theorem inputs_nodup (session : LoRaSession) {u : Uplink} (short : u.pdu.length ≤ MAX_FRAME) :
    (u.inputs session).Nodup := by
  apply List.Nodup.map_on _ List.nodup_range'
  intro i first j second same
  have i_small := (List.mem_range'_1.mp first).2
  have j_small := (List.mem_range'_1.mp second).2
  change _ ≤ 256 at short
  have place := congrArg UInt8.toNat (blockOf_inj same).2
  rw [UInt8.toNat_ofNat', UInt8.toNat_ofNat'] at place
  omega

/-- The counter tells the keystreams of two frames apart, until it has gone round. -/
theorem inputs_disjoint (session : LoRaSession) {u v : Uplink} (above : u.number < v.number)
    (near : v.number < u.number + 2 ^ 32) :
    List.Disjoint (u.inputs session) (v.inputs session) := by
  intro block first second
  obtain ⟨i, _, rfl⟩ := List.mem_map.mp first
  obtain ⟨j, _, same⟩ := List.mem_map.mp second
  have number := congrArg UInt32.toNat (blockOf_inj same).1
  rw [UInt32.toNat_ofNat', UInt32.toNat_ofNat'] at number
  omega

theorem fcntOf_wire [Crypto] (session : LoRaSession) (fport : UInt8) (u : Uplink) :
    (fcntOf (u.wire session fport)).toNat = u.number % 2 ^ 16 := by
  rw [wire, fcntOf_uplinkFrame, UInt32.toNat_ofNat']
  exact Nat.mod_mod_of_dvd u.number (by decide)

end Uplink

namespace RfStackAO

variable {T N P : Type} [Crypto] [Layer T] [Layer N] [Wraps T] [Wraps N]

/-- The frames of a run, and the number that the next one gets. -/
structure Sent (session : LoRaSession) (fport : UInt8)
    (ao : RfStackAO T N LoRaWanMac (Recorded P)) (sent : List Uplink) (next : ℕ) : Prop where
  counts : ao.stack.mac.At session fport (UInt32.ofNat next)
  bounded : session.fcntUp.toNat ≤ next ∧ next ≤ session.fcntUp.toNat + ao.started.length
  air : ao.stack.phy.air = sent.flatMap (Uplink.given session fport)
  increasing : Increasing Uplink.number sent
  valid : ∀ u ∈ sent, u.Valid session (Wraps.header T + Wraps.header N) next
  requests : (sent.map Uplink.request).Sublist (ao.started.map Started.request)
  again : ∀ buf, ao.retransmitFrame = some buf → ∃ u, sent.getLast? = some u ∧
    slice Panic.bounds buf.toList 0 ao.retransmitLen = .ok (u.wire session fport)

variable {checked : Bool} {session : LoRaSession} {fport : UInt8}
  {ao t : RfStackAO T N LoRaWanMac (Recorded P)} {sent : List Uplink} {next : ℕ}

/-- What gives nothing to the radio, though it may use up numbers: at most one for each request that
it starts. -/
theorem Sent.carry (here : Sent session fport ao sent next) {next' : ℕ}
    (counts : t.stack.mac.At session fport (UInt32.ofNat next'))
    (air : t.stack.phy.air = ao.stack.phy.air) {more : List (Started T)}
    (started : t.started = ao.started ++ more)
    (used : next ≤ next' ∧ next' ≤ next + more.length)
    (again : t.retransmitFrame = none ∨
      t.retransmitFrame = ao.retransmitFrame ∧ t.retransmitLen = ao.retransmitLen) :
    Sent session fport t sent next' where
  counts := counts
  bounded := by
    have bounded := here.bounded
    rw [started, List.length_append]
    omega
  air := air.trans here.air
  increasing := here.increasing
  valid u mem := { here.valid u mem with
    below := Nat.lt_of_lt_of_le (here.valid u mem).below used.1 }
  requests := by
    rw [started, List.map_append]
    exact here.requests.trans (List.sublist_append_left _ _)
  again buf kept := by
    rcases again with gone | ⟨same, length⟩
    · rw [gone] at kept
      cases kept
    · rw [length]
      exact here.again buf (same.symm.trans kept)

theorem Sent.send (here : Sent session fport ao sent next)
    (counts : t.stack.mac.At session fport (UInt32.ofNat (next + 1)))
    {request : RfTxReqPayload} {transport : T} {header : List UInt8}
    (sized : header.length = Wraps.header T + Wraps.header N)
    (short : (header ++ request.data).length ≤ MAX_FRAME)
    (air : t.stack.phy.air = ao.stack.phy.air ++
      [uplinkFrame session fport (UInt32.ofNat next) (header ++ request.data)])
    (started : t.started = ao.started ++ [⟨request, transport⟩])
    (again : ∀ buf, t.retransmitFrame = some buf → slice Panic.bounds buf.toList 0 t.retransmitLen =
      .ok (uplinkFrame session fport (UInt32.ofNat next) (header ++ request.data))) :
    Sent session fport t (sent ++ [⟨next, request, header, 1⟩]) (next + 1) where
  counts := counts
  bounded := by
    have bounded := here.bounded
    rw [started, List.length_append, List.length_singleton]
    omega
  air := by
    rw [air, here.air, List.flatMap_append, List.flatMap_singleton]
    rfl
  increasing := here.increasing.push fun u mem => (here.valid u mem).below
  valid := by
    refine List.forall_mem_append.mpr ⟨?_, List.forall_mem_singleton.mpr ?_⟩
    · intro u mem
      exact { here.valid u mem with below := Nat.lt_succ_of_lt (here.valid u mem).below }
    · exact ⟨here.bounded.1, Nat.lt_succ_self next, sized, Nat.one_pos, short⟩
  requests := by
    rw [started, List.map_append, List.map_append]
    exact here.requests.append (List.Sublist.refl _)
  again buf kept := ⟨_, List.getLast?_concat, again buf kept⟩

theorem Sent.resend (here : Sent session fport ao sent next)
    (counts : t.stack.mac.At session fport (UInt32.ofNat next)) {buf : Vector UInt8 MAX_FRAME}
    {bytes : List UInt8} (kept : ao.retransmitFrame = some buf)
    (read : slice Panic.bounds buf.toList 0 ao.retransmitLen = .ok bytes)
    (air : t.stack.phy.air = ao.stack.phy.air ++ [bytes]) (started : t.started = ao.started)
    (again : t.retransmitFrame = ao.retransmitFrame ∧ t.retransmitLen = ao.retransmitLen) :
    ∃ sent', Sent session fport t sent' next := by
  obtain ⟨u, last, same⟩ := here.again buf kept
  obtain ⟨front, rfl⟩ := List.getLast?_eq_some_iff.mp last
  have wired : bytes = u.wire session fport := Except.ok.inj (read.symm.trans same)
  have parts := List.forall_mem_append.mp here.valid
  have valid := List.forall_mem_singleton.mp parts.2
  refine ⟨front ++ [{ u with times := u.times + 1 }], ?_⟩
  constructor
  case counts => exact counts
  case bounded =>
    rw [started]
    exact here.bounded
  case air =>
    have once : Uplink.given session fport { u with times := u.times + 1 } =
        Uplink.given session fport u ++ [bytes] := by
      rw [wired]
      exact List.replicate_succ'
    rw [air, here.air, List.flatMap_append, List.flatMap_append, List.flatMap_singleton,
      List.flatMap_singleton, once, List.append_assoc]
  case increasing =>
    apply here.increasing.congr
    rw [List.map_append, List.map_append]
    rfl
  case valid =>
    refine List.forall_mem_append.mpr ⟨parts.1, List.forall_mem_singleton.mpr ?_⟩
    exact { valid with given := Nat.succ_pos _ }
  case requests =>
    have requests := here.requests
    rw [List.map_append] at requests ⊢
    rw [started]
    exact requests
  case again =>
    intro buf' kept'
    rw [again.1, kept] at kept'
    cases kept'
    refine ⟨_, List.getLast?_concat, ?_⟩
    rw [again.2]
    exact same

/-- Some frames account for what the radio was given. -/
def Accounted (session : LoRaSession) (fport : UInt8)
    (ao : RfStackAO T N LoRaWanMac (Recorded P)) : Prop :=
  ∃ sent next, Sent session fport ao sent next

theorem Accounted.same (here : Accounted session fport ao) (mac : t.stack.mac = ao.stack.mac)
    (air : t.stack.phy.air = ao.stack.phy.air) (started : t.started = ao.started)
    (again : t.retransmitFrame = none ∨
      t.retransmitFrame = ao.retransmitFrame ∧ t.retransmitLen = ao.retransmitLen) :
    Accounted session fport t := by
  obtain ⟨sent, next, here⟩ := here
  refine ⟨sent, next, here.carry ?_ air (started.trans (List.append_nil _).symm) (by simp) again⟩
  rw [mac]
  exact here.counts

omit [Crypto] in
theorem length_payload {f : Frame} {bytes : List UInt8} (read : f.payload = .ok bytes) :
    bytes.length ≤ MAX_FRAME := by
  have stop := f.stop.toNat_lt
  have ordered := Frame.ordered_of_returns ⟨bytes, read⟩
  have long : f.stop.toNat ≤ f.buf.toList.length := by
    rw [Frame.length_buf]
    omega
  rw [Frame.payload, slice_ok ordered long] at read
  cases read
  rw [List.length_drop, List.length_take, Frame.length_buf]
  change _ ≤ 256
  omega

section Handlers

variable [Heads T] [Heads N] [RfPhy P]

theorem launch_accounted {req : RfTxReqPayload} {result : Launch}
    (here : Accounted session fport ao) (ran : launch checked ao req = .ok (result, t)) :
    Accounted session fport t := by
  obtain ⟨sent, next, here⟩ := here
  obtain ⟨⟨answer, stack⟩, built, ran⟩ := bind_ok ran
  let handed : RfStack T N LoRaWanMac (Recorded P) :=
    { ao.stack with network := Layer.setTxMeta ao.stack.network req.dst req.kind }
  have counts : handed.mac.At session fport (UInt32.ofNat next) := here.counts
  obtain ⟨phy, ⟨⟨e, rfl⟩, kept⟩ | ⟨⟨frame, rfl⟩, up⟩⟩ := RfStack.buildFrame_counts counts built
  · cases ran
    refine ⟨sent, next, here.carry kept ?_ rfl (by simp) (.inr ⟨rfl, rfl⟩)⟩
    exact congrArg Recorded.air phy
  · obtain ⟨bytes, read, ran⟩ := bind_ok ran
    obtain ⟨buf, wrote, ran⟩ := bind_ok ran
    obtain ⟨header, sized, formed⟩ := RfStack.buildFrame_sealed counts built read
    have whole : min bytes.length MAX_FRAME = bytes.length := Nat.min_eq_left (length_payload read)
    rw [whole] at wrote ran
    rw [List.take_length] at wrote
    have stored : slice Panic.bounds buf.toList 0 bytes.length = .ok bytes := by
      have copied := slice_overwrite wrote
      rwa [Nat.zero_add] at copied
    have air : stack.phy.air = ao.stack.phy.air := congrArg Recorded.air phy
    have above : UInt32.ofNat next + 1 = UInt32.ofNat (next + 1) := (UInt32.ofNat_add next 1).symm
    rw [above] at up
    dsimp only at ran
    have given : stack.phy.air ++ [bytes] = ao.stack.phy.air ++
        [uplinkFrame session fport (UInt32.ofNat next) (header ++ req.data)] := by
      rw [air, formed]
    have short : (header ++ req.data).length ≤ MAX_FRAME := by
      have inside := length_payload read
      rw [formed, length_uplinkFrame] at inside
      omega
    split at ran
    · -- the radio is not configured, so it is not given the frame
      cases ran
      exact ⟨sent, next + 1, here.carry up air rfl (by simp) (.inl rfl)⟩
    · split at ran
      · cases ran
        refine ⟨_, next + 1, here.send up sized short given rfl ?_⟩
        intro buf' kept
        cases kept
        rw [← formed]
        exact stored
      · cases ran
        refine ⟨_, next + 1, here.send up sized short given rfl ?_⟩
        intro buf' kept
        cases kept

theorem drain_accounted (here : Accounted session fport ao)
    (ran : drainPendingTx checked ao = .ok t) : Accounted session fport t := by
  unfold drainPendingTx at ran
  split at ran
  · cases ran
    exact here
  · split at ran
    · cases ran
      exact here
    · obtain ⟨⟨result, u⟩, launched, same⟩ := bind_ok ran
      cases same
      refine launch_accounted ?_ launched
      exact here.same rfl rfl rfl (.inr ⟨rfl, rfl⟩)

theorem startTx_accounted {req : RfTxReqPayload} (here : Accounted session fport ao)
    (ran : startTx checked ao req = .ok t) : Accounted session fport t := by
  obtain ⟨⟨result, u⟩, launched, rest⟩ := bind_ok ran
  have later := launch_accounted here launched
  dsimp only at rest
  split at rest
  · exact drain_accounted later rest
  · cases rest
    exact later

theorem handleTxReq_accounted {payload : Option RfTxReqPayload} (here : Accounted session fport ao)
    (ran : handleTxReq checked ao payload = .ok t) : Accounted session fport t := by
  cases payload with
  | none =>
      cases ran
      exact here
  | some req =>
      obtain ⟨_, rfl⟩ | ⟨_, starts⟩ := txReq_ran ran
      · exact here.same rfl rfl rfl (.inr ⟨rfl, rfl⟩)
      · exact startTx_accounted here starts

theorem handleTxDone_accounted (here : Accounted session fport ao)
    (ran : handleTxDone checked ao = .ok t) : Accounted session fport t := by
  unfold handleTxDone at ran
  dsimp only at ran
  split at ran
  · cases ran
    exact here
  · refine drain_accounted ?_ ran
    exact here.same rfl rfl rfl (.inr ⟨rfl, rfl⟩)

omit [Heads T] [Heads N] in
/-- The saved bytes are those of the last frame, so this is no new one. -/
theorem doRetransmit_accounted (here : Accounted session fport ao)
    (ran : doRetransmit ao = .ok t) : Accounted session fport t := by
  unfold doRetransmit at ran
  split at ran
  · cases ran
    exact here
  · rename_i buf kept
    obtain ⟨bytes, read, ran⟩ := bind_ok ran
    cases ran
    obtain ⟨sent, next, here⟩ := here
    obtain ⟨sent', later⟩ := here.resend (t := ao.withPhy (RfPhy.transmit ao.stack.phy bytes).2)
      here.counts kept read rfl rfl ⟨rfl, rfl⟩
    exact ⟨sent', next, later⟩

theorem handleTransportTimeout_accounted (here : Accounted session fport ao)
    (ran : handleTransportTimeout checked ao = .ok t) : Accounted session fport t := by
  unfold handleTransportTimeout at ran
  dsimp only at ran
  split at ran
  · refine doRetransmit_accounted ?_ ran
    exact here.same rfl rfl rfl (.inr ⟨rfl, rfl⟩)
  · refine drain_accounted ?_ ran
    exact here.same rfl rfl rfl (.inl rfl)
  · refine drain_accounted ?_ ran
    exact here.same rfl rfl rfl (.inl rfl)
  · cases ran
    exact here.same rfl rfl rfl (.inr ⟨rfl, rfl⟩)

omit [Heads T] [Heads N] in
theorem handleRxStart_accounted (here : Accounted session fport ao) :
    Accounted session fport ao.handleRxStart := by
  unfold handleRxStart
  split
  · exact here
  · dsimp only
    split
    · exact here.same rfl rfl rfl (.inr ⟨rfl, rfl⟩)
    · exact here.same rfl rfl rfl (.inr ⟨rfl, rfl⟩)

omit [Heads T] [Heads N] [RfPhy P] in
theorem takeAnswer_accounted {rx : RxMetadata} {answer : Except CommsError (Option Frame)}
    (here : Accounted session fport ao) (ran : takeAnswer ao rx answer = .ok t) :
    Accounted session fport t.settle := by
  have settled (u : RfStackAO T N LoRaWanMac (Recorded P)) (known : Accounted session fport u) :
      Accounted session fport u.settle := by
    unfold settle
    split
    · exact known.same rfl rfl rfl (.inr ⟨rfl, rfl⟩)
    · exact known
  have acknowledged : Accounted session fport ao.acknowledge := by
    unfold acknowledge
    split
    · exact here.same rfl rfl rfl (.inl rfl)
    · exact here
  apply settled
  match answer, ran with
  | .error e, ran =>
      cases ran
      exact here
  | .ok none, ran =>
      cases ran
      exact here
  | .ok (some frame), ran =>
      obtain ⟨data, _, ran⟩ := bind_ok ran
      dsimp only at ran
      split at ran
      · cases ran
        exact acknowledged.same rfl rfl rfl (.inr ⟨rfl, rfl⟩)
      · cases ran
        exact acknowledged

theorem handleRxDone_accounted {payload : Option RxMetadata} (here : Accounted session fport ao)
    (ran : handleRxDone checked ao payload = .ok t) : Accounted session fport t := by
  cases payload with
  | none =>
      cases ran
      exact here
  | some rx =>
      unfold handleRxDone at ran
      dsimp only at ran
      split at ran
      · cases ran
        exact here.same rfl rfl rfl (.inr ⟨rfl, rfl⟩)
      · obtain ⟨⟨answer, stack, raw⟩, received, ran⟩ := bind_ok ran
        obtain ⟨u, answered, ran⟩ := bind_ok ran
        obtain ⟨sent, next, here⟩ := here
        let listening := ao.withPhy (RfPhy.readRx ao.stack.phy Frame.new.buf rx).2.2
        have counts : listening.stack.mac.At session fport (UInt32.ofNat next) := here.counts
        have short : rx.pktLen.toNat ≤ 255 := Nat.le_of_lt_succ rx.pktLen.toNat_lt
        have holds := Frame.setReceivedLen_holds
          { Frame.new with buf := (RfPhy.readRx ao.stack.phy Frame.new.buf rx).2.1 } short
        obtain ⟨phy, counts⟩ := RfStack.receiveRaw_counts counts holds received
        refine drain_accounted (takeAnswer_accounted ?_ answered) ran
        have air := congrArg Recorded.air phy
        exact ⟨sent, next, here.carry counts air (List.append_nil _).symm (by simp)
          (.inr ⟨rfl, rfl⟩)⟩

theorem step_accounted {e : RfEvent} (here : Accounted session fport ao)
    (stepped : step checked ao e = some t) : Accounted session fport t := by
  have ran := step_ok stepped
  cases e with
  | txReq payload => exact handleTxReq_accounted here ran
  | rxStart =>
      cases ran
      exact handleRxStart_accounted here
  | phyIrq =>
      cases ran
      exact here
  | rxDone payload => exact handleRxDone_accounted here ran
  | txDone => exact handleTxDone_accounted here ran
  | rxTimeout =>
      cases ran
      exact here.same rfl rfl rfl (.inr ⟨rfl, rfl⟩)
  | crcError =>
      cases ran
      exact here.same rfl rfl rfl (.inr ⟨rfl, rfl⟩)
  | transportTimeout => exact handleTransportTimeout_accounted here ran
  | other =>
      cases ran
      exact here

theorem run_accounted (checked : Bool) (transport : T) (network : N) (session : LoRaSession)
    (fport : UInt8) (phy : P) {events : List RfEvent}
    (ran : run (step checked) (new ⟨transport, network, .new session fport, ⟨phy, []⟩⟩) events =
      some t) : Accounted session fport t := by
  let first : RfStackAO T N LoRaWanMac (Recorded P) :=
    new ⟨transport, network, .new session fport, ⟨phy, []⟩⟩
  have start : Accounted session fport first := by
    refine ⟨[], session.fcntUp.toNat, ?_⟩
    constructor
    case counts => exact ⟨0, by rw [UInt32.ofNat_toNat]; rfl⟩
    case bounded => exact ⟨Nat.le_refl _, Nat.le_add_right _ _⟩
    case air => rfl
    case increasing => exact List.Pairwise.nil
    case valid => exact List.forall_mem_nil _
    case requests => exact List.Sublist.refl _
    case again =>
      intro buf kept
      cases kept
  exact run_preserves (fun s e u here stepped => step_accounted here stepped) start ran

/-- No block is encrypted for two frames: a frame that is sent again is sent as it was, and all
others have their own blocks, as long as the counter has not gone round. -/
theorem keystream_used_once (checked : Bool) (transport : T) (network : N) (session : LoRaSession)
    (fport : UInt8) (phy : P) (events : List RfEvent) (last : RfStackAO T N LoRaWanMac (Recorded P))
    (ran : run (step checked) (new ⟨transport, network, .new session fport, ⟨phy, []⟩⟩) events =
      some last) (counted : last.started.length ≤ 2 ^ 32) :
    ∃ sent : List Uplink, last.stack.phy.air = sent.flatMap (Uplink.given session fport) ∧
      (sent.map Uplink.request).Sublist (last.started.map Started.request) ∧
      (∀ u ∈ sent, 0 < u.times) ∧ (sent.flatMap (Uplink.inputs session)).Nodup := by
  obtain ⟨sent, next, here⟩ := run_accounted checked transport network session fport phy ran
  refine ⟨sent, here.air, here.requests, fun u mem => (here.valid u mem).given,
    List.nodup_flatMap.mpr ⟨?_, ?_⟩⟩
  · intro u mem
    exact Uplink.inputs_nodup session (here.valid u mem).short
  · apply here.increasing.imp_of_mem
    intro u v first second above
    have low := (here.valid u first).first
    have high := (here.valid v second).below
    have most := here.bounded.2
    exact Uplink.inputs_disjoint session above (by omega)

/-- The numbers of the frames go up, and there are no more of them than requests. The network gets
the data of the requests whose frames come to it, in order: frames may be lost, as long as not 2^16
numbers are missing in a row. -/
theorem network_hears (checked : Bool) (transport : T) (network : N) (session : LoRaSession)
    (fport : UInt8) (phy : P) (events : List RfEvent) (last : RfStackAO T N LoRaWanMac (Recorded P))
    (ran : run (step checked) (new ⟨transport, network, .new session fport, ⟨phy, []⟩⟩) events =
      some last) :
    ∃ sent : List Uplink, last.stack.phy.air = sent.flatMap (Uplink.given session fport) ∧
      (sent.map Uplink.request).Sublist (last.started.map Started.request) ∧
      Increasing Uplink.number sent ∧
      (∀ u ∈ sent, 0 < u.times ∧ session.fcntUp.toNat ≤ u.number ∧
        u.number < session.fcntUp.toNat + last.started.length) ∧
      ∀ heard : List Uplink, heard.Sublist sent →
        Near (2 ^ 16) Uplink.number session.fcntUp.toNat heard →
        (heardBy session (heard.map (Uplink.wire session fport))).map
          (List.drop (Wraps.header T + Wraps.header N)) = heard.map fun u => u.request.data := by
  obtain ⟨sent, next, here⟩ := run_accounted checked transport network session fport phy ran
  refine ⟨sent, here.air, here.requests, here.increasing, fun u mem => ?_, ?_⟩
  · have valid := here.valid u mem
    exact ⟨valid.given, valid.first, Nat.lt_of_lt_of_le valid.below here.bounded.2⟩
  intro heard some_of near
  have opened : heardBy session (heard.map (Uplink.wire session fport)) = heard.map Uplink.pdu := by
    apply hearAll_near heard _ _ near
    · intro u _
      exact u.fcntOf_wire session fport
    · intro u _
      exact openUplink_frame session fport (UInt32.ofNat u.number) u.pdu
  rw [opened, List.map_map]
  apply List.map_congr_left
  intro u mem
  have sized := (here.valid u (some_of.mem mem)).sized
  exact List.drop_left' sized

end Handlers

end RfStackAO

/-! A node with a reliable transport: the first report is sent twice, then given up, and the second
one goes out. -/

namespace RfStackAO

section Reports

attribute [local instance] Downlink.flatCrypto

def report (data : List UInt8) : RfTxReqPayload :=
  { data := data, fport := 1, reliable := true, dst := 0, kind := 0 }

def sensor : RfStackAO ReliableTransport NoopNetwork LoRaWanMac (Recorded NullRf) :=
  new ⟨.new 1, ⟨⟩, .new Downlink.flatSession 1, ⟨⟨false⟩, []⟩⟩

def reports : List RfEvent :=
  [.txReq (some (report [104, 105])), .txReq (some (report [111, 107])), .transportTimeout,
    .transportTimeout]

theorem reports_keystream : ∃ last, run (step true) sensor reports = some last ∧
    last.stack.phy.air.length = 3 ∧ ∃ sent : List Uplink,
      last.stack.phy.air = sent.flatMap (Uplink.given Downlink.flatSession 1) ∧
      (∀ u ∈ sent, 0 < u.times) ∧
      (sent.flatMap (Uplink.inputs Downlink.flatSession)).Nodup := by
  have seen : (run (step true) sensor reports).map
      (fun last => (last.stack.phy.air.length, last.started.length)) = some (3, 2) := by
    decide +kernel
  obtain ⟨last, ran, fields⟩ := Option.map_eq_some_iff.mp seen
  obtain ⟨aired, started⟩ := Prod.mk.inj fields
  obtain ⟨sent, air, _, given, fresh⟩ := keystream_used_once true (ReliableTransport.new 1)
    (⟨⟩ : NoopNetwork) Downlink.flatSession 1 (⟨false⟩ : NullRf) reports last ran
    (by rw [started]; omega)
  exact ⟨last, ran, aired, sent, air, given, fresh⟩

/-- Whichever of the frames of the two reports come to the network, it hears. -/
theorem reports_heard : ∃ last, run (step true) sensor reports = some last ∧
    last.stack.phy.air.length = 3 ∧ ∃ sent : List Uplink,
      last.stack.phy.air = sent.flatMap (Uplink.given Downlink.flatSession 1) ∧
      (∀ u ∈ sent, 0 < u.times ∧ u.number < 2) ∧
      ∀ heard : List Uplink, heard.Sublist sent →
        (heardBy Downlink.flatSession (heard.map (Uplink.wire Downlink.flatSession 1))).map
          (List.drop 5) = heard.map fun u => u.request.data := by
  have seen : (run (step true) sensor reports).map
      (fun last => (last.stack.phy.air.length, last.started.length)) = some (3, 2) := by
    decide +kernel
  obtain ⟨last, ran, fields⟩ := Option.map_eq_some_iff.mp seen
  obtain ⟨aired, started⟩ := Prod.mk.inj fields
  obtain ⟨sent, air, _, increasing, valid, hears⟩ := network_hears true (ReliableTransport.new 1)
    (⟨⟩ : NoopNetwork) Downlink.flatSession 1 (⟨false⟩ : NullRf) reports last ran
  have below (u : Uplink) (mem : u ∈ sent) : u.number < 2 := by
    have inside := (valid u mem).2.2
    rw [started] at inside
    exact inside
  refine ⟨last, ran, aired, sent, air, fun u mem => ⟨(valid u mem).1, below u mem⟩, ?_⟩
  intro heard some_of
  refine hears heard some_of (Increasing.near_of_lt (increasing.sublist some_of) ?_)
  intro u mem
  have small := below u (some_of.mem mem)
  exact ⟨Nat.zero_le _, Nat.lt_of_lt_of_le small (by decide)⟩

end Reports

end RfStackAO

end QpRs.Comms
