import QpRs.LoraSend.Node

/-! The RF stack on the radio of the host, which sends everything and then reports it. -/

namespace QpRs.LoraSend

open Comms Hsm Lib RfStackAO

variable [Crypto] (checked : Bool) {session : LoRaSession} {fport : UInt8} {fcnt : UInt32}

theorem buildFrame_host {P : Type} {s : RfStack UnreliableTransport NoopNetwork LoRaWanMac P}
    (counts : s.mac.At session fport fcnt) {payload : List UInt8} (short : payload.length ≤ 219) :
    ∃ frame header s', RfStack.buildFrame checked s payload = .ok (.ok frame, s') ∧
      header.length = 5 ∧
      frame.payload = .ok (uplinkFrame session fport fcnt (header ++ payload)) := by
  have fits : payload.length < 224 := by omega
  obtain ⟨f₀, wrote, start₀, _⟩ := Frame.new.writePayload_eq fits.le
  obtain ⟨f₀', wrote', holds₀⟩ := Frame.new.writePayload_holds fits
  rw [wrote] at wrote'
  obtain rfl := (Prod.mk.inj (Except.ok.inj wrote')).2
  obtain ⟨header, f₁, five, down₁, holds₁, start₁, stop₁⟩ :=
    s.transport.down_eq checked holds₀ (by omega)
  have length₀ := holds₀.length
  have stop₀ : f₁.stop.toNat = f₀.stop.toNat := congrArg UInt8.toNat stop₁
  obtain ⟨m, f₂, down₂, read⟩ := LoRaWanMac.down_wrote counts holds₁ (by omega) (by omega)
  refine ⟨f₂, header, { s with transport := ⟨s.transport.seq + 1⟩, mac := m }, ?_, five, read⟩
  have first : Layer.down checked s.transport f₀ = .ok (.ok (), ⟨s.transport.seq + 1⟩, f₁) := down₁
  have second : Layer.down checked s.network f₁ = .ok (.ok (), s.network, f₁) := rfl
  have third : Layer.down checked s.mac f₁ = .ok (.ok (), m, f₂) := down₂
  rw [RfStack.buildFrame, wrote, ok_bind]
  dsimp only
  rw [first, ok_bind]
  dsimp only
  rw [second, ok_bind]
  dsimp only
  rw [third]
  rfl

/-- The radio has something to report. -/
def irq (rf : HostRfAo) : Bool := rf.stack.phy.phy.txDonePending

/-- The state of the host's stack: every frame has been given to the radio once, and while one is on
the air there is a report to come. -/
structure Host (rf : HostRfAo) (sent : List Uplink) : Prop where
  accounted : Sent testAbp 1 rf sent sent.length
  once : ∀ u ∈ sent, u.times = 1
  phase : rf.state = .transmitting ∧ irq rf = true ∨
    (rf.state = .idle ∨ rf.state = .listening) ∧ irq rf = false ∧ rf.pendingTx = none

/-- A request that the host can send. -/
structure Sendable (req : RfTxReqPayload) : Prop where
  plain : req.reliable = false
  short : req.data.length ≤ 219

theorem launch_host {rf : HostRfAo} {sent : List Uplink}
    (accounted : Sent testAbp 1 rf sent sent.length) (once : ∀ u ∈ sent, u.times = 1)
    {req : RfTxReqPayload} (sendable : Sendable req) :
    ∃ t header, launch checked rf req = .ok (.sent, t) ∧
      Host t (sent ++ [⟨sent.length, req, header, 1⟩]) ∧ irq t = true ∧
      t.pendingTx = rf.pendingTx ∧ t.posted = rf.posted := by
  let handed : RfStack UnreliableTransport NoopNetwork LoRaWanMac (Recorded NullRf) :=
    { rf.stack with network := Layer.setTxMeta rf.stack.network req.dst req.kind }
  have counts : handed.mac.At testAbp 1 (UInt32.ofNat sent.length) := accounted.counts
  obtain ⟨frame, header, stack, built, five, read⟩ :=
    buildFrame_host checked counts sendable.short
  obtain ⟨phy, ⟨⟨e, refused⟩, _⟩ | ⟨_, up⟩⟩ := RfStack.buildFrame_counts counts built
  · cases refused
  · have above : UInt32.ofNat sent.length + 1 = UInt32.ofNat (sent.length + 1) :=
      (UInt32.ofNat_add sent.length 1).symm
    rw [above] at up
    have air : stack.phy.air = rf.stack.phy.air := congrArg Recorded.air phy
    let bytes := uplinkFrame testAbp 1 (UInt32.ofNat sent.length) (header ++ req.data)
    have read : frame.payload = .ok bytes := read
    have inside : bytes.length ≤ MAX_FRAME := length_payload read
    have whole : bytes.take (min bytes.length MAX_FRAME) = bytes := by
      rw [Nat.min_eq_left inside, List.take_length]
    have room : 0 + bytes.length ≤ MAX_FRAME := by rwa [Nat.zero_add]
    obtain ⟨buf, wrote⟩ := overwrite_returns Panic.bounds (Vector.replicate MAX_FRAME 0) room
    have stored := slice_overwrite wrote
    rw [Nat.zero_add] at stored
    have short : (header ++ req.data).length ≤ MAX_FRAME := by
      rw [length_uplinkFrame] at inside
      omega
    refine ⟨{ rf with
        stack := { stack with phy := ⟨⟨true⟩, stack.phy.air ++ [bytes]⟩ }
        retransmitFrame := some buf
        retransmitLen := bytes.length
        started := rf.started ++ [⟨req, rf.stack.transport⟩]
        state := .transmitting }, header, ?_, ⟨?_, ?_, .inl ⟨rfl, rfl⟩⟩, rfl, rfl, rfl⟩
    · rw [launch]
      change (RfStack.buildFrame checked handed req.data >>= fun out => _) = _
      rw [built, ok_bind]
      dsimp only
      rw [read, ok_bind, whole, wrote, ok_bind, Nat.min_eq_left inside]
      simp only [sendable.plain]
      rfl
    · rw [List.length_append, List.length_singleton]
      refine accounted.send up five short (by rw [air]) rfl ?_
      intro buf' kept
      cases kept
      exact stored
    · refine List.forall_mem_append.mpr ⟨once, List.forall_mem_singleton.mpr rfl⟩

variable {rf : HostRfAo} {sent : List Uplink}

theorem Host.busy (host : Host rf sent) : rf.Busy ↔ irq rf = true := by
  rcases host.phase with ⟨state, reports⟩ | ⟨state, reports, _⟩
  · simp [Busy, state, reports]
  · rcases state with state | state <;> simp [Busy, state, reports]

theorem Host.same (host : Host rf sent) {t : HostRfAo} (stack : t.stack.mac = rf.stack.mac)
    (air : t.stack.phy.air = rf.stack.phy.air) (started : t.started = rf.started)
    (again : t.retransmitFrame = rf.retransmitFrame ∧ t.retransmitLen = rf.retransmitLen) :
    Sent testAbp 1 t sent sent.length := by
  apply host.accounted.carry _ air (started.trans (List.append_nil _).symm) (by simp) (.inr again)
  rw [stack]
  exact host.accounted.counts

theorem dispatch_busy (host : Host rf sent) (reports : irq rf = true) (req : RfTxReqPayload) :
    RfStackAO.dispatch checked rf (.withPayload rfTxReqSig (.txReq req)) =
      .ok { rf with pendingTx := rf.pendingTx.or (some req) } := by
  have busy := host.busy.mpr reports
  change handleTxReq checked rf (some req) = _
  rw [handleTxReq, if_pos busy]
  cases slot : rf.pendingTx with
  | none => rfl
  | some waits =>
      change Except.ok rf = Except.ok { rf with pendingTx := some waits }
      rw [← slot]

theorem dispatch_free (host : Host rf sent) (silent : irq rf = false) {req : RfTxReqPayload}
    (sendable : Sendable req) :
    ∃ t header, RfStackAO.dispatch checked rf (.withPayload rfTxReqSig (.txReq req)) = .ok t ∧
      Host t (sent ++ [⟨sent.length, req, header, 1⟩]) ∧ irq t = true ∧
      t.pendingTx = rf.pendingTx ∧ t.posted = rf.posted := by
  have free : ¬rf.Busy := by
    rw [host.busy, silent]
    exact Bool.false_ne_true
  obtain ⟨t, header, launched, later⟩ := launch_host checked host.accounted host.once sendable
  refine ⟨t, header, ?_, later⟩
  change handleTxReq checked rf (some req) = _
  rw [handleTxReq, if_neg free, startTx, launched]
  rfl

theorem pump_silent (silent : irq rf = false) : RfStackAO.pump checked rf = .ok (false, rf) := by
  have quiet : rf.stack.phy.phy.txDonePending = false := silent
  simp only [RfStackAO.pump, PollIrq.pollIrq, quiet]
  rfl

theorem pump_reports (host : Host rf sent) (reports : irq rf = true)
    (sendable : ∀ req ∈ rf.pendingTx, Sendable req) :
    ∃ t later, RfStackAO.pump checked rf = .ok (true, t) ∧ Host t (sent ++ later) ∧
      later.map Uplink.request = rf.pendingTx.toList ∧ t.pendingTx = none ∧
      irq t = rf.pendingTx.isSome ∧ t.posted = rf.posted ++ [.txDone] := by
  have loud : rf.stack.phy.phy.txDonePending = true := reports
  have state : rf.state = .transmitting := by
    rcases host.phase with ⟨state, _⟩ | ⟨_, silent, _⟩
    · exact state
    · rw [reports] at silent
      cases silent
  let listening : HostRfAo :=
    { (rf.withPhy ⟨⟨false⟩, rf.stack.phy.air⟩).post .txDone with state := .listening }
  have going : (rf.withPhy ⟨⟨false⟩, rf.stack.phy.air⟩).state ≠ .waitingAck := by
    change rf.state ≠ .waitingAck
    rw [state]
    exact nofun
  have polled : RfStackAO.pump checked rf =
      drainPendingTx checked listening >>= fun t => pure (true, t) := by
    simp only [RfStackAO.pump, PollIrq.pollIrq, loud]
    change (handleTxDone checked (rf.withPhy ⟨⟨false⟩, rf.stack.phy.air⟩) >>= fun t => _) = _
    rw [handleTxDone, if_neg going]
    rfl
  have free : ¬listening.Busy := by simp [Busy, listening]
  rw [polled, drainPendingTx, if_neg free]
  have slot : listening.pendingTx = rf.pendingTx := rfl
  cases waits : rf.pendingTx with
  | none =>
      have still : Sent testAbp 1 listening sent sent.length := host.same rfl rfl rfl ⟨rfl, rfl⟩
      rw [slot, waits]
      refine ⟨listening, [], rfl, ⟨?_, ?_, .inr ⟨.inr rfl, rfl, waits⟩⟩, rfl, waits, rfl, rfl⟩
      · rw [List.append_nil]
        exact still
      · rw [List.append_nil]
        exact host.once
  | some req =>
      let emptied : HostRfAo := { listening with pendingTx := none }
      have still : Sent testAbp 1 emptied sent sent.length := host.same rfl rfl rfl ⟨rfl, rfl⟩
      obtain ⟨t, header, launched, next, loud, pending, posted⟩ :=
        launch_host checked still host.once (sendable req waits)
      rw [slot, waits]
      refine ⟨t, [⟨sent.length, req, header, 1⟩], ?_, next, rfl, pending, loud, posted⟩
      change (launch checked emptied req >>= fun out => _) >>= _ = _
      rw [launched]
      rfl

end QpRs.LoraSend
