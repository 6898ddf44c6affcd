import QpRs.Comms.FrameCalls
import QpRs.Comms.Stack

/-! What a `build_frame` that fails leaves in the layers, for every stack that the crate's
transports, networks and MACs make. -/

namespace QpRs.Comms

open QpRs.Lib

inductive AnyTransport where
  | reliable (t : ReliableTransport)
  | unreliable (t : UnreliableTransport)
  deriving DecidableEq, Repr

inductive AnyNetwork where
  | network (n : Network)
  | noop (n : NoopNetwork)
  deriving DecidableEq, Repr

inductive AnyMac where
  | lorawan (m : LoRaWanMac)
  | noop (m : NoopMac)
  | bleL2cap (m : BleL2capMac)
  deriving DecidableEq, Repr

/-- A layer's answer with the layer put back in its place. -/
def mapLayer {L M α : Type} (put : L → M) (out : Except Panic (Except CommsError α × L × Frame)) :
    Except Panic (Except CommsError α × M × Frame) :=
  out.map fun (r, layer, frame) => (r, put layer, frame)

theorem mapLayer_ok {L M α : Type} {put : L → M}
    {out : Except Panic (Except CommsError α × L × Frame)} {r : Except CommsError α} {m : M}
    {f' : Frame} (ran : mapLayer put out = .ok (r, m, f')) :
    ∃ l, m = put l ∧ out = .ok (r, l, f') := by
  obtain ⟨⟨r', l, f''⟩, ran, same⟩ := map_ok ran
  cases same
  exact ⟨l, rfl, ran⟩

theorem mapLayer_returns {L M α : Type} {put : L → M}
    {out : Except Panic (Except CommsError α × L × Frame)} (first : Returns out) :
    Returns (mapLayer put out) := by
  obtain ⟨⟨r, l, f⟩, ran⟩ := first
  rw [ran]
  exact ⟨_, rfl⟩

instance : Layer AnyTransport where
  down
    | checked, .reliable t, frame => mapLayer .reliable (Layer.down checked t frame)
    | checked, .unreliable t, frame => mapLayer .unreliable (Layer.down checked t frame)
  up
    | checked, .reliable t, frame => mapLayer .reliable (Layer.up checked t frame)
    | checked, .unreliable t, frame => mapLayer .unreliable (Layer.up checked t frame)
  onTimeout
    | .reliable t => ((Layer.onTimeout t).1, .reliable (Layer.onTimeout t).2)
    | .unreliable t => ((Layer.onTimeout t).1, .unreliable (Layer.onTimeout t).2)

instance : Layer AnyNetwork where
  down
    | checked, .network n, frame => mapLayer .network (Layer.down checked n frame)
    | checked, .noop n, frame => mapLayer .noop (Layer.down checked n frame)
  up
    | checked, .network n, frame => mapLayer .network (Layer.up checked n frame)
    | checked, .noop n, frame => mapLayer .noop (Layer.up checked n frame)
  setTxMeta
    | .network n, dst, kind => .network (Layer.setTxMeta n dst kind)
    | .noop n, dst, kind => .noop (Layer.setTxMeta n dst kind)
  lastRxMeta
    | .network n => Layer.lastRxMeta n
    | .noop n => Layer.lastRxMeta n

instance [Crypto] : Layer AnyMac where
  down
    | checked, .lorawan m, frame => mapLayer .lorawan (Layer.down checked m frame)
    | checked, .noop m, frame => mapLayer .noop (Layer.down checked m frame)
    | checked, .bleL2cap m, frame => mapLayer .bleL2cap (Layer.down checked m frame)
  up
    | checked, .lorawan m, frame => mapLayer .lorawan (Layer.up checked m frame)
    | checked, .noop m, frame => mapLayer .noop (Layer.up checked m frame)
    | checked, .bleL2cap m, frame => mapLayer .bleL2cap (Layer.up checked m frame)

section Down

variable (checked : Bool) (frame : Frame)

theorem down_reliable (t : ReliableTransport) : Layer.down checked (AnyTransport.reliable t) frame =
    mapLayer .reliable (t.down checked frame) := rfl

theorem down_unreliable (t : UnreliableTransport) :
    Layer.down checked (AnyTransport.unreliable t) frame =
      mapLayer .unreliable (t.down checked frame) := rfl

theorem down_network (n : Network) : Layer.down checked (AnyNetwork.network n) frame =
    mapLayer .network (n.down checked frame) := rfl

theorem down_noopNetwork (n : NoopNetwork) : Layer.down checked (AnyNetwork.noop n) frame =
    .ok (.ok (), .noop n, frame) := rfl

theorem down_lorawan [Crypto] (m : LoRaWanMac) : Layer.down checked (AnyMac.lorawan m) frame =
    mapLayer .lorawan (m.down checked frame) := rfl

theorem down_noopMac [Crypto] (m : NoopMac) : Layer.down checked (AnyMac.noop m) frame =
    .ok (.ok (), .noop m, frame) := rfl

theorem down_bleL2cap [Crypto] (m : BleL2capMac) : Layer.down checked (AnyMac.bleL2cap m) frame =
    mapLayer .bleL2cap (m.down checked frame) := rfl

end Down

abbrev CrateStack (P : Type) : Type := RfStack AnyTransport AnyNetwork AnyMac P

/-- What an encoding can change in the layers; a layer without a field has none of it. -/
structure TxState where
  seq : UInt8
  retries : Option UInt8
  state : Option TransportState
  pending : Option (UInt16 × UInt8)
  fcntUp : Option UInt32
  deriving DecidableEq, Repr

namespace AnyTransport

def seq : AnyTransport → UInt8
  | .reliable t => t.seq
  | .unreliable t => t.seq

def retries : AnyTransport → Option UInt8
  | .reliable t => some t.retries
  | .unreliable _ => none

def state : AnyTransport → Option TransportState
  | .reliable t => some t.state
  | .unreliable _ => none

end AnyTransport

def AnyNetwork.pending : AnyNetwork → Option (UInt16 × UInt8)
  | .network n => some (n.pendingDst, n.pendingKind)
  | .noop _ => none

namespace AnyMac

def fcntUp : AnyMac → Option UInt32
  | .lorawan m => some m.fcntUp
  | _ => none

/-- The MAC refuses a frame whose payload is `n` bytes long, after the layers above it have put
their headers on. A payload of 224 bytes does not come so far where overflow is checked. -/
def RefusesLate (checked : Bool) (n : Nat) : AnyMac → Prop
  | .lorawan _ => 220 < n ∧ n < 224
  | .noop _ => False
  | .bleL2cap _ => n < 224 ∨ n = 224 ∧ checked = false

end AnyMac

namespace CrateStack

variable {P : Type}

def txState (s : CrateStack P) : TxState :=
  { seq := s.transport.seq
    retries := s.transport.retries
    state := s.transport.state
    pending := s.network.pending
    fcntUp := s.mac.fcntUp }

/-- A `build_frame` that fails leaves the layers as they were. -/
def LeavesNoTrace [Crypto] (checked : Bool) (s : CrateStack P) (payload : List UInt8) : Prop :=
  ∀ e s', RfStack.buildFrame checked s payload = .ok (.error e, s') → txState s' = txState s

end CrateStack

/-! Each kind of layer: when its `down` returns, and what it has done then. -/

variable {checked : Bool} {f f' : Frame} {r : Except CommsError Unit}

theorem Frame.prependHeader_returns (f : Frame) {hdr : List UInt8}
    (room : hdr.length ≤ f.start.toNat) : Returns (f.prependHeader checked hdr) := by
  have bound := f.start.toNat_lt
  have small : (UInt8.ofNat hdr.length).toNat = hdr.length :=
    Frame.toNat_small (show hdr.length < 256 by omega)
  obtain ⟨start, ran, value⟩ := subU8_ok checked (a := f.start) (b := UInt8.ofNat hdr.length)
    (by omega)
  have inside : start.toNat + hdr.length ≤ 256 := by omega
  obtain ⟨buf, copied, _⟩ := Frame.overwrite_buf f inside
  rw [Frame.prependHeader, if_neg (by omega), ran, ok_bind, copied]
  exact ⟨_, rfl⟩

theorem Frame.len_returns (f : Frame)
    (ordered : f.start.toNat ≤ f.stop.toNat ∨ checked = false) : Returns (f.len checked) := by
  have open_cursors : (checked && decide (f.stop < f.start)) = false := by
    rcases ordered with ordered | unchecked
    · have above : ¬f.stop < f.start := by
        rw [UInt8.lt_iff_toNat_lt]
        omega
      rw [decide_eq_false above, Bool.and_false]
    · rw [unchecked, Bool.false_and]
  rw [Frame.len, subU8, open_cursors]
  exact ⟨_, rfl⟩

theorem Frame.ordered_of_len {n : Nat} (ran : f.len true = .ok n) :
    f.start.toNat ≤ f.stop.toNat := by
  by_contra crossed
  have below : f.stop < f.start := by
    rw [UInt8.lt_iff_toNat_lt]
    omega
  rw [Frame.len, subU8, decide_eq_true below] at ran
  cases ran

theorem down_accepts {L : Type} [Layer L] [Wraps L] {layer layer' : L}
    (complete : Wraps.complete L = true) (bare : Wraps.trailer L = 0)
    (ran : Layer.down checked layer f = .ok (r, layer', f'))
    (room : Wraps.header L ≤ f.start.toNat) :
    r = .ok () ∧ f'.start.toNat + Wraps.header L = f.start.toNat ∧ f'.stop = f.stop := by
  have below := f.stop.toNat_lt
  have done : r = .ok () := (Wraps.accepts checked layer layer' f f' r ran room).mpr
    ⟨complete, by omega⟩
  subst done
  have moved := Wraps.wrapped checked layer layer' f f' ran room
  have stop := moved.stop
  rw [bare, Nat.add_zero, Nat.mod_eq_of_lt below] at stop
  exact ⟨rfl, moved.start, UInt8.toNat_inj.mp stop⟩

theorem UnreliableTransport.down_seq {t t' : UnreliableTransport}
    (ran : t.down checked f = .ok (.ok (), t', f')) : t'.seq = t.seq + 1 := by
  obtain ⟨n, _, ran⟩ := bind_ok ran
  obtain ⟨⟨answer, moved⟩, _, ran⟩ := bind_ok ran
  cases answer with
  | error e => cases ran
  | ok done =>
      cases ran
      rfl

namespace AnyTransport

variable {t t' : AnyTransport}

/-- The transports commit their sequence number as soon as their own header is written. -/
theorem down_ran (ran : Layer.down checked t f = .ok (r, t', f')) (room : 5 ≤ f.start.toNat) :
    r = .ok () ∧ f'.start.toNat + 5 = f.start.toNat ∧ f'.stop = f.stop ∧ t'.seq = t.seq + 1 := by
  cases t with
  | reliable t =>
      rw [down_reliable] at ran
      obtain ⟨u, rfl, inner⟩ := mapLayer_ok ran
      obtain ⟨rfl, start, stop⟩ := down_accepts (L := ReliableTransport) rfl rfl inner room
      obtain ⟨⟨_, refused⟩, _⟩ | ⟨_, counted⟩ := ReliableTransport.down_ran inner
      · cases refused
      · rw [counted]
        exact ⟨rfl, start, stop, rfl⟩
  | unreliable t =>
      rw [down_unreliable] at ran
      obtain ⟨u, rfl, inner⟩ := mapLayer_ok ran
      obtain ⟨rfl, start, stop⟩ := down_accepts (L := UnreliableTransport) rfl rfl inner room
      exact ⟨rfl, start, stop, UnreliableTransport.down_seq inner⟩

theorem down_returns (t : AnyTransport) (room : 5 ≤ f.start.toNat)
    (ordered : f.start.toNat ≤ f.stop.toNat ∨ checked = false) :
    Returns (Layer.down checked t f) := by
  cases t with
  | reliable t =>
      rw [down_reliable]
      apply mapLayer_returns
      refine (f.len_returns ordered).bind fun n => ?_
      refine Returns.bind (f.prependHeader_returns (by exact room)) ?_
      rintro ⟨_ | _, _⟩
      · exact ⟨_, rfl⟩
      · exact ⟨_, rfl⟩
  | unreliable t =>
      rw [down_unreliable]
      apply mapLayer_returns
      refine (f.len_returns ordered).bind fun n => ?_
      refine Returns.bind (f.prependHeader_returns (by exact room)) ?_
      rintro ⟨_ | _, _⟩
      · exact ⟨_, rfl⟩
      · exact ⟨_, rfl⟩

theorem ordered_of_down (ran : Layer.down true t f = .ok (r, t', f')) :
    f.start.toNat ≤ f.stop.toNat := by
  cases t with
  | reliable t =>
      rw [down_reliable] at ran
      obtain ⟨u, rfl, inner⟩ := mapLayer_ok ran
      obtain ⟨n, len, _⟩ := bind_ok inner
      exact f.ordered_of_len len
  | unreliable t =>
      rw [down_unreliable] at ran
      obtain ⟨u, rfl, inner⟩ := mapLayer_ok ran
      obtain ⟨n, len, _⟩ := bind_ok inner
      exact f.ordered_of_len len

end AnyTransport

namespace AnyNetwork

variable {n n' : AnyNetwork}

theorem down_ran (ran : Layer.down checked n f = .ok (r, n', f')) (room : 5 ≤ f.start.toNat) :
    r = .ok () ∧ f.start.toNat ≤ f'.start.toNat + 5 ∧ f'.start.toNat ≤ f.start.toNat ∧
      f'.stop = f.stop := by
  cases n with
  | network n =>
      rw [down_network] at ran
      obtain ⟨u, rfl, inner⟩ := mapLayer_ok ran
      obtain ⟨rfl, start, stop⟩ := down_accepts (L := Network) rfl rfl inner room
      change f'.start.toNat + 5 = f.start.toNat at start
      exact ⟨rfl, by omega, by omega, stop⟩
  | noop n =>
      rw [down_noopNetwork] at ran
      cases ran
      exact ⟨rfl, by omega, le_rfl, rfl⟩

theorem down_returns (n : AnyNetwork) (room : 5 ≤ f.start.toNat) :
    Returns (Layer.down checked n f) := by
  cases n with
  | network n =>
      rw [down_network]
      apply mapLayer_returns
      refine Returns.bind (f.prependHeader_returns (by exact room)) ?_
      rintro ⟨_, _⟩
      exact ⟨_, rfl⟩
  | noop n => exact ⟨_, rfl⟩

end AnyNetwork

namespace AnyMac

def Refuses (stop : Nat) : AnyMac → Prop
  | .lorawan _ => 256 < stop + 4
  | .noop _ => False
  | .bleL2cap _ => True

theorem refuses_iff (checked : Bool) (m : AnyMac) {n : Nat} (short : n ≤ 224) :
    m.Refuses ((32 + n) % 256) ∧ (checked = true → n ≠ 224) ↔ m.RefusesLate checked n := by
  cases m with
  | lorawan m =>
      change 256 < (32 + n) % 256 + 4 ∧ _ ↔ 220 < n ∧ n < 224
      omega
  | noop m => simp [AnyMac.Refuses, AnyMac.RefusesLate]
  | bleL2cap m =>
      change True ∧ _ ↔ n < 224 ∨ n = 224 ∧ checked = false
      cases checked with
      | false => simp; omega
      | true => simp; omega

theorem RefusesLate.short {n : Nat} {m : AnyMac} (late : m.RefusesLate checked n) : n ≤ 224 := by
  cases m with
  | lorawan m => exact late.2.le
  | noop m => exact late.elim
  | bleL2cap m =>
      rcases late with short | ⟨full, _⟩
      · exact short.le
      · exact full.le

variable [Crypto] {m m' : AnyMac}

theorem down_refuses_iff (ran : Layer.down checked m f = .ok (r, m', f'))
    (room : 9 ≤ f.start.toNat) : (∃ e, r = .error e) ↔ m.Refuses f.stop.toNat := by
  have refuses (accepted : Prop) (known : r = .ok () ↔ accepted) :
      (∃ e, r = .error e) ↔ ¬accepted := by
    rw [← known]
    cases r with
    | error e => simp
    | ok done => simp
  cases m with
  | lorawan m =>
      rw [down_lorawan] at ran
      obtain ⟨u, rfl, inner⟩ := mapLayer_ok ran
      rw [refuses _ (Wraps.accepts checked m u f f' r inner room)]
      change ¬(true = true ∧ f.stop.toNat + 4 ≤ 256) ↔ 256 < f.stop.toNat + 4
      simp only [true_and]
      omega
  | noop m =>
      rw [down_noopMac] at ran
      cases ran
      simp [Refuses]
  | bleL2cap m =>
      rw [down_bleL2cap] at ran
      obtain ⟨u, rfl, inner⟩ := mapLayer_ok ran
      have refused := BleL2capMac.down_refuses inner (by omega)
      simp [refused, Refuses]

/-- LoRaWAN encrypts and heads the frame before it finds that the MIC has no room. -/
theorem lorawan_down_returns (m : LoRaWanMac) (room : 9 ≤ f.start.toNat)
    (ordered : f.start.toNat ≤ f.stop.toNat) (full : 256 < f.stop.toNat + 4) :
    Returns (m.down checked f) := by
  have holds : f.Holds ((f.buf.toList.take f.stop.toNat).drop f.start.toNat) := ⟨ordered, rfl⟩
  revert holds
  generalize (f.buf.toList.take f.stop.toNat).drop f.start.toNat = data
  intro holds
  have length := holds.length
  have bound := f.stop.toNat_lt
  obtain ⟨sealed_frame, wrote, kept⟩ :=
    holds.writeBack_eq (length_cipher data m.appSkey m.devAddr m.fcntUp 0)
  obtain ⟨buf, _, same⟩ := bind_ok wrote
  cases same
  let hdr := 0x40 :: m.devAddr.toList ++
    [0x00, m.fcntUp.toUInt8, (m.fcntUp >>> 8).toUInt8, m.fport]
  have nine : hdr.length = 9 := by simp [hdr]
  obtain ⟨headed, put, shown, _, stop⟩ := kept.prependHeader_eq hdr (by rw [nine]; exact room)
    checked
  rw [LoRaWanMac.down, holds.payload_eq, ok_bind,
    encryptFrmPayload_eq data _ _ _ _ (by omega), ok_bind, wrote, ok_bind]
  refine Returns.bind_ok put ?_
  dsimp only
  rw [shown.payload_eq, ok_bind]
  have refused : headed.stop.toNat + (computeMic (hdr ++ cipher data m.appSkey m.devAddr m.fcntUp 0)
      m.nwkSkey m.devAddr m.fcntUp 0).length > MAX_FRAME := by
    rw [stop, length_computeMic]
    exact full
  rw [Frame.appendTrailer, if_pos refused]
  exact ⟨_, rfl⟩

theorem down_returns (m : AnyMac) (room : 9 ≤ f.start.toNat) (headroom : f.start.toNat ≤ 32)
    (ordered : f.start.toNat ≤ f.stop.toNat ∨ checked = false)
    (refuses : m.Refuses f.stop.toNat) : Returns (Layer.down checked m f) := by
  cases m with
  | lorawan m =>
      change 256 < f.stop.toNat + 4 at refuses
      rw [down_lorawan]
      apply mapLayer_returns
      exact lorawan_down_returns m room (by omega) refuses
  | noop m => exact refuses.elim
  | bleL2cap m =>
      rw [down_bleL2cap]
      apply mapLayer_returns
      refine (f.len_returns ordered).bind fun n => ?_
      refine Returns.bind (f.prependHeader_returns (show 4 ≤ f.start.toNat by omega)) ?_
      rintro ⟨_ | _, _⟩
      · exact ⟨_, rfl⟩
      · exact ⟨_, rfl⟩

end AnyMac

namespace CrateStack

variable {P : Type} [Crypto] {s s' : CrateStack P} {payload : List UInt8}
  {answer : Except CommsError Frame}

theorem build_ran (ran : RfStack.buildFrame checked s payload = .ok (answer, s'))
    (short : payload.length ≤ 224) :
    s'.transport.seq = s.transport.seq + 1 ∧ (checked = true → payload.length ≠ 224) ∧
      ((∃ e, answer = .error e) ↔ s.mac.Refuses ((32 + payload.length) % 256)) := by
  obtain ⟨f₀, r₁, t, f₁, start, stop, down₁, transport, rest⟩ :=
    RfStack.buildFrame_stages ran short
  obtain ⟨rfl, start₁, stop₁, counted⟩ := AnyTransport.down_ran down₁ (by omega)
  have readable (safe : checked = true) : payload.length ≠ 224 := by
    subst safe
    have ordered := AnyTransport.ordered_of_down down₁
    omega
  refine ⟨transport ▸ counted, readable, ?_⟩
  obtain ⟨_, refused, _⟩ | ⟨_, r₂, n, f₂, down₂, rest⟩ := rest
  · cases refused
  obtain ⟨rfl, start₂, _, stop₂⟩ := AnyNetwork.down_ran down₂ (by omega)
  obtain ⟨_, refused, _⟩ | ⟨_, r₃, m, f₃, down₃, rest⟩ := rest
  · cases refused
  have refuses := AnyMac.down_refuses_iff down₃ (by omega)
  rw [stop₂, stop₁, stop] at refuses
  rw [← refuses]
  obtain ⟨e, rfl, rfl⟩ | ⟨rfl, rfl⟩ := rest
  · simp
  · simp

theorem build_returns (s : CrateStack P) (late : s.mac.RefusesLate checked payload.length)
    (short : payload.length ≤ 224) : Returns (RfStack.buildFrame checked s payload) := by
  obtain ⟨refuses, readable⟩ := (AnyMac.refuses_iff checked s.mac short).mpr late
  obtain ⟨f₀, wrote, start, stop, _⟩ := Frame.new.writePayload_eq short
  have stop : f₀.stop.toNat = (32 + payload.length) % 256 := by
    rw [stop]
    exact UInt8.toNat_ofNat'
  have ordered : f₀.start.toNat ≤ f₀.stop.toNat ∨ checked = false := by
    cases checked with
    | false => exact .inr rfl
    | true =>
        have shorter := readable rfl
        omega
  obtain ⟨⟨r₁, t, f₁⟩, down₁⟩ := s.transport.down_returns (by omega) ordered
  obtain ⟨rfl, start₁, stop₁, _⟩ := AnyTransport.down_ran down₁ (by omega)
  obtain ⟨⟨r₂, n, f₂⟩, down₂⟩ := @AnyNetwork.down_returns checked f₁ s.network (by omega)
  obtain ⟨rfl, start₂, below, stop₂⟩ := AnyNetwork.down_ran down₂ (by omega)
  have same : f₂.stop = f₀.stop := stop₂.trans stop₁
  have ordered₂ : f₂.start.toNat ≤ f₂.stop.toNat ∨ checked = false := by
    rw [same]
    exact ordered.imp_left fun above => by omega
  have refuses₂ : s.mac.Refuses f₂.stop.toNat := by
    rw [same, stop]
    exact refuses
  obtain ⟨⟨r₃, m, f₃⟩, down₃⟩ := s.mac.down_returns (by omega) (by omega) ordered₂ refuses₂
  rw [RfStack.buildFrame, wrote, ok_bind]
  dsimp only
  rw [down₁, ok_bind]
  dsimp only
  rw [down₂, ok_bind]
  dsimp only
  rw [down₃, ok_bind]
  cases r₃ with
  | error e => exact ⟨_, rfl⟩
  | ok done => exact ⟨_, rfl⟩

theorem trace_of_late (late : s.mac.RefusesLate checked payload.length) :
    ¬LeavesNoTrace checked s payload := by
  intro clean
  have short := late.short
  obtain ⟨⟨answer, s'⟩, ran⟩ := build_returns s late short
  obtain ⟨counted, _, refused⟩ := build_ran ran short
  obtain ⟨e, rfl⟩ := refused.mpr ((AnyMac.refuses_iff checked s.mac short).mpr late).1
  have same : s'.transport.seq = s.transport.seq := congrArg TxState.seq (clean e s' ran)
  rw [counted] at same
  simp at same

/-- Only a MAC that refuses the frame makes `build_frame` fail with the layers changed: the
transport has counted the PDU by then. -/
theorem leavesNoTrace_iff (checked : Bool) (s : CrateStack P) (payload : List UInt8) :
    LeavesNoTrace checked s payload ↔ ¬s.mac.RefusesLate checked payload.length := by
  constructor
  · intro clean late
    exact trace_of_late late clean
  · intro early e s' ran
    by_cases short : payload.length ≤ 224
    · obtain ⟨_, readable, refused⟩ := build_ran ran short
      have late := (AnyMac.refuses_iff checked s.mac short).mp ⟨refused.mp ⟨e, rfl⟩, readable⟩
      exact absurd late early
    · obtain ⟨_, rfl⟩ := RfStack.buildFrame_long ran (by omega)
      rfl

end CrateStack

namespace CrateStack

def lorawanStack : CrateStack Unit :=
  ⟨.reliable (.new 3), .network (.new 1), .lorawan (.new ⟨Vector.replicate 4 0,
    Vector.replicate 16 0, Vector.replicate 16 0, 0⟩ 1), ()⟩

/-- For 221 bytes of payload there is no room for the MIC. -/
theorem mic_refused_with_trace : ¬∀ (_ : Crypto) (checked : Bool) (s : CrateStack Unit)
    (payload : List UInt8), LeavesNoTrace checked s payload := by
  intro always
  let plain : Crypto := ⟨fun _ block => block, fun _ _ => Vector.replicate 16 0⟩
  have late : lorawanStack.mac.RefusesLate true (List.replicate 221 (0 : UInt8)).length := by
    rw [List.length_replicate]
    exact ⟨by decide, by decide⟩
  exact trace_of_late late (always plain true lorawanStack (List.replicate 221 0))

end CrateStack

end QpRs.Comms
