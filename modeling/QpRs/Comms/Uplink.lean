import QpRs.Comms.Deciphering
import QpRs.Comms.Link
import QpRs.Comms.StackAo
import QpRs.Lib.Counters

/-! The uplinks of a LoRaWAN device: what the radio is given over a whole run, and what the network
makes of it. -/

namespace QpRs.Comms

open QpRs.Lib

/-! ## The frame of an uplink -/

section Frames

variable [Crypto]

def uplinkFrame (session : LoRaSession) (fport : UInt8) (fcnt : UInt32) (pdu : List UInt8) :
    List UInt8 :=
  let msg := 0x40 :: session.devAddr.toList ++
    [0x00, fcnt.toUInt8, (fcnt >>> 8).toUInt8, fport] ++
    cipher pdu session.appSkey session.devAddr fcnt 0
  msg ++ computeMic msg session.nwkSkey session.devAddr fcnt 0

/-- What the network makes of a frame that it takes for number `fcnt`. -/
def openUplink (session : LoRaSession) (fcnt : UInt32) (bytes : List UInt8) :
    Option (List UInt8) :=
  let msg := bytes.take (bytes.length - 4)
  if bytes.length < 13 ∨ (bytes.drop 1).take 4 ≠ session.devAddr.toList ∨
      bytes.drop (bytes.length - 4) ≠ computeMic msg session.nwkSkey session.devAddr fcnt 0 then
    none
  else
    some (cipher (msg.drop 9) session.appSkey session.devAddr fcnt 0)

/-- The network of a device, which opens each frame under the first number from its own on that the
frame can have. -/
def heardBy (session : LoRaSession) (frames : List (List UInt8)) : List (List UInt8) :=
  hearAll (2 ^ 16) (fun bytes => (fcntOf bytes).toNat)
    (fun n => openUplink session (UInt32.ofNat n)) session.fcntUp.toNat frames

theorem length_uplinkFrame (session : LoRaSession) (fport : UInt8) (fcnt : UInt32)
    (pdu : List UInt8) :
    (uplinkFrame session fport fcnt pdu).length = 9 + pdu.length + 4 := by
  simp [uplinkFrame, length_computeMic, length_cipher]
  omega

theorem openUplink_frame (session : LoRaSession) (fport : UInt8) (fcnt : UInt32)
    (pdu : List UInt8) :
    openUplink session fcnt (uplinkFrame session fport fcnt pdu) = some pdu := by
  have four : session.devAddr.toList.length = 4 := Vector.length_toList
  let msg := 0x40 :: session.devAddr.toList ++
    [0x00, fcnt.toUInt8, (fcnt >>> 8).toUInt8, fport] ++
    cipher pdu session.appSkey session.devAddr fcnt 0
  let mic := computeMic msg session.nwkSkey session.devAddr fcnt 0
  have formed : uplinkFrame session fport fcnt pdu = msg ++ mic := rfl
  have head : (0x40 :: session.devAddr.toList ++
      [0x00, fcnt.toUInt8, (fcnt >>> 8).toUInt8, fport]).length = 9 := by
    rw [List.length_append, List.length_cons, four]
    rfl
  have micLength : mic.length = 4 := length_computeMic _ _ _ _ _
  have length : (msg ++ mic).length = 9 + pdu.length + 4 :=
    length_uplinkFrame session fport fcnt pdu
  have cut : (msg ++ mic).length - 4 = msg.length := by
    rw [List.length_append, micLength, Nat.add_sub_cancel]
  have front : (msg ++ mic).take ((msg ++ mic).length - 4) = msg := by rw [cut, List.take_left]
  have back : (msg ++ mic).drop ((msg ++ mic).length - 4) = mic := by rw [cut, List.drop_left]
  have body : msg.drop 9 = cipher pdu session.appSkey session.devAddr fcnt 0 := by
    rw [← head, List.drop_left]
  have addressed : ((msg ++ mic).drop 1).take 4 = session.devAddr.toList := by
    have named : (msg ++ mic).drop 1 = session.devAddr.toList ++
        ([0x00, fcnt.toUInt8, (fcnt >>> 8).toUInt8, fport] ++
          cipher pdu session.appSkey session.devAddr fcnt 0 ++ mic) := by
      simp only [msg, List.cons_append, List.drop_succ_cons, List.drop_zero, List.append_assoc]
    rw [named]
    exact List.take_left' four
  rw [formed, openUplink, front, back, body, addressed, cipher_cipher]
  apply if_neg
  rintro (short | other | forged)
  · rw [length] at short
    omega
  · exact other rfl
  · exact forged rfl

end Frames

theorem toNat_byte (n : UInt32) (k : ℕ) (small : k < 32) :
    (n >>> UInt32.ofNat k).toUInt8.toNat = n.toNat / 2 ^ k % 256 := by
  have shift : (UInt32.ofNat k).toNat % 32 = k := by
    rw [UInt32.toNat_ofNat', Nat.mod_eq_of_lt (show k < 2 ^ 32 by omega), Nat.mod_eq_of_lt small]
  rw [UInt32.toNat_toUInt8, UInt32.toNat_shiftRight, shift, Nat.shiftRight_eq_div_pow]

theorem fcntOf_uplinkFrame [Crypto] (session : LoRaSession) (fport : UInt8) (fcnt : UInt32)
    (pdu : List UInt8) :
    (fcntOf (uplinkFrame session fport fcnt pdu)).toNat = fcnt.toNat % 2 ^ 16 := by
  have four : session.devAddr.toList.length = 4 := Vector.length_toList
  match addr : session.devAddr.toList, four with
  | [a, b, c, d], _ =>
      have read : fcntOf (uplinkFrame session fport fcnt pdu) =
          (u16FromLeBytes fcnt.toUInt8 (fcnt >>> 8).toUInt8).toUInt32 := by
        rw [uplinkFrame, addr]
        rfl
      have low : fcnt.toUInt8.toNat = fcnt.toNat % 256 := UInt32.toNat_toUInt8 fcnt
      have high : (fcnt >>> 8).toUInt8.toNat = fcnt.toNat / 2 ^ 8 % 256 :=
        toNat_byte fcnt 8 (by decide)
      rw [read, UInt16.toNat_toUInt32, u16FromLeBytes, UInt16.toNat_ofNat']
      simp only [fromLeBytes, List.map_cons, List.map_nil, Nat.ofDigits_cons, Nat.ofDigits_nil,
        low, high]
      push_cast
      omega

theorem blockOf_inj {dir : UInt8} {devAddr : Vector UInt8 4} {m n : UInt32} {i j : UInt8}
    (same : blockOf 0x01 dir devAddr m i = blockOf 0x01 dir devAddr n j) : m = n ∧ i = j := by
  have place : i = j := congrArg (fun block => block[15]) same
  have first : m.toUInt8.toNat = n.toUInt8.toNat :=
    congrArg (fun block => block[10].toNat) same
  have second : (m >>> 8).toUInt8.toNat = (n >>> 8).toUInt8.toNat :=
    congrArg (fun block => block[11].toNat) same
  have third : (m >>> 16).toUInt8.toNat = (n >>> 16).toUInt8.toNat :=
    congrArg (fun block => block[12].toNat) same
  have fourth : (m >>> 24).toUInt8.toNat = (n >>> 24).toUInt8.toNat :=
    congrArg (fun block => block[13].toNat) same
  refine ⟨?_, place⟩
  apply UInt32.toNat_inj.mp
  have bound := m.toNat_lt
  have bound' := n.toNat_lt
  rw [UInt32.toNat_toUInt8, UInt32.toNat_toUInt8] at first
  have second := (toNat_byte m 8 (by decide)).symm.trans (second.trans (toNat_byte n 8 (by decide)))
  have third :=
    (toNat_byte m 16 (by decide)).symm.trans (third.trans (toNat_byte n 16 (by decide)))
  have fourth :=
    (toNat_byte m 24 (by decide)).symm.trans (fourth.trans (toNat_byte n 24 (by decide)))
  omega

/-! ## One frame through the stack -/

theorem Frame.Holds.appendTrailer_eq {f : Frame} {bytes trailer : List UInt8}
    (holds : f.Holds bytes) (checked : Bool) (fits : f.stop.toNat + trailer.length ≤ 255) :
    ∃ f', f.appendTrailer checked trailer = .ok (.ok (), f') ∧ f'.Holds (bytes ++ trailer) := by
  obtain ⟨w, shown, rfl⟩ := holds.shows
  have stored : f.stop.toNat + trailer.length ≠ 256 := by omega
  have followed : f.Follows checked w (.appendTrailer trailer) :=
    Frame.appendTrailer_follows shown stored
  cases moved : w.extendBack trailer with
  | none =>
      have long : 256 < w.last + trailer.length := Window.extendBack_none.mp moved
      rw [← shown.stop] at long
      omega
  | some w' =>
      have within := (Window.extendBack_some moved).2.2.1
      rw [Frame.Follows, FrameCall.expected, moved] at followed
      obtain ⟨f', ran, later⟩ := followed
      rw [Frame.call] at ran
      cases put : f.appendTrailer checked trailer with
      | error p =>
          rw [put] at ran
          cases ran
      | ok out =>
          obtain ⟨answer, f''⟩ := out
          rw [put] at ran
          cases answer with
          | error e => cases ran
          | ok done =>
              cases ran
              refine ⟨_, rfl, ?_⟩
              rw [← within]
              exact later.holds

theorem Frame.holds_headed {f f' : Frame} {bytes hdr : List UInt8} {checked : Bool}
    {answer : Except CommsError Unit} (put : f.prependHeader checked hdr = .ok (answer, f'))
    (holds : f.Holds bytes) (room : hdr.length ≤ f.start.toNat) : f'.Holds (hdr ++ bytes) := by
  obtain ⟨f'', ran, left, _⟩ := holds.prependHeader_eq hdr room checked
  rw [put] at ran
  cases ran
  exact left

/-- A layer that puts a header before the bytes of a frame and nothing behind them. -/
class Heads (L : Type) [Layer L] [Wraps L] : Prop where
  headed : ∀ (checked : Bool) (layer layer' : L) (f f' : Frame) (bytes : List UInt8),
    f.Holds bytes → Wraps.header L ≤ f.start.toNat →
    Layer.down checked layer f = .ok (.ok (), layer', f') →
    ∃ hdr, hdr.length = Wraps.header L ∧ f'.Holds (hdr ++ bytes)

instance : Heads NoopNetwork where
  headed checked net net' f f' bytes holds room ran := by
    cases ran
    exact ⟨[], rfl, holds⟩

instance : Heads Network where
  headed checked net net' f f' bytes holds room ran := by
    obtain ⟨⟨answer, frame⟩, put, ran⟩ := bind_ok ran
    cases ran
    exact ⟨_, rfl, Frame.holds_headed put holds room⟩

instance : Heads UnreliableTransport where
  headed checked t t' f f' bytes holds room ran := by
    obtain ⟨n, _, ran⟩ := bind_ok ran
    obtain ⟨⟨answer, frame⟩, put, ran⟩ := bind_ok ran
    cases answer with
    | error e => cases ran
    | ok done =>
        cases ran
        exact ⟨_, rfl, Frame.holds_headed put holds room⟩

instance : Heads ReliableTransport where
  headed checked t t' f f' bytes holds room ran := by
    obtain ⟨n, _, ran⟩ := bind_ok ran
    obtain ⟨⟨answer, frame⟩, put, ran⟩ := bind_ok ran
    cases answer with
    | error e => cases ran
    | ok done =>
        cases ran
        exact ⟨_, rfl, Frame.holds_headed put holds room⟩

def LoRaWanMac.At (mac : LoRaWanMac) (session : LoRaSession) (fport : UInt8) (fcnt : UInt32) :
    Prop :=
  ∃ fcntDn, mac = { LoRaWanMac.new session fport with fcntUp := fcnt, fcntDn := fcntDn }

section Stack

variable [Crypto] {checked : Bool} {session : LoRaSession} {fport : UInt8} {fcnt : UInt32}
  {mac mac' : LoRaWanMac} {f f' : Frame}

theorem LoRaWanMac.down_wrote (counts : mac.At session fport fcnt) {pdu : List UInt8}
    (holds : f.Holds pdu) (room : 9 ≤ f.start.toNat) (fits : f.stop.toNat + 4 ≤ 255) :
    ∃ mac' f', mac.down checked f = .ok (.ok (), mac', f') ∧
      f'.payload = .ok (uplinkFrame session fport fcnt pdu) := by
  obtain ⟨fcntDn, rfl⟩ := counts
  have length := holds.length
  have short : pdu.length ≤ 256 := by omega
  obtain ⟨f₁, wrote, cipherText⟩ :=
    holds.writeBack_eq (length_cipher pdu session.appSkey session.devAddr fcnt 0)
  have cursors : f₁.start = f.start ∧ f₁.stop = f.stop := by
    obtain ⟨buf, _, same⟩ := bind_ok wrote
    cases same
    exact ⟨rfl, rfl⟩
  let hdr : List UInt8 := 0x40 :: session.devAddr.toList ++
    [0x00, fcnt.toUInt8, (fcnt >>> 8).toUInt8, fport]
  have nine : hdr.length = 9 := by simp [hdr]
  obtain ⟨f₂, put, headed, _, stop⟩ := cipherText.prependHeader_eq hdr
    (by rw [nine, cursors.1]; exact room) checked
  let mic := computeMic (hdr ++ cipher pdu session.appSkey session.devAddr fcnt 0)
    session.nwkSkey session.devAddr fcnt 0
  have behind : f₂.stop.toNat + mic.length ≤ 255 := by
    rw [length_computeMic, stop, cursors.2]
    exact fits
  obtain ⟨f₃, appended, whole⟩ := headed.appendTrailer_eq checked behind
  refine ⟨{ LoRaWanMac.new session fport with fcntUp := fcnt + 1, fcntDn := fcntDn }, f₃, ?_,
    whole.payload_eq⟩
  have sealed_eq : encryptFrmPayload pdu (LoRaWanMac.new session fport).appSkey
      (LoRaWanMac.new session fport).devAddr fcnt 0 =
        .ok (cipher pdu session.appSkey session.devAddr fcnt 0) :=
    encryptFrmPayload_eq pdu _ _ fcnt 0 short
  rw [down, holds.payload_eq, ok_bind, sealed_eq, ok_bind, wrote, ok_bind]
  change (f₁.prependHeader checked hdr >>= fun out => _) = _
  rw [put, ok_bind]
  dsimp only
  rw [headed.payload_eq, ok_bind]
  change (f₂.appendTrailer checked mic >>= fun out => _) = _
  rw [appended]
  rfl

/-- The counter goes up by one for every frame that is encoded, and for no other. -/
theorem LoRaWanMac.down_counts {answer : Except CommsError Unit}
    (counts : mac.At session fport fcnt) (ran : mac.down checked f = .ok (answer, mac', f')) :
    (∃ e, answer = .error e) ∧ mac'.At session fport fcnt ∨
      answer = .ok () ∧ mac'.At session fport (fcnt + 1) := by
  obtain ⟨data, _, ran⟩ := bind_ok ran
  obtain ⟨cipherText, _, ran⟩ := bind_ok ran
  obtain ⟨written, _, ran⟩ := bind_ok ran
  obtain ⟨⟨answer, headed⟩, _, ran⟩ := bind_ok ran
  cases answer with
  | error e =>
      cases ran
      exact .inl ⟨⟨e, rfl⟩, counts⟩
  | ok done =>
      obtain ⟨msg, _, ran⟩ := bind_ok ran
      obtain ⟨⟨answer, ended⟩, _, ran⟩ := bind_ok ran
      cases answer with
      | error e =>
          cases ran
          exact .inl ⟨⟨e, rfl⟩, counts⟩
      | ok done =>
          cases ran
          obtain ⟨fcntDn, rfl⟩ := counts
          exact .inr ⟨rfl, fcntDn, rfl⟩

theorem LoRaWanMac.up_counts {answer : Except CommsError Bool} {bytes : List UInt8}
    (counts : mac.At session fport fcnt) (holds : f.Holds bytes)
    (ran : mac.up checked f = .ok (answer, mac', f')) : mac'.At session fport fcnt := by
  by_cases short : bytes.length < 13
  · rw [mac.up_short checked holds short] at ran
    cases ran
    exact counts
  · have four : (bytes.drop (bytes.length - 4)).length = 4 := by
      rw [List.length_drop]
      omega
    have nine : 9 ≤ (bytes.take (bytes.length - 4)).length := by
      rw [List.length_take]
      omega
    have split : f.Holds (bytes.take (bytes.length - 4) ++ bytes.drop (bytes.length - 4)) := by
      rw [List.take_append_drop]
      exact holds
    generalize bytes.take (bytes.length - 4) = msg at nine split
    obtain ⟨_, _, _, _, _, _, _, _, _, _, rfl⟩ := exists_header nine
    obtain ⟨trimmed, bare, _, same⟩ := mac.up_eq checked four split
    rw [same] at ran
    split at ran
    · cases ran
      exact counts
    · split at ran
      · cases ran
        exact counts
      · obtain ⟨data, _, ran⟩ := bind_ok ran
        obtain ⟨frame, _, ran⟩ := bind_ok ran
        cases ran
        obtain ⟨fcntDn, rfl⟩ := counts
        exact ⟨_, rfl⟩

variable {T N P : Type} [Layer T] [Layer N] {s s' : RfStack T N LoRaWanMac P}

/-- A frame that can be sent was sealed under the counter, around the headers of the transport and
the network layer. -/
theorem RfStack.buildFrame_sealed [Wraps T] [Wraps N] [Heads T] [Heads N] {payload : List UInt8}
    {frame : Frame} {bytes : List UInt8} (counts : s.mac.At session fport fcnt)
    (ran : buildFrame checked s payload = .ok (.ok frame, s'))
    (read : frame.payload = .ok bytes) :
    ∃ hdr, hdr.length = Wraps.header T + Wraps.header N ∧
      bytes = uplinkFrame session fport fcnt (hdr ++ payload) := by
  have fits := fits_of_built ran ⟨bytes, read⟩
  have room : 32 + payload.length + Wraps.trailer T + Wraps.trailer N + 4 ≤ 255 := fits.2
  have short : payload.length < 224 := by omega
  have headT := Wraps.header_le (L := T)
  have headN := Wraps.header_le (L := N)
  obtain ⟨f₀, wrote, start₀, _⟩ := Frame.new.writePayload_eq short.le
  obtain ⟨f₀', wrote', holds₀⟩ := Frame.new.writePayload_holds short
  rw [wrote] at wrote'
  obtain rfl := (Prod.mk.inj (Except.ok.inj wrote')).2
  rw [buildFrame, wrote, ok_bind] at ran
  obtain ⟨⟨r₁, t, f₁⟩, down₁, ran⟩ := bind_ok ran
  cases r₁ with
  | error e => cases ran
  | ok done =>
      obtain ⟨⟨r₂, n, f₂⟩, down₂, ran⟩ := bind_ok ran
      cases r₂ with
      | error e => cases ran
      | ok done =>
          obtain ⟨⟨r₃, m, f₃⟩, down₃, ran⟩ := bind_ok ran
          cases r₃ with
          | error e => cases ran
          | ok done =>
              cases ran
              have start₁ := (Wraps.wrapped checked _ _ _ _ down₁ (by omega)).start
              have start₂ := (Wraps.wrapped checked _ _ _ _ down₂ (by omega)).start
              obtain ⟨hdr₁, length₁, holds₁⟩ :=
                Heads.headed checked _ _ _ _ _ holds₀ (by omega) down₁
              obtain ⟨hdr₂, length₂, holds₂⟩ :=
                Heads.headed checked _ _ _ _ _ holds₁ (by omega) down₂
              have stop₂ := holds₂.length
              rw [List.length_append, List.length_append] at stop₂
              obtain ⟨m', f', sent, read'⟩ :=
                LoRaWanMac.down_wrote counts holds₂ (by omega) (by omega)
              have same : LoRaWanMac.down checked s.mac f₂ = .ok (.ok done, m, frame) := down₃
              rw [sent] at same
              cases same
              rw [read'] at read
              cases read
              refine ⟨hdr₂ ++ hdr₁, ?_, by rw [List.append_assoc]⟩
              rw [List.length_append]
              omega

theorem RfStack.buildFrame_counts {payload : List UInt8} {answer : Except CommsError Frame}
    (counts : s.mac.At session fport fcnt)
    (ran : buildFrame checked s payload = .ok (answer, s')) :
    s'.phy = s.phy ∧ ((∃ e, answer = .error e) ∧ s'.mac.At session fport fcnt ∨
      (∃ frame, answer = .ok frame) ∧ s'.mac.At session fport (fcnt + 1)) := by
  obtain ⟨⟨r₀, f₀⟩, _, ran⟩ := bind_ok ran
  cases r₀ with
  | error e =>
      cases ran
      exact ⟨rfl, .inl ⟨⟨e, rfl⟩, counts⟩⟩
  | ok done =>
      obtain ⟨⟨r₁, t, f₁⟩, _, ran⟩ := bind_ok ran
      cases r₁ with
      | error e =>
          cases ran
          exact ⟨rfl, .inl ⟨⟨e, rfl⟩, counts⟩⟩
      | ok done =>
          obtain ⟨⟨r₂, n, f₂⟩, _, ran⟩ := bind_ok ran
          cases r₂ with
          | error e =>
              cases ran
              exact ⟨rfl, .inl ⟨⟨e, rfl⟩, counts⟩⟩
          | ok done =>
              obtain ⟨⟨r₃, m, f₃⟩, down, ran⟩ := bind_ok ran
              obtain ⟨⟨e, rfl⟩, kept⟩ | ⟨rfl, next⟩ := LoRaWanMac.down_counts counts down
              · cases ran
                exact ⟨rfl, .inl ⟨⟨e, rfl⟩, kept⟩⟩
              · cases ran
                exact ⟨rfl, .inr ⟨⟨_, rfl⟩, next⟩⟩

theorem RfStack.receiveRaw_counts {raw raw' : Frame} {bytes : List UInt8}
    {answer : Except CommsError (Option Frame)} (counts : s.mac.At session fport fcnt)
    (holds : raw.Holds bytes) (ran : receiveRaw checked s raw = .ok (answer, s', raw')) :
    s'.phy = s.phy ∧ s'.mac.At session fport fcnt := by
  obtain ⟨⟨r₁, m, f₁⟩, up, ran⟩ := bind_ok ran
  have kept : m.At session fport fcnt := LoRaWanMac.up_counts counts holds up
  match r₁, ran with
  | .error e, ran =>
      cases ran
      exact ⟨rfl, kept⟩
  | .ok false, ran =>
      cases ran
      exact ⟨rfl, kept⟩
  | .ok true, ran =>
      obtain ⟨⟨r₂, n, f₂⟩, _, ran⟩ := bind_ok ran
      match r₂, ran with
      | .error e, ran =>
          cases ran
          exact ⟨rfl, kept⟩
      | .ok false, ran =>
          cases ran
          exact ⟨rfl, kept⟩
      | .ok true, ran =>
          obtain ⟨⟨r₃, t, f₃⟩, _, ran⟩ := bind_ok ran
          match r₃, ran with
          | .error e, ran =>
              cases ran
              exact ⟨rfl, kept⟩
          | .ok false, ran =>
              cases ran
              exact ⟨rfl, kept⟩
          | .ok true, ran =>
              obtain ⟨payload, _, ran⟩ := bind_ok ran
              obtain ⟨copied, _, ran⟩ := bind_ok ran
              cases ran
              exact ⟨rfl, kept⟩

end Stack

end QpRs.Comms
