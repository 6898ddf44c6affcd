import QpRs.Comms.Replay

/-! What a LoRaWAN device makes of one downlink: the frames that the network forms are opened, and
all others are stopped. -/

namespace QpRs.Comms

open QpRs.Lib

theorem zipWith_xor_twice (data stream : List UInt8) (enough : data.length ≤ stream.length) :
    List.zipWith (· ^^^ ·) (List.zipWith (· ^^^ ·) data stream) stream = data := by
  induction data generalizing stream with
  | nil => rfl
  | cons b data ih =>
      cases stream with
      | nil => simp at enough
      | cons k stream =>
          have later := ih stream (Nat.le_of_succ_le_succ enough)
          rw [List.zipWith_cons_cons, List.zipWith_cons_cons, later, UInt8.xor_assoc,
            UInt8.xor_self, UInt8.xor_zero]

theorem Frame.setReceivedLen_over (f : Frame) {n : Nat} (long : MAX_FRAME ≤ n) :
    (f.setReceivedLen n).Holds [] := by
  have stop : (f.setReceivedLen n).stop = 0 := by
    rw [Frame.setReceivedLen, Nat.min_eq_right long]
    rfl
  refine ⟨Nat.zero_le _, ?_⟩
  rw [stop]
  rfl

section Lorawan

variable [Crypto]

theorem cipher_cipher (data : List UInt8) (key : Vector UInt8 16) (devAddr : Vector UInt8 4)
    (fcnt : UInt32) (dir : UInt8) :
    cipher (cipher data key devAddr fcnt dir) key devAddr fcnt dir = data := by
  have enough : data.length ≤
      (keystream key devAddr fcnt dir ((data.length + 15) / 16)).length := by
    rw [length_keystream]
    omega
  rw [cipher, length_cipher, cipher]
  exact zipWith_xor_twice data _ enough

theorem encryptFrmPayload_twice (data : List UInt8) (key : Vector UInt8 16)
    (devAddr : Vector UInt8 4) (fcnt : UInt32) (dir : UInt8) (short : data.length ≤ 256) :
    ∃ sealed_data, encryptFrmPayload data key devAddr fcnt dir = .ok sealed_data ∧
      encryptFrmPayload sealed_data key devAddr fcnt dir = .ok data := by
  have again : (cipher data key devAddr fcnt dir).length ≤ 256 := by
    rw [length_cipher]
    exact short
  refine ⟨_, encryptFrmPayload_eq data key devAddr fcnt dir short, ?_⟩
  rw [encryptFrmPayload_eq _ key devAddr fcnt dir again, cipher_cipher]

namespace LoRaWanMac

def downlinkFrame (mac : LoRaWanMac) (mhdr fctrl fport : UInt8) (fcnt : UInt16)
    (payload : List UInt8) : Except Panic (List UInt8) := do
  let frmPayload ← encryptFrmPayload payload mac.appSkey mac.devAddr fcnt.toUInt32 1
  let msg := mhdr :: mac.devAddr.toList ++ fctrl :: toLeBytes 2 fcnt.toNat ++ fport :: frmPayload
  pure (msg ++ computeMic msg mac.nwkSkey mac.devAddr fcnt.toUInt32 1)

theorem downlink_opened (checked : Bool) (mac : LoRaWanMac) (mhdr fctrl fport : UInt8)
    (fcnt : UInt16) {payload : List UInt8} (short : payload.length ≤ 242) :
    ∃ bytes, mac.downlinkFrame mhdr fctrl fport fcnt payload = .ok bytes ∧ bytes.length ≤ 255 ∧
      ∀ f : Frame, f.Holds bytes → ∃ f', mac.up checked f =
          .ok (.ok true, { mac with fcntDn := fcnt.toUInt32 + 1 }, f') ∧
        f'.payload = .ok payload := by
  obtain ⟨frmPayload, sealed_eq, opened⟩ := encryptFrmPayload_twice payload mac.appSkey mac.devAddr
    fcnt.toUInt32 1 (by omega)
  have same : frmPayload.length = payload.length := by
    rw [encryptFrmPayload_eq _ _ _ _ _ (by omega)] at sealed_eq
    cases sealed_eq
    exact length_cipher _ _ _ _ _
  obtain ⟨low, high, counter, value⟩ := u16FromLeBytes_toLeBytes fcnt
  have four : mac.devAddr.toList.length = 4 := Vector.length_toList
  rw [downlinkFrame, sealed_eq, ok_bind, counter]
  match addr : mac.devAddr.toList, four with
  | [a, b, c, d], _ =>
      let msg := mhdr :: a :: b :: c :: d :: fctrl :: low :: high :: fport :: frmPayload
      refine ⟨msg ++ computeMic msg mac.nwkSkey mac.devAddr fcnt.toUInt32 1, rfl, ?_, ?_⟩
      · rw [List.length_append, length_computeMic]
        simp only [msg, List.length_cons]
        omega
      · intro f holds
        obtain ⟨trimmed, bare, inner, ran⟩ :=
          mac.up_eq checked (length_computeMic _ _ _ _ _) holds
        obtain ⟨plain, wrote, left⟩ := inner.writeBack_eq same.symm
        refine ⟨plain, ?_, left.payload_eq⟩
        rw [ran, value, if_neg (not_not.mpr addr.symm), if_neg (not_not.mpr rfl), opened, ok_bind,
          wrote]
        rfl

theorem foreign_stopped (checked : Bool) (mac : LoRaWanMac) {f : Frame} {bytes : List UInt8}
    (holds : f.Holds bytes)
    (foreign : bytes.length < 13 ∨ (bytes.drop 1).take 4 ≠ mac.devAddr.toList ∨
      bytes.drop (bytes.length - 4) ≠
        computeMic (bytes.take (bytes.length - 4)) mac.nwkSkey mac.devAddr (fcntOf bytes) 1) :
    ∃ f', mac.up checked f = .ok (.ok false, mac, f') := by
  by_cases short : bytes.length < 13
  · exact ⟨f, mac.up_short checked holds short⟩
  have foreign := foreign.resolve_left short
  have four : (bytes.drop (bytes.length - 4)).length = 4 := by
    rw [List.length_drop]
    omega
  have nine : 9 ≤ (bytes.take (bytes.length - 4)).length := by
    rw [List.length_take]
    omega
  have whole : bytes = bytes.take (bytes.length - 4) ++ bytes.drop (bytes.length - 4) :=
    (List.take_append_drop _ _).symm
  generalize bytes.take (bytes.length - 4) = msg at foreign nine whole
  generalize bytes.drop (bytes.length - 4) = mic at foreign four whole
  subst whole
  obtain ⟨m, a, b, c, d, e, low, high, p, rest, rfl⟩ := exists_header nine
  obtain ⟨trimmed, bare, _, ran⟩ := mac.up_eq checked four holds
  refine ⟨trimmed, ?_⟩
  rw [ran]
  by_cases other : [a, b, c, d] ≠ mac.devAddr.toList
  · rw [if_pos other]
    rfl
  · have forged : mic ≠ computeMic (m :: a :: b :: c :: d :: e :: low :: high :: p :: rest)
        mac.nwkSkey mac.devAddr (u16FromLeBytes low high).toUInt32 1 :=
      foreign.resolve_left other
    rw [if_neg other, if_pos forged]
    rfl

/-- What the network sends is opened to the payload, the cipher is its own inverse, and what the
network did not send to this device is stopped with the counters as they were. -/
theorem up_decodes (checked : Bool) (mac : LoRaWanMac) :
    (∀ (mhdr fctrl fport : UInt8) (fcnt : UInt16) (payload : List UInt8), payload.length ≤ 242 →
      ∃ bytes, mac.downlinkFrame mhdr fctrl fport fcnt payload = .ok bytes ∧
        ∀ raw : Frame, raw.buf.toList.take bytes.length = bytes → ∃ f',
          mac.up checked (raw.setReceivedLen bytes.length) =
            .ok (.ok true, { mac with fcntDn := fcnt.toUInt32 + 1 }, f') ∧
          f'.payload = .ok payload) ∧
    (∀ (data : List UInt8) (key : Vector UInt8 16) (devAddr : Vector UInt8 4) (fcnt : UInt32)
      (dir : UInt8), data.length ≤ 256 →
      ∃ sealed_data, encryptFrmPayload data key devAddr fcnt dir = .ok sealed_data ∧
        encryptFrmPayload sealed_data key devAddr fcnt dir = .ok data) ∧
    ∀ (raw : Frame) (n : Nat) (bytes : List UInt8), bytes = raw.buf.toList.take n →
      (bytes.length < 13 ∨ (bytes.drop 1).take 4 ≠ mac.devAddr.toList ∨
        bytes.drop (bytes.length - 4) ≠ computeMic (bytes.take (bytes.length - 4)) mac.nwkSkey
          mac.devAddr (fcntOf bytes) 1) →
      ∃ f', mac.up checked (raw.setReceivedLen n) = .ok (.ok false, mac, f') := by
  refine ⟨?_, ?_, ?_⟩
  · intro mhdr fctrl fport fcnt payload short
    obtain ⟨bytes, formed, fits, opened⟩ := mac.downlink_opened checked mhdr fctrl fport fcnt short
    refine ⟨bytes, formed, ?_⟩
    intro raw received
    have holds := raw.setReceivedLen_holds fits
    rw [received] at holds
    exact opened _ holds
  · intro data key devAddr fcnt dir short
    exact encryptFrmPayload_twice data key devAddr fcnt dir short
  · intro raw n bytes received foreign
    rcases Nat.lt_or_ge n 256 with short | long
    · have holds := raw.setReceivedLen_holds (show n ≤ 255 by omega)
      rw [← received] at holds
      exact mac.foreign_stopped checked holds foreign
    · -- the end cursor of a frame of 256 bytes is 0, so the frame counts as an empty one
      exact ⟨_, mac.up_short checked (raw.setReceivedLen_over long) (by decide)⟩

end LoRaWanMac

end Lorawan

namespace LoRaWanMac

/-- A device of the zero session opens the downlink with counter 9. -/
theorem up_decodes_hello : ∃ bytes,
    @downlinkFrame Downlink.flatCrypto (.new Downlink.flatSession 1) 0x60 0 1 9
      [104, 101, 108, 108, 111] = .ok bytes ∧
    ∀ raw : Frame, raw.buf.toList.take bytes.length = bytes → ∃ f',
      @up Downlink.flatCrypto true (.new Downlink.flatSession 1)
          (raw.setReceivedLen bytes.length) =
        .ok (.ok true, { LoRaWanMac.new Downlink.flatSession 1 with fcntDn := 10 }, f') ∧
      f'.payload = .ok [104, 101, 108, 108, 111] :=
  (@up_decodes Downlink.flatCrypto true (.new Downlink.flatSession 1)).1 0x60 0 1 9
    [104, 101, 108, 108, 111] (by decide)

end LoRaWanMac

end QpRs.Comms
