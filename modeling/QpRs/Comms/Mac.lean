import QpRs.Comms.Layer

/-! The MAC layers. -/

namespace QpRs.Comms

open QpRs.Lib

structure NoopMac where
  deriving DecidableEq, Repr

instance : Layer NoopMac where
  down _ mac frame := .ok (.ok (), mac, frame)
  up _ mac frame := .ok (.ok true, mac, frame)

structure BleL2capMac where
  cid : UInt16
  deriving DecidableEq, Repr

namespace BleL2capMac

/-- The stub writes its header and refuses the frame all the same. -/
def down (checked : Bool) (mac : BleL2capMac) (frame : Frame) :
    Except Panic (Except CommsError Unit × BleL2capMac × Frame) := do
  let n ← frame.len checked
  let payloadLen := UInt16.ofNat n
  let hdr := [payloadLen.toUInt8, (payloadLen >>> 8).toUInt8, mac.cid.toUInt8,
    (mac.cid >>> 8).toUInt8]
  match ← frame.prependHeader checked hdr with
  | (.error e, frame) => pure (.error e, mac, frame)
  | (.ok (), frame) => pure (.error .macError, mac, frame)

end BleL2capMac

instance : Layer BleL2capMac where
  down := BleL2capMac.down
  up _ mac frame := .ok (.error .macError, mac, frame)

/-- AES-128 on one block and AES-128-CMAC. A key of 16 bytes is accepted by both. -/
class Crypto where
  encryptBlock : Vector UInt8 16 → Vector UInt8 16 → Vector UInt8 16
  cmac : Vector UInt8 16 → List UInt8 → Vector UInt8 16

structure LoRaSession where
  devAddr : Vector UInt8 4
  nwkSkey : Vector UInt8 16
  appSkey : Vector UInt8 16
  fcntUp : UInt32
  deriving DecidableEq, Repr

structure LoRaWanMac where
  devAddr : Vector UInt8 4
  nwkSkey : Vector UInt8 16
  appSkey : Vector UInt8 16
  fcntUp : UInt32
  fcntDn : UInt32
  fport : UInt8
  deriving DecidableEq, Repr

/-- The layout that the counter blocks and the first block of the MIC share. -/
def blockOf (tag dir : UInt8) (devAddr : Vector UInt8 4) (fcnt : UInt32) (last : UInt8) :
    Vector UInt8 16 :=
  #v[tag, 0, 0, 0, 0, dir, devAddr[0], devAddr[1], devAddr[2], devAddr[3], fcnt.toUInt8,
    (fcnt >>> 8).toUInt8, (fcnt >>> 16).toUInt8, (fcnt >>> 24).toUInt8, 0, last]

section Lorawan

variable [Crypto]

def keyBlock (key : Vector UInt8 16) (devAddr : Vector UInt8 4) (fcnt : UInt32) (dir : UInt8)
    (i : Nat) : Vector UInt8 16 :=
  Crypto.encryptBlock key (blockOf 0x01 dir devAddr fcnt (UInt8.ofNat i))

/-- One turn of the loop that fills the keystream. -/
def storeBlock (block : Nat → Vector UInt8 16) (keystream : Vector UInt8 256) (i : Nat) :
    Except Panic (Vector UInt8 256) :=
  overwrite .bounds keystream ((i - 1) * 16) (block i).toList

def xorAt (keystream : List UInt8) (item : UInt8 × Nat) : Except Panic UInt8 := do
  let k ← index .bounds keystream item.2
  pure (item.1 ^^^ k)

def encryptFrmPayload (data : List UInt8) (key : Vector UInt8 16) (devAddr : Vector UInt8 4)
    (fcnt : UInt32) (dir : UInt8) : Except Panic (List UInt8) := do
  let numBlocks := (data.length + 15) / 16
  let keystream ← (List.range' 1 numBlocks).foldlM
    (storeBlock (keyBlock key devAddr fcnt dir)) (Vector.replicate 256 0)
  data.zipIdx.mapM (xorAt keystream.toList)

def computeMic (msg : List UInt8) (key : Vector UInt8 16) (devAddr : Vector UInt8 4)
    (fcnt : UInt32) (dir : UInt8) : List UInt8 :=
  let b0 := blockOf 0x49 dir devAddr fcnt (UInt8.ofNat msg.length)
  (Crypto.cmac key (b0.toList ++ msg)).toList.take 4

namespace LoRaWanMac

def new (session : LoRaSession) (fport : UInt8) : LoRaWanMac :=
  { devAddr := session.devAddr, nwkSkey := session.nwkSkey, appSkey := session.appSkey,
    fcntUp := session.fcntUp, fcntDn := 0, fport := fport }

def down (checked : Bool) (mac : LoRaWanMac) (frame : Frame) :
    Except Panic (Except CommsError Unit × LoRaWanMac × Frame) := do
  let data ← frame.payload
  let data ← encryptFrmPayload data mac.appSkey mac.devAddr mac.fcntUp 0
  let frame ← frame.writeBack data
  let hdr := 0x40 :: mac.devAddr.toList ++
    [0x00, mac.fcntUp.toUInt8, (mac.fcntUp >>> 8).toUInt8, mac.fport]
  match ← frame.prependHeader checked hdr with
  | (.error e, frame) => pure (.error e, mac, frame)
  | (.ok (), frame) =>
    let msg ← frame.payload
    match ← frame.appendTrailer checked (computeMic msg mac.nwkSkey mac.devAddr mac.fcntUp 0) with
    | (.error e, frame) => pure (.error e, mac, frame)
    | (.ok (), frame) => pure (.ok (), { mac with fcntUp := mac.fcntUp + 1 }, frame)

def up (checked : Bool) (mac : LoRaWanMac) (frame : Frame) :
    Except Panic (Except CommsError Bool × LoRaWanMac × Frame) := do
  let len ← frame.len checked
  if len < 13 then
    pure (.ok false, mac, frame)
  else
    match ← frame.trimTrailer checked 4 with
    | (.error e, frame) => pure (.error e, mac, frame)
    | (.ok micRecv, frame) =>
      let payload ← frame.payload
      let _ ← index .bounds payload 0
      let devAddr := [← index .bounds payload 1, ← index .bounds payload 2,
        ← index .bounds payload 3, ← index .bounds payload 4]
      let fcnt :=
        (u16FromLeBytes (← index .bounds payload 6) (← index .bounds payload 7)).toUInt32
      if devAddr ≠ mac.devAddr.toList then
        pure (.ok false, mac, frame)
      else if micRecv ≠ computeMic payload mac.nwkSkey mac.devAddr fcnt 1 then
        pure (.ok false, mac, frame)
      else
        match ← frame.stripHeader checked 9 with
        | (.error e, frame) => pure (.error e, mac, frame)
        | (.ok hdr, frame) =>
          let _ ← index .bounds hdr 8
          let data ← frame.payload
          let data ← encryptFrmPayload data mac.appSkey mac.devAddr fcnt 1
          let frame ← frame.writeBack data
          pure (.ok true, { mac with fcntDn := fcnt + 1 }, frame)

end LoRaWanMac

instance : Layer LoRaWanMac where
  down := LoRaWanMac.down
  up := LoRaWanMac.up

/-! What the cipher computes: the data under a keystream that is long enough for it. -/

def keystream (key : Vector UInt8 16) (devAddr : Vector UInt8 4) (fcnt : UInt32) (dir : UInt8)
    (n : Nat) : List UInt8 :=
  (List.range' 1 n).flatMap fun i => (keyBlock key devAddr fcnt dir i).toList

def cipher (data : List UInt8) (key : Vector UInt8 16) (devAddr : Vector UInt8 4) (fcnt : UInt32)
    (dir : UInt8) : List UInt8 :=
  List.zipWith (· ^^^ ·) data (keystream key devAddr fcnt dir ((data.length + 15) / 16))

end Lorawan

theorem storeBlocks (block : Nat → Vector UInt8 16) (n k : Nat) (keystream : Vector UInt8 256)
    (inside : 16 * (k + n) ≤ 256) :
    ∃ stored : Vector UInt8 256,
      (List.range' (k + 1) n).foldlM (storeBlock block) keystream = .ok stored ∧
      stored.toList.take (16 * (k + n)) = keystream.toList.take (16 * k) ++
        (List.range' (k + 1) n).flatMap fun i => (block i).toList := by
  induction n generalizing k keystream with
  | zero => exact ⟨keystream, rfl, by simp⟩
  | succ n ih =>
      have sized : (block (k + 1)).toList.length = 16 := Vector.length_toList
      have first : (k + 1 - 1) * 16 = 16 * k := by omega
      have room : 16 * k + (block (k + 1)).toList.length ≤ 256 := by omega
      obtain ⟨next, wrote, bytes⟩ :=
        (show ∃ ys : Vector UInt8 256,
          overwrite Panic.bounds keystream (16 * k) (block (k + 1)).toList = .ok ys ∧ _ from
            overwrite_ok keystream room)
      obtain ⟨stored, ran, taken⟩ := ih (k + 1) next (by omega)
      refine ⟨stored, ?_, ?_⟩
      · rw [List.range'_succ, List.foldlM_cons, storeBlock, first, wrote]
        exact ran
      · have front : (keystream.toList.take (16 * k) ++ (block (k + 1)).toList).length =
            16 * (k + 1) := by
          rw [List.length_append, List.length_take, Vector.length_toList, sized]
          omega
        have start : next.toList.take (16 * (k + 1)) =
            keystream.toList.take (16 * k) ++ (block (k + 1)).toList := by
          rw [bytes, ← front, List.take_left]
        rw [show 16 * (k + (n + 1)) = 16 * (k + 1 + n) by omega, taken, start, List.range'_succ,
          List.flatMap_cons, List.append_assoc]

theorem mapM_xorAt (data front stream rest : List UInt8) (enough : data.length ≤ stream.length) :
    (data.zipIdx front.length).mapM (xorAt (front ++ stream ++ rest)) =
      .ok (List.zipWith (· ^^^ ·) data stream) := by
  induction data generalizing front stream with
  | nil => rfl
  | cons b data ih =>
      cases stream with
      | nil => simp at enough
      | cons k stream =>
          have here : (front ++ k :: stream ++ rest)[front.length]? = some k := by simp
          have later := ih (front ++ [k]) stream (by simpa using enough)
          rw [List.length_append, List.length_singleton, List.append_assoc front [k],
            List.singleton_append] at later
          rw [List.zipIdx_cons, List.mapM_cons, xorAt, index_ok here, ok_bind, later]
          rfl

theorem exists_header {msg : List UInt8} (nine : 9 ≤ msg.length) :
    ∃ m a b c d e low high p rest,
      msg = m :: a :: b :: c :: d :: e :: low :: high :: p :: rest := by
  rcases msg with _ | ⟨m, _ | ⟨a, _ | ⟨b, _ | ⟨c, _ | ⟨d, _ | ⟨e, _ | ⟨low, _ | ⟨high, _ |
    ⟨p, rest⟩⟩⟩⟩⟩⟩⟩⟩⟩
  on_goal 10 => exact ⟨m, a, b, c, d, e, low, high, p, rest, rfl⟩
  all_goals simp at nine

section Lorawan

variable [Crypto]

theorem length_keystream (key : Vector UInt8 16) (devAddr : Vector UInt8 4) (fcnt : UInt32)
    (dir : UInt8) (n : Nat) : (keystream key devAddr fcnt dir n).length = 16 * n := by
  have sized (i : Nat) : (keyBlock key devAddr fcnt dir i).toList.length = 16 :=
    Vector.length_toList
  rw [keystream, List.length_flatMap]
  rw [List.map_congr_left fun i _ => sized i, List.map_const', List.length_range',
    List.sum_replicate_nat, Nat.mul_comm]

theorem length_cipher (data : List UInt8) (key : Vector UInt8 16) (devAddr : Vector UInt8 4)
    (fcnt : UInt32) (dir : UInt8) : (cipher data key devAddr fcnt dir).length = data.length := by
  rw [cipher, List.length_zipWith, length_keystream]
  omega

theorem encryptFrmPayload_eq (data : List UInt8) (key : Vector UInt8 16)
    (devAddr : Vector UInt8 4) (fcnt : UInt32) (dir : UInt8) (short : data.length ≤ 256) :
    encryptFrmPayload data key devAddr fcnt dir = .ok (cipher data key devAddr fcnt dir) := by
  obtain ⟨stored, ran, taken⟩ := storeBlocks (keyBlock key devAddr fcnt dir)
    ((data.length + 15) / 16) 0 (Vector.replicate 256 0) (by omega)
  have stream : stored.toList = [] ++ keystream key devAddr fcnt dir ((data.length + 15) / 16) ++
      stored.toList.drop (16 * (0 + (data.length + 15) / 16)) := by
    have split := List.take_append_drop (16 * (0 + (data.length + 15) / 16)) stored.toList
    rw [taken] at split
    exact split.symm
  have long : data.length ≤
      (keystream key devAddr fcnt dir ((data.length + 15) / 16)).length := by
    rw [length_keystream]
    omega
  have xored := mapM_xorAt data [] _ (stored.toList.drop (16 * (0 + (data.length + 15) / 16))) long
  rw [← stream] at xored
  rw [encryptFrmPayload, ran, ok_bind]
  exact xored

theorem length_computeMic (msg : List UInt8) (key : Vector UInt8 16) (devAddr : Vector UInt8 4)
    (fcnt : UInt32) (dir : UInt8) : (computeMic msg key devAddr fcnt dir).length = 4 := by
  rw [computeMic, List.length_take, Vector.length_toList]
  rfl

namespace LoRaWanMac

/-- What is left of a message whose MIC has been taken off. -/
def decode (mac : LoRaWanMac) (msg mic : List UInt8) : Option (List UInt8) :=
  match msg with
  | _ :: a :: b :: c :: d :: _ :: low :: high :: _ :: rest =>
    let fcnt := (u16FromLeBytes low high).toUInt32
    if [a, b, c, d] ≠ mac.devAddr.toList then none
    else if mic ≠ computeMic msg mac.nwkSkey mac.devAddr fcnt 1 then none
    else some (cipher rest mac.appSkey mac.devAddr fcnt 1)
  | _ => none

def strip (mac : LoRaWanMac) (bytes : List UInt8) : Option (List UInt8) :=
  if bytes.length < 13 then none
  else mac.decode (bytes.take (bytes.length - 4)) (bytes.drop (bytes.length - 4))

theorem up_short (checked : Bool) (mac : LoRaWanMac) {f : Frame} {bytes : List UInt8}
    (holds : f.Holds bytes) (short : bytes.length < 13) :
    mac.up checked f = .ok (.ok false, mac, f) := by
  rw [up, holds.len_eq, ok_bind, if_pos short]
  rfl

theorem up_eq (checked : Bool) (mac : LoRaWanMac) {f : Frame}
    {m a b c d e low high p : UInt8} {rest mic : List UInt8} (four : mic.length = 4)
    (holds : f.Holds ((m :: a :: b :: c :: d :: e :: low :: high :: p :: rest) ++ mic)) :
    ∃ trimmed bare : Frame, bare.Holds rest ∧ mac.up checked f =
      if [a, b, c, d] ≠ mac.devAddr.toList then pure (.ok false, mac, trimmed)
      else if mic ≠ computeMic (m :: a :: b :: c :: d :: e :: low :: high :: p :: rest) mac.nwkSkey
          mac.devAddr (u16FromLeBytes low high).toUInt32 1 then pure (.ok false, mac, trimmed)
      else
        (encryptFrmPayload rest mac.appSkey mac.devAddr (u16FromLeBytes low high).toUInt32 1) >>=
          fun data => bare.writeBack data >>= fun frame =>
            pure (.ok true, { mac with fcntDn := (u16FromLeBytes low high).toUInt32 + 1 },
              frame) := by
  obtain ⟨trimmed, ran, left⟩ := holds.trimTrailer_eq checked
  rw [four] at ran
  have long : ¬((m :: a :: b :: c :: d :: e :: low :: high :: p :: rest) ++ mic).length < 13 := by
    simp only [List.length_append, List.length_cons]
    omega
  have split : trimmed.Holds ([m, a, b, c, d, e, low, high, p] ++ rest) := left
  obtain ⟨bare, stripped, inner⟩ := split.stripHeader_eq checked
  have stripped : trimmed.stripHeader checked 9 =
      .ok (.ok [m, a, b, c, d, e, low, high, p], bare) := stripped
  refine ⟨trimmed, bare, inner, ?_⟩
  have byte (i : Nat) (x : UInt8)
      (read : (m :: a :: b :: c :: d :: e :: low :: high :: p :: rest)[i]? = some x) :
      index Panic.bounds (m :: a :: b :: c :: d :: e :: low :: high :: p :: rest) i = .ok x :=
    index_ok read
  have port : index Panic.bounds [m, a, b, c, d, e, low, high, p] 8 = .ok p := index_ok rfl
  rw [up, holds.len_eq, ok_bind, if_neg long, ran, ok_bind]
  dsimp only
  rw [left.payload_eq, ok_bind, byte 0 m rfl, ok_bind, byte 1 a rfl, ok_bind, byte 2 b rfl,
    ok_bind, byte 3 c rfl, ok_bind, byte 4 d rfl, ok_bind, byte 6 low rfl, ok_bind,
    byte 7 high rfl, ok_bind, stripped, ok_bind]
  dsimp only
  rw [port, ok_bind, inner.payload_eq, ok_bind]

theorem up_long (checked : Bool) (mac : LoRaWanMac) {f : Frame}
    {m a b c d e low high p : UInt8} {rest mic : List UInt8} (four : mic.length = 4)
    (holds : f.Holds ((m :: a :: b :: c :: d :: e :: low :: high :: p :: rest) ++ mic)) :
    ∃ r mac' f', mac.up checked f = .ok (r, mac', f') ∧
      Passed (mac.decode (m :: a :: b :: c :: d :: e :: low :: high :: p :: rest) mic) r f' := by
  obtain ⟨trimmed, bare, inner, ran⟩ := mac.up_eq checked four holds
  have short : rest.length ≤ 256 := by
    have length := inner.length
    have bound := bare.stop.toNat_lt
    omega
  rw [ran]
  by_cases other : [a, b, c, d] ≠ mac.devAddr.toList
  · rw [if_pos other, decode, if_pos other]
    exact ⟨_, _, _, rfl, by simp [Passed]⟩
  · by_cases forged : mic ≠ computeMic (m :: a :: b :: c :: d :: e :: low :: high :: p :: rest)
        mac.nwkSkey mac.devAddr (u16FromLeBytes low high).toUInt32 1
    · rw [if_neg other, if_pos forged, decode, if_neg other, if_pos forged]
      exact ⟨_, _, _, rfl, by simp [Passed]⟩
    · obtain ⟨plain, wrote, data⟩ := inner.writeBack_eq (length_cipher rest mac.appSkey
        mac.devAddr (u16FromLeBytes low high).toUInt32 1)
      rw [if_neg other, if_neg forged, encryptFrmPayload_eq rest _ _ _ _ short, ok_bind, wrote,
        decode, if_neg other, if_neg forged]
      exact ⟨_, _, _, rfl, rfl, data⟩

theorem down_ran {checked : Bool} {mac mac' : LoRaWanMac} {f f' : Frame}
    {r : Except CommsError Unit} (ran : mac.down checked f = .ok (r, mac', f'))
    (room : 9 ≤ f.start.toNat) :
    f.start.toNat ≤ f.stop.toNat ∧ ∃ (headed : Frame) (msg : List UInt8),
      headed.start.toNat + 9 = f.start.toNat ∧ headed.stop = f.stop ∧
      headed.appendTrailer checked (computeMic msg mac.nwkSkey mac.devAddr mac.fcntUp 0) =
        .ok (r, f') := by
  obtain ⟨data, read, ran⟩ := bind_ok ran
  obtain ⟨sealed, _, ran⟩ := bind_ok ran
  obtain ⟨written, wrote, ran⟩ := bind_ok ran
  obtain ⟨buf, _, same⟩ := bind_ok wrote
  cases same
  have ordered := Frame.ordered_of_returns ⟨data, read⟩
  obtain ⟨⟨answer, headed⟩, put, ran⟩ := bind_ok ran
  have nine : (0x40 :: mac.devAddr.toList ++ [0x00, mac.fcntUp.toUInt8,
      (mac.fcntUp >>> 8).toUInt8, mac.fport]).length = 9 := by simp
  have cursors := Frame.prependHeader_cursors put (by rw [nine]; exact room)
  rw [nine] at cursors
  obtain ⟨rfl, start, stop⟩ := cursors
  obtain ⟨msg, _, ran⟩ := bind_ok ran
  obtain ⟨⟨answer, ended⟩, appended, ran⟩ := bind_ok ran
  refine ⟨ordered, headed, msg, start, stop, ?_⟩
  cases answer with
  | error e =>
      cases ran
      exact appended
  | ok done =>
      cases ran
      exact appended

theorem decode_some {mac : LoRaWanMac} {msg mic left : List UInt8}
    (opened : mac.decode msg mic = some left) : left.length + 9 = msg.length := by
  unfold decode at opened
  split at opened
  · dsimp only at opened
    split at opened
    · cases opened
    · split at opened
      · cases opened
      · cases opened
        rw [length_cipher]
        rfl
  · cases opened

end LoRaWanMac

instance : Strips LoRaWanMac where
  strip := LoRaWanMac.strip
  overhead := 13
  length_strip mac bytes left stripped := by
    unfold LoRaWanMac.strip at stripped
    split at stripped
    · cases stripped
    · have length := LoRaWanMac.decode_some stripped
      rw [List.length_take] at length
      omega
  up_passes checked mac f bytes holds := by
    by_cases short : bytes.length < 13
    · refine ⟨_, _, _, mac.up_short checked holds short, ?_⟩
      simp [Passed, LoRaWanMac.strip, short]
    · have four : (bytes.drop (bytes.length - 4)).length = 4 := by
        rw [List.length_drop]
        omega
      have nine : 9 ≤ (bytes.take (bytes.length - 4)).length := by
        rw [List.length_take]
        omega
      have split : f.Holds (bytes.take (bytes.length - 4) ++ bytes.drop (bytes.length - 4)) := by
        rw [List.take_append_drop]
        exact holds
      rw [LoRaWanMac.strip, if_neg short]
      generalize bytes.take (bytes.length - 4) = msg at nine split ⊢
      obtain ⟨_, _, _, _, _, _, _, _, _, _, rfl⟩ := exists_header nine
      exact mac.up_long checked four split

instance : Wraps LoRaWanMac where
  header := 9
  trailer := 4
  complete := true
  header_le := by decide
  accepts checked mac mac' f f' r ran room := by
    obtain ⟨_, headed, msg, _, stop, appended⟩ := LoRaWanMac.down_ran ran room
    rw [(Frame.appendTrailer_cursors appended).1, length_computeMic, stop]
    simp
  wrapped checked mac mac' f f' ran room := by
    obtain ⟨ordered, headed, msg, start, stop, appended⟩ := LoRaWanMac.down_ran ran room
    obtain ⟨kept, last⟩ := (Frame.appendTrailer_cursors appended).2 rfl
    rw [length_computeMic, stop] at last
    exact ⟨by rw [kept]; exact start, last, fun _ => ordered⟩

end Lorawan

instance : Strips NoopMac where
  strip _ bytes := some bytes
  overhead := 0
  length_strip mac bytes left stripped := by
    cases stripped
    rfl
  up_passes checked mac f bytes holds := ⟨.ok true, mac, f, rfl, rfl, holds⟩

instance : Wraps NoopMac where
  header := 0
  trailer := 0
  complete := true
  header_le := by decide
  accepts checked mac mac' f f' r ran room := by
    cases ran
    simp [f.stop_fits]
  wrapped checked mac mac' f f' ran room := by
    cases ran
    exact wrapped_unmoved f

instance : Strips BleL2capMac where
  strip _ _ := none
  overhead := 0
  length_strip mac bytes left stripped := by cases stripped
  up_passes checked mac f bytes holds := ⟨.error .macError, mac, f, rfl, by simp [Passed]⟩

theorem BleL2capMac.down_refuses {checked : Bool} {mac mac' : BleL2capMac} {f f' : Frame}
    {r : Except CommsError Unit} (ran : mac.down checked f = .ok (r, mac', f'))
    (room : 4 ≤ f.start.toNat) : r = .error .macError := by
  obtain ⟨n, _, ran⟩ := bind_ok ran
  obtain ⟨⟨answer, frame⟩, put, ran⟩ := bind_ok ran
  obtain ⟨rfl, _⟩ := wrapped_header put room
  cases ran
  rfl

instance : Wraps BleL2capMac where
  header := 4
  trailer := 0
  complete := false
  header_le := by decide
  accepts checked mac mac' f f' r ran room := by
    have refused := BleL2capMac.down_refuses ran room
    simp [refused]
  wrapped checked mac mac' f f' ran room := by
    have refused := BleL2capMac.down_refuses ran room
    cases refused

end QpRs.Comms
