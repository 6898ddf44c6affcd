import QpRs.Comms.Mac
import QpRs.Comms.Net
import QpRs.Comms.Transport

/-! The composition of the layers: building a frame on the way down, and on the way up what is
left of the received bytes. -/

namespace QpRs.Comms

open QpRs.Lib

structure RfStack (T N M P : Type) where
  transport : T
  network : N
  mac : M
  phy : P

namespace RfStack

variable {T N M P : Type} [Layer T] [Layer N] [Layer M]

def buildFrame (checked : Bool) (s : RfStack T N M P) (payload : List UInt8) :
    Except Panic (Except CommsError Frame × RfStack T N M P) := do
  match ← Frame.new.writePayload payload with
  | (.error e, _) => pure (.error e, s)
  | (.ok (), frame) =>
    match ← Layer.down checked s.transport frame with
    | (.error e, transport, _) => pure (.error e, { s with transport := transport })
    | (.ok (), transport, frame) =>
      match ← Layer.down checked s.network frame with
      | (.error e, network, _) =>
        pure (.error e, { s with transport := transport, network := network })
      | (.ok (), network, frame) =>
        match ← Layer.down checked s.mac frame with
        | (.error e, mac, _) =>
          pure (.error e, { s with transport := transport, network := network, mac := mac })
        | (.ok (), mac, frame) =>
          pure (.ok frame, { s with transport := transport, network := network, mac := mac })

/-- The payload in a frame of its own, with headroom. -/
def copyOut (payload : List UInt8) : Except Panic (Except CommsError (Option Frame)) := do
  match ← Frame.new.writePayload payload with
  | (.error e, _) => pure (.error e)
  | (.ok (), out) => pure (.ok (some out))

def receiveTransport (checked : Bool) (s : RfStack T N M P) (raw : Frame) :
    Except Panic (Except CommsError (Option Frame) × RfStack T N M P × Frame) := do
  match ← Layer.up checked s.transport raw with
  | (.error e, transport, raw) => pure (.error e, { s with transport := transport }, raw)
  | (.ok false, transport, raw) => pure (.ok none, { s with transport := transport }, raw)
  | (.ok true, transport, raw) =>
    let payload ← raw.payload
    let answer ← copyOut payload
    pure (answer, { s with transport := transport }, raw)

def receiveRaw (checked : Bool) (s : RfStack T N M P) (raw : Frame) :
    Except Panic (Except CommsError (Option Frame) × RfStack T N M P × Frame) := do
  match ← Layer.up checked s.mac raw with
  | (.error e, mac, raw) => pure (.error e, { s with mac := mac }, raw)
  | (.ok false, mac, raw) => pure (.ok none, { s with mac := mac }, raw)
  | (.ok true, mac, raw) =>
    match ← Layer.up checked s.network raw with
    | (.error e, network, raw) => pure (.error e, { s with network := network, mac := mac }, raw)
    | (.ok false, network, raw) => pure (.ok none, { s with network := network, mac := mac }, raw)
    | (.ok true, network, raw) =>
      receiveTransport checked { s with network := network, mac := mac } raw

/-! The way down: which payloads can be encoded. -/

section Encoded

variable {checked : Bool} {s s' : RfStack T N M P} {payload : List UInt8}
  {answer : Except CommsError Frame}

theorem buildFrame_long (ran : buildFrame checked s payload = .ok (answer, s'))
    (long : 224 < payload.length) : (∃ e, answer = .error e) ∧ s' = s := by
  rw [buildFrame, Frame.writePayload_long _ long] at ran
  cases ran
  exact ⟨⟨_, rfl⟩, rfl⟩

theorem buildFrame_stages (ran : buildFrame checked s payload = .ok (answer, s'))
    (short : payload.length ≤ 224) :
    ∃ f₀ r₁ t f₁, f₀.start.toNat = 32 ∧ f₀.stop.toNat = (32 + payload.length) % 256 ∧
      Layer.down checked s.transport f₀ = .ok (r₁, t, f₁) ∧ s'.transport = t ∧
      ((∃ e, r₁ = .error e ∧ answer = .error e) ∨
        r₁ = .ok () ∧ ∃ r₂ n f₂, Layer.down checked s.network f₁ = .ok (r₂, n, f₂) ∧
          ((∃ e, r₂ = .error e ∧ answer = .error e) ∨
            r₂ = .ok () ∧ ∃ r₃ m f₃, Layer.down checked s.mac f₂ = .ok (r₃, m, f₃) ∧
              ((∃ e, r₃ = .error e ∧ answer = .error e) ∨ r₃ = .ok () ∧ answer = .ok f₃))) := by
  obtain ⟨f₀, wrote, start, stop, _⟩ := Frame.new.writePayload_eq short
  have value : f₀.stop.toNat = (32 + payload.length) % 256 := by
    rw [stop]
    exact UInt8.toNat_ofNat'
  rw [buildFrame, wrote, ok_bind] at ran
  obtain ⟨⟨r₁, t, f₁⟩, down₁, ran⟩ := bind_ok ran
  refine ⟨f₀, r₁, t, f₁, start, value, down₁, ?_⟩
  cases r₁ with
  | error e =>
      cases ran
      exact ⟨rfl, .inl ⟨e, rfl, rfl⟩⟩
  | ok done =>
      obtain ⟨⟨r₂, n, f₂⟩, down₂, ran⟩ := bind_ok ran
      cases r₂ with
      | error e =>
          cases ran
          exact ⟨rfl, .inr ⟨rfl, _, n, f₂, down₂, .inl ⟨e, rfl, rfl⟩⟩⟩
      | ok done =>
          obtain ⟨⟨r₃, m, f₃⟩, down₃, ran⟩ := bind_ok ran
          cases r₃ with
          | error e =>
              cases ran
              exact ⟨rfl, .inr ⟨rfl, _, n, f₂, down₂, .inr ⟨rfl, _, m, f₃, down₃,
                .inl ⟨e, rfl, rfl⟩⟩⟩⟩
          | ok done =>
              cases ran
              exact ⟨rfl, .inr ⟨rfl, _, n, f₂, down₂, .inr ⟨rfl, _, m, f₃, down₃,
                .inr ⟨rfl, rfl⟩⟩⟩⟩

variable [Wraps T] [Wraps N] [Wraps M]

variable (T N M) in
/-- Every layer is implemented and the encoded frame ends before the last byte of the buffer. -/
def Fits (payload : List UInt8) : Prop :=
  (Wraps.complete T = true ∧ Wraps.complete N = true ∧ Wraps.complete M = true) ∧
    32 + payload.length + Wraps.trailer T + Wraps.trailer N + Wraps.trailer M ≤ 255

theorem built_of_fits (ran : buildFrame checked s payload = .ok (answer, s'))
    (fits : Fits T N M payload) : ∃ frame, answer = .ok frame := by
  obtain ⟨⟨first, second, third⟩, sum⟩ := fits
  have headT := Wraps.header_le (L := T)
  have headN := Wraps.header_le (L := N)
  have headM := Wraps.header_le (L := M)
  obtain ⟨f₀, r₁, t, f₁, start, stop, down₁, _, rest⟩ := buildFrame_stages ran (by omega)
  obtain ⟨rfl, start₁, stop₁⟩ := down_fits down₁ (by omega) first (by omega)
  obtain ⟨_, refused, _⟩ | ⟨_, r₂, n, f₂, down₂, rest⟩ := rest
  · cases refused
  · obtain ⟨rfl, start₂, stop₂⟩ := down_fits down₂ (by omega) second (by omega)
    obtain ⟨_, refused, _⟩ | ⟨_, r₃, m, f₃, down₃, rest⟩ := rest
    · cases refused
    · obtain ⟨rfl, start₃, stop₃⟩ := down_fits down₃ (by omega) third (by omega)
      obtain ⟨_, refused, _⟩ | ⟨_, built⟩ := rest
      · cases refused
      · exact ⟨f₃, built⟩

theorem fits_of_built {frame : Frame} (ran : buildFrame checked s payload = .ok (.ok frame, s'))
    (readable : Returns frame.payload) : Fits T N M payload := by
  have headT := Wraps.header_le (L := T)
  have headN := Wraps.header_le (L := N)
  have headM := Wraps.header_le (L := M)
  have short : payload.length ≤ 224 := by
    by_contra long
    obtain ⟨⟨e, refused⟩, _⟩ := buildFrame_long ran (by omega)
    cases refused
  obtain ⟨f₀, r₁, t, f₁, start, stop, down₁, _, rest⟩ := buildFrame_stages ran short
  obtain ⟨_, _, refused⟩ | ⟨rfl, r₂, n, f₂, down₂, rest⟩ := rest
  · cases refused
  obtain ⟨_, _, refused⟩ | ⟨rfl, r₃, m, f₃, down₃, rest⟩ := rest
  · cases refused
  obtain ⟨_, _, refused⟩ | ⟨rfl, built⟩ := rest
  · cases refused
  cases built
  -- the end of the frame is not 0, and so it was not 0 before any of the layers
  have start₁ := (Wraps.wrapped checked _ _ _ _ down₁ (by omega)).start
  have start₂ := (Wraps.wrapped checked _ _ _ _ down₂ (by omega)).start
  have start₃ := (Wraps.wrapped checked _ _ _ _ down₃ (by omega)).start
  have ended : 0 < frame.stop.toNat := by
    have ordered := Frame.ordered_of_returns readable
    omega
  obtain ⟨third, ended₂, _, stop₃⟩ := fits_of_down down₃ (by omega) (by omega) ended
  obtain ⟨second, ended₁, _, stop₂⟩ := fits_of_down down₂ (by omega) (by omega) ended₂
  obtain ⟨first, ended₀, _, stop₁⟩ := fits_of_down down₁ (by omega) (by omega) ended₁
  have last := frame.stop.toNat_lt
  exact ⟨⟨first, second, third⟩, by omega⟩

theorem buildFrame_refuses_iff (ran : buildFrame checked s payload = .ok (answer, s'))
    (readable : ∀ frame, answer = .ok frame → Returns frame.payload) :
    (∃ e, answer = .error e) ↔ ¬Fits T N M payload := by
  constructor
  · rintro ⟨e, rfl⟩ fits
    obtain ⟨frame, built⟩ := built_of_fits ran fits
    cases built
  · intro large
    cases answer with
    | error e => exact ⟨e, rfl⟩
    | ok frame => exact absurd (fits_of_built ran (readable frame rfl)) large

end Encoded

/-! The way up, as a function of the received bytes. -/

section Received

variable [Strips N] [Strips M]

def reaching (s : RfStack T N M P) (bytes : List UInt8) : Option (List UInt8) :=
  (Strips.strip s.mac bytes).bind (Strips.strip s.network)

/-- The bytes left after all three headers and the trailer. -/
def unwrap [Strips T] (s : RfStack T N M P) (bytes : List UInt8) : Option (List UInt8) :=
  (s.reaching bytes).bind (Strips.strip s.transport)

variable {s : RfStack T N M P} {raw : Frame} {bytes : List UInt8}

theorem receiveRaw_stopped (checked : Bool) (holds : raw.Holds bytes)
    (stopped : s.reaching bytes = none) :
    ∃ r s' raw', receiveRaw checked s raw = .ok (r, s', raw') ∧ s'.transport = s.transport ∧
      ∀ frame, r ≠ .ok (some frame) := by
  obtain ⟨r, mac, raw₁, ran, passed⟩ := Strips.up_passes checked s.mac raw bytes holds
  rw [receiveRaw, ran, ok_bind]
  cases left : Strips.strip s.mac bytes with
  | none =>
      rw [left] at passed
      match r, passed with
      | .error e, _ => exact ⟨_, _, _, rfl, rfl, by simp⟩
      | .ok false, _ => exact ⟨_, _, _, rfl, rfl, by simp⟩
  | some inner =>
      rw [left] at passed
      obtain ⟨rfl, holds⟩ := passed
      rw [reaching, left, Option.bind_some] at stopped
      obtain ⟨r, network, raw₂, ran, passed⟩ := Strips.up_passes checked s.network raw₁ inner holds
      rw [stopped] at passed
      dsimp only
      rw [ran, ok_bind]
      match r, passed with
      | .error e, _ => exact ⟨_, _, _, rfl, rfl, by simp⟩
      | .ok false, _ => exact ⟨_, _, _, rfl, rfl, by simp⟩

theorem receiveRaw_reaches (checked : Bool) (holds : raw.Holds bytes) {inner : List UInt8}
    (reached : s.reaching bytes = some inner) :
    ∃ network mac raw', raw'.Holds inner ∧ receiveRaw checked s raw =
      receiveTransport checked { s with network := network, mac := mac } raw' := by
  obtain ⟨middle, outer, reached⟩ := Option.bind_eq_some_iff.mp reached
  obtain ⟨r, mac, raw₁, ran, passed⟩ := Strips.up_passes checked s.mac raw bytes holds
  rw [outer] at passed
  obtain ⟨rfl, holds⟩ := passed
  rw [receiveRaw, ran, ok_bind]
  dsimp only
  obtain ⟨r, network, raw₂, ran, passed⟩ := Strips.up_passes checked s.network raw₁ middle holds
  rw [reached] at passed
  obtain ⟨rfl, holds⟩ := passed
  rw [ran]
  exact ⟨network, mac, raw₂, holds, rfl⟩

end Received

/-! Only the longest payload that is copied out cannot be read again. -/

theorem copyOut_long {payload : List UInt8} (long : 224 < payload.length) :
    copyOut payload = .ok (.error .bufferTooSmall) := by
  rw [copyOut, Frame.writePayload_long _ long]
  rfl

theorem copyOut_fits {payload : List UInt8} (fits : payload.length < 224) :
    ∃ out, copyOut payload = .ok (.ok (some out)) ∧ out.payload = .ok payload := by
  obtain ⟨out, wrote, holds⟩ := Frame.new.writePayload_holds fits
  refine ⟨out, ?_, holds.payload_eq⟩
  rw [copyOut, wrote]
  rfl

theorem copyOut_full {payload : List UInt8} (full : payload.length = 224) :
    ∃ out, copyOut payload = .ok (.ok (some out)) ∧ out.payload = .error .bounds := by
  obtain ⟨out, wrote, unreadable⟩ := Frame.new.writePayload_full full
  refine ⟨out, ?_, unreadable⟩
  rw [copyOut, wrote]
  rfl

section Transport

variable {T N M P : Type} [Layer T] [Strips T] {s : RfStack T N M P} {raw : Frame}
  {bytes : List UInt8}

theorem receiveTransport_stops (checked : Bool) (holds : raw.Holds bytes)
    (stopped : Strips.strip s.transport bytes = none) :
    ∃ r s' raw', receiveTransport checked s raw = .ok (r, s', raw') ∧
      ∀ frame, r ≠ .ok (some frame) := by
  obtain ⟨r, transport, raw', ran, passed⟩ := Strips.up_passes checked s.transport raw bytes holds
  rw [stopped] at passed
  rw [receiveTransport, ran, ok_bind]
  match r, passed with
  | .error e, _ => exact ⟨_, _, _, rfl, by simp⟩
  | .ok false, _ => exact ⟨_, _, _, rfl, by simp⟩

theorem receiveTransport_passes (checked : Bool) (holds : raw.Holds bytes) {left : List UInt8}
    (passes : Strips.strip s.transport bytes = some left) :
    ∃ transport raw', receiveTransport checked s raw =
      copyOut left >>= fun answer => .ok (answer, { s with transport := transport }, raw') := by
  obtain ⟨r, transport, raw', ran, passed⟩ := Strips.up_passes checked s.transport raw bytes holds
  rw [passes] at passed
  obtain ⟨rfl, holds⟩ := passed
  refine ⟨transport, raw', ?_⟩
  rw [receiveTransport, ran, ok_bind]
  dsimp only
  rw [holds.payload_eq, ok_bind]
  rfl

end Transport

section Safety

variable [Strips T] [Strips N] [Strips M] {checked : Bool} {s : RfStack T N M P} {raw : Frame}
  {bytes : List UInt8}

/-- The first `n` bytes of the buffer are received without a panic, and the frame that comes out,
if one does, can be read: it has the bytes left after the headers and the trailer. -/
def ReceivesSafely (checked : Bool) (s : RfStack T N M P) (raw : Frame) (n : Nat) : Prop :=
  ∃ r s' raw', receiveRaw checked s (raw.setReceivedLen n) = .ok (r, s', raw') ∧
    ∀ frame, r = .ok (some frame) →
      ∃ left, s.unwrap (raw.buf.toList.take n) = some left ∧ frame.payload = .ok left

theorem length_unwrap {left : List UInt8} (unwrapped : s.unwrap bytes = some left) :
    left.length + Strips.overhead T + Strips.overhead N + Strips.overhead M = bytes.length := by
  obtain ⟨inner, reached, last⟩ := Option.bind_eq_some_iff.mp unwrapped
  obtain ⟨middle, first, second⟩ := Option.bind_eq_some_iff.mp reached
  rw [Strips.length_strip _ _ _ last, Strips.length_strip _ _ _ second,
    Strips.length_strip _ _ _ first]

theorem receiveRaw_stops (checked : Bool) (holds : raw.Holds bytes)
    (stopped : s.unwrap bytes = none) :
    ∃ r s' raw', receiveRaw checked s raw = .ok (r, s', raw') ∧ ∀ frame, r ≠ .ok (some frame) := by
  cases reached : s.reaching bytes with
  | none =>
      obtain ⟨r, s', raw', ran, _, empty⟩ := receiveRaw_stopped checked holds reached
      exact ⟨r, s', raw', ran, empty⟩
  | some inner =>
      rw [unwrap, reached, Option.bind_some] at stopped
      obtain ⟨network, mac, raw', holds, same⟩ := receiveRaw_reaches checked holds reached
      rw [same]
      exact receiveTransport_stops checked holds stopped

theorem receiveRaw_passes (checked : Bool) (holds : raw.Holds bytes) {left : List UInt8}
    (unwrapped : s.unwrap bytes = some left) :
    ∃ s' raw', receiveRaw checked s raw =
      copyOut left >>= fun answer => .ok (answer, s', raw') := by
  obtain ⟨inner, reached, last⟩ := Option.bind_eq_some_iff.mp unwrapped
  obtain ⟨network, mac, raw', holds, same⟩ := receiveRaw_reaches checked holds reached
  obtain ⟨transport, raw'', ran⟩ := receiveTransport_passes
    (s := { s with network := network, mac := mac }) checked holds last
  exact ⟨_, raw'', same.trans ran⟩

theorem receiveRaw_some_iff (holds : raw.Holds bytes) {answer : Except CommsError (Option Frame)}
    {s' : RfStack T N M P} {raw' : Frame}
    (ran : receiveRaw checked s raw = .ok (answer, s', raw')) :
    (∃ frame, answer = .ok (some frame)) ↔
      ∃ left, s.unwrap bytes = some left ∧ left.length ≤ 224 := by
  cases unwrapped : s.unwrap bytes with
  | none =>
      obtain ⟨r, _, _, same, empty⟩ := receiveRaw_stops checked holds unwrapped
      rw [ran] at same
      cases same
      simpa using empty
  | some left =>
      obtain ⟨_, _, same⟩ := receiveRaw_passes checked holds unwrapped
      rw [ran] at same
      obtain ⟨copied, ran, told⟩ := bind_ok same.symm
      cases told
      rcases Nat.lt_or_ge 224 left.length with long | fits
      · rw [copyOut_long long] at ran
        cases ran
        simp only [reduceCtorEq, exists_false, Option.some.injEq, false_iff]
        rintro ⟨_, rfl, fits⟩
        omega
      · obtain ⟨out, wrote, _⟩ := Frame.new.writePayload_eq fits
        rw [copyOut, wrote] at ran
        cases ran
        exact ⟨fun _ => ⟨left, rfl, fits⟩, fun _ => ⟨out, rfl⟩⟩

theorem receivesSafely_stopped {n : Nat} (short : n ≤ 255)
    (stopped : s.unwrap (raw.buf.toList.take n) = none) : ReceivesSafely checked s raw n := by
  obtain ⟨r, s', raw', ran, empty⟩ :=
    receiveRaw_stops checked (raw.setReceivedLen_holds short) stopped
  exact ⟨r, s', raw', ran, fun frame taken => absurd taken (empty frame)⟩

theorem receivesSafely_unwrapped {n : Nat} (short : n ≤ 255) {left : List UInt8}
    (unwrapped : s.unwrap (raw.buf.toList.take n) = some left) :
    ReceivesSafely checked s raw n ↔ left.length ≠ 224 := by
  obtain ⟨s', raw', ran⟩ :=
    receiveRaw_passes checked (raw.setReceivedLen_holds short) unwrapped
  rcases Nat.lt_trichotomy left.length 224 with fits | full | long
  · obtain ⟨out, copied, read⟩ := copyOut_fits fits
    rw [copied, ok_bind] at ran
    refine ⟨fun _ => fits.ne, fun _ => ⟨_, s', raw', ran, ?_⟩⟩
    intro frame taken
    cases taken
    exact ⟨left, unwrapped, read⟩
  · obtain ⟨out, copied, unreadable⟩ := copyOut_full full
    rw [copied, ok_bind] at ran
    refine ⟨?_, fun other => absurd full other⟩
    rintro ⟨r, s'', raw'', same, readable⟩
    rw [ran] at same
    cases same
    obtain ⟨_, _, read⟩ := readable out rfl
    rw [unreadable] at read
    cases read
  · rw [copyOut_long long, ok_bind] at ran
    refine ⟨fun _ => long.ne', fun _ => ⟨_, s', raw', ran, ?_⟩⟩
    intro frame taken
    cases taken

/-- Receiving is safe for every frame but those that all layers accept and that carry a payload of
exactly 224 bytes. -/
theorem receivesSafely_iff (checked : Bool) (s : RfStack T N M P) (raw : Frame) (n : Nat)
    (short : n ≤ 255) :
    ReceivesSafely checked s raw n ↔
      (s.unwrap (raw.buf.toList.take n) ≠ none →
        n ≠ 224 + Strips.overhead T + Strips.overhead N + Strips.overhead M) := by
  have sized : (raw.buf.toList.take n).length = n := by
    rw [List.length_take, Frame.length_buf]
    omega
  cases unwrapped : s.unwrap (raw.buf.toList.take n) with
  | none =>
      have safe : ReceivesSafely checked s raw n := receivesSafely_stopped short unwrapped
      exact ⟨fun _ accepted => absurd rfl accepted, fun _ => safe⟩
  | some left =>
      have length := length_unwrap unwrapped
      rw [sized] at length
      rw [receivesSafely_unwrapped short unwrapped]
      simp only [ne_eq, reduceCtorEq, not_false_eq_true, true_implies]
      omega

end Safety

/-- The stack of the loopback tests, less the radio. -/
def loopback : RfStack UnreliableTransport NoopNetwork NoopMac Unit := ⟨.new, ⟨⟩, ⟨⟩, ()⟩

theorem short_frame_received_safely : ReceivesSafely true loopback .new 10 := by
  refine (receivesSafely_iff true loopback .new 10 (by decide)).mpr ?_
  intro _
  decide

/-- 229 bytes of zeros: a transport header and 224 bytes of payload. -/
theorem full_frame_not_readable : ¬ReceivesSafely true loopback .new 229 := by
  have unwrapped : loopback.unwrap (Frame.new.buf.toList.take 229) =
      some (List.replicate 224 0) := by decide +kernel
  intro safe
  exact (receivesSafely_unwrapped (by decide) unwrapped).mp safe List.length_replicate

end RfStack

end QpRs.Comms
