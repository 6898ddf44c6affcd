import QpRs.Lib.Bytes

/-! The frame buffer of the RF stack. Both cursors are bytes of their own, so an end of 256 is not
one of their values. -/

namespace QpRs.Comms

open QpRs.Lib

inductive CommsError where
  | bufferTooSmall
  | macError
  deriving DecidableEq, Repr

/-- Why the node stops: an index or a slice out of bounds, or arithmetic that overflows in a build
with overflow checks. -/
inductive Panic where
  | bounds
  | overflow
  deriving DecidableEq, Repr

/-- `a - b` on bytes. `checked` says whether the build checks for overflow; one that does not
wraps. -/
def subU8 (checked : Bool) (a b : UInt8) : Except Panic UInt8 :=
  if checked && a < b then .error .overflow else .ok (a - b)

def addU8 (checked : Bool) (a b : UInt8) : Except Panic UInt8 :=
  if checked && 256 ≤ a.toNat + b.toNat then .error .overflow else .ok (a + b)

def u16FromLeBytes (low high : UInt8) : UInt16 := UInt16.ofNat (fromLeBytes [low, high])

abbrev MAX_FRAME : Nat := 256

abbrev FRAME_HEADROOM : Nat := 32

structure Frame where
  buf : Vector UInt8 MAX_FRAME
  start : UInt8
  stop : UInt8
  deriving DecidableEq, Repr

namespace Frame

def new : Frame :=
  { buf := Vector.replicate MAX_FRAME 0
    start := UInt8.ofNat FRAME_HEADROOM
    stop := UInt8.ofNat FRAME_HEADROOM }

def writePayload (f : Frame) (data : List UInt8) :
    Except Panic (Except CommsError Unit × Frame) :=
  if data.length > MAX_FRAME - FRAME_HEADROOM then .ok (.error .bufferTooSmall, f)
  else do
    let buf ← overwrite .bounds f.buf FRAME_HEADROOM data
    pure (.ok (), { buf := buf, start := UInt8.ofNat FRAME_HEADROOM,
                    stop := UInt8.ofNat (FRAME_HEADROOM + data.length) })

/-- Every layer fills the whole slice it is handed, so the header's bytes come with the call. -/
def prependHeader (checked : Bool) (f : Frame) (hdr : List UInt8) :
    Except Panic (Except CommsError Unit × Frame) :=
  if f.start.toNat < hdr.length then .ok (.error .bufferTooSmall, f)
  else do
    let start ← subU8 checked f.start (UInt8.ofNat hdr.length)
    let buf ← overwrite .bounds f.buf start.toNat hdr
    pure (.ok (), { f with buf := buf, start := start })

def appendTrailer (checked : Bool) (f : Frame) (trailer : List UInt8) :
    Except Panic (Except CommsError Unit × Frame) :=
  if f.stop.toNat + trailer.length > MAX_FRAME then .ok (.error .bufferTooSmall, f)
  else do
    let buf ← overwrite .bounds f.buf f.stop.toNat trailer
    let stop ← addU8 checked f.stop (UInt8.ofNat trailer.length)
    pure (.ok (), { f with buf := buf, stop := stop })

def len (checked : Bool) (f : Frame) : Except Panic Nat := do
  let n ← subU8 checked f.stop f.start
  pure n.toNat

def stripHeader (checked : Bool) (f : Frame) (n : Nat) :
    Except Panic (Except CommsError (List UInt8) × Frame) := do
  let len ← f.len checked
  if len < n then
    pure (.error .macError, f)
  else
    let start ← addU8 checked f.start (UInt8.ofNat n)
    let hdr ← slice .bounds f.buf.toList f.start.toNat (f.start.toNat + n)
    pure (.ok hdr, { f with start := start })

def trimTrailer (checked : Bool) (f : Frame) (n : Nat) :
    Except Panic (Except CommsError (List UInt8) × Frame) := do
  let len ← f.len checked
  if len < n then
    pure (.error .macError, f)
  else
    let stop ← subU8 checked f.stop (UInt8.ofNat n)
    let trailer ← slice .bounds f.buf.toList stop.toNat (stop.toNat + n)
    pure (.ok trailer, { f with stop := stop })

def payload (f : Frame) : Except Panic (List UInt8) :=
  slice .bounds f.buf.toList f.start.toNat f.stop.toNat

/-- What is written through `payload_mut` to a payload of the same length. -/
def writeBack (f : Frame) (data : List UInt8) : Except Panic Frame := do
  let buf ← overwrite .bounds f.buf f.start.toNat data
  pure { f with buf := buf }

def setReceivedLen (f : Frame) (n : Nat) : Frame :=
  { f with start := 0, stop := UInt8.ofNat (min n MAX_FRAME) }

structure Holds (f : Frame) (bytes : List UInt8) : Prop where
  ordered : f.start.toNat ≤ f.stop.toNat
  between : (f.buf.toList.take f.stop.toNat).drop f.start.toNat = bytes

end Frame

theorem subU8_ok (checked : Bool) {a b : UInt8} (ordered : b.toNat ≤ a.toNat) :
    ∃ d, subU8 checked a b = .ok d ∧ d.toNat = a.toNat - b.toNat := by
  have above : ¬a < b := by
    rw [UInt8.lt_iff_toNat_lt]
    omega
  have plain : subU8 checked a b = .ok (a - b) := by simp [subU8, above]
  exact ⟨a - b, plain, UInt8.toNat_sub_of_le a b (UInt8.le_iff_toNat_le.mpr ordered)⟩

theorem addU8_ok (checked : Bool) {a b : UInt8} (fits : a.toNat + b.toNat < 256) :
    ∃ d, addU8 checked a b = .ok d ∧ d.toNat = a.toNat + b.toNat := by
  have below : ¬256 ≤ a.toNat + b.toNat := by omega
  have plain : addU8 checked a b = .ok (a + b) := by simp [addU8, below]
  exact ⟨a + b, plain, by rw [UInt8.toNat_add, Nat.mod_eq_of_lt fits]⟩

theorem u16FromLeBytes_toLeBytes (value : UInt16) :
    ∃ low high, toLeBytes 2 value.toNat = [low, high] ∧ u16FromLeBytes low high = value := by
  refine ⟨_, _, rfl, ?_⟩
  change UInt16.ofNat (fromLeBytes (toLeBytes 2 value.toNat)) = value
  rw [fromLeBytes_toLeBytes value.toNat_lt]
  exact UInt16.ofNat_toNat

namespace Frame

variable {f : Frame} {bytes : List UInt8}

theorem length_buf (f : Frame) : f.buf.toList.length = 256 := Vector.length_toList

theorem Holds.length (holds : f.Holds bytes) :
    f.start.toNat + bytes.length = f.stop.toNat := by
  have ordered := holds.ordered
  have short := f.stop.toNat_lt
  rw [← holds.between, List.length_drop, List.length_take, length_buf]
  omega

theorem Holds.payload_eq (holds : f.Holds bytes) : f.payload = .ok bytes := by
  have short := f.stop.toNat_lt
  rw [payload, slice_ok holds.ordered (by rw [length_buf]; omega), holds.between]

theorem ordered_of_returns (readable : Returns f.payload) : f.start.toNat ≤ f.stop.toNat := by
  obtain ⟨bytes, read⟩ := readable
  by_contra crossed
  rw [payload, slice, if_neg fun inside => crossed inside.1] at read
  cases read

theorem Holds.len_eq (holds : f.Holds bytes) (checked : Bool) :
    f.len checked = .ok bytes.length := by
  have length := holds.length
  obtain ⟨n, ran, value⟩ := subU8_ok checked holds.ordered
  rw [len, ran, ok_bind]
  congr 1
  show n.toNat = bytes.length
  omega

theorem Holds.stripHeader_eq {hdr rest : List UInt8} (holds : f.Holds (hdr ++ rest))
    (checked : Bool) :
    ∃ f', f.stripHeader checked hdr.length = .ok (.ok hdr, f') ∧ f'.Holds rest := by
  have length := holds.length
  have short := f.stop.toNat_lt
  rw [List.length_append] at length
  have small : (UInt8.ofNat hdr.length).toNat = hdr.length :=
    UInt8.toNat_ofNat_of_lt' (by change hdr.length < 256; omega)
  obtain ⟨start, moved, value⟩ := addU8_ok checked (a := f.start) (b := UInt8.ofNat hdr.length)
    (by rw [small]; omega)
  rw [small] at value
  have taken : (f.buf.toList.take (f.start.toNat + hdr.length)).drop f.start.toNat = hdr := by
    have front := congrArg (List.take hdr.length) holds.between
    rw [List.take_left, List.take_drop, List.take_take, Nat.min_eq_left (by omega)] at front
    exact front
  have left : (f.buf.toList.take f.stop.toNat).drop start.toNat = rest := by
    have back := congrArg (List.drop hdr.length) holds.between
    rw [List.drop_left, List.drop_drop] at back
    rw [value]
    exact back
  refine ⟨{ f with start := start }, ?_, ⟨by change start.toNat ≤ f.stop.toNat; omega, left⟩⟩
  have enough : ¬(hdr ++ rest).length < hdr.length := by
    rw [List.length_append]
    omega
  rw [stripHeader, holds.len_eq, ok_bind, if_neg enough, moved, ok_bind,
    slice_ok (by omega) (by rw [length_buf]; omega), taken]
  rfl

theorem Holds.trimTrailer_eq {front tail : List UInt8} (holds : f.Holds (front ++ tail))
    (checked : Bool) :
    ∃ f', f.trimTrailer checked tail.length = .ok (.ok tail, f') ∧ f'.Holds front := by
  have length := holds.length
  have short := f.stop.toNat_lt
  rw [List.length_append] at length
  have small : (UInt8.ofNat tail.length).toNat = tail.length :=
    UInt8.toNat_ofNat_of_lt' (by change tail.length < 256; omega)
  obtain ⟨stop, moved, value⟩ := subU8_ok checked (a := f.stop) (b := UInt8.ofNat tail.length)
    (by rw [small]; omega)
  rw [small] at value
  have taken : (f.buf.toList.take (stop.toNat + tail.length)).drop stop.toNat = tail := by
    have back := congrArg (List.drop front.length) holds.between
    rw [List.drop_left, List.drop_drop] at back
    have first : f.start.toNat + front.length = stop.toNat := by omega
    have last : stop.toNat + tail.length = f.stop.toNat := by omega
    rw [last, ← first]
    exact back
  have left : (f.buf.toList.take stop.toNat).drop f.start.toNat = front := by
    have kept := congrArg (List.take front.length) holds.between
    rw [List.take_left, List.take_drop, List.take_take] at kept
    have middle : min (f.start.toNat + front.length) f.stop.toNat = stop.toNat := by omega
    rw [middle] at kept
    exact kept
  refine ⟨{ f with stop := stop }, ?_, ⟨by change f.start.toNat ≤ stop.toNat; omega, left⟩⟩
  have enough : ¬(front ++ tail).length < tail.length := by
    rw [List.length_append]
    omega
  rw [trimTrailer, holds.len_eq, ok_bind, if_neg enough, moved, ok_bind,
    slice_ok (by omega) (by rw [length_buf]; omega), taken]
  rfl

theorem holds_of_slice {data : List UInt8}
    (reach : f.start.toNat + data.length = f.stop.toNat)
    (read : slice Panic.bounds f.buf.toList f.start.toNat (f.start.toNat + data.length) =
      .ok data) : f.Holds data := by
  have short := f.stop.toNat_lt
  rw [slice_ok (Nat.le_add_right _ _) (by rw [length_buf]; omega), reach] at read
  exact ⟨by omega, Except.ok.inj read⟩

theorem Holds.writeBack_eq (holds : f.Holds bytes) {data : List UInt8}
    (same : data.length = bytes.length) : ∃ f', f.writeBack data = .ok f' ∧ f'.Holds data := by
  have length := holds.length
  have short := f.stop.toNat_lt
  have inside : f.start.toNat + data.length ≤ 256 := by omega
  have reach : f.start.toNat + data.length = f.stop.toNat := by omega
  obtain ⟨buf, wrote⟩ := overwrite_returns Panic.bounds f.buf inside
  refine ⟨{ f with buf := buf }, ?_, ?_⟩
  · rw [writeBack, wrote]
    rfl
  · exact holds_of_slice (f := { f with buf := buf }) reach (slice_overwrite wrote)

theorem setReceivedLen_holds (f : Frame) {n : Nat} (short : n ≤ 255) :
    (f.setReceivedLen n).Holds (f.buf.toList.take n) := by
  have stop : (f.setReceivedLen n).stop.toNat = n := by
    rw [setReceivedLen, Nat.min_eq_left (by change n ≤ 256; omega)]
    exact UInt8.toNat_ofNat_of_lt' (by change n < 256; omega)
  refine ⟨Nat.zero_le _, ?_⟩
  rw [stop]
  rfl

theorem writePayload_long (f : Frame) {data : List UInt8} (long : 224 < data.length) :
    f.writePayload data = .ok (.error .bufferTooSmall, f) :=
  if_pos long

theorem writePayload_eq (f : Frame) {data : List UInt8} (fits : data.length ≤ 224) :
    ∃ f', f.writePayload data = .ok (.ok (), f') ∧ f'.start.toNat = 32 ∧
      f'.stop = UInt8.ofNat (32 + data.length) ∧
      slice Panic.bounds f'.buf.toList 32 (32 + data.length) = .ok data := by
  have inside : 32 + data.length ≤ 256 := by omega
  have short : ¬data.length > MAX_FRAME - FRAME_HEADROOM := by
    change ¬data.length > 224
    omega
  obtain ⟨buf, wrote⟩ := overwrite_returns Panic.bounds f.buf inside
  refine ⟨{ buf := buf, start := 32, stop := UInt8.ofNat (32 + data.length) }, ?_, rfl, rfl,
    slice_overwrite wrote⟩
  rw [writePayload, if_neg short, wrote]
  rfl

/-- A payload that fits is held by the frame, except the longest one: its end is 256, which the
end cursor stores as 0. -/
theorem writePayload_holds (f : Frame) {data : List UInt8} (fits : data.length < 224) :
    ∃ f', f.writePayload data = .ok (.ok (), f') ∧ f'.Holds data := by
  obtain ⟨f', wrote, start, stop, read⟩ := writePayload_eq f fits.le
  have value : f'.stop.toNat = 32 + data.length := by
    rw [stop]
    exact UInt8.toNat_ofNat_of_lt' (by change 32 + data.length < 256; omega)
  refine ⟨f', wrote, holds_of_slice ?_ ?_⟩
  · rw [start, value]
  · rw [start]
    exact read

theorem writePayload_full (f : Frame) {data : List UInt8} (full : data.length = 224) :
    ∃ f', f.writePayload data = .ok (.ok (), f') ∧ f'.payload = .error .bounds := by
  obtain ⟨f', wrote, start, stop, _⟩ := writePayload_eq f full.le
  refine ⟨f', wrote, ?_⟩
  have crossed : ¬(f'.start.toNat ≤ f'.stop.toNat ∧ f'.stop.toNat ≤ f'.buf.toList.length) := by
    rw [start, stop, full]
    rintro ⟨ordered, _⟩
    revert ordered
    decide
  exact if_neg crossed

theorem prependHeader_cursors {checked : Bool} {hdr : List UInt8} {r : Except CommsError Unit}
    {f' : Frame} (ran : f.prependHeader checked hdr = .ok (r, f'))
    (room : hdr.length ≤ f.start.toNat) :
    r = .ok () ∧ f'.start.toNat + hdr.length = f.start.toNat ∧ f'.stop = f.stop := by
  have small : (UInt8.ofNat hdr.length).toNat = hdr.length :=
    UInt8.toNat_ofNat_of_lt' (lt_of_le_of_lt room f.start.toNat_lt)
  obtain ⟨start, moved, value⟩ := subU8_ok checked (a := f.start) (b := UInt8.ofNat hdr.length)
    (by rw [small]; exact room)
  rw [prependHeader, if_neg (by omega), moved, ok_bind] at ran
  obtain ⟨buf, _, rest⟩ := bind_ok ran
  cases rest
  refine ⟨rfl, ?_, rfl⟩
  change start.toNat + hdr.length = f.start.toNat
  omega

theorem appendTrailer_cursors {checked : Bool} {trailer : List UInt8}
    {r : Except CommsError Unit} {f' : Frame}
    (ran : f.appendTrailer checked trailer = .ok (r, f')) :
    (r = .ok () ↔ f.stop.toNat + trailer.length ≤ 256) ∧
      (r = .ok () → f'.start = f.start ∧
        f'.stop.toNat = (f.stop.toNat + trailer.length) % 256) := by
  by_cases long : f.stop.toNat + trailer.length > MAX_FRAME
  · rw [appendTrailer, if_pos long] at ran
    cases ran
    change _ > 256 at long
    simp only [reduceCtorEq, false_iff, false_implies, and_true]
    omega
  · rw [appendTrailer, if_neg long] at ran
    obtain ⟨buf, _, ran⟩ := bind_ok ran
    obtain ⟨stop, moved, ran⟩ := bind_ok ran
    cases ran
    refine ⟨⟨fun _ => Nat.le_of_not_gt long, fun _ => rfl⟩, fun _ => ⟨rfl, ?_⟩⟩
    rw [addU8] at moved
    split at moved
    · cases moved
    · cases moved
      change (f.stop + UInt8.ofNat trailer.length).toNat = _
      rw [UInt8.toNat_add, UInt8.toNat_ofNat']
      omega

end Frame

end QpRs.Comms
