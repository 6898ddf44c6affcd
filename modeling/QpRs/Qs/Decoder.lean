import QpRs.Event
import QpRs.Qs.Tracer

/-! The host's incremental decoder of the QS stream, against the frames of the tracer. -/

namespace QpRs.Qs

open QpRs.Lib

structure QsFrame where
  seq : UInt8
  recordType : UInt8
  payload : List UInt8
  deriving DecidableEq, Repr

inductive DecodeError where
  | frameTooShort (len : Nat)
  | invalidChecksum (expected found : UInt8)
  deriving DecidableEq, Repr

structure HdlcDecoder where
  buffer : List UInt8
  escapeNext : Bool
  deriving DecidableEq, Repr

namespace HdlcDecoder

def new : HdlcDecoder := { buffer := [], escapeNext := false }

def decodeFrame (data : List UInt8) : Except Halt (Except DecodeError QsFrame) :=
  if data.length < 3 then
    .ok (.error (.frameTooShort data.length))
  else do
    let payload ← slice .fault data 0 (data.length - 1)
    let checksum ← index .fault data (data.length - 1)
    let expected := ~~~sum payload
    if checksum ≠ expected then
      return .error (.invalidChecksum expected checksum)
    else
      let seq ← index .fault payload 0
      let recordType ← index .fault payload 1
      let content ← slice .fault payload 2 payload.length
      return .ok { seq := seq, recordType := recordType, payload := content }

/-- The body of the loop of `push_bytes`. -/
def pushByte (d : HdlcDecoder) (byte : UInt8) :
    Except Halt (HdlcDecoder × Option (Except DecodeError QsFrame)) :=
  if byte = FLAG then
    let d := { d with escapeNext := false }
    if d.buffer.isEmpty then
      .ok (d, none)
    else do
      let result ← decodeFrame d.buffer
      return ({ d with buffer := [] }, some result)
  else if d.escapeNext then
    .ok ({ buffer := d.buffer ++ [byte ^^^ ESC_XOR], escapeNext := false }, none)
  else if byte = ESC then
    .ok ({ d with escapeNext := true }, none)
  else
    .ok ({ d with buffer := d.buffer ++ [byte] }, none)

def pushBytes (d : HdlcDecoder) (input : List UInt8) :
    Except Halt (HdlcDecoder × List (Except DecodeError QsFrame)) :=
  feed pushByte d input

def pushChunks (d : HdlcDecoder) (chunks : List (List UInt8)) :
    Except Halt (HdlcDecoder × List (Except DecodeError QsFrame)) :=
  feedChunks pushByte d chunks

end HdlcDecoder

/-- What the host should decode a record to. -/
def QsRecord.received (r : QsRecord) : QsFrame :=
  ⟨r.seq, r.recordType, stamp r.timestamp ++ r.payload⟩

namespace HdlcDecoder

theorem decodeFrame_returns (data : List UInt8) : Returns (decodeFrame data) := by
  refine .ite (fun _ => .ok _) fun short => ?_
  have long : 2 ≤ (data.take (data.length - 1)).length := by
    rw [List.length_take]
    omega
  refine .bind_ok (slice_ok (Nat.zero_le _) (Nat.sub_le _ _)) ?_
  refine (index_returns (by omega)).bind fun checksum => ?_
  refine .ite (fun _ => .ok _) fun _ => ?_
  refine (index_returns (Nat.lt_of_succ_lt long)).bind fun seq => ?_
  refine (index_returns long).bind fun recordType => ?_
  exact .bind_ok (slice_ok long le_rfl) (.ok _)

theorem decodeFrame_body (r : QsRecord) :
    decodeFrame (r.body ++ [~~~sum r.body]) = .ok (.ok r.received) := by
  have sized : (r.body ++ [~~~sum r.body]).length = r.body.length + 1 := List.length_append
  have header : 2 ≤ r.body.length := Nat.le_add_left 2 _
  have long : ¬(r.body ++ [~~~sum r.body]).length < 3 := by omega
  have cut : (r.body ++ [~~~sum r.body]).length - 1 = r.body.length := by omega
  have whole : slice Halt.fault (r.body ++ [~~~sum r.body]) 0 r.body.length = .ok r.body := by
    rw [slice_ok (Nat.zero_le _) (by omega), List.take_left, List.drop_zero]
  have last : index Halt.fault (r.body ++ [~~~sum r.body]) r.body.length = .ok (~~~sum r.body) :=
    index_ok List.getElem?_concat_length
  have first : index Halt.fault r.body 0 = .ok r.seq := rfl
  have second : index Halt.fault r.body 1 = .ok r.recordType := rfl
  have content : slice Halt.fault r.body 2 r.body.length =
      .ok (stamp r.timestamp ++ r.payload) := by
    rw [slice_ok header le_rfl, List.take_length]
    rfl
  simp only [decodeFrame, if_neg long, cut, whole, last, first, second, content, bind, Except.bind,
    pure, Except.pure, ne_eq, not_true_eq_false, if_false]
  rfl

theorem pushByte_returns (d : HdlcDecoder) (byte : UInt8) : Returns (pushByte d byte) := by
  refine .ite (fun _ => ?_) fun _ => ?_
  · exact .ite (fun _ => .ok _) fun _ => (decodeFrame_returns d.buffer).bind fun _ => .ok _
  · exact .ite (fun _ => .ok _) fun _ => .ite (fun _ => .ok _) fun _ => .ok _

/-- A flag brings the decoder back to its first state, whatever it was in. -/
theorem pushByte_flag (d : HdlcDecoder) : ∃ out, pushByte d FLAG = .ok (new, out) := by
  obtain ⟨result, decoded⟩ := decodeFrame_returns d.buffer
  by_cases empty : d.buffer = []
  · exact ⟨none, by simp [pushByte, empty, new]⟩
  · refine ⟨some result, ?_⟩
    simp [pushByte, empty, decoded, new, bind, Except.bind, pure, Except.pure]

theorem unstuffs : hdlc.Unstuffs pushByte (⟨·, false⟩) (⟨·, true⟩) where
  plain := by
    intro raw b ordinary unescaped
    simp only [pushByte, if_neg (show ¬b = FLAG from ordinary), Bool.false_eq_true, if_false,
      if_neg (show ¬b = ESC from unescaped)]
  escape := by
    intro raw
    rfl
  stood := by
    intro raw b ordinary
    simp only [pushByte, if_neg (show ¬b = FLAG from ordinary), if_true]
    rfl

theorem pushBytes_frame (r : QsRecord) :
    pushBytes new (Tracer.buildFrame r) = .ok (new, [.ok r.received]) := by
  rw [Tracer.buildFrame_eq]
  have opened : feed pushByte new (hdlc.stuff (r.body ++ [~~~sum r.body])) =
      .ok (⟨r.body ++ [~~~sum r.body], false⟩, []) := unstuffs.feed_stuff [] _
  have closed : pushByte ⟨r.body ++ [~~~sum r.body], false⟩ FLAG =
      .ok (new, some (.ok r.received)) := by
    have decoded := decodeFrame_body r
    simp [pushByte, decoded, new, bind, Except.bind, pure, Except.pure]
  exact feed_append_ok opened (feed_cons_ok closed rfl)

theorem pushBytes_frames (records : List QsRecord) :
    pushBytes new (records.flatMap Tracer.buildFrame) =
      .ok (new, records.map fun r => .ok r.received) := by
  have each : ∀ (d : HdlcDecoder) (r : QsRecord), d = new →
      ∃ t, t = new ∧ feed pushByte d (Tracer.buildFrame r) = .ok (t, [.ok r.received]) := by
    intro d r start
    rw [start]
    exact ⟨new, rfl, pushBytes_frame r⟩
  obtain ⟨t, ended, fed⟩ := feed_segments each rfl records
  rw [ended, ← List.map_eq_flatMap] at fed
  exact fed

/-- Whatever stands in the place of a frame, only that frame and the next one can be lost: the flag
at the end of the next one resets the decoder. -/
theorem pushBytes_damaged (records : List QsRecord) (k : Nat) (damage : List UInt8) :
    ∃ d lost, pushBytes new ((records.take k).flatMap Tracer.buildFrame ++ damage ++
        (records.drop (k + 1)).flatMap Tracer.buildFrame) =
      .ok (d, ((records.take k).map fun r => .ok r.received) ++ lost ++
        (records.drop (k + 2)).map fun r => .ok r.received) := by
  have before := pushBytes_frames (records.take k)
  have tail : records.drop (k + 2) = (records.drop (k + 1)).drop 1 := by rw [List.drop_drop]
  rw [tail]
  cases records.drop (k + 1) with
  | nil =>
      obtain ⟨d, lost, fed⟩ := feed_returns pushByte_returns new damage
      refine ⟨d, lost, ?_⟩
      simp only [List.flatMap_nil, List.drop_nil, List.map_nil, List.append_nil]
      exact feed_append_ok before fed
  | cons next rest =>
      obtain ⟨lost, fed⟩ := feed_delimited pushByte_returns pushByte_flag new
        (damage ++ hdlc.stuff (next.body ++ [~~~sum next.body]))
      refine ⟨new, lost, ?_⟩
      rw [List.flatMap_cons, Tracer.buildFrame_eq, List.append_assoc, ← List.append_assoc damage,
        ← List.append_assoc damage, ← List.append_assoc]
      exact feed_append_ok (feed_append_ok before fed) (pushBytes_frames rest)

theorem pushBytes_noise (d : HdlcDecoder) (g : List UInt8) :
    ∃ noise, pushBytes d (g ++ [FLAG]) = .ok (new, noise) :=
  feed_delimited pushByte_returns pushByte_flag d g

/-- After noise and a flag every frame is decoded, from every state of the decoder; damage to the
bytes of one frame costs at most that frame and the next. -/
theorem stream_resynchronises (d : HdlcDecoder) (g : List UInt8) (records : List QsRecord) :
    ∃ noise, pushBytes d (g ++ [FLAG]) = .ok (new, noise) ∧
      pushBytes d (g ++ [FLAG] ++ records.flatMap Tracer.buildFrame) =
        .ok (new, noise ++ records.map fun r => .ok r.received) ∧
      ∀ (k : Nat) (damage : List UInt8), ∃ t lost,
        pushBytes new ((records.take k).flatMap Tracer.buildFrame ++ damage ++
            (records.drop (k + 1)).flatMap Tracer.buildFrame) =
          .ok (t, ((records.take k).map fun r => .ok r.received) ++ lost ++
            (records.drop (k + 2)).map fun r => .ok r.received) ∧
        pushBytes d (g ++ [FLAG] ++ ((records.take k).flatMap Tracer.buildFrame ++ damage ++
            (records.drop (k + 1)).flatMap Tracer.buildFrame)) =
          .ok (t, noise ++ (((records.take k).map fun r => .ok r.received) ++ lost ++
            (records.drop (k + 2)).map fun r => .ok r.received)) := by
  obtain ⟨noise, cleared⟩ := pushBytes_noise d g
  refine ⟨noise, cleared, feed_append_ok cleared (pushBytes_frames records), ?_⟩
  intro k damage
  obtain ⟨t, lost, fed⟩ := pushBytes_damaged records k damage
  exact ⟨t, lost, fed, feed_append_ok cleared fed⟩

/-- Every run of the tracer is read back by the host, however its bytes arrive: one frame for each
record that passes, numbered on from the tracer's count, and nothing for the others. -/
theorem transmit_roundtrip {β : Type} [TraceBackend β] (sink : Accepting β) (std : Bool)
    (t : Tracer β) (calls : List Tracer.Call) :
    (∃ frames, sink.written (t.run std calls).backend = sink.written t.backend ++ frames ∧
      ∀ chunks : List (List UInt8), chunks.flatten = frames.flatten →
        pushChunks new chunks = .ok (new, (passed std t.cfg t.filter calls).mapIdx fun i p =>
          .ok ⟨t.seq + UInt8.ofNat (i + 1), p.recordType, p.content⟩)) ∧
    ∀ recordType payload withTimestamp elapsed, ¬Passes t.filter t.cfg recordType payload →
      (t.record std recordType payload withTimestamp elapsed).2 = t := by
  constructor
  · have numbered := pushBytes_frames ((passed std t.cfg t.filter calls).mapIdx fun i p =>
      p.numbered (t.seq + UInt8.ofNat (i + 1)))
    refine ⟨_, Tracer.run_written sink std t calls, ?_⟩
    intro chunks cut
    have same : chunks.flatten = ((passed std t.cfg t.filter calls).mapIdx fun i p =>
        p.numbered (t.seq + UInt8.ofNat (i + 1))).flatMap Tracer.buildFrame := by
      rw [cut, List.flatMap_def, List.mapIdx_eq_zipIdx_map, List.mapIdx_eq_zipIdx_map,
        List.map_map]
      rfl
    rw [pushChunks, feedChunks_eq, same]
    rw [pushBytes, List.mapIdx_eq_zipIdx_map, List.map_map] at numbered
    simp only [Function.comp_def, QsRecord.received, Passed.numbered, stamp_append] at numbered
    rw [List.mapIdx_eq_zipIdx_map, List.mapIdx_eq_zipIdx_map]
    exact numbered
  · intro recordType payload withTimestamp elapsed refused
    exact Tracer.record_refused std t withTimestamp elapsed refused

end HdlcDecoder

/-- A backend that keeps the frames it is given. -/
structure CaptureBackend where
  frames : List (List UInt8)
  deriving DecidableEq, Repr

namespace CaptureBackend

instance : TraceBackend CaptureBackend where
  writeFrame b frame := (.ok (), ⟨b.frames ++ [frame]⟩)

def accepting : Accepting CaptureBackend where
  written := frames
  accepts _ _ := rfl
  keeps _ _ := rfl

def tracer : Tracer CaptureBackend := Tracer.new {} ⟨[]⟩

def denyAll : GlbFilter := ⟨Vector.replicate 4 0⟩

/-- A payload that must be stuffed, a record under a closed filter, one that is too long, and a
record without a timestamp. -/
def calls : List Tracer.Call :=
  [.record 0x42 [0x7E, 0x7D] true (some ⟨1, 5000, by decide⟩), .setFilter denyAll,
    .record 0x43 [1] true none, .setFilter .allowAll,
    .record 0x44 (List.replicate 65 0) false none, .record 0x45 [0xCA] false none]

theorem captured_roundtrip :
    (∃ frames, (tracer.run true calls).backend.frames = [] ++ frames ∧
      HdlcDecoder.pushChunks .new (frames.flatten.map fun b => [b]) =
        .ok (.new, [.ok ⟨1, 0x42, [0x45, 0x42, 0x0F, 0, 0x7E, 0x7D]⟩, .ok ⟨2, 0x45, [0xCA]⟩])) ∧
    (tracer.record true 0x44 (List.replicate 65 0) false none).2 = tracer := by
  obtain ⟨⟨frames, wrote, decoded⟩, refused⟩ :=
    HdlcDecoder.transmit_roundtrip accepting true tracer calls
  have cut : (frames.flatten.map fun b => [b]).flatten = frames.flatten := by
    rw [← List.flatMap_def]
    exact List.flatMap_singleton' _
  refine ⟨⟨frames, wrote, (decoded _ cut).trans ?_⟩, refused 0x44 _ false none (by decide)⟩
  decide +kernel

end CaptureBackend

end QpRs.Qs
