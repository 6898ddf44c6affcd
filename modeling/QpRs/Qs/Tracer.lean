import QpRs.Lib.Bytes
import QpRs.Qs.Hdlc

/-! The QS tracer: the global filter, the record check and the frame encoder. -/

namespace QpRs.Qs

open QpRs.Lib

structure GlbFilter where
  bits : Vector UInt64 4
  deriving DecidableEq, Repr

namespace GlbFilter

def allowAll : GlbFilter := ⟨Vector.replicate 4 0xFFFFFFFFFFFFFFFF⟩

def addr (record : UInt8) : Fin 4 × UInt64 :=
  (⟨record.toNat / 64, by
    have bound := record.toNat_lt
    omega⟩, UInt64.ofNat (record.toNat % 64))

def isAllowed (f : GlbFilter) (record : UInt8) : Bool :=
  let (word, bit) := addr record
  (f.bits[word] >>> bit) &&& 1 != 0

end GlbFilter

/-- A span of time with its whole seconds apart. -/
structure Duration where
  secs : UInt64
  nanos : UInt32
  nanos_lt : nanos < 1000000000
  deriving DecidableEq, Repr

namespace Duration

def zero : Duration := ⟨0, 0, by decide⟩

def asMicros (d : Duration) : Nat := d.secs.toNat * 1000000 + d.nanos.toNat / 1000

end Duration

structure QsConfig where
  maxRecordLen : Nat := 64
  includeTimestamp : Bool := true
  deriving DecidableEq, Repr

structure QsRecord where
  seq : UInt8
  recordType : UInt8
  timestamp : Option Duration
  payload : List UInt8
  deriving DecidableEq, Repr

inductive TraceError where
  | payloadTooLarge (size : Nat)
  | backend
  deriving DecidableEq, Repr

/-- What consumes the framed bytes; the state is the one behind the shared reference. -/
class TraceBackend (β : Type) where
  writeFrame : β → List UInt8 → Except TraceError Unit × β

/-- A backend that takes every frame; `written` reads off the frames it took. -/
structure Accepting (β : Type) [TraceBackend β] where
  written : β → List (List UInt8)
  accepts : ∀ (b : β) frame, (TraceBackend.writeFrame b frame).1 = .ok ()
  keeps : ∀ (b : β) frame, written (TraceBackend.writeFrame b frame).2 = written b ++ [frame]

/-- The bytes of the timestamp in a frame: the microseconds as a `u32`, least byte first. -/
def stamp (timestamp : Option Duration) : List UInt8 :=
  match timestamp with
  | none => []
  | some ts => toLeBytes 4 (UInt32.ofNat ts.asMicros).toNat

structure Tracer (β : Type) where
  backend : β
  cfg : QsConfig
  seq : UInt8
  filter : GlbFilter

namespace Tracer

variable {β : Type}

def new (cfg : QsConfig) (backend : β) : Tracer β :=
  { backend := backend, cfg := cfg, seq := 0, filter := .allowAll }

def setFilter (t : Tracer β) (filter : GlbFilter) : Tracer β := { t with filter := filter }

def pushEscaped (out : List UInt8 × UInt8) (byte : UInt8) : List UInt8 × UInt8 :=
  (pushLiteral out.1 byte, out.2 + byte)

def buildFrame (record : QsRecord) : List UInt8 :=
  let header := pushEscaped (pushEscaped ([], 0) record.seq) record.recordType
  let stamped := (stamp record.timestamp).foldl pushEscaped header
  let (bytes, checksum) := record.payload.foldl pushEscaped stamped
  pushLiteral bytes (~~~checksum) ++ [FLAG]

/-- The timestamp of a record. `elapsed` is what the clock gives for the time since the epoch, none
when it went backwards; a build without `std` has no clock. -/
def capture (std : Bool) (cfg : QsConfig) (withTimestamp : Bool) (elapsed : Option Duration) :
    Option Duration :=
  if cfg.includeTimestamp && withTimestamp then
    if std then some (elapsed.getD .zero) else none
  else
    none

def record [TraceBackend β] (std : Bool) (t : Tracer β) (recordType : UInt8)
    (payload : List UInt8) (withTimestamp : Bool) (elapsed : Option Duration) :
    Except TraceError QsRecord × Tracer β :=
  if !t.filter.isAllowed recordType then
    (.ok { seq := t.seq, recordType := recordType, timestamp := none, payload := [] }, t)
  else if payload.length > t.cfg.maxRecordLen then
    (.error (.payloadTooLarge payload.length), t)
  else
    let timestamp := capture std t.cfg withTimestamp elapsed
    let t := { t with seq := t.seq + 1 }
    let made : QsRecord :=
      { seq := t.seq, recordType := recordType, timestamp := timestamp, payload := payload }
    let (outcome, backend) := TraceBackend.writeFrame t.backend (buildFrame made)
    let t := { t with backend := backend }
    match outcome with
    | .error e => (.error e, t)
    | .ok () => (.ok made, t)

/-- One call of a run; the clock readings come with the records. -/
inductive Call where
  | setFilter (filter : GlbFilter)
  | record (recordType : UInt8) (payload : List UInt8) (withTimestamp : Bool)
      (elapsed : Option Duration)
  deriving DecidableEq, Repr

def call [TraceBackend β] (std : Bool) (t : Tracer β) : Call → Tracer β
  | .setFilter filter => t.setFilter filter
  | .record recordType payload withTimestamp elapsed =>
      (t.record std recordType payload withTimestamp elapsed).2

def run [TraceBackend β] (std : Bool) (t : Tracer β) (calls : List Call) : Tracer β :=
  calls.foldl (call std) t

end Tracer

/-! What a run should put on the wire. -/

/-- A record that passed both checks, before it is numbered. -/
structure Passed where
  recordType : UInt8
  timestamp : Option Duration
  payload : List UInt8
  deriving DecidableEq, Repr

/-- What the host should see of a record: the microseconds modulo `2 ^ 32` in four little-endian
bytes when there is a timestamp, then the payload. -/
def Passed.content (p : Passed) : List UInt8 :=
  match p.timestamp with
  | none => p.payload
  | some ts => toLeBytes 4 (ts.asMicros % 2 ^ 32) ++ p.payload

def Passed.numbered (p : Passed) (seq : UInt8) : QsRecord :=
  ⟨seq, p.recordType, p.timestamp, p.payload⟩

def Passes (filter : GlbFilter) (cfg : QsConfig) (recordType : UInt8) (payload : List UInt8) :
    Prop :=
  filter.isAllowed recordType = true ∧ payload.length ≤ cfg.maxRecordLen
  deriving Decidable

/-- The records of a run that pass, each under the filter in force at its call. -/
def passed (std : Bool) (cfg : QsConfig) : GlbFilter → List Tracer.Call → List Passed
  | _, [] => []
  | _, .setFilter filter :: rest => passed std cfg filter rest
  | filter, .record recordType payload withTimestamp elapsed :: rest =>
      if Passes filter cfg recordType payload then
        ⟨recordType, Tracer.capture std cfg withTimestamp elapsed, payload⟩ ::
          passed std cfg filter rest
      else
        passed std cfg filter rest

/-- The bytes under the stuffing: sequence number, type, timestamp and payload. -/
def QsRecord.body (r : QsRecord) : List UInt8 :=
  r.seq :: r.recordType :: (stamp r.timestamp ++ r.payload)

theorem stamp_append (p : Passed) : stamp p.timestamp ++ p.payload = p.content := by
  cases taken : p.timestamp with
  | none => simp only [stamp, Passed.content, taken, List.nil_append]
  | some ts => simp only [stamp, Passed.content, taken, UInt32.toNat_ofNat']

namespace Tracer

variable {β : Type}

theorem foldl_pushEscaped (out : List UInt8 × UInt8) (bytes : List UInt8) :
    bytes.foldl pushEscaped out = (out.1 ++ hdlc.stuff bytes, out.2 + sum bytes) := by
  induction bytes generalizing out with
  | nil => exact Prod.ext (List.append_nil _).symm (UInt8.add_zero _).symm
  | cons b rest ih =>
      rw [List.foldl_cons, ih, pushEscaped, pushLiteral_eq, sum_cons]
      exact Prod.ext (List.append_assoc _ _ _) (UInt8.add_assoc _ _ _)

theorem buildFrame_eq (r : QsRecord) :
    buildFrame r = hdlc.stuff (r.body ++ [~~~sum r.body]) ++ [FLAG] := by
  have pushed : r.payload.foldl pushEscaped ((stamp r.timestamp).foldl pushEscaped
      (pushEscaped (pushEscaped ([], 0) r.seq) r.recordType)) =
      (hdlc.stuff r.body, sum r.body) := by
    rw [← List.foldl_append]
    change r.body.foldl pushEscaped ([], 0) = _
    rw [foldl_pushEscaped]
    exact Prod.ext rfl (UInt8.zero_add _)
  have last : hdlc.stuff [~~~sum r.body] = hdlc.stuffByte (~~~sum r.body) := List.append_nil _
  simp only [buildFrame, pushed]
  rw [pushLiteral_eq, Stuffing.stuff_append, last]

variable [TraceBackend β]

theorem record_refused (std : Bool) (t : Tracer β) {recordType : UInt8} {payload : List UInt8}
    (withTimestamp : Bool) (elapsed : Option Duration)
    (refused : ¬Passes t.filter t.cfg recordType payload) :
    (t.record std recordType payload withTimestamp elapsed).2 = t := by
  by_cases allowed : t.filter.isAllowed recordType = true
  · have long : payload.length > t.cfg.maxRecordLen := by
      by_contra short
      exact refused ⟨allowed, Nat.le_of_not_lt short⟩
    simp only [record, allowed, Bool.not_true, Bool.false_eq_true, if_false, long, if_true]
  · simp only [record, allowed, Bool.not_false, if_true]

theorem record_passes (sink : Accepting β) (std : Bool) (t : Tracer β) {recordType : UInt8}
    {payload : List UInt8} (withTimestamp : Bool) (elapsed : Option Duration)
    (passes : Passes t.filter t.cfg recordType payload) :
    (t.record std recordType payload withTimestamp elapsed).2 =
      { t with
        seq := t.seq + 1
        backend := (TraceBackend.writeFrame t.backend (buildFrame
          ⟨t.seq + 1, recordType, capture std t.cfg withTimestamp elapsed, payload⟩)).2 } := by
  have short : ¬payload.length > t.cfg.maxRecordLen := Nat.not_lt.mpr passes.2
  simp only [record, passes.1, Bool.not_true, Bool.false_eq_true, if_false, short, sink.accepts]

/-- The frames of a run are those of the records that pass, numbered one after the other. -/
theorem run_written (sink : Accepting β) (std : Bool) (t : Tracer β) (calls : List Call) :
    sink.written (t.run std calls).backend = sink.written t.backend ++
      (passed std t.cfg t.filter calls).mapIdx fun i p =>
        buildFrame (p.numbered (t.seq + UInt8.ofNat (i + 1))) := by
  induction calls generalizing t with
  | nil => exact (List.append_nil _).symm
  | cons c rest ih =>
      cases c with
      | setFilter filter => exact ih (t.setFilter filter)
      | record recordType payload withTimestamp elapsed =>
          have unrolled : t.run std (.record recordType payload withTimestamp elapsed :: rest) =
              (t.record std recordType payload withTimestamp elapsed).2.run std rest := rfl
          rw [unrolled, ih]
          by_cases passes : Passes t.filter t.cfg recordType payload
          · have counted : ∀ i : Nat,
                t.seq + 1 + UInt8.ofNat (i + 1) = t.seq + UInt8.ofNat (i + 1 + 1) := by
              intro i
              rw [UInt8.ofNat_add (i + 1) 1, UInt8.add_comm (UInt8.ofNat (i + 1)), UInt8.add_assoc]
              rfl
            rw [record_passes sink std t withTimestamp elapsed passes, sink.keeps,
              List.append_assoc, List.singleton_append]
            simp only [passed, passes, if_true, List.mapIdx_cons, counted]
            rfl
          · rw [record_refused std t withTimestamp elapsed passes]
            simp only [passed, passes, if_false]

end Tracer

end QpRs.Qs
