import QpRs.Qs.Reads
import QpRs.Qs.Records

/-! The trace records of time events (`qf/src/time.rs`) and of the semaphores and mutexes of QXK
(`qxk/src/primitives.rs`), against the handlers of the host. -/

namespace QpRs.Qs

open QpRs.Lib

/-- `truncate_u16`: a count that is too large stays at the largest. -/
def truncateU16 (value : UInt64) : UInt16 := UInt16.ofNat (min value.toNat 65535)

structure TimeEventTraceInfo where
  timeEventAddr : UInt64
  targetAddr : UInt64
  tickRate : UInt8
  deriving DecidableEq, Repr

namespace Emission

def QS_QF_TIMEEVT_ARM : UInt8 := 32
def QS_QF_TIMEEVT_AUTO_DISARM : UInt8 := 33
def QS_QF_TIMEEVT_DISARM_ATTEMPT : UInt8 := 34
def QS_QF_TIMEEVT_DISARM : UInt8 := 35
def QS_QF_TIMEEVT_REARM : UInt8 := 36
def QS_QF_TIMEEVT_POST : UInt8 := 37

/-- The three records of a time event with its counters. -/
def emitCounted (record : UInt8) (info : TimeEventTraceInfo) (count interval : UInt64) : Emission :=
  ⟨record, ptr info.timeEventAddr ++ (ptr info.targetAddr ++
    (toLeBytes 2 (truncateU16 count).toNat ++ (toLeBytes 2 (truncateU16 interval).toNat ++
      [info.tickRate]))), true⟩

def emitArm (info : TimeEventTraceInfo) (nTicks interval : UInt64) : Emission :=
  emitCounted QS_QF_TIMEEVT_ARM info nTicks interval

def emitDisarm (info : TimeEventTraceInfo) (remaining interval : UInt64) : Emission :=
  emitCounted QS_QF_TIMEEVT_DISARM info remaining interval

def emitRearm (info : TimeEventTraceInfo) (nTicks interval : UInt64) : Emission :=
  emitCounted QS_QF_TIMEEVT_REARM info nTicks interval

def emitDisarmAttempt (info : TimeEventTraceInfo) : Emission :=
  ⟨QS_QF_TIMEEVT_DISARM_ATTEMPT, ptr info.timeEventAddr ++ (ptr info.targetAddr ++
    [info.tickRate]), true⟩

def emitAutoDisarm (info : TimeEventTraceInfo) : Emission :=
  ⟨QS_QF_TIMEEVT_AUTO_DISARM, ptr info.timeEventAddr ++ (ptr info.targetAddr ++
    [info.tickRate]), false⟩

def emitPost (info : TimeEventTraceInfo) (signal : Signal) : Emission :=
  ⟨QS_QF_TIMEEVT_POST, ptr info.timeEventAddr ++ (sig signal ++ (ptr info.targetAddr ++
    [info.tickRate])), true⟩

/-- `Semaphore::emit`. -/
def semaphoreEmit (recordId : UInt8) (inner : UInt64) (threadPrio : UInt8) (count : UInt64) :
    Emission :=
  ⟨recordId, ptr inner ++ ([threadPrio] ++ toLeBytes 2 (truncateU16 count).toNat), true⟩

/-- `MutexPrim::emit`. -/
def mutexEmit (recordId : UInt8) (inner : UInt64) (threadPrio : UInt8) : Emission :=
  ⟨recordId, ptr inner ++ [threadPrio], true⟩

end Emission

inductive TimerRecord where
  | arm (nTicks interval : UInt64)
  | disarm (remaining interval : UInt64)
  | rearm (nTicks interval : UInt64)
  | disarmAttempt
  | autoDisarm
  | post (signal : UInt16)
  deriving DecidableEq, Repr

inductive SemRecord where
  | take
  | block
  | signal
  deriving DecidableEq, Repr

inductive MtxRecord where
  | lock
  | block
  | unlock
  deriving DecidableEq, Repr

/-- One call of a function that emits, with the values it is given. -/
inductive ServiceRecord where
  | timer (info : TimeEventTraceInfo) (record : TimerRecord)
  | sem (record : SemRecord) (inner : UInt64) (threadPrio : UInt8) (count : UInt64)
  | mtx (record : MtxRecord) (inner : UInt64) (threadPrio : UInt8)
  deriving DecidableEq, Repr

namespace TimerRecord

def emission (info : TimeEventTraceInfo) : TimerRecord → Emission
  | .arm nTicks interval => .emitArm info nTicks interval
  | .disarm remaining interval => .emitDisarm info remaining interval
  | .rearm nTicks interval => .emitRearm info nTicks interval
  | .disarmAttempt => .emitDisarmAttempt info
  | .autoDisarm => .emitAutoDisarm info
  | .post signal => .emitPost info ⟨signal.toNat⟩

/-- The line that tells the values that were emitted. -/
def line (it : FrameInterpreter) (ts : UInt64) (info : TimeEventTraceInfo) : TimerRecord → String
  | .arm nTicks interval => counted "Arm " nTicks interval
  | .disarm remaining interval => counted "Dis " remaining interval
  | .rearm nTicks interval => counted "Rarm" nTicks interval
  | .disarmAttempt =>
      let timer := it.objStr info.timeEventAddr
      let target := it.objStr info.targetAddr
      s!"{timeText ts} TE{info.tickRate}-DisA Obj={timer},AO={target}"
  | .autoDisarm =>
      let timer := it.objStr info.timeEventAddr
      let target := it.objStr info.targetAddr
      s!"           TE{info.tickRate}-ADis Obj={timer},AO={target}"
  | .post signal =>
      let timer := it.objStr info.timeEventAddr
      let target := it.objStr info.targetAddr
      s!"{timeText ts} TE{info.tickRate}-Post Obj={timer}," ++
        s!"Sig={it.sigStr signal.toUInt64 info.targetAddr},AO={target}"
where
  counted (label : String) (count interval : UInt64) : String :=
    let timer := it.objStr info.timeEventAddr
    let target := it.objStr info.targetAddr
    s!"{timeText ts} TE{info.tickRate}-{label} Obj={timer},AO={target}," ++
      s!"Tim={min count.toNat 65535},Int={min interval.toNat 65535}"

end TimerRecord

namespace SemRecord

def recordId : SemRecord → UInt8
  | .take => qxk.SEM_TAKE
  | .block => qxk.SEM_BLOCK
  | .signal => qxk.SEM_SIGNAL

def label : SemRecord → String
  | .take => "Sem-Take "
  | .block => "Sem-Blk  "
  | .signal => "Sem-Sig  "

end SemRecord

namespace MtxRecord

def recordId : MtxRecord → UInt8
  | .lock => qxk.MTX_LOCK
  | .block => qxk.MTX_BLOCK
  | .unlock => qxk.MTX_UNLOCK

def label : MtxRecord → String
  | .lock => "Mtx-Lock "
  | .block => "Mtx-Blk  "
  | .unlock => "Mtx-Unlk "

end MtxRecord

namespace ServiceRecord

def emission : ServiceRecord → Emission
  | .timer info record => record.emission info
  | .sem record inner threadPrio count => .semaphoreEmit record.recordId inner threadPrio count
  | .mtx record inner threadPrio => .mutexEmit record.recordId inner threadPrio

def line (it : FrameInterpreter) (ts : UInt64) : ServiceRecord → String
  | .timer info record => record.line it ts info
  | .sem record inner threadPrio count =>
      let shown := min count.toNat 65535
      s!"{timeText ts} {record.label} Obj={it.objStr inner},Pri={threadPrio},Cnt={shown}"
  | .mtx record inner threadPrio =>
      s!"{timeText ts} {record.label} Obj={it.objStr inner},Pri={threadPrio}"

end ServiceRecord

/-- Pointers of eight bytes, signals and counters of time events of two, timestamps of four. -/
structure TargetSizes.Wide (sizes : TargetSizes) : Prop where
  time : sizes.timeSize = 4
  obj : sizes.objPtrSize = 8
  signal : sizes.signalSize = 2
  timeevt : sizes.timeevtCtr = 2

theorem toNat_truncateU16 (value : UInt64) : (truncateU16 value).toNat = min value.toNat 65535 := by
  have bound : min value.toNat 65535 < 2 ^ 16 := by omega
  exact UInt16.toNat_ofNat_of_lt' bound

theorem toString_truncateU16 (value : UInt64) :
    toString (truncateU16 value) = toString (min value.toNat 65535) := by
  rw [← toNat_truncateU16]
  rfl

theorem toString_counter (value : UInt64) :
    toString (truncateU16 value).toUInt64 = toString (min value.toNat 65535) := by
  rw [← toNat_truncateU16]
  rfl

namespace FrameInterpreter

open Cursor

variable {it : FrameInterpreter} (wide : it.sizes.Wide)
include wide

theorem takes_readTime (d : Duration) :
    Takes Cursor.Holds (stamp (some d)) (micros d) it.readTime := by
  rw [readTime, wide.time]
  exact takes_readSized_four (UInt32.ofNat d.asMicros)

theorem takes_readObj (address : UInt64) :
    Takes Cursor.Holds (Emission.ptr address) address it.readObj := by
  rw [readObj, wide.obj]
  exact takes_readSized_eight address

theorem takes_readSig (signal : UInt16) :
    Takes Cursor.Holds (Emission.sig ⟨signal.toNat⟩) signal.toUInt64 it.readSig := by
  rw [readSig, wide.signal]
  exact takes_readSized_two signal

theorem takes_counter (count : UInt64) :
    Takes Cursor.Holds (toLeBytes 2 (truncateU16 count).toNat) (truncateU16 count).toUInt64
      (readSized it.sizes.timeevtCtr) := by
  rw [wide.timeevt]
  exact takes_readSized_two (truncateU16 count)

theorem handleTimeEvtCounted_reads (d : Duration) (record : UInt8) (info : TimeEventTraceInfo)
    (count interval : UInt64) (label : String) :
    it.handleTimeEvtCounted (stamp (some d) ++ (Emission.emitCounted record info count
        interval).payload) label =
      [TimerRecord.line.counted it (micros d) info label count interval] := by
  rw [TimerRecord.line.counted, ← toString_counter count, ← toString_counter interval]
  rw [handleTimeEvtCounted, Emission.emitCounted]
  apply reading_takes
  refine (takes_readTime wide d).bind ?_
  refine (takes_readObj wide info.timeEventAddr).bind ?_
  refine (takes_readObj wide info.targetAddr).bind ?_
  refine (takes_counter wide count).bind ?_
  refine (takes_counter wide interval).bind ?_
  exact (takes_readU8 info.tickRate).last rfl

theorem handleTimeEvtDisarmAttempt_reads (d : Duration) (info : TimeEventTraceInfo) :
    it.handleTimeEvtDisarmAttempt (stamp (some d) ++ (Emission.emitDisarmAttempt info).payload) =
      [TimerRecord.disarmAttempt.line it (micros d) info] := by
  apply reading_takes
  refine (takes_readTime wide d).bind ?_
  refine (takes_readObj wide info.timeEventAddr).bind ?_
  refine (takes_readObj wide info.targetAddr).bind ?_
  exact (takes_readU8 info.tickRate).last rfl

/-- The one record without a timestamp, and the one reader that reads none. -/
theorem handleTimeEvtAutoDisarm_reads (ts : UInt64) (info : TimeEventTraceInfo) :
    it.handleTimeEvtAutoDisarm (stamp none ++ (Emission.emitAutoDisarm info).payload) =
      [TimerRecord.autoDisarm.line it ts info] := by
  apply reading_takes
  refine (takes_readObj wide info.timeEventAddr).bind ?_
  refine (takes_readObj wide info.targetAddr).bind ?_
  exact (takes_readU8 info.tickRate).last rfl

theorem handleTimeEvtPost_reads (d : Duration) (info : TimeEventTraceInfo) (signal : UInt16) :
    it.handleTimeEvtPost (stamp (some d) ++ (Emission.emitPost info ⟨signal.toNat⟩).payload) =
      [(TimerRecord.post signal).line it (micros d) info] := by
  apply reading_takes
  refine (takes_readTime wide d).bind ?_
  refine (takes_readObj wide info.timeEventAddr).bind ?_
  refine (takes_readSig wide signal).bind ?_
  refine (takes_readObj wide info.targetAddr).bind ?_
  exact (takes_readU8 info.tickRate).last rfl

/-- The primitives of QXK are read with fixed sizes, whatever the target's pointers are. -/
theorem handleSem_reads (d : Duration) (record : SemRecord) (inner : UInt64) (threadPrio : UInt8)
    (count : UInt64) :
    it.handleSem (stamp (some d) ++ (Emission.semaphoreEmit record.recordId inner threadPrio
        count).payload) record.label =
      [(ServiceRecord.sem record inner threadPrio count).line it (micros d)] := by
  rw [ServiceRecord.line, ← toString_truncateU16]
  apply reading_takes
  refine (takes_readTime wide d).bind ?_
  refine (takes_readU64 inner).bind ?_
  refine (takes_readU8 threadPrio).bind ?_
  exact (takes_readU16 (truncateU16 count)).last rfl

theorem handleMtx_reads (d : Duration) (record : MtxRecord) (inner : UInt64) (threadPrio : UInt8) :
    it.handleMtx (stamp (some d) ++ (Emission.mutexEmit record.recordId inner threadPrio).payload)
        record.label =
      [(ServiceRecord.mtx record inner threadPrio).line it (micros d)] := by
  apply reading_takes
  refine (takes_readTime wide d).bind ?_
  refine (takes_readU64 inner).bind ?_
  exact (takes_readU8 threadPrio).last rfl

variable {others : FrameInterpreter → QsFrame → FrameInterpreter × List String} {frame : QsFrame}

theorem handle_timer {d : Duration} (info : TimeEventTraceInfo) (record : TimerRecord)
    (kind : frame.recordType = (record.emission info).recordType)
    (content : frame.payload =
      stamp (if (record.emission info).withTimestamp then some d else none) ++
        (record.emission info).payload) :
    (it.handle others frame).2 = [record.line it (micros d) info] := by
  have found := handle_of_lookup others it kind content
  cases record with
  | arm nTicks interval =>
      rw [found time_evt.ARM handleTimeEvtArm rfl (by decide) rfl]
      exact handleTimeEvtCounted_reads wide d _ info nTicks interval _
  | disarm remaining interval =>
      rw [found time_evt.DISARM handleTimeEvtDisarm rfl (by decide) rfl]
      exact handleTimeEvtCounted_reads wide d _ info remaining interval _
  | rearm nTicks interval =>
      rw [found time_evt.REARM handleTimeEvtRearm rfl (by decide) rfl]
      exact handleTimeEvtCounted_reads wide d _ info nTicks interval _
  | disarmAttempt =>
      rw [found time_evt.DISARM_ATTEMPT handleTimeEvtDisarmAttempt rfl (by decide) rfl]
      exact handleTimeEvtDisarmAttempt_reads wide d info
  | autoDisarm =>
      rw [found time_evt.AUTO_DISARM handleTimeEvtAutoDisarm rfl (by decide) rfl]
      exact handleTimeEvtAutoDisarm_reads wide (micros d) info
  | post signal =>
      rw [found time_evt.POST handleTimeEvtPost rfl (by decide) rfl]
      exact handleTimeEvtPost_reads wide d info signal

theorem handle_sem {d : Duration} (record : SemRecord) (inner : UInt64) (threadPrio : UInt8)
    (count : UInt64) (kind : frame.recordType = record.recordId)
    (content : frame.payload = stamp (some d) ++
      (Emission.semaphoreEmit record.recordId inner threadPrio count).payload) :
    (it.handle others frame).2 =
      [(ServiceRecord.sem record inner threadPrio count).line it (micros d)] := by
  rw [← handleSem_reads wide d record inner threadPrio count]
  have found := @handle_of_lookup frame others it
    (Emission.semaphoreEmit record.recordId inner threadPrio count) _ kind content
  cases record with
  | take => exact found qxk.SEM_TAKE (handleSem · · "Sem-Take ") rfl (by decide) rfl
  | block => exact found qxk.SEM_BLOCK (handleSem · · "Sem-Blk  ") rfl (by decide) rfl
  | signal => exact found qxk.SEM_SIGNAL (handleSem · · "Sem-Sig  ") rfl (by decide) rfl

theorem handle_mtx {d : Duration} (record : MtxRecord) (inner : UInt64) (threadPrio : UInt8)
    (kind : frame.recordType = record.recordId)
    (content : frame.payload = stamp (some d) ++
      (Emission.mutexEmit record.recordId inner threadPrio).payload) :
    (it.handle others frame).2 =
      [(ServiceRecord.mtx record inner threadPrio).line it (micros d)] := by
  rw [← handleMtx_reads wide d record inner threadPrio]
  have found := @handle_of_lookup frame others it
    (Emission.mutexEmit record.recordId inner threadPrio) _ kind content
  cases record with
  | lock => exact found qxk.MTX_LOCK (handleMtx · · "Mtx-Lock ") rfl (by decide) rfl
  | block => exact found qxk.MTX_BLOCK (handleMtx · · "Mtx-Blk  ") rfl (by decide) rfl
  | unlock => exact found qxk.MTX_UNLOCK (handleMtx · · "Mtx-Unlk ") rfl (by decide) rfl

end FrameInterpreter

/-- Every record of a time event, a semaphore or a mutex shows with the values it was emitted
with, its counts cut to 16 bits, and never as raw bytes. -/
theorem service_record_decoded {β : Type} [TraceBackend β] {t : Tracer β}
    (stamped : t.cfg.includeTimestamp = true) {it : FrameInterpreter} (wide : it.sizes.Wide)
    (others : FrameInterpreter → QsFrame → FrameInterpreter × List String) (r : ServiceRecord)
    (elapsed : Option Duration) {frame : QsFrame} (reached : r.emission.Reaches t elapsed frame) :
    (it.handle others frame).2 = [r.line it (micros (elapsed.getD .zero))] ∧
      (it.interpret others frame).2 = [r.line it (micros (elapsed.getD .zero))] := by
  obtain ⟨kind, content⟩ := reached.frame
  have timed : Tracer.capture true t.cfg r.emission.withTimestamp elapsed =
      if r.emission.withTimestamp then some (elapsed.getD .zero) else none := by
    simp only [Tracer.capture, stamped, Bool.true_and, if_true]
  rw [timed] at content
  have shown : (it.handle others frame).2 = [r.line it (micros (elapsed.getD .zero))] := by
    cases r with
    | timer info record => exact FrameInterpreter.handle_timer wide info record kind content
    | sem record inner threadPrio count =>
        exact FrameInterpreter.handle_sem wide record inner threadPrio count kind content
    | mtx record inner threadPrio =>
        exact FrameInterpreter.handle_mtx wide record inner threadPrio kind content
  refine ⟨shown, ?_⟩
  simp only [FrameInterpreter.interpret, shown, List.isEmpty_cons, Bool.false_eq_true, if_false]

theorem long_arm_decoded :
    (informedHost.handle noOthers ⟨1, 32, stamp (some .zero) ++
        (Emission.emitArm ⟨0x1000, 0x2000, 3⟩ 100000 7).payload⟩).2 =
      ["0000000000 TE3-Arm  Obj=0x0000000000001000,AO=0x0000000000002000,Tim=65535,Int=7"] := by
  have passes : Passes CaptureBackend.tracer.filter CaptureBackend.tracer.cfg
      (Emission.emitArm ⟨0x1000, 0x2000, 3⟩ 100000 7).recordType
      (Emission.emitArm ⟨0x1000, 0x2000, 3⟩ 100000 7).payload := by decide
  have reached := Emission.reaches CaptureBackend.accepting
    (ServiceRecord.timer ⟨0x1000, 0x2000, 3⟩ (.arm 100000 7)).emission CaptureBackend.tracer none
    passes
  have wide : informedHost.sizes.Wide := ⟨rfl, rfl, rfl, rfl⟩
  exact (service_record_decoded rfl wide noOthers _ none reached).1

end QpRs.Qs
