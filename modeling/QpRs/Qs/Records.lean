import QpRs.Active
import QpRs.Hsm.QHsm
import QpRs.Qs.Interpreter
import QpRs.Qxk.Scheduler

/-! The trace records of the state machines and the kernels, against the handlers of the host.

The state machines emit through `qf/src/hsm/trace.rs`, the kernels and their schedulers at the
places where the models of the kernels note a `Record`. Every emission goes through
`Tracer::record`, the wire and the host's decoder. -/

namespace QpRs.Qs

open QpRs.Lib QpRs.Hsm

/-- The arguments of one call of the trace hook. -/
structure Emission where
  recordType : UInt8
  payload : List UInt8
  withTimestamp : Bool
  deriving DecidableEq, Repr

namespace Emission

def QS_QEP_STATE_ENTRY : UInt8 := 1
def QS_QEP_STATE_EXIT : UInt8 := 2
def QS_QEP_STATE_INIT : UInt8 := 3
def QS_QEP_INIT_TRAN : UInt8 := 4
def QS_QEP_INTERN_TRAN : UInt8 := 5
def QS_QEP_TRAN : UInt8 := 6
def QS_QEP_IGNORED : UInt8 := 7
def QS_QEP_DISPATCH : UInt8 := 8
def QS_QEP_TRAN_HIST : UInt8 := 55

/-- `to_le_bytes` of an address on a 64-bit target. -/
def ptr (address : UInt64) : List UInt8 := toLeBytes 8 address.toNat

def sig (signal : Signal) : List UInt8 := toLeBytes 2 signal.val

def emitStateEntry (statePtr : UInt64) : Emission := ⟨QS_QEP_STATE_ENTRY, ptr statePtr, false⟩

def emitStateExit (statePtr : UInt64) : Emission := ⟨QS_QEP_STATE_EXIT, ptr statePtr, false⟩

def emitStateInit (statePtr : UInt64) : Emission := ⟨QS_QEP_STATE_INIT, ptr statePtr, false⟩

def emitInitTran (statePtr : UInt64) : Emission := ⟨QS_QEP_INIT_TRAN, ptr statePtr, false⟩

def emitDispatch (signal : Signal) (statePtr : UInt64) : Emission :=
  ⟨QS_QEP_DISPATCH, sig signal ++ ptr statePtr, true⟩

def emitInternTran (signal : Signal) (statePtr : UInt64) : Emission :=
  ⟨QS_QEP_INTERN_TRAN, sig signal ++ ptr statePtr, true⟩

def emitIgnored (signal : Signal) (statePtr : UInt64) : Emission :=
  ⟨QS_QEP_IGNORED, sig signal ++ ptr statePtr, true⟩

def emitTran (signal : Signal) (sourcePtr targetPtr : UInt64) : Emission :=
  ⟨QS_QEP_TRAN, sig signal ++ ptr sourcePtr ++ ptr targetPtr, true⟩

def emitTranHist (signal : Signal) (sourcePtr targetPtr : UInt64) : Emission :=
  ⟨QS_QEP_TRAN_HIST, sig signal ++ ptr sourcePtr ++ ptr targetPtr, true⟩

def ofQep : QepRecord UInt64 → Emission
  | .stateEntry state => emitStateEntry state
  | .stateExit state => emitStateExit state
  | .stateInit state => emitStateInit state
  | .initTran target => emitInitTran target
  | .dispatch signal state => emitDispatch signal state
  | .internTran signal state => emitInternTran signal state
  | .ignored signal state => emitIgnored signal state
  | .tran signal source target => emitTran signal source target
  | .tranHist signal source target => emitTranHist signal source target

/-- The models of the kernels keep a `u8` as a number. -/
def byte (n : Nat) : UInt8 := UInt8.ofNat n

/-- What `QvKernel` and `QkKernel` with its scheduler give the hook; the layouts are the same. -/
def ofRecord : Record → Emission
  | .lock previous ceiling => ⟨sched.LOCK, [byte previous, byte ceiling], true⟩
  | .unlock current value => ⟨sched.UNLOCK, [byte current, byte value], true⟩
  | .next prio previous => ⟨sched.NEXT, [byte prio, byte previous], true⟩
  | .idle previous => ⟨sched.IDLE, [byte previous], true⟩
  | .subscribe prio signal => ⟨12, [byte prio] ++ sig signal, true⟩
  | .unsubscribe prio signal => ⟨13, [byte prio] ++ sig signal, true⟩
  | .publish signal => ⟨26, sig signal, true⟩

def THREAD_NEXT : UInt8 := 100

def ofQxk : Qxk.Record → Emission
  | .lock ceiling => ⟨sched.LOCK, [byte ceiling], true⟩
  | .unlock current value => ⟨sched.UNLOCK, [byte current, byte value], true⟩
  | .next prio => ⟨sched.NEXT, [byte prio], true⟩
  | .threadNext id priority => ⟨THREAD_NEXT, [byte id.val, byte priority], true⟩
  | .idle => ⟨sched.IDLE, [], true⟩

end Emission

structure TargetInfo where
  isReset : UInt8 := 0xFF
  version : UInt16 := 740
  signalSize : UInt8 := 2
  eventSize : UInt8 := 2
  equeueCtrSize : UInt8 := 2
  timeEvtCtrSize : UInt8 := 2
  mpoolSizeSize : UInt8 := 2
  mpoolCtrSize : UInt8 := 2
  objPtrSize : UInt8 := 8
  funPtrSize : UInt8 := 8
  timeSize : UInt8 := 4
  maxActive : UInt8 := 16
  maxEventPools : UInt8 := 3
  maxTickRate : UInt8 := 4
  buildTime : UInt8 × UInt8 × UInt8 := (11, 13, 21)
  buildDate : UInt8 × UInt8 × UInt8 := (18, 10, 25)
  deriving DecidableEq, Repr

def targetInfoPayload (info : TargetInfo) : List UInt8 :=
  let (hour, minute, second) := info.buildTime
  let (day, month, year) := info.buildDate
  [info.isReset] ++ toLeBytes 2 info.version.toNat ++
    [info.signalSize ||| (info.eventSize <<< 4),
      info.equeueCtrSize ||| (info.timeEvtCtrSize <<< 4),
      info.mpoolSizeSize ||| (info.mpoolCtrSize <<< 4),
      info.objPtrSize ||| (info.funPtrSize <<< 4), info.timeSize, info.maxActive,
      info.maxEventPools ||| (info.maxTickRate <<< 4), second, minute, hour, day, month, year]

/-- The tracer sends the emission, and the host's decoder makes `frame` of the bytes. -/
def Emission.Reaches {β : Type} [TraceBackend β] (e : Emission) (t : Tracer β)
    (elapsed : Option Duration) (frame : QsFrame) : Prop :=
  Passes t.filter t.cfg e.recordType e.payload ∧
    ∃ made, (t.record true e.recordType e.payload e.withTimestamp elapsed).1 = .ok made ∧
      HdlcDecoder.pushBytes .new (Tracer.buildFrame made) = .ok (.new, [.ok frame])

/-- A line that tells what was emitted; what was not emitted may be anything. -/
def Qep.Shows (it : FrameInterpreter) (line : String) : QepRecord UInt64 → Prop
  | .stateEntry state => ∃ obj,
      line = s!"===RTC===> St-Entry Obj={it.objStr obj},State={it.funStr state}"
  | .stateExit state => ∃ obj,
      line = s!"===RTC===> St-Exit  Obj={it.objStr obj},State={it.funStr state}"
  | .stateInit state => ∃ obj other,
      line = s!"===RTC===> St-Init  Obj={it.objStr obj},State={it.funStr state}->" ++
        it.funStr other ∨
      line = s!"===RTC===> St-Init  Obj={it.objStr obj},State={it.funStr other}->" ++
        it.funStr state
  | .initTran target => ∃ ts obj,
      line = s!"{timeText ts} Init===> Obj={it.objStr obj},State={it.funStr target}"
  | .dispatch signal state => inState "Disp===>" signal state
  | .internTran signal state => inState "=>Intern" signal state
  | .ignored signal state => inState "=>Ignore" signal state
  | .tran signal source target => ∃ ts obj,
      line = s!"{timeText ts} ===>Tran Obj={it.objStr obj}," ++
        s!"Sig={it.sigStr (UInt64.ofNat signal.val) obj}," ++
        s!"State={it.funStr source}->{it.funStr target}"
  | .tranHist _ source target => ∃ obj,
      line = s!"===RTC===> St-Hist  Obj={it.objStr obj},State={it.funStr source}->" ++
        it.funStr target
where
  inState (label : String) (signal : Signal) (state : UInt64) : Prop := ∃ ts obj,
    line = s!"{timeText ts} {label} Obj={it.objStr obj}," ++
      s!"Sig={it.sigStr (UInt64.ofNat signal.val) obj},State={it.funStr state}"

/-- A record of a kernel, as its emission gives it to the hook. -/
inductive KernelRecord where
  | qv (record : Record)
  | qk (record : Record)
  | qxk (record : Qxk.Record)
  deriving DecidableEq, Repr

namespace KernelRecord

open Emission (byte)

def emission : KernelRecord → Emission
  | .qv record => .ofRecord record
  | .qk record => .ofRecord record
  | .qxk record => .ofQxk record

section Lines

variable (it : FrameInterpreter) (ts : UInt64) (line : String)

def ShowsRecord : Record → Prop
  | .lock previous ceiling =>
      line = s!"{timeText ts} Sch-Lock Ceil={byte previous}->{byte ceiling}"
  | .unlock current value =>
      line = s!"{timeText ts} Sch-Unlk Ceil={byte value}->{byte current}"
  | .next prio previous => line = s!"{timeText ts} Sch-Next Pri={byte previous}->{byte prio}"
  | .idle previous => line = s!"{timeText ts} Sch-Idle Pri={byte previous}->0"
  | .subscribe _ signal => subscription "AO-Subsc" signal
  | .unsubscribe _ signal => subscription "AO-Unsub" signal
  | .publish signal => ∃ sdr, ∃ pool rref : UInt8,
      line = s!"{timeText ts} QF-Pub   Sdr={it.objStr sdr}," ++
        s!"Evt<Sig={it.sigStr (UInt64.ofNat signal.val) 0},Pool={pool},Ref={rref}>"
where
  subscription (label : String) (signal : Signal) : Prop := ∃ ao,
    line = s!"{timeText ts} {label} Obj={it.objStr ao}," ++
      s!"Sig={it.sigStr (UInt64.ofNat signal.val) ao}"

/-- The records of QXK leave out the ceiling or priority before; a line may show any. -/
def ShowsQxk : Qxk.Record → Prop
  | .lock ceiling => ∃ prev : UInt8,
      line = s!"{timeText ts} Sch-Lock Ceil={prev}->{byte ceiling}"
  | .unlock current value =>
      line = s!"{timeText ts} Sch-Unlk Ceil={byte value}->{byte current}"
  | .next prio => ∃ prev : UInt8, line = s!"{timeText ts} Sch-Next Pri={prev}->{byte prio}"
  | .threadNext _ _ => False
  | .idle => ∃ prev : UInt8, line = s!"{timeText ts} Sch-Idle Pri={prev}->0"

def Shows : KernelRecord → Prop
  | .qv record => ShowsRecord it ts line record
  | .qk record => ShowsRecord it ts line record
  | .qxk record => ShowsQxk ts line record

end Lines

/-- The scheduler and publish-subscribe records; the record of a chosen thread is neither. -/
def Covered : KernelRecord → Prop
  | .qxk (.threadNext _ _) => False
  | _ => True

def SchedulerRecord : Record → Prop
  | .lock _ _ | .unlock _ _ | .next _ _ | .idle _ => True
  | .subscribe _ _ | .unsubscribe _ _ | .publish _ => False

/-- The records whose layout is the one of their handler. -/
def Agrees : KernelRecord → Prop
  | .qv record => SchedulerRecord record
  | .qk record => SchedulerRecord record
  | .qxk (.unlock _ _) => True
  | .qxk _ => False

end KernelRecord

/-- The sizes of a 64-bit target. -/
structure TargetInfo.Is64Bit (info : TargetInfo) : Prop where
  signal : info.signalSize = 2
  obj : info.objPtrSize = 8
  func : info.funPtrSize = 8
  time : info.timeSize = 4

/-- What the records of the kernels need of the sizes: a timestamp of four bytes, signals of two,
and addresses of a 32-bit or 64-bit target. -/
structure TargetSizes.Common (sizes : TargetSizes) : Prop where
  time : sizes.timeSize = 4
  signal : sizes.signalSize = 2
  obj : sizes.objPtrSize = 4 ∨ sizes.objPtrSize = 8

namespace Cursor

theorem spends_readBytes (count : Nat) : Spends remaining count (readBytes count) := by
  intro cur bytes after read
  by_cases long : cur.pos + count > cur.data.length
  · rw [readBytes, if_pos long] at read
    cases read
  · rw [readBytes, if_neg long] at read
    cases read
    simp only [remaining]
    omega

theorem spends_readNum {α : Type} (width : Nat) (ofNat : Nat → α) :
    Spends remaining width (readNum width ofNat) :=
  (spends_readBytes width).bind fun _ => .pure _

theorem spends_readSized (size : UInt8) : Spends remaining size.toNat (readSized size) := by
  by_cases one : size = 1
  · rw [readSized, if_pos one, one]
    exact (spends_readNum 1 _).map _
  by_cases two : size = 2
  · rw [readSized, if_neg one, if_pos two, two]
    exact (spends_readNum 2 _).map _
  by_cases four : size = 4
  · rw [readSized, if_neg one, if_neg two, if_pos four, four]
    exact (spends_readNum 4 _).map _
  by_cases eight : size = 8
  · rw [readSized, if_neg one, if_neg two, if_neg four, if_pos eight, eight]
    exact spends_readNum 8 _
  · rw [readSized, if_neg one, if_neg two, if_neg four, if_neg eight]
    exact .fails _

end Cursor

theorem Emission.Reaches.frame {β : Type} [TraceBackend β] {e : Emission} {t : Tracer β}
    {elapsed : Option Duration} {frame : QsFrame} (reached : e.Reaches t elapsed frame) :
    frame.recordType = e.recordType ∧
      frame.payload = stamp (Tracer.capture true t.cfg e.withTimestamp elapsed) ++ e.payload := by
  obtain ⟨⟨allowed, short⟩, made, sent, decoded⟩ := reached
  have fits : ¬e.payload.length > t.cfg.maxRecordLen := Nat.not_lt.mpr short
  simp only [Tracer.record, allowed, Bool.not_true, Bool.false_eq_true, if_false, fits] at sent
  rw [HdlcDecoder.pushBytes_frame] at decoded
  have received : made.received = frame :=
    Except.ok.inj (List.singleton_inj.mp (Prod.mk.inj (Except.ok.inj decoded)).2)
  split at sent
  · cases sent
  · cases sent
    rw [← received]
    exact ⟨rfl, rfl⟩

theorem Emission.reaches {β : Type} [TraceBackend β] (sink : Accepting β) (e : Emission)
    (t : Tracer β) (elapsed : Option Duration)
    (passes : Passes t.filter t.cfg e.recordType e.payload) :
    e.Reaches t elapsed (QsRecord.received ⟨t.seq + 1, e.recordType,
      Tracer.capture true t.cfg e.withTimestamp elapsed, e.payload⟩) := by
  have short : ¬e.payload.length > t.cfg.maxRecordLen := Nat.not_lt.mpr passes.2
  refine ⟨passes, _, ?_, HdlcDecoder.pushBytes_frame _⟩
  simp only [Tracer.record, passes.1, Bool.not_true, Bool.false_eq_true, if_false, short,
    sink.accepts]

namespace FrameInterpreter

open Cursor

variable {others : FrameInterpreter → QsFrame → FrameInterpreter × List String}
  {it : FrameInterpreter} {payload : List UInt8} {frame : QsFrame}

theorem reading_short {n : Nat} {read : Read Cursor (List String)}
    (spends : Spends remaining n read) (short : payload.length < n) :
    reading payload read = [] := by
  have refused : read (Cursor.new payload) = none := spends.refuses short
  rw [reading, readingFrom, refused]

theorem handle_of_lookup (others : FrameInterpreter → QsFrame → FrameInterpreter × List String)
    (it : FrameInterpreter) {e : Emission} {bytes : List UInt8}
    (kind : frame.recordType = e.recordType) (content : frame.payload = bytes) (record : UInt8)
    (handler : FrameInterpreter → List UInt8 → List String) (same : e.recordType = record)
    (ordinary : record ≠ predefined.TARGET_INFO) (found : handlers.lookup record = some handler) :
    (it.handle others frame).2 = handler it bytes := by
  rw [handle, kind, same, if_neg ordinary, found, content]

theorem not_shown_of_silent {lines : List String} {shows : String → Prop} (silent : lines = []) :
    ¬∃ line, lines = [line] ∧ shows line := by
  rintro ⟨line, shown, -⟩
  rw [silent] at shown
  cases shown

theorem interpret_of_silent (silent : (it.handle others frame).2 = []) :
    (it.interpret others frame).2 = [fallbackLine frame] := by
  simp only [interpret, silent, List.isEmpty_nil, if_true]

section Short

variable (objs : it.sizes.objPtrSize = 8) (funs : it.sizes.funPtrSize = 8)
include objs funs

theorem handleState_short (short : payload.length < 16) (label : UInt64 → UInt64 → List String) :
    reading payload (do
      let obj ← it.readObj
      let state ← it.readFun
      return label obj state) = [] := by
  refine reading_short ((spends_readSized _).bind fun _ => (spends_readSized _).bind fun _ =>
    .pure _) ?_
  rw [objs, funs]
  exact short

theorem handlePair_short (short : payload.length < 24)
    (label : UInt64 → UInt64 → UInt64 → List String) :
    reading payload (do
      let obj ← it.readObj
      let src ← it.readFun
      let tgt ← it.readFun
      return label obj src tgt) = [] := by
  refine reading_short ((spends_readSized _).bind fun _ => (spends_readSized _).bind fun _ =>
    (spends_readSized _).bind fun _ => .pure _) ?_
  rw [objs, funs]
  exact short

variable (times : it.sizes.timeSize = 4)
include times

theorem handleInitTran_short (short : payload.length < 20) : it.handleInitTran payload = [] := by
  refine reading_short ((spends_readSized _).bind fun _ => (spends_readSized _).bind fun _ =>
    (spends_readSized _).bind fun _ => .pure _) ?_
  rw [objs, funs, times]
  exact short

variable (signals : it.sizes.signalSize = 2)
include signals

theorem handleInState_short (short : payload.length < 22) (label : String) :
    it.handleInState payload label = [] := by
  refine reading_short ((spends_readSized _).bind fun _ => (spends_readSized _).bind fun _ =>
    (spends_readSized _).bind fun _ => (spends_readSized _).bind fun _ => .pure _) ?_
  rw [objs, funs, times, signals]
  exact short

theorem handleTran_short (short : payload.length < 30) : it.handleTran payload = [] := by
  refine reading_short ((spends_readSized _).bind fun _ => (spends_readSized _).bind fun _ =>
    (spends_readSized _).bind fun _ => (spends_readSized _).bind fun _ =>
    (spends_readSized _).bind fun _ => .pure _) ?_
  rw [objs, funs, times, signals]
  exact short

/-- No record of the state machines is long enough for its handler: none carries the address of
its object. -/
theorem handle_qep (r : QepRecord UInt64) {timestamp : Option Duration}
    (kind : frame.recordType = (Emission.ofQep r).recordType)
    (content : frame.payload = stamp timestamp ++ (Emission.ofQep r).payload) :
    (it.handle others frame).2 = [] := by
  have stamped : (stamp timestamp).length ≤ 4 := by
    cases timestamp with
    | none => exact Nat.zero_le 4
    | some ts => exact (length_toLeBytes 4 _).le
  have long : frame.payload.length =
      (stamp timestamp).length + (Emission.ofQep r).payload.length := by
    rw [content, List.length_append]
  have found := handle_of_lookup others it kind rfl
  -- one lookup and one length for each of the nine; even with a timestamp all are too short
  cases r with
  | stateEntry state =>
      have sized : (Emission.ofQep (.stateEntry state)).payload.length = 8 := rfl
      rw [found qep.STATE_ENTRY handleStateEntry rfl (by decide) rfl]
      exact handleState_short objs funs (by omega) _
  | stateExit state =>
      have sized : (Emission.ofQep (.stateExit state)).payload.length = 8 := rfl
      rw [found qep.STATE_EXIT handleStateExit rfl (by decide) rfl]
      exact handleState_short objs funs (by omega) _
  | stateInit state =>
      have sized : (Emission.ofQep (.stateInit state)).payload.length = 8 := rfl
      rw [found qep.STATE_INIT handleStateInit rfl (by decide) rfl]
      exact handlePair_short objs funs (by omega) _
  | initTran target =>
      have sized : (Emission.ofQep (.initTran target)).payload.length = 8 := rfl
      rw [found qep.INIT_TRAN handleInitTran rfl (by decide) rfl]
      exact handleInitTran_short objs funs times (by omega)
  | dispatch signal state =>
      have sized : (Emission.ofQep (.dispatch signal state)).payload.length = 10 := rfl
      rw [found qep.DISPATCH handleDispatch rfl (by decide) rfl]
      exact handleInState_short objs funs times signals (by omega) _
  | internTran signal state =>
      have sized : (Emission.ofQep (.internTran signal state)).payload.length = 10 := rfl
      rw [found qep.INTERN_TRAN handleInternTran rfl (by decide) rfl]
      exact handleInState_short objs funs times signals (by omega) _
  | ignored signal state =>
      have sized : (Emission.ofQep (.ignored signal state)).payload.length = 10 := rfl
      rw [found qep.IGNORED handleIgnored rfl (by decide) rfl]
      exact handleInState_short objs funs times signals (by omega) _
  | tran signal source target =>
      have sized : (Emission.ofQep (.tran signal source target)).payload.length = 18 := rfl
      rw [found qep.TRAN handleTran rfl (by decide) rfl]
      exact handleTran_short objs funs times signals (by omega)
  | tranHist signal source target =>
      have sized : (Emission.ofQep (.tranHist signal source target)).payload.length = 18 := rfl
      rw [found qep.TRAN_HIST handleTranHist rfl (by decide) rfl]
      exact handlePair_short objs funs (by omega) _

end Short

end FrameInterpreter

theorem TargetInfo.Is64Bit.sizes {info : TargetInfo} (wide : info.Is64Bit) (earlier : TargetSizes) :
    (earlier.updateFromTargetInfo (targetInfoPayload info)).objPtrSize = 8 ∧
      (earlier.updateFromTargetInfo (targetInfoPayload info)).funPtrSize = 8 ∧
      (earlier.updateFromTargetInfo (targetInfoPayload info)).timeSize = 4 ∧
      (earlier.updateFromTargetInfo (targetInfoPayload info)).signalSize = 2 := by
  have low : ((2 : UInt8) ||| info.eventSize <<< 4) &&& 0x0F = 2 := low_nibble 2 info.eventSize
  simp only [TargetSizes.updateFromTargetInfo, targetInfoPayload, toLeBytes, List.cons_append,
    List.nil_append, wide.signal, wide.obj, wide.func, wide.time, low]
  exact ⟨rfl, rfl, rfl, rfl⟩

/-- No record of the state machines is decoded by its handler on a 64-bit target: the host shows
every one of them as raw bytes. -/
theorem qep_not_decoded {β : Type} [TraceBackend β] (t : Tracer β) {info : TargetInfo}
    (wide : info.Is64Bit) {earlier : TargetSizes} {it : FrameInterpreter}
    (informed : it.sizes = earlier.updateFromTargetInfo (targetInfoPayload info))
    (others : FrameInterpreter → QsFrame → FrameInterpreter × List String) (r : QepRecord UInt64)
    (elapsed : Option Duration) {frame : QsFrame}
    (reached : (Emission.ofQep r).Reaches t elapsed frame) :
    (¬∃ line, (it.handle others frame).2 = [line] ∧ Qep.Shows it line r) ∧
      (it.interpret others frame).2 = [FrameInterpreter.fallbackLine frame] := by
  obtain ⟨kind, content⟩ := reached.frame
  obtain ⟨objs, funs, times, signals⟩ := wide.sizes earlier
  rw [← informed] at objs funs times signals
  have silent : (it.handle others frame).2 = [] :=
    FrameInterpreter.handle_qep objs funs times signals r kind content
  exact ⟨FrameInterpreter.not_shown_of_silent silent, FrameInterpreter.interpret_of_silent silent⟩

def informedHost : FrameInterpreter :=
  { FrameInterpreter.new with
    sizes := TargetSizes.updateFromTargetInfo {} (targetInfoPayload {}) }

def noOthers (it : FrameInterpreter) (_ : QsFrame) : FrameInterpreter × List String := (it, [])

theorem tran_not_decoded :
    (¬∃ line, (informedHost.handle noOthers ⟨1, 6, stamp (some .zero) ++
        (Emission.emitTran ⟨4⟩ 0x1000 0x2000).payload⟩).2 = [line] ∧
      Qep.Shows informedHost line (.tran ⟨4⟩ 0x1000 0x2000)) ∧
    (informedHost.interpret noOthers ⟨1, 6, stamp (some .zero) ++
        (Emission.emitTran ⟨4⟩ 0x1000 0x2000).payload⟩).2 =
      [FrameInterpreter.fallbackLine ⟨1, 6, stamp (some .zero) ++
        (Emission.emitTran ⟨4⟩ 0x1000 0x2000).payload⟩] := by
  have passes : Passes CaptureBackend.tracer.filter CaptureBackend.tracer.cfg
      (Emission.emitTran ⟨4⟩ 0x1000 0x2000).recordType
      (Emission.emitTran ⟨4⟩ 0x1000 0x2000).payload := by decide
  have reached := Emission.reaches CaptureBackend.accepting
    (Emission.ofQep (.tran ⟨4⟩ 0x1000 0x2000)) CaptureBackend.tracer none passes
  exact qep_not_decoded CaptureBackend.tracer ⟨rfl, rfl, rfl, rfl⟩ rfl noOthers
    (.tran ⟨4⟩ 0x1000 0x2000) none reached

/-- The entry of a state at `0x1000` shows as eight raw bytes. -/
theorem entry_shown_raw :
    (Emission.ofQep (.stateEntry 0x1000)).Reaches CaptureBackend.tracer none
        ⟨1, 1, [0x00, 0x10, 0, 0, 0, 0, 0, 0]⟩ ∧
      ¬∃ line, (informedHost.handle noOthers ⟨1, 1, [0x00, 0x10, 0, 0, 0, 0, 0, 0]⟩).2 = [line] ∧
        Qep.Shows informedHost line (.stateEntry 0x1000) := by
  have passes : Passes CaptureBackend.tracer.filter CaptureBackend.tracer.cfg
      (Emission.emitStateEntry 0x1000).recordType (Emission.emitStateEntry 0x1000).payload := by
    decide
  refine ⟨Emission.reaches CaptureBackend.accepting (Emission.ofQep (.stateEntry 0x1000))
    CaptureBackend.tracer none passes, ?_⟩
  rintro ⟨line, shown, -⟩
  cases shown

def micros (d : Duration) : UInt64 := (UInt32.ofNat d.asMicros).toUInt64

theorem Cursor.readU8_ok {cur : Cursor} {b : UInt8} (found : cur.data[cur.pos]? = some b) :
    Cursor.readU8 cur = some (b, { cur with pos := cur.pos + 1 }) := by
  obtain ⟨inside, read⟩ := List.getElem?_eq_some_iff.mp found
  have bytes : (cur.data.drop cur.pos).take 1 = [b] := by
    rw [List.drop_eq_getElem_cons inside, read]
    rfl
  have value : UInt8.ofNat (fromLeBytes [b]) = b := by
    rw [fromLeBytes_cons, show fromLeBytes [] = 0 from rfl, Nat.mul_zero, Nat.add_zero,
      UInt8.ofNat_toNat]
  have one : Cursor.readBytes 1 cur = some ([b], { cur with pos := cur.pos + 1 }) := by
    rw [Cursor.readBytes, if_neg (by omega), bytes]
  simp only [Cursor.readU8, Cursor.readNum, bind, StateT.bind, one, Option.bind]
  rw [value]
  rfl

namespace FrameInterpreter

open Cursor

theorem readingFrom_readU8 {cur : Cursor} {b : UInt8} (found : cur.data[cur.pos]? = some b)
    (next : UInt8 → Read Cursor (List String)) :
    readingFrom cur (readU8 >>= next) = readingFrom { cur with pos := cur.pos + 1 } (next b) := by
  simp only [readingFrom, bind, StateT.bind, readU8_ok found, Option.bind]

section Stamped

variable {it : FrameInterpreter} (times : it.sizes.timeSize = 4) (d : Duration)
include times

theorem reading_stamped (rest : List UInt8) (next : UInt64 → Read Cursor (List String)) :
    reading (stamp (some d) ++ rest) (it.readTime >>= next) =
      readingFrom ⟨stamp (some d) ++ rest, 4⟩ (next (micros d)) := by
  have value : UInt32.ofNat (fromLeBytes (toLeBytes 4 (UInt32.ofNat d.asMicros).toNat)) =
      UInt32.ofNat d.asMicros := by
    rw [fromLeBytes_toLeBytes (UInt32.toNat_lt _), UInt32.ofNat_toNat]
  have time : it.readTime = UInt32.toUInt64 <$> readU32 := by
    rw [readTime, times]
    rfl
  have read : it.readTime (Cursor.new (stamp (some d) ++ rest)) =
      some (micros d, ⟨stamp (some d) ++ rest, 4⟩) := by
    rw [time, micros, ← value]
    rfl
  simp only [reading, readingFrom, bind, StateT.bind, read, Option.bind]

theorem reading_two (a b : UInt8) (line : UInt64 → UInt8 → UInt8 → String) :
    reading (stamp (some d) ++ [a, b]) (do
      let ts ← it.readTime
      let first ← readU8
      let second ← readU8
      return [line ts first second]) = [line (micros d) a b] := by
  rw [reading_stamped times, readingFrom_readU8 rfl, readingFrom_readU8 rfl]
  rfl

theorem reading_one (a : UInt8) (line : UInt64 → UInt8 → String) :
    reading (stamp (some d) ++ [a]) (do
      let ts ← it.readTime
      let first ← readU8
      return [line ts first]) = [line (micros d) a] := by
  rw [reading_stamped times, readingFrom_readU8 rfl]
  rfl

theorem reading_two_short {rest : List UInt8} (short : rest.length < 2)
    (line : UInt64 → UInt8 → UInt8 → String) :
    reading (stamp (some d) ++ rest) (do
      let ts ← it.readTime
      let first ← readU8
      let second ← readU8
      return [line ts first second]) = [] := by
  refine reading_short ((spends_readSized _).bind fun _ => (spends_readNum 1 _).bind fun _ =>
    (spends_readNum 1 _).bind fun _ => .pure _) ?_
  have sized : (stamp (some d)).length = 4 := length_toLeBytes 4 _
  rw [times, List.length_append, sized]
  change 4 + rest.length < 4 + (1 + (1 + 0))
  omega

end Stamped

section Kernels

variable {others : FrameInterpreter → QsFrame → FrameInterpreter × List String}
  {it : FrameInterpreter} {frame : QsFrame} {d : Duration} (common : it.sizes.Common)
include common

theorem handleSubscription_short (prio : UInt8) (signal : Signal) (label : String) :
    it.handleSubscription (stamp (some d) ++ ([prio] ++ Emission.sig signal)) label = [] := by
  refine reading_short ((spends_readSized _).bind fun _ => (spends_readSized _).bind fun _ =>
    (spends_readSized _).bind fun _ => .pure _) ?_
  have sized : (stamp (some d) ++ ([prio] ++ Emission.sig signal)).length = 7 := rfl
  rw [sized, common.time, common.signal]
  rcases common.obj with four | eight
  · rw [four]
    decide
  · rw [eight]
    decide

theorem handleQfPublish_short (signal : Signal) :
    it.handleQfPublish (stamp (some d) ++ Emission.sig signal) = [] := by
  refine reading_short ((spends_readSized _).bind fun _ => (spends_readSized _).bind fun _ =>
    (spends_readSized _).bind fun _ => (spends_readNum 1 _).bind fun _ =>
    (spends_readNum 1 _).bind fun _ => .pure _) ?_
  have sized : (stamp (some d) ++ Emission.sig signal).length = 6 := rfl
  rw [sized, common.time, common.signal]
  change 6 < 4 + (it.sizes.objPtrSize.toNat + (2 + (1 + (1 + 0))))
  omega

theorem handle_record (record : Record)
    (kind : frame.recordType = (Emission.ofRecord record).recordType)
    (content : frame.payload = stamp (some d) ++ (Emission.ofRecord record).payload) :
    (∃ line, (it.handle others frame).2 = [line] ∧
      KernelRecord.ShowsRecord it (micros d) line record) ↔
      KernelRecord.SchedulerRecord record := by
  have found := handle_of_lookup others it kind content
  cases record with
  | lock previous ceiling =>
      rw [found sched.LOCK handleSchedLock rfl (by decide) rfl]
      exact iff_of_true ⟨_, reading_two common.time d _ _ _, rfl⟩ trivial
  | unlock current value =>
      rw [found sched.UNLOCK handleSchedUnlock rfl (by decide) rfl]
      exact iff_of_true ⟨_, reading_two common.time d _ _ _, rfl⟩ trivial
  | next prio previous =>
      rw [found sched.NEXT handleSchedNext rfl (by decide) rfl]
      exact iff_of_true ⟨_, reading_two common.time d _ _ _, rfl⟩ trivial
  | idle previous =>
      rw [found sched.IDLE handleSchedIdle rfl (by decide) rfl]
      exact iff_of_true ⟨_, reading_one common.time d _ _, rfl⟩ trivial
  | subscribe prio signal =>
      refine iff_of_false (not_shown_of_silent ?_) id
      rw [found qf.ACTIVE_SUBSCRIBE handleAoSubscribe rfl (by decide) rfl]
      exact handleSubscription_short common _ _ _
  | unsubscribe prio signal =>
      refine iff_of_false (not_shown_of_silent ?_) id
      rw [found qf.ACTIVE_UNSUBSCRIBE handleAoUnsubscribe rfl (by decide) rfl]
      exact handleSubscription_short common _ _ _
  | publish signal =>
      refine iff_of_false (not_shown_of_silent ?_) id
      rw [found qf.PUBLISH handleQfPublish rfl (by decide) rfl]
      exact handleQfPublish_short common _

/-- Of the scheduler records of QXK only the unlock has the layout of its handler. -/
theorem handle_qxk (record : Qxk.Record) (covered : KernelRecord.Covered (.qxk record))
    (kind : frame.recordType = (Emission.ofQxk record).recordType)
    (content : frame.payload = stamp (some d) ++ (Emission.ofQxk record).payload) :
    (∃ line, (it.handle others frame).2 = [line] ∧
      KernelRecord.ShowsQxk (micros d) line record) ↔ KernelRecord.Agrees (.qxk record) := by
  have found := handle_of_lookup others it kind content
  cases record with
  | lock ceiling =>
      refine iff_of_false (not_shown_of_silent ?_) id
      have short : (Emission.ofQxk (.lock ceiling)).payload.length < 2 := Nat.one_lt_two
      rw [found sched.LOCK handleSchedLock rfl (by decide) rfl]
      exact reading_two_short common.time d short _
  | unlock current value =>
      rw [found sched.UNLOCK handleSchedUnlock rfl (by decide) rfl]
      exact iff_of_true ⟨_, reading_two common.time d _ _ _, rfl⟩ trivial
  | next prio =>
      refine iff_of_false (not_shown_of_silent ?_) id
      have short : (Emission.ofQxk (.next prio)).payload.length < 2 := Nat.one_lt_two
      rw [found sched.NEXT handleSchedNext rfl (by decide) rfl]
      exact reading_two_short common.time d short _
  | threadNext id priority => exact covered.elim
  | idle =>
      refine iff_of_false (not_shown_of_silent ?_) id
      rw [found sched.IDLE handleSchedIdle rfl (by decide) rfl]
      refine reading_short ((spends_readSized _).bind fun _ => (spends_readNum 1 _).bind fun _ =>
        .pure _) ?_
      have sized : (stamp (some d) ++ (Emission.ofQxk .idle).payload).length = 4 := rfl
      rw [sized, common.time]
      decide

end Kernels

end FrameInterpreter

/-- A scheduler or publish-subscribe record is decoded with its values exactly when it is a
scheduler record of QV or QK, or the unlock record of QXK. -/
theorem kernel_record_decoded_iff {β : Type} [TraceBackend β] {t : Tracer β}
    (stamped : t.cfg.includeTimestamp = true) {it : FrameInterpreter} (common : it.sizes.Common)
    (others : FrameInterpreter → QsFrame → FrameInterpreter × List String) {r : KernelRecord}
    (covered : r.Covered) (elapsed : Option Duration) {frame : QsFrame}
    (reached : r.emission.Reaches t elapsed frame) :
    (∃ line, (it.handle others frame).2 = [line] ∧
      r.Shows it (micros (elapsed.getD .zero)) line) ↔ r.Agrees := by
  obtain ⟨kind, content⟩ := reached.frame
  have timed : Tracer.capture true t.cfg r.emission.withTimestamp elapsed =
      some (elapsed.getD .zero) := by
    have always : r.emission.withTimestamp = true := by
      rcases r with record | record | record <;> cases record <;> rfl
    simp only [Tracer.capture, stamped, always, Bool.and_self, if_true]
  rw [timed] at content
  cases r with
  | qv record => exact FrameInterpreter.handle_record common record kind content
  | qk record => exact FrameInterpreter.handle_record common record kind content
  | qxk record => exact FrameInterpreter.handle_qxk common record covered kind content

theorem qk_unlock_decoded :
    ∃ line, (informedHost.handle noOthers ⟨1, 51, stamp (some .zero) ++ [5, 0]⟩).2 = [line] ∧
      (KernelRecord.qk (.unlock 5 0)).Shows informedHost (micros .zero) line := by
  have passes : Passes CaptureBackend.tracer.filter CaptureBackend.tracer.cfg
      (KernelRecord.qk (.unlock 5 0)).emission.recordType
      (KernelRecord.qk (.unlock 5 0)).emission.payload := by decide
  have reached := Emission.reaches CaptureBackend.accepting (KernelRecord.qk (.unlock 5 0)).emission
    CaptureBackend.tracer none passes
  have common : informedHost.sizes.Common := ⟨rfl, rfl, .inr rfl⟩
  have covered : (KernelRecord.qk (.unlock 5 0)).Covered := trivial
  exact (kernel_record_decoded_iff rfl common noOthers covered none reached).mpr trivial

/-- The lock record of QXK has the new ceiling only, and shows as raw bytes. -/
theorem qxk_lock_shown_raw :
    (KernelRecord.qxk (.lock 5)).emission.Reaches CaptureBackend.tracer none
        ⟨1, 50, [0, 0, 0, 0, 5]⟩ ∧
      ¬∃ line, (informedHost.handle noOthers ⟨1, 50, [0, 0, 0, 0, 5]⟩).2 = [line] ∧
        (KernelRecord.qxk (.lock 5)).Shows informedHost (micros .zero) line := by
  have passes : Passes CaptureBackend.tracer.filter CaptureBackend.tracer.cfg
      (KernelRecord.qxk (.lock 5)).emission.recordType
      (KernelRecord.qxk (.lock 5)).emission.payload := by decide
  refine ⟨Emission.reaches CaptureBackend.accepting (KernelRecord.qxk (.lock 5)).emission
    CaptureBackend.tracer none passes, ?_⟩
  rintro ⟨line, shown, -⟩
  cases shown

end QpRs.Qs
