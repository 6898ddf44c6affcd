import QpRs.Lib.Reading
import QpRs.Qs.Decoder

/-! The host's interpreter of QS frames (`tools/qspy/src/interpreter.rs`, `cursor.rs`, `sizes.rs`).

The records whose lines carry text read from the frame (dictionaries, assertions, user records)
are given by `others`. -/

namespace QpRs.Qs

open QpRs.Lib

namespace predefined

def TARGET_INFO : UInt8 := 64

end predefined

namespace qep

def STATE_ENTRY : UInt8 := 1
def STATE_EXIT : UInt8 := 2
def STATE_INIT : UInt8 := 3
def INIT_TRAN : UInt8 := 4
def INTERN_TRAN : UInt8 := 5
def TRAN : UInt8 := 6
def IGNORED : UInt8 := 7
def DISPATCH : UInt8 := 8
def UNHANDLED : UInt8 := 9
def TRAN_HIST : UInt8 := 55

end qep

namespace qf

def ACTIVE_DEFER : UInt8 := 10
def ACTIVE_RECALL : UInt8 := 11
def ACTIVE_SUBSCRIBE : UInt8 := 12
def ACTIVE_UNSUBSCRIBE : UInt8 := 13
def ACTIVE_POST : UInt8 := 14
def ACTIVE_POST_LIFO : UInt8 := 15
def ACTIVE_GET : UInt8 := 16
def ACTIVE_GET_LAST : UInt8 := 17
def EQUEUE_INIT : UInt8 := 19
def EQUEUE_POST : UInt8 := 20
def EQUEUE_POST_LIFO : UInt8 := 21
def EQUEUE_GET : UInt8 := 22
def MPOOL_INIT : UInt8 := 23
def MPOOL_GET : UInt8 := 24
def MPOOL_PUT : UInt8 := 25
def PUBLISH : UInt8 := 26
def NEW_REF : UInt8 := 27
def NEW : UInt8 := 28
def GC_ATTEMPT : UInt8 := 29
def GC : UInt8 := 30
def TICK : UInt8 := 31
def DELETE_REF : UInt8 := 38
def CRIT_ENTRY : UInt8 := 39
def CRIT_EXIT : UInt8 := 40
def ISR_ENTRY : UInt8 := 41
def ISR_EXIT : UInt8 := 42
def ACTIVE_POST_ATTEMPT : UInt8 := 45
def EQUEUE_POST_ATTEMPT : UInt8 := 46
def MPOOL_GET_ATTEMPT : UInt8 := 47

end qf

namespace time_evt

def ARM : UInt8 := 32
def AUTO_DISARM : UInt8 := 33
def DISARM_ATTEMPT : UInt8 := 34
def DISARM : UInt8 := 35
def REARM : UInt8 := 36
def POST : UInt8 := 37

end time_evt

namespace sched

def LOCK : UInt8 := 50
def UNLOCK : UInt8 := 51
def NEXT : UInt8 := 52
def IDLE : UInt8 := 53

end sched

namespace infra

def TEST_PAUSED : UInt8 := 58
def TEST_PROBE : UInt8 := 59
def TARGET_DONE : UInt8 := 65
def RX_STATUS : UInt8 := 66
def QUERY_DATA : UInt8 := 67
def PEEK_DATA : UInt8 := 68
def QF_RUN : UInt8 := 70

end infra

namespace qxk

def SEM_TAKE : UInt8 := 71
def SEM_BLOCK : UInt8 := 72
def SEM_SIGNAL : UInt8 := 73
def SEM_BLOCK_ATTEMPT : UInt8 := 74
def MTX_LOCK : UInt8 := 75
def MTX_BLOCK : UInt8 := 76
def MTX_UNLOCK : UInt8 := 77
def MTX_LOCK_ATTEMPT : UInt8 := 78
def MTX_BLOCK_ATTEMPT : UInt8 := 79
def MTX_UNLOCK_ATTEMPT : UInt8 := 80

end qxk

structure Cursor where
  data : List UInt8
  pos : Nat
  deriving DecidableEq, Repr

namespace Cursor

def new (data : List UInt8) : Cursor := ⟨data, 0⟩

def remaining (cur : Cursor) : Nat := cur.data.length - cur.pos

def isEmpty (cur : Cursor) : Bool := cur.pos ≥ cur.data.length

def readBytes (count : Nat) : Read Cursor (List UInt8) := fun cur =>
  if cur.pos + count > cur.data.length then none
  else some ((cur.data.drop cur.pos).take count, { cur with pos := cur.pos + count })

def readNum {α : Type} (width : Nat) (ofNat : Nat → α) : Read Cursor α := do
  let bytes ← readBytes width
  return ofNat (fromLeBytes bytes)

def readU8 := readNum 1 UInt8.ofNat

def readU16 := readNum 2 UInt16.ofNat

def readU32 := readNum 4 UInt32.ofNat

def readU64 := readNum 8 UInt64.ofNat

def readSized (size : UInt8) : Read Cursor UInt64 :=
  if size = 1 then UInt8.toUInt64 <$> readU8
  else if size = 2 then UInt16.toUInt64 <$> readU16
  else if size = 4 then UInt32.toUInt64 <$> readU32
  else if size = 8 then readU64
  else failure

end Cursor

def zeroPadded (width : Nat) (text : String) : String :=
  String.ofList (List.replicate (width - text.length) '0') ++ text

def hexDigits (width n : Nat) : String :=
  zeroPadded width (String.ofList ((Nat.toDigits 16 n).map Char.toUpper))

/-- `{:#X}` with that many digits after the `0x`. -/
def hexNum (width n : Nat) : String := "0x" ++ hexDigits width n

/-- `{:010}` of a timestamp. -/
def timeText (ts : UInt64) : String := zeroPadded 10 (toString ts.toNat)

def twoDigits (n : UInt8) : String := zeroPadded 2 (toString n.toNat)

def hexBytes (bytes : List UInt8) : String := String.join (bytes.map fun b => hexDigits 2 b.toNat)

structure TargetSizes where
  timeSize : UInt8 := 4
  objPtrSize : UInt8 := 4
  funPtrSize : UInt8 := 4
  signalSize : UInt8 := 2
  eventSize : UInt8 := 2
  equeueCtr : UInt8 := 1
  timeevtCtr : UInt8 := 2
  mpoolSiz : UInt8 := 2
  mpoolCtr : UInt8 := 2
  deriving DecidableEq, Repr

namespace TargetSizes

def validSize (v fallback : UInt8) : UInt8 := if v = 1 ∨ v = 2 ∨ v = 4 ∨ v = 8 then v else fallback

def updateFromTargetInfo (sizes : TargetSizes) (payload : List UInt8) : TargetSizes :=
  match payload with
  | _ :: _ :: _ :: sigEvt :: eqTe :: mp :: ptrs :: time :: _ =>
      { signalSize := validSize (sigEvt &&& 0x0F) sizes.signalSize
        eventSize := validSize ((sigEvt >>> 4) &&& 0x0F) sizes.eventSize
        equeueCtr := validSize (eqTe &&& 0x0F) sizes.equeueCtr
        timeevtCtr := validSize ((eqTe >>> 4) &&& 0x0F) sizes.timeevtCtr
        mpoolSiz := validSize (mp &&& 0x0F) sizes.mpoolSiz
        mpoolCtr := validSize ((mp >>> 4) &&& 0x0F) sizes.mpoolCtr
        objPtrSize := validSize (ptrs &&& 0x0F) sizes.objPtrSize
        funPtrSize := validSize ((ptrs >>> 4) &&& 0x0F) sizes.funPtrSize
        timeSize := validSize time sizes.timeSize }
  | _ => sizes

def fmtAddr (addr : UInt64) (size : UInt8) : String :=
  if size = 1 then hexNum 2 addr.toNat
  else if size = 2 then hexNum 4 addr.toNat
  else if size = 4 then hexNum 8 addr.toNat
  else hexNum 16 addr.toNat

end TargetSizes

structure Dictionaries where
  objects : UInt64 → Option String
  functions : UInt64 → Option String
  signals : UInt32 → UInt64 → Option String
  users : UInt8 → Option String
  enums : UInt8 → UInt8 → Option String

/-- `qs_version` and the formatters of user records are read by no handler below. -/
structure FrameInterpreter where
  dict : Dictionaries
  sizes : TargetSizes

namespace FrameInterpreter

open Cursor

def new : FrameInterpreter :=
  { dict := ⟨fun _ => none, fun _ => none, fun _ _ => none, fun _ => none, fun _ _ => none⟩
    sizes := {} }

def objStr (it : FrameInterpreter) (addr : UInt64) : String :=
  (it.dict.objects addr).getD (TargetSizes.fmtAddr addr it.sizes.objPtrSize)

def funStr (it : FrameInterpreter) (addr : UInt64) : String :=
  (it.dict.functions addr).getD (TargetSizes.fmtAddr addr it.sizes.funPtrSize)

def sigStr (it : FrameInterpreter) (signal obj : UInt64) : String :=
  ((it.dict.signals signal.toUInt32 obj).or (it.dict.signals signal.toUInt32 0)).getD
    (TargetSizes.fmtAddr signal it.sizes.signalSize)

/-- The lines that a sequence of reads gives, none when one of the reads fails. -/
def readingFrom (cur : Cursor) (read : Read Cursor (List String)) : List String :=
  match read cur with
  | none => []
  | some (lines, _) => lines

def reading (payload : List UInt8) (read : Read Cursor (List String)) : List String :=
  readingFrom (Cursor.new payload) read

section Handlers

variable (it : FrameInterpreter) (payload : List UInt8)

def readTime : Read Cursor UInt64 := readSized it.sizes.timeSize

def readObj : Read Cursor UInt64 := readSized it.sizes.objPtrSize

def readFun : Read Cursor UInt64 := readSized it.sizes.funPtrSize

def readSig : Read Cursor UInt64 := readSized it.sizes.signalSize

/-- The whole record is read before the sizes are taken over. -/
def handleTargetInfo : FrameInterpreter × List String :=
  let read : Read Cursor (List String) := do
    let reset ← readU8
    let version ← readU16
    let sigEvt ← readU8
    let eqTe ← readU8
    let mpSizes ← readU8
    let ptrSizes ← readU8
    let timeSize ← readU8
    let maxActive ← readU8
    let maxPoolTick ← readU8
    let second ← readU8
    let minute ← readU8
    let hour ← readU8
    let day ← readU8
    let month ← readU8
    let year ← readU8
    let date := twoDigits day ++ twoDigits month ++ twoDigits year
    let time := twoDigits hour ++ twoDigits minute ++ twoDigits second
    let tag := if reset = 0xFF then "RST" else "INF"
    return [s!"########## Trg-{tag}  QP-Ver={version},Build={date}_{time}",
      s!"           Cfg Sig/Evt={hexNum 2 sigEvt.toNat} Eq/Te={hexNum 2 eqTe.toNat} " ++
      s!"Mp={hexNum 2 mpSizes.toNat} Ptr={hexNum 2 ptrSizes.toNat} " ++
      s!"Time={hexNum 2 timeSize.toNat} Active={maxActive} " ++
      s!"Pools/Ticks={hexNum 2 maxPoolTick.toNat}"]
  match read (Cursor.new payload) with
  | none => (it, [])
  | some (lines, _) => ({ it with sizes := it.sizes.updateFromTargetInfo payload }, lines)

def handleRxStatus : List String :=
  match payload.head? with
  | none => []
  | some b =>
      if b &&& 0x80 ≠ 0 then [s!"           QS-RX Err={hexNum 2 (b &&& 0x7F).toNat}"]
      else [s!"           QS-RX Ack rec={b}"]

def handleStateEntry : List String := reading payload do
  let obj ← it.readObj
  let state ← it.readFun
  return [s!"===RTC===> St-Entry Obj={it.objStr obj},State={it.funStr state}"]

def handleStateExit : List String := reading payload do
  let obj ← it.readObj
  let state ← it.readFun
  return [s!"===RTC===> St-Exit  Obj={it.objStr obj},State={it.funStr state}"]

def handleStateInit : List String := reading payload do
  let obj ← it.readObj
  let src ← it.readFun
  let tgt ← it.readFun
  return [s!"===RTC===> St-Init  Obj={it.objStr obj},State={it.funStr src}->{it.funStr tgt}"]

def handleInitTran : List String := reading payload do
  let ts ← it.readTime
  let obj ← it.readObj
  let tgt ← it.readFun
  return [s!"{timeText ts} Init===> Obj={it.objStr obj},State={it.funStr tgt}"]

/-- The three records of an event in a state, under their labels. -/
def handleInState (label : String) : List String := reading payload do
  let ts ← it.readTime
  let signal ← it.readSig
  let obj ← it.readObj
  let state ← it.readFun
  return [s!"{timeText ts} {label} Obj={it.objStr obj},Sig={it.sigStr signal obj}," ++
    s!"State={it.funStr state}"]

def handleInternTran : List String := it.handleInState payload "=>Intern"

def handleIgnored : List String := it.handleInState payload "=>Ignore"

def handleDispatch : List String := it.handleInState payload "Disp===>"

def handleTran : List String := reading payload do
  let ts ← it.readTime
  let signal ← it.readSig
  let obj ← it.readObj
  let src ← it.readFun
  let tgt ← it.readFun
  return [s!"{timeText ts} ===>Tran Obj={it.objStr obj},Sig={it.sigStr signal obj}," ++
    s!"State={it.funStr src}->{it.funStr tgt}"]

def handleUnhandled : List String := reading payload do
  let signal ← it.readSig
  let obj ← it.readObj
  let state ← it.readFun
  return [s!"===RTC===> =>UnHndl Obj={it.objStr obj},Sig={it.sigStr signal obj}," ++
    s!"State={it.funStr state}"]

def handleTranHist : List String := reading payload do
  let obj ← it.readObj
  let src ← it.readFun
  let tgt ← it.readFun
  return [s!"===RTC===> St-Hist  Obj={it.objStr obj},State={it.funStr src}->{it.funStr tgt}"]

def handleAoDeferRecall (label : String) : List String := reading payload do
  let ts ← it.readTime
  let ao ← it.readObj
  let eq ← it.readObj
  let sig ← it.readSig
  let pool ← readU8
  let rref ← readU8
  return [s!"{timeText ts} {label} Obj={it.objStr ao},Que={it.objStr eq}," ++
    s!"Evt<Sig={it.sigStr sig ao},Pool={pool},Ref={rref}>"]

/-- The two subscription records, under their labels. -/
def handleSubscription (label : String) : List String := reading payload do
  let ts ← it.readTime
  let sig ← it.readSig
  let ao ← it.readObj
  return [s!"{timeText ts} {label} Obj={it.objStr ao},Sig={it.sigStr sig ao}"]

def handleAoSubscribe : List String := it.handleSubscription payload "AO-Subsc"

def handleAoUnsubscribe : List String := it.handleSubscription payload "AO-Unsub"

def handleAoPost (label : String) : List String := reading payload do
  let ts ← it.readTime
  let sig ← it.readSig
  let sdr ← it.readObj
  let ao ← it.readObj
  let pool ← readU8
  let rref ← readU8
  let free ← readSized it.sizes.equeueCtr
  let min ← readSized it.sizes.equeueCtr
  return [s!"{timeText ts} {label} Sdr={it.objStr sdr},Obj={it.objStr ao}," ++
    s!"Evt<Sig={it.sigStr sig ao},Pool={pool},Ref={rref}>,Que<Free={free},Min={min}>"]

def handleAoGet : List String := reading payload do
  let ts ← it.readTime
  let sig ← it.readSig
  let ao ← it.readObj
  let pool ← readU8
  let rref ← readU8
  let free ← readSized it.sizes.equeueCtr
  return [s!"{timeText ts} AO-Get   Obj={it.objStr ao}," ++
    s!"Evt<Sig={it.sigStr sig ao},Pool={pool},Ref={rref}>,Que<Free={free}>"]

def handleAoGetLast : List String := reading payload do
  let ts ← it.readTime
  let sig ← it.readSig
  let ao ← it.readObj
  let pool ← readU8
  let rref ← readU8
  return [s!"{timeText ts} AO-GetL  Obj={it.objStr ao}," ++
    s!"Evt<Sig={it.sigStr sig ao},Pool={pool},Ref={rref}>"]

/-- The warning line about bytes that a record has too many. -/
def unusedLine (record : UInt8) : Read Cursor (List String) := do
  let cur ← get
  return if cur.isEmpty then []
    else [s!"           !! {cur.remaining} bytes unused in rec={hexNum 2 record.toNat}"]

def handleEqueueInit : List String := reading payload do
  let ts ← it.readTime
  let eq ← it.readObj
  let len ← readSized it.sizes.equeueCtr
  let unused ← unusedLine qf.EQUEUE_INIT
  return s!"{timeText ts} EQ-Init  Obj={it.objStr eq},Len={len}" :: unused

def handleMpoolInit : List String := reading payload do
  let ts ← it.readTime
  let mp ← it.readObj
  let nFree ← readSized it.sizes.mpoolCtr
  let nMin ← readSized it.sizes.mpoolCtr
  let unused ← unusedLine qf.MPOOL_INIT
  return s!"{timeText ts} MP-Init  Obj={it.objStr mp},NFree={nFree},NMin={nMin}" :: unused

def handleEqueuePost (label : String) : List String := reading payload do
  let ts ← it.readTime
  let sig ← it.readSig
  let eq ← it.readObj
  let pool ← readU8
  let rref ← readU8
  let free ← readSized it.sizes.equeueCtr
  let min ← readSized it.sizes.equeueCtr
  return [s!"{timeText ts} {label} Obj={it.objStr eq}," ++
    s!"Evt<Sig={it.sigStr sig eq},Pool={pool},Ref={rref}>,Que<Free={free},Min={min}>"]

def handleEqueueGet (label : String) : List String := reading payload do
  let ts ← it.readTime
  let sig ← it.readSig
  let eq ← it.readObj
  let pool ← readU8
  let rref ← readU8
  let free ← readSized it.sizes.equeueCtr
  return [s!"{timeText ts} {label} Obj={it.objStr eq}," ++
    s!"Evt<Sig={it.sigStr sig eq},Pool={pool},Ref={rref}>,Que<Free={free}>"]

def handleMpoolGetLabeled (label : String) : List String := reading payload do
  let ts ← it.readTime
  let mp ← it.readObj
  let free ← readSized it.sizes.mpoolCtr
  let min ← readSized it.sizes.mpoolCtr
  return [s!"{timeText ts} {label} Obj={it.objStr mp},Free={free},Min={min}"]

def handleMpoolGet : List String := it.handleMpoolGetLabeled payload "MP-Get  "

def handleMpoolPut : List String := reading payload do
  let ts ← it.readTime
  let mp ← it.readObj
  let free ← readSized it.sizes.mpoolCtr
  return [s!"{timeText ts} MP-Put   Obj={it.objStr mp},Free={free}"]

def handleQfPublish : List String := reading payload do
  let ts ← it.readTime
  let sdr ← it.readObj
  let sig ← it.readSig
  let pool ← readU8
  let rref ← readU8
  return [s!"{timeText ts} QF-Pub   Sdr={it.objStr sdr}," ++
    s!"Evt<Sig={it.sigStr sig 0},Pool={pool},Ref={rref}>"]

def handleQfNew : List String := reading payload do
  let ts ← it.readTime
  let size ← readSized it.sizes.eventSize
  let sig ← it.readSig
  return [s!"{timeText ts} QF-New   Sig={it.sigStr sig 0},Size={size}"]

/-- The four records of an event's signal, pool and count, under their labels. -/
def handleEvtCount (label : String) : List String := reading payload do
  let ts ← it.readTime
  let sig ← it.readSig
  let pool ← readU8
  let rref ← readU8
  return [s!"{timeText ts} {label} Evt<Sig={it.sigStr sig 0},Pool={pool},Ref={rref}>"]

def handleQfGc (label : String) : List String := it.handleEvtCount payload label

def handleQfEvtRef (label : String) : List String := it.handleEvtCount payload label

def handleQfTick : List String := reading payload do
  let ts ← it.readTime
  let rate ← readU8
  return [s!"{timeText ts} QF-Tick  Rate={rate}"]

def handleCrit (label : String) : List String := reading payload do
  let ts ← it.readTime
  let nesting ← readU8
  return [s!"{timeText ts} {label} Nesting={nesting}"]

def handleIsr (label : String) : List String := reading payload do
  let ts ← it.readTime
  let nesting ← readU8
  let prio ← readU8
  return [s!"{timeText ts} {label} Nesting={nesting},Pri={prio}"]

def handleSem (label : String) : List String := reading payload do
  let ts ← it.readTime
  let sem ← readU64
  let prio ← readU8
  let count ← readU16
  return [s!"{timeText ts} {label} Obj={it.objStr sem},Pri={prio},Cnt={count}"]

def handleMtx (label : String) : List String := reading payload do
  let ts ← it.readTime
  let mtx ← readU64
  let prio ← readU8
  return [s!"{timeText ts} {label} Obj={it.objStr mtx},Pri={prio}"]

/-- The three records of a time event with its counters, under their labels. -/
def handleTimeEvtCounted (label : String) : List String := reading payload do
  let ts ← it.readTime
  let timer ← it.readObj
  let target ← it.readObj
  let count ← readSized it.sizes.timeevtCtr
  let interval ← readSized it.sizes.timeevtCtr
  let rate ← readU8
  return [s!"{timeText ts} TE{rate}-{label} Obj={it.objStr timer},AO={it.objStr target}," ++
    s!"Tim={count},Int={interval}"]

def handleTimeEvtArm : List String := it.handleTimeEvtCounted payload "Arm "

def handleTimeEvtDisarm : List String := it.handleTimeEvtCounted payload "Dis "

def handleTimeEvtRearm : List String := it.handleTimeEvtCounted payload "Rarm"

def handleTimeEvtAutoDisarm : List String := reading payload do
  let timer ← it.readObj
  let target ← it.readObj
  let rate ← readU8
  return [s!"           TE{rate}-ADis Obj={it.objStr timer},AO={it.objStr target}"]

def handleTimeEvtDisarmAttempt : List String := reading payload do
  let ts ← it.readTime
  let timer ← it.readObj
  let target ← it.readObj
  let rate ← readU8
  return [s!"{timeText ts} TE{rate}-DisA Obj={it.objStr timer},AO={it.objStr target}"]

def handleTimeEvtPost : List String := reading payload do
  let ts ← it.readTime
  let timer ← it.readObj
  let signal ← it.readSig
  let target ← it.readObj
  let rate ← readU8
  return [s!"{timeText ts} TE{rate}-Post Obj={it.objStr timer}," ++
    s!"Sig={it.sigStr signal target},AO={it.objStr target}"]

def handleSchedLock : List String := reading payload do
  let ts ← it.readTime
  let prev ← readU8
  let new ← readU8
  return [s!"{timeText ts} Sch-Lock Ceil={prev}->{new}"]

def handleSchedUnlock : List String := reading payload do
  let ts ← it.readTime
  let prev ← readU8
  let new ← readU8
  return [s!"{timeText ts} Sch-Unlk Ceil={new}->{prev}"]

def handleSchedNext : List String := reading payload do
  let ts ← it.readTime
  let curPrio ← readU8
  let prevPrio ← readU8
  return [s!"{timeText ts} Sch-Next Pri={prevPrio}->{curPrio}"]

def handleSchedIdle : List String := reading payload do
  let ts ← it.readTime
  let prev ← readU8
  return [s!"{timeText ts} Sch-Idle Pri={prev}->0"]

def handleTestProbe : List String := reading payload do
  let ts ← it.readTime
  let api ← it.readFun
  let data ← readU32
  return [s!"{timeText ts} TstProbe Fun={it.funStr api},Data={hexNum 8 data.toNat}"]

def handleQueryData : List String := reading payload do
  let ts ← it.readTime
  let kind ← readU8
  let obj ← it.readObj
  let kindStr := ["SM", "AO", "MP", "EQ", "TE", "AP"].getD kind.toNat "??"
  return [s!"{timeText ts} Query-{kindStr} Obj={it.objStr obj}"]

def handlePeekData : List String := reading payload do
  let offset ← readU16
  let size ← readU8
  let data ← readBytes size.toNat <|> pure []
  return [s!"           Trg-Peek Offset={offset},Size={size},Data={hexBytes data}"]

end Handlers

/-- The arms of the match on the record type, with their labels. -/
def handlers : List (UInt8 × (FrameInterpreter → List UInt8 → List String)) :=
  [(qep.STATE_ENTRY, handleStateEntry), (qep.STATE_EXIT, handleStateExit),
    (qep.STATE_INIT, handleStateInit), (qep.INIT_TRAN, handleInitTran),
    (qep.INTERN_TRAN, handleInternTran), (qep.TRAN, handleTran), (qep.IGNORED, handleIgnored),
    (qep.DISPATCH, handleDispatch), (qep.UNHANDLED, handleUnhandled),
    (qep.TRAN_HIST, handleTranHist),
    (qf.ACTIVE_DEFER, (handleAoDeferRecall · · "AO-Defer ")),
    (qf.ACTIVE_RECALL, (handleAoDeferRecall · · "AO-Rcall ")),
    (qf.ACTIVE_SUBSCRIBE, handleAoSubscribe), (qf.ACTIVE_UNSUBSCRIBE, handleAoUnsubscribe),
    (qf.ACTIVE_POST, (handleAoPost · · "AO-Post ")),
    (qf.ACTIVE_POST_LIFO, (handleAoPost · · "AO-PostL")),
    (qf.ACTIVE_GET, handleAoGet), (qf.ACTIVE_GET_LAST, handleAoGetLast),
    (qf.ACTIVE_POST_ATTEMPT, (handleAoPost · · "AO-PostA")),
    (qf.EQUEUE_INIT, handleEqueueInit),
    (qf.EQUEUE_POST, (handleEqueuePost · · "EQ-Post ")),
    (qf.EQUEUE_POST_LIFO, (handleEqueuePost · · "EQ-PostL")),
    (qf.EQUEUE_GET, (handleEqueueGet · · "EQ-Get  ")),
    (qf.EQUEUE_POST_ATTEMPT, (handleEqueuePost · · "EQ-PostA")),
    (qf.MPOOL_INIT, handleMpoolInit), (qf.MPOOL_GET, handleMpoolGet),
    (qf.MPOOL_PUT, handleMpoolPut),
    (qf.MPOOL_GET_ATTEMPT, (handleMpoolGetLabeled · · "MP-GetA ")),
    (qf.PUBLISH, handleQfPublish), (qf.NEW_REF, (handleQfEvtRef · · "New-Ref ")),
    (qf.NEW, handleQfNew), (qf.GC_ATTEMPT, (handleQfGc · · "QF-gcA  ")),
    (qf.GC, (handleQfGc · · "QF-gc   ")), (qf.TICK, handleQfTick),
    (qf.DELETE_REF, (handleQfEvtRef · · "QF-DelRf")),
    (qf.CRIT_ENTRY, (handleCrit · · "QF-CritE")), (qf.CRIT_EXIT, (handleCrit · · "QF-CritX")),
    (qf.ISR_ENTRY, (handleIsr · · "QF-IsrE ")), (qf.ISR_EXIT, (handleIsr · · "QF-IsrX ")),
    (time_evt.ARM, handleTimeEvtArm), (time_evt.AUTO_DISARM, handleTimeEvtAutoDisarm),
    (time_evt.DISARM_ATTEMPT, handleTimeEvtDisarmAttempt),
    (time_evt.DISARM, handleTimeEvtDisarm), (time_evt.REARM, handleTimeEvtRearm),
    (time_evt.POST, handleTimeEvtPost),
    (sched.LOCK, handleSchedLock), (sched.UNLOCK, handleSchedUnlock),
    (sched.NEXT, handleSchedNext), (sched.IDLE, handleSchedIdle),
    (qxk.SEM_TAKE, (handleSem · · "Sem-Take ")), (qxk.SEM_BLOCK, (handleSem · · "Sem-Blk  ")),
    (qxk.SEM_SIGNAL, (handleSem · · "Sem-Sig  ")),
    (qxk.SEM_BLOCK_ATTEMPT, (handleSem · · "Sem-BlkA ")),
    (qxk.MTX_LOCK, (handleMtx · · "Mtx-Lock ")), (qxk.MTX_BLOCK, (handleMtx · · "Mtx-Blk  ")),
    (qxk.MTX_UNLOCK, (handleMtx · · "Mtx-Unlk ")),
    (qxk.MTX_LOCK_ATTEMPT, (handleMtx · · "Mtx-LockA")),
    (qxk.MTX_BLOCK_ATTEMPT, (handleMtx · · "Mtx-BlkA ")),
    (qxk.MTX_UNLOCK_ATTEMPT, (handleMtx · · "Mtx-UnlkA")),
    (infra.TEST_PAUSED, fun _ _ => ["           TstPause"]),
    (infra.TEST_PROBE, handleTestProbe), (infra.QUERY_DATA, handleQueryData),
    (infra.PEEK_DATA, fun _ => handlePeekData),
    (infra.QF_RUN, fun _ _ => ["           QF RUN"]),
    (infra.TARGET_DONE, fun _ payload => [s!"           Trg-Done rec={payload.headD 0}"]),
    (infra.RX_STATUS, fun _ => handleRxStatus)]

/-- The match of `interpret`. -/
def handle (others : FrameInterpreter → QsFrame → FrameInterpreter × List String)
    (it : FrameInterpreter) (frame : QsFrame) : FrameInterpreter × List String :=
  if frame.recordType = predefined.TARGET_INFO then it.handleTargetInfo frame.payload
  else
    match handlers.lookup frame.recordType with
    | some handler => (it, handler it frame.payload)
    | none => others it frame

def fallbackLine (frame : QsFrame) : String :=
  s!"           rec={hexNum 2 frame.recordType.toNat} len={frame.payload.length} " ++
  s!"payload={hexBytes frame.payload}"

def interpret (others : FrameInterpreter → QsFrame → FrameInterpreter × List String)
    (it : FrameInterpreter) (frame : QsFrame) : FrameInterpreter × List String :=
  let (it, lines) := it.handle others frame
  (it, if lines.isEmpty then [fallbackLine frame] else lines)

end FrameInterpreter

end QpRs.Qs
