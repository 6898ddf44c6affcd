import QpRs.Event
import QpRs.Lib.Bytes
import QpRs.Qs.Hdlc

/-! The target's parser of QS-RX frames and its decoder of commands. -/

namespace QpRs.Qs

open QpRs.Lib

inductive RxCmd where
  | info
  | command (id : UInt8) (p1 p2 p3 : UInt32)
  | reset
  | tick (rate : UInt8)
  | peek (addr : UInt64) (offset : UInt16) (size num : UInt8)
  | poke (addr : UInt64) (offset : UInt16) (size num : UInt8) (data : List UInt8)
  | fill (addr : UInt64) (offset : UInt16) (size num : UInt8) (data : List UInt8)
  | testSetup
  | testTeardown
  | testContinue
  | testProbe (fnPtr : UInt64) (data : UInt32)
  | glbFilter (bits : Vector UInt8 16)
  | locFilter (kind : UInt8) (objPtr : UInt64)
  | aoFilter (prio : UInt8)
  | currObj (kind : UInt8) (objPtr : UInt64)
  | queryCurr (kind : UInt8)
  | event (prio : UInt8) (signal : UInt16) (payload : List UInt8)
  | unknown (cmd : UInt8) (payload : List UInt8)
  deriving DecidableEq, Repr

namespace cmd

def INFO : UInt8 := 0
def COMMAND : UInt8 := 1
def RESET : UInt8 := 2
def TICK : UInt8 := 3
def PEEK : UInt8 := 4
def POKE : UInt8 := 5
def FILL : UInt8 := 6
def TEST_SETUP : UInt8 := 7
def TEST_TEARDOWN : UInt8 := 8
def TEST_PROBE : UInt8 := 9
def GLB_FILTER : UInt8 := 10
def LOC_FILTER : UInt8 := 11
def AO_FILTER : UInt8 := 12
def CURR_OBJ : UInt8 := 13
def TEST_CONTINUE : UInt8 := 14
def QUERY_CURR : UInt8 := 15
def EVENT : UInt8 := 16

end cmd

inductive RxState where
  | idle
  | inFrame
  | escaped
  deriving DecidableEq, Repr

structure RxParser where
  state : RxState
  buf : List UInt8
  checksum : UInt8
  deriving DecidableEq, Repr

namespace RxParser

def new : RxParser := { state := .idle, buf := [], checksum := 0 }

def byteAt (payload : List UInt8) (i : Nat) : Except Halt UInt8 := index .fault payload i

/-- `from_le_bytes` of a number type at its width. -/
def numAt {α : Type} (width : Nat) (ofNat : Nat → α) (payload : List UInt8) (first : Nat) :
    Except Halt α := do
  let bytes ← arrayAt .fault payload first width
  return ofNat (fromLeBytes bytes.toList)

def u16At := numAt 2 UInt16.ofNat

def u32At := numAt 4 UInt32.ofNat

def u64At := numAt 8 UInt64.ofNat

def restFrom (payload : List UInt8) (first : Nat) : Except Halt (List UInt8) :=
  slice .fault payload first payload.length

def decodeCmd (cmdType : UInt8) (payload : List UInt8) : Except Halt RxCmd :=
  if cmdType = cmd.INFO then .ok .info
  else if cmdType = cmd.RESET then .ok .reset
  else if cmdType = cmd.TEST_SETUP then .ok .testSetup
  else if cmdType = cmd.TEST_TEARDOWN then .ok .testTeardown
  else if cmdType = cmd.TEST_CONTINUE then .ok .testContinue
  else if cmdType = cmd.TICK ∧ payload ≠ [] then do
    return .tick (← byteAt payload 0)
  else if cmdType = cmd.AO_FILTER ∧ payload ≠ [] then do
    return .aoFilter (← byteAt payload 0)
  else if cmdType = cmd.QUERY_CURR ∧ payload ≠ [] then do
    return .queryCurr (← byteAt payload 0)
  else if cmdType = cmd.GLB_FILTER ∧ payload.length ≥ 16 then do
    return .glbFilter (← arrayAt .fault payload 0 16)
  else if cmdType = cmd.LOC_FILTER ∧ payload.length ≥ 9 then do
    return .locFilter (← byteAt payload 0) (← u64At payload 1)
  else if cmdType = cmd.CURR_OBJ ∧ payload.length ≥ 9 then do
    return .currObj (← byteAt payload 0) (← u64At payload 1)
  else if cmdType = cmd.TEST_PROBE ∧ payload.length ≥ 12 then do
    return .testProbe (← u64At payload 0) (← u32At payload 8)
  else if cmdType = cmd.COMMAND ∧ payload.length ≥ 13 then do
    return .command (← byteAt payload 0) (← u32At payload 1) (← u32At payload 5)
      (← u32At payload 9)
  else if cmdType = cmd.PEEK ∧ payload.length ≥ 12 then do
    return .peek (← u64At payload 0) (← u16At payload 8) (← byteAt payload 10)
      (← byteAt payload 11)
  else if cmdType = cmd.POKE ∧ payload.length ≥ 12 then do
    return .poke (← u64At payload 0) (← u16At payload 8) (← byteAt payload 10)
      (← byteAt payload 11) (← restFrom payload 12)
  else if cmdType = cmd.FILL ∧ payload.length ≥ 12 then do
    return .fill (← u64At payload 0) (← u16At payload 8) (← byteAt payload 10)
      (← byteAt payload 11) (← restFrom payload 12)
  else if cmdType = cmd.EVENT ∧ payload.length ≥ 3 then do
    return .event (← byteAt payload 0) (← u16At payload 1) (← restFrom payload 3)
  else .ok (.unknown cmdType payload)

def accept (p : RxParser) (byte : UInt8) : RxParser :=
  { p with checksum := p.checksum + byte, buf := p.buf ++ [byte] }

def tryDecode (p : RxParser) : Except Halt (Option RxCmd) :=
  if p.buf.length < 3 then .ok none
  else if sum p.buf ≠ 0xFF then .ok none
  else do
    let cmdType ← index .fault p.buf 1
    let payload ← slice .fault p.buf 2 (p.buf.length - 1)
    let decoded ← decodeCmd cmdType payload
    return some decoded

def push (p : RxParser) (byte : UInt8) : Except Halt (RxParser × Option RxCmd) :=
  match p.state with
  | .idle =>
      if byte = FLAG then .ok ({ state := .inFrame, buf := [], checksum := 0 }, none)
      else .ok (p, none)
  | .inFrame =>
      if byte = FLAG then do
        let result ← p.tryDecode
        return ({ state := .idle, buf := [], checksum := 0 }, result)
      else if byte = ESC then .ok ({ p with state := .escaped }, none)
      else .ok (p.accept byte, none)
  | .escaped => .ok (accept { p with state := .inFrame } (byte ^^^ ESC_XOR), none)

def pushSlice (p : RxParser) (bytes : List UInt8) : Except Halt (RxParser × List RxCmd) :=
  feed push p bytes

theorem byteAt_returns {payload : List UInt8} {i : Nat} (inside : i < payload.length) :
    Returns (byteAt payload i) := index_returns inside

theorem numAt_returns {α : Type} {width : Nat} {ofNat : Nat → α} {payload : List UInt8}
    {first : Nat} (inside : first + width ≤ payload.length) :
    Returns (numAt width ofNat payload first) :=
  (arrayAt_returns inside).bind fun _ => .ok _

theorem restFrom_returns {payload : List UInt8} {first : Nat} (inside : first ≤ payload.length) :
    Returns (restFrom payload first) := ⟨_, slice_ok inside le_rfl⟩

theorem region_returns {payload : List UInt8} {β : Type}
    {make : UInt64 → UInt16 → UInt8 → UInt8 → Except Halt β} (long : payload.length ≥ 12)
    (next : ∀ addr offset size num, Returns (make addr offset size num)) :
    Returns (do
      let addr ← u64At payload 0
      let offset ← u16At payload 8
      let size ← byteAt payload 10
      let num ← byteAt payload 11
      make addr offset size num) :=
  (numAt_returns (by omega)).bind fun addr => (numAt_returns (by omega)).bind fun offset =>
    (byteAt_returns (by omega)).bind fun size => (byteAt_returns (by omega)).bind fun num =>
      next addr offset size num

/-- Every read of the decoder is inside the length that its guard asks for. -/
theorem decodeCmd_returns (cmdType : UInt8) (payload : List UInt8) :
    Returns (decodeCmd cmdType payload) := by
  have nonempty : payload ≠ [] → Returns (byteAt payload 0) := fun some =>
    byteAt_returns (List.length_pos_iff.mpr some)
  have object : ∀ {β : Type} (make : UInt8 → UInt64 → β), payload.length ≥ 9 →
      Returns (do return make (← byteAt payload 0) (← u64At payload 1)) := fun make long =>
    (byteAt_returns (by omega)).bind fun _ => (numAt_returns (by omega)).bind fun _ => .ok _
  -- one arm of the match after the other, with its guard
  refine .ite (fun _ => .ok _) fun _ => ?_
  refine .ite (fun _ => .ok _) fun _ => ?_
  refine .ite (fun _ => .ok _) fun _ => ?_
  refine .ite (fun _ => .ok _) fun _ => ?_
  refine .ite (fun _ => .ok _) fun _ => ?_
  refine .ite (fun tick => (nonempty tick.2).bind fun _ => .ok _) fun _ => ?_
  refine .ite (fun ao => (nonempty ao.2).bind fun _ => .ok _) fun _ => ?_
  refine .ite (fun query => (nonempty query.2).bind fun _ => .ok _) fun _ => ?_
  refine .ite (fun glb => (arrayAt_returns (by omega)).bind fun _ => .ok _) fun _ => ?_
  refine .ite (fun loc => object _ loc.2) fun _ => ?_
  refine .ite (fun curr => object _ curr.2) fun _ => ?_
  refine .ite (fun probe => (numAt_returns (by omega)).bind fun _ =>
    (numAt_returns (by omega)).bind fun _ => .ok _) fun _ => ?_
  refine .ite (fun command => (byteAt_returns (by omega)).bind fun _ =>
    (numAt_returns (by omega)).bind fun _ => (numAt_returns (by omega)).bind fun _ =>
    (numAt_returns (by omega)).bind fun _ => .ok _) fun _ => ?_
  refine .ite (fun peek => region_returns peek.2 fun _ _ _ _ => .ok _) fun _ => ?_
  refine .ite (fun poke => region_returns poke.2 fun _ _ _ _ =>
    (restFrom_returns poke.2).bind fun _ => .ok _) fun _ => ?_
  refine .ite (fun fill => region_returns fill.2 fun _ _ _ _ =>
    (restFrom_returns fill.2).bind fun _ => .ok _) fun _ => ?_
  refine .ite (fun event => (byteAt_returns (by omega)).bind fun _ =>
    (numAt_returns (by omega)).bind fun _ => (restFrom_returns event.2).bind fun _ => .ok _)
      fun _ => ?_
  exact .ok _

end RxParser

end QpRs.Qs
