import QpRs.Qs.Dictionaries
import Mathlib.Algebra.BigOperators.Group.List.Basic

/-! The records of applications: the builder of the target (`qs/src/record.rs`) and the parser of
the host, field by field under a format byte. -/

namespace QpRs.Qs

open QpRs.Lib

namespace record

def FMT_I8_ENUM : UInt8 := 0x0
def FMT_U8 : UInt8 := 0x1
def FMT_I16 : UInt8 := 0x2
def FMT_U16 : UInt8 := 0x3
def FMT_I32 : UInt8 := 0x4
def FMT_U32 : UInt8 := 0x5
def FMT_F32 : UInt8 := 0x6
def FMT_F64 : UInt8 := 0x7
def FMT_STR : UInt8 := 0x8
def FMT_MEM : UInt8 := 0x9
def FMT_SIG : UInt8 := 0xA
def FMT_OBJ : UInt8 := 0xB
def FMT_FUN : UInt8 := 0xC
def FMT_I64 : UInt8 := 0xD
def FMT_U64 : UInt8 := 0xE
def FMT_HEX : UInt8 := 0xF

end record

open record

def makeFormat (width base : UInt8) : UInt8 := ((width &&& 0x0F) <<< 4) ||| (base &&& 0x0F)

structure UserRecordBuilder where
  bytes : List UInt8
  deriving DecidableEq, Repr

namespace UserRecordBuilder

def new : UserRecordBuilder := ⟨[]⟩

def push (builder : UserRecordBuilder) (format : UInt8) (content : List UInt8) :
    UserRecordBuilder :=
  ⟨builder.bytes ++ [format] ++ content⟩

section Pushes

variable (builder : UserRecordBuilder)

def pushU8 (width value : UInt8) : UserRecordBuilder :=
  builder.push (makeFormat width FMT_U8) [value]

def pushU16 (width : UInt8) (value : UInt16) : UserRecordBuilder :=
  builder.push (makeFormat width FMT_U16) (toLeBytes 2 value.toNat)

def pushU32 (width : UInt8) (value : UInt32) : UserRecordBuilder :=
  builder.push (makeFormat width FMT_U32) (toLeBytes 4 value.toNat)

def pushU64 (width : UInt8) (value : UInt64) : UserRecordBuilder :=
  builder.push (makeFormat width FMT_U64) (toLeBytes 8 value.toNat)

/-- None where the builder panics: the length must fit a byte. -/
def pushMem (data : List UInt8) : Option UserRecordBuilder :=
  if data.length ≤ 255 then
    some (builder.push (makeFormat 0 FMT_MEM) (UInt8.ofNat data.length :: data))
  else none

def pushI8Enum (value : Int8) : UserRecordBuilder :=
  builder.push (makeFormat 0 FMT_I8_ENUM) [value.toUInt8]

def pushI16 (width : UInt8) (value : Int16) : UserRecordBuilder :=
  builder.push (makeFormat width FMT_I16) (toLeBytes 2 value.toUInt16.toNat)

def pushI32 (width : UInt8) (value : Int32) : UserRecordBuilder :=
  builder.push (makeFormat width FMT_I32) (toLeBytes 4 value.toUInt32.toNat)

def pushI64 (width : UInt8) (value : Int64) : UserRecordBuilder :=
  builder.push (makeFormat width FMT_I64) (toLeBytes 8 value.toUInt64.toNat)

def pushStr (value : String) : UserRecordBuilder :=
  builder.push (makeFormat 0 FMT_STR) (utf8Bytes value ++ [0])

end Pushes

def intoVec (builder : UserRecordBuilder) : List UInt8 := builder.bytes

end UserRecordBuilder

/-- What the host shows user records with and this model does not go into: the digits of floating
point numbers, and the formatters that an application registered. -/
structure UserText where
  f32 : List UInt8 → String
  f64 : List UInt8 → String
  userFormatters : List (String → List String → Option String)

namespace FrameInterpreter

open Cursor

/-- A number under the hexadecimal flag, or else in its own digits. -/
def flagged (hexFlag : Bool) (digits bits : Nat) (text : String) : String :=
  if hexFlag then hexNum digits bits else text

/-- The arms of the match on the format, the hexadecimal flag aside. Every value of a nibble has
its arm, so the source's last one is never taken. -/
def formats (text : UserText) (it : FrameInterpreter) (hexFlag : Bool) :
    List (UInt8 × Read Cursor String) :=
  [(FMT_I8_ENUM, do
      let v ← readU8
      return flagged hexFlag 2 v.toNat (toString v.toInt8)),
    (FMT_U8, do
      let v ← readU8
      return flagged hexFlag 2 v.toNat (toString v)),
    (FMT_I16, do
      let v ← readU16
      return flagged hexFlag 4 v.toNat (toString v.toInt16)),
    (FMT_U16, do
      let v ← readU16
      return flagged hexFlag 4 v.toNat (toString v)),
    (FMT_I32, do
      let v ← readU32
      return flagged hexFlag 8 v.toNat (toString v.toInt32)),
    (FMT_U32, do
      let v ← readU32
      return flagged hexFlag 8 v.toNat (toString v)),
    (FMT_F32, text.f32 <$> readBytes 4), (FMT_F64, text.f64 <$> readBytes 8),
    (FMT_STR, readCString),
    (FMT_MEM, do
      let len ← readU8
      let data ← readBytes len.toNat
      return "mem:" ++ hexBytes data),
    (FMT_SIG, (it.sigStr · 0) <$> it.readSig), (FMT_OBJ, it.objStr <$> it.readObj),
    (FMT_FUN, it.funStr <$> it.readFun),
    (FMT_I64, do
      let v ← readU64
      return flagged hexFlag 16 v.toNat (toString v.toInt64)),
    (FMT_U64, do
      let v ← readU64
      return flagged hexFlag 16 v.toNat (toString v))]

def readFormat (text : UserText) (it : FrameInterpreter) (hexFlag : Bool) (fmtByte : UInt8) :
    Read Cursor String :=
  ((it.formats text hexFlag).lookup (fmtByte &&& 0x0F)).getD failure

/-- The loop over the fields, for at most `fuel` format bytes, and the cursor at its end. -/
def fields (text : UserText) (it : FrameInterpreter) : Nat → Bool → Cursor → List String × Cursor
  | 0, _, cur => ([], cur)
  | fuel + 1, hexFlag, cur =>
      match readU8 cur with
      | none => ([], cur)
      | some (fmtByte, cur) =>
          if fmtByte &&& 0x0F = FMT_HEX then it.fields text fuel true cur
          else
            match it.readFormat text hexFlag fmtByte cur with
            | none => ([], cur)
            | some (value, cur) =>
                let (values, cur) := it.fields text fuel false cur
                (value :: values, cur)

/-- The timestamp and the values of a payload, with the cursor after them. -/
def userValues (text : UserText) (it : FrameInterpreter) (payload : List UInt8) :
    Option (UInt64 × List String × Cursor) :=
  match it.readTime (Cursor.new payload) with
  | none => none
  | some (ts, cur) => some (ts, it.fields text cur.remaining false cur)

/-- The line of a record with its values, by the first formatter that makes one. -/
def userLine (text : UserText) (name : String) (ts : UInt64) (values : List String) : String :=
  match text.userFormatters.findSome? fun formatter => formatter name values with
  | some line => s!"{timeText ts} {line}"
  | none =>
      let joined := " ".intercalate values
      s!"{timeText ts} {name} {joined}"

def userName (it : FrameInterpreter) (record : UInt8) : String :=
  (it.dict.users record).getD s!"USR({record})"

def handleUserRecord (text : UserText) (it : FrameInterpreter) (record : UInt8)
    (payload : List UInt8) : List String :=
  let name := it.userName record
  match it.userValues text payload with
  | none => [s!"           {name} payload={hexBytes payload}"]
  | some (ts, values, _) => [userLine text name ts values]

end FrameInterpreter

/-- A blob whose length fits a byte. -/
structure Blob where
  data : List UInt8
  short : data.length ≤ 255

inductive Push where
  | u8 (width value : UInt8)
  | u16 (width : UInt8) (value : UInt16)
  | u32 (width : UInt8) (value : UInt32)
  | u64 (width : UInt8) (value : UInt64)
  | i8Enum (value : Int8)
  | i16 (width : UInt8) (value : Int16)
  | i32 (width : UInt8) (value : Int32)
  | i64 (width : UInt8) (value : Int64)
  | str (value : CName)
  | mem (blob : Blob)

namespace Push

def onto (builder : UserRecordBuilder) : Push → Option UserRecordBuilder
  | .u8 width value => some (builder.pushU8 width value)
  | .u16 width value => some (builder.pushU16 width value)
  | .u32 width value => some (builder.pushU32 width value)
  | .u64 width value => some (builder.pushU64 width value)
  | .i8Enum value => some (builder.pushI8Enum value)
  | .i16 width value => some (builder.pushI16 width value)
  | .i32 width value => some (builder.pushI32 width value)
  | .i64 width value => some (builder.pushI64 width value)
  | .str value => some (builder.pushStr value.text)
  | .mem blob => builder.pushMem blob.data

def shown : Push → String
  | .u8 _ value => toString value
  | .u16 _ value => toString value
  | .u32 _ value => toString value
  | .u64 _ value => toString value
  | .i8Enum value => toString value
  | .i16 _ value => toString value
  | .i32 _ value => toString value
  | .i64 _ value => toString value
  | .str value => value.text
  | .mem blob => "mem:" ++ hexBytes blob.data

def format : Push → UInt8
  | .u8 width _ => makeFormat width FMT_U8
  | .u16 width _ => makeFormat width FMT_U16
  | .u32 width _ => makeFormat width FMT_U32
  | .u64 width _ => makeFormat width FMT_U64
  | .i8Enum _ => makeFormat 0 FMT_I8_ENUM
  | .i16 width _ => makeFormat width FMT_I16
  | .i32 width _ => makeFormat width FMT_I32
  | .i64 width _ => makeFormat width FMT_I64
  | .str _ => makeFormat 0 FMT_STR
  | .mem _ => makeFormat 0 FMT_MEM

def content : Push → List UInt8
  | .u8 _ value => [value]
  | .u16 _ value => toLeBytes 2 value.toNat
  | .u32 _ value => toLeBytes 4 value.toNat
  | .u64 _ value => toLeBytes 8 value.toNat
  | .i8Enum value => [value.toUInt8]
  | .i16 _ value => toLeBytes 2 value.toUInt16.toNat
  | .i32 _ value => toLeBytes 4 value.toUInt32.toNat
  | .i64 _ value => toLeBytes 8 value.toUInt64.toNat
  | .str value => utf8Bytes value.text ++ [0]
  | .mem blob => [UInt8.ofNat blob.data.length] ++ blob.data

end Push

def UserRecordBuilder.pushes (builder : UserRecordBuilder) (made : List Push) :
    Option UserRecordBuilder :=
  made.foldlM Push.onto builder

theorem UserRecordBuilder.pushes_bytes (builder : UserRecordBuilder) (made : List Push) :
    builder.pushes made =
      some ⟨builder.bytes ++ made.flatMap fun p => [p.format] ++ p.content⟩ := by
  induction made generalizing builder with
  | nil => simp [pushes]
  | cons p later ih =>
      have first : p.onto builder = some (builder.push p.format p.content) := by
        cases p with
        | mem blob => exact if_pos blob.short
        | _ => rfl
      have rest := ih (builder.push p.format p.content)
      rw [pushes] at rest ⊢
      rw [List.foldlM_cons, first, Option.bind_eq_bind, Option.bind_some, rest]
      simp [push, List.append_assoc]

/-- The width hint does not show in the nibble that the host matches on. -/
theorem makeFormat_base (width base : UInt8) : makeFormat width base &&& 0x0F = base &&& 0x0F := by
  rw [makeFormat, UInt8.or_comm, low_nibble, UInt8.and_assoc]
  rfl

namespace FrameInterpreter

open Cursor

variable {text : UserText} {it : FrameInterpreter}

theorem format_ne_hex (p : Push) : p.format &&& 0x0F ≠ FMT_HEX := by
  cases p <;> rw [Push.format, makeFormat_base] <;> decide

theorem takes_makeFormat {width base : UInt8} {content : List UInt8} {shown : String}
    {read : Read Cursor String}
    (arm : (it.formats text false).lookup (base &&& 0x0F) = some read)
    (takes : Takes Cursor.Holds content shown read) :
    Takes Cursor.Holds content shown (it.readFormat text false (makeFormat width base)) := by
  rw [readFormat, makeFormat_base, arm]
  exact takes

theorem takes_push (p : Push) :
    Takes Cursor.Holds p.content p.shown (it.readFormat text false p.format) := by
  cases p with
  | u8 width value =>
      exact takes_makeFormat rfl ((takes_readU8 value).last rfl)
  | u16 width value =>
      exact takes_makeFormat rfl ((takes_readU16 value).last rfl)
  | u32 width value =>
      exact takes_makeFormat rfl ((takes_readU32 value).last rfl)
  | u64 width value =>
      exact takes_makeFormat rfl ((takes_readU64 value).last rfl)
  | i8Enum value =>
      exact takes_makeFormat rfl ((takes_readU8 value.toUInt8).last rfl)
  | i16 width value =>
      exact takes_makeFormat rfl ((takes_readU16 value.toUInt16).last rfl)
  | i32 width value =>
      exact takes_makeFormat rfl ((takes_readU32 value.toUInt32).last rfl)
  | i64 width value =>
      exact takes_makeFormat rfl ((takes_readU64 value.toUInt64).last rfl)
  | str value =>
      exact takes_makeFormat rfl (takes_readCString value.nulFree)
  | mem blob =>
      have count : (UInt8.ofNat blob.data.length).toNat = blob.data.length :=
        UInt8.toNat_ofNat_of_lt' (Nat.lt_succ_of_le blob.short)
      have bytes := takes_readBytes blob.data
      rw [← count] at bytes
      exact takes_makeFormat rfl
        ((takes_readU8 (UInt8.ofNat blob.data.length)).bind (bytes.last rfl))

theorem fields_nil {fuel : Nat} {hexFlag : Bool} {cur : Cursor} (held : cur.Holds []) :
    it.fields text fuel hexFlag cur = ([], cur) := by
  cases fuel with
  | zero => rfl
  | succ fuel =>
      have refused : readU8 cur = none :=
        (spends_readNum 1 _).refuses (Nat.lt_succ_of_le held.remaining.le)
      rw [fields, refused]

theorem fields_pushes (made : List Push) {fuel : Nat} (enough : made.length ≤ fuel) {cur : Cursor}
    (held : cur.Holds (made.flatMap fun p => [p.format] ++ p.content)) :
    ∃ after, it.fields text fuel false cur = (made.map Push.shown, after) ∧ after.Holds [] := by
  induction made generalizing fuel cur with
  | nil => exact ⟨cur, fields_nil held, held⟩
  | cons p later ih =>
      cases fuel with
      | zero => exact absurd enough (Nat.not_succ_le_zero _)
      | succ fuel =>
          rw [List.flatMap_cons, List.append_assoc] at held
          obtain ⟨between, format, content⟩ := takes_readU8 p.format cur _ held
          have takes : Takes Cursor.Holds p.content p.shown (it.readFormat text false p.format) :=
            takes_push p
          obtain ⟨next, value, rest⟩ := takes between _ content
          obtain ⟨after, values, done⟩ := ih (Nat.le_of_succ_le_succ enough) rest
          refine ⟨after, ?_, done⟩
          simp only [fields, format, if_neg (format_ne_hex p), value, values, List.map_cons]

/-- Every format byte is spent, so no payload has more fields than bytes. -/
theorem spends_readFormat (hexFlag : Bool) (fmtByte : UInt8) :
    Spends remaining 0 (it.readFormat text hexFlag fmtByte) := by
  have bytes (count : Nat) : Spends remaining 0 (readBytes count) :=
    (spends_readBytes count).weaken (Nat.zero_le _)
  have number {α : Type} (width : Nat) (ofNat : Nat → α) (text : α → String) :
      Spends remaining 0 (readNum width ofNat >>= fun v => pure (text v)) :=
    ((spends_readNum width ofNat).bind fun _ => .pure _).weaken (Nat.zero_le _)
  have sized (size : UInt8) (text : UInt64 → String) :
      Spends remaining 0 (text <$> readSized size) :=
    ((spends_readSized size).map text).weaken (Nat.zero_le _)
  have data (len : UInt8) : Spends remaining 0 (readBytes len.toNat >>= fun data =>
      pure ("mem:" ++ hexBytes data)) := (bytes len.toNat).bind fun _ => .pure _
  have blob : Spends remaining 0 (readU8 >>= fun len => readBytes len.toNat >>= fun data =>
      pure ("mem:" ++ hexBytes data)) :=
    ((spends_readNum 1 UInt8.ofNat).bind data).weaken (Nat.zero_le _)
  have arms : ∀ arm ∈ it.formats text hexFlag, Spends remaining 0 arm.2 := by
    simp only [formats, List.forall_mem_cons, List.not_mem_nil, false_implies, implies_true,
      and_true]
    exact ⟨number 1 _ _, number 1 _ _, number 2 _ _, number 2 _ _, number 4 _ _, number 4 _ _,
      (bytes 4).map _, (bytes 8).map _, spends_readCString, blob, sized _ _, sized _ _, sized _ _,
      number 8 _ _, number 8 _ _⟩
  rw [readFormat]
  cases found : (it.formats text hexFlag).lookup (fmtByte &&& 0x0F) with
  | none => exact .fails 0
  | some read =>
      obtain ⟨before, after, all, _⟩ := List.lookup_eq_some_iff.mp found
      have arm_mem : (fmtByte &&& 0x0F, read) ∈ it.formats text hexFlag := by
        rw [all]
        exact List.mem_append_right before List.mem_cons_self
      exact arms _ arm_mem

theorem fields_enough {fuel : Nat} {hexFlag : Bool} {cur : Cursor}
    (enough : cur.remaining ≤ fuel) :
    it.fields text (fuel + 1) hexFlag cur = it.fields text fuel hexFlag cur := by
  induction fuel generalizing hexFlag cur with
  | zero =>
      have refused : readU8 cur = none :=
        (spends_readNum 1 _).refuses (Nat.lt_succ_of_le enough)
      rw [fields, fields, refused]
  | succ fuel ih =>
      rw [fields]
      conv_rhs => rw [fields]
      cases first : readU8 cur with
      | none => rfl
      | some format =>
          obtain ⟨fmtByte, between⟩ := format
          have shorter := spends_readNum 1 UInt8.ofNat cur fmtByte between first
          by_cases hex : fmtByte &&& 0x0F = FMT_HEX
          · simp only [if_pos hex]
            exact ih (by omega)
          · simp only [if_neg hex]
            cases content : it.readFormat text hexFlag fmtByte between with
            | none => rfl
            | some field =>
                obtain ⟨value, next⟩ := field
                have later := spends_readFormat hexFlag fmtByte between value next content
                simp only
                rw [ih (by omega)]

theorem fields_fuel {hexFlag : Bool} {cur : Cursor} (more : Nat) :
    it.fields text (cur.remaining + more) hexFlag cur =
      it.fields text cur.remaining hexFlag cur := by
  induction more with
  | zero => rfl
  | succ more ih => rw [← Nat.add_assoc, fields_enough (Nat.le_add_right _ _), ih]

end FrameInterpreter

/-- A user record of a built payload behind a timestamp is parsed into the values that were
pushed, with no byte left, and its line is made of just these. -/
theorem user_record_parsed (text : UserText) {it : FrameInterpreter} (times : it.sizes.timeSize = 4)
    (record : UInt8) (ts : UInt32) (made : List Push) :
    ∃ built after, UserRecordBuilder.new.pushes made = some built ∧
      it.userValues text (toLeBytes 4 ts.toNat ++ built.intoVec) =
        some (ts.toUInt64, made.map Push.shown, after) ∧
      after.isEmpty = true ∧
      it.handleUserRecord text record (toLeBytes 4 ts.toNat ++ built.intoVec) =
        [FrameInterpreter.userLine text (it.userName record) ts.toUInt64
          (made.map Push.shown)] := by
  let bytes := made.flatMap fun p => [p.format] ++ p.content
  let payload := toLeBytes 4 ts.toNat ++ bytes
  have time : Takes Cursor.Holds (toLeBytes 4 ts.toNat) ts.toUInt64 it.readTime := by
    rw [FrameInterpreter.readTime, times]
    exact Cursor.takes_readSized_four ts
  obtain ⟨between, read, held⟩ := time _ bytes (Cursor.holds_new payload)
  have enough : made.length ≤ between.remaining := by
    have bytes_pos : ∀ n ∈ made.map fun p => ([p.format] ++ p.content).length, 1 ≤ n := by
      intro n n_mem
      obtain ⟨p, _, rfl⟩ := List.mem_map.mp n_mem
      exact Nat.succ_pos _
    have counted := List.length_le_sum_of_one_le _ bytes_pos
    rw [List.length_map] at counted
    rw [held.remaining, List.length_flatMap]
    exact counted
  have fields : ∃ after, it.fields text between.remaining false between =
      (made.map Push.shown, after) ∧ after.Holds [] :=
    FrameInterpreter.fields_pushes made enough held
  obtain ⟨after, values, done⟩ := fields
  have parsed : it.userValues text payload = some (ts.toUInt64, made.map Push.shown, after) := by
    rw [FrameInterpreter.userValues, read]
    simp only [values]
  have left : after.isEmpty = true := by
    have none_left := done.remaining
    rw [Cursor.remaining, List.length_nil] at none_left
    simp only [Cursor.isEmpty, ge_iff_le, decide_eq_true_eq]
    omega
  refine ⟨⟨bytes⟩, after, UserRecordBuilder.pushes_bytes .new made, parsed, left, ?_⟩
  show it.handleUserRecord text record payload = _
  rw [FrameInterpreter.handleUserRecord, parsed]

/-- A record with no floating point number, at a host with no formatters of its own. -/
theorem mixed_record_parsed :
    let text : UserText := ⟨fun _ => "", fun _ => "", []⟩
    let made : List Push :=
      [.u8 0 200, .i16 3 (-5), .str ⟨"ok", by decide⟩, .mem ⟨[1, 255], by decide⟩]
    ∃ built after, UserRecordBuilder.new.pushes made = some built ∧
      informedHost.userValues text (toLeBytes 4 7 ++ built.intoVec) =
        some (7, ["200", "-5", "ok", "mem:01FF"], after) ∧ after.isEmpty = true := by
  intro text made
  obtain ⟨built, after, pushed, parsed, left, _⟩ := @user_record_parsed text informedHost rfl 100 7
    made
  exact ⟨built, after, pushed, parsed, left⟩

end QpRs.Qs
