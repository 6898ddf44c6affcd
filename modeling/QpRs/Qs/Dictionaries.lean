import QpRs.Lib.Table
import QpRs.Qs.Reads
import QpRs.Qs.Records

/-! The dictionary records: how the target writes them (`qs/src/predefined.rs`) and what the host
keeps of them. -/

namespace QpRs.Qs

open QpRs.Lib

namespace predefined

def ENUM_DICT : UInt8 := 54
def SIG_DICT : UInt8 := 60
def OBJ_DICT : UInt8 := 61
def FUN_DICT : UInt8 := 62
def USR_DICT : UInt8 := 63

end predefined

def pushCString (value : String) : List UInt8 := utf8Bytes value ++ [0]

section Payloads

-- `size_of::<usize>()` of the target
variable (ptrSize : UInt8)

def objDictPayload (address : UInt64) (name : String) : List UInt8 :=
  (toLeBytes 8 address.toNat).take ptrSize.toNat ++ pushCString name

def funDictPayload (address : UInt64) (name : String) : List UInt8 :=
  objDictPayload ptrSize address name

def usrDictPayload (recordId : UInt8) (name : String) : List UInt8 :=
  [recordId] ++ pushCString name

def sigDictPayload (signal : UInt16) (object : UInt64) (name : String) : List UInt8 :=
  toLeBytes 2 signal.toNat ++ ((toLeBytes 8 object.toNat).take ptrSize.toNat ++ pushCString name)

end Payloads

namespace Dictionaries

def insertObject (dict : Dictionaries) (addr : UInt64) (name : String) : Dictionaries :=
  { dict with objects := Table.insert dict.objects addr name }

def insertFunction (dict : Dictionaries) (addr : UInt64) (name : String) : Dictionaries :=
  { dict with functions := Table.insert dict.functions addr name }

def insertSignal (dict : Dictionaries) (signal : UInt32) (object : UInt64) (name : String) :
    Dictionaries :=
  { dict with
    signals := Function.curry (Table.insert (Function.uncurry dict.signals) (signal, object) name) }

def insertUser (dict : Dictionaries) (id : UInt8) (name : String) : Dictionaries :=
  { dict with users := Table.insert dict.users id name }

def insertEnum (dict : Dictionaries) (group value : UInt8) (name : String) : Dictionaries :=
  { dict with
    enums := Function.curry (Table.insert (Function.uncurry dict.enums) (group, value) name) }

end Dictionaries

namespace FrameInterpreter

open Cursor

section Handlers

variable (it : FrameInterpreter) (payload : List UInt8)

/-- The dictionaries and the line that a sequence of reads gives; nothing changes when one of the
reads fails. -/
def learning (read : Read Cursor (Dictionaries × String)) : FrameInterpreter × List String :=
  match read (Cursor.new payload) with
  | none => (it, [])
  | some ((dict, line), _) => ({ it with dict := dict }, [line])

def handleSigDict : FrameInterpreter × List String := it.learning payload do
  let signal ← it.readSig
  let object ← it.readObj
  let name ← readCString
  let obj := TargetSizes.fmtAddr object it.sizes.objPtrSize
  return (it.dict.insertSignal signal.toUInt32 object name,
    s!"           Sig-Dict {hexNum 8 signal.toNat},Obj={obj}->{name}")

def handleObjDict : FrameInterpreter × List String := it.learning payload do
  let addr ← it.readObj
  let name ← readCString
  return (it.dict.insertObject addr name,
    s!"           Obj-Dict {TargetSizes.fmtAddr addr it.sizes.objPtrSize}->{name}")

def handleFunDict : FrameInterpreter × List String := it.learning payload do
  let addr ← it.readFun
  let name ← readCString
  return (it.dict.insertFunction addr name,
    s!"           Fun-Dict {TargetSizes.fmtAddr addr it.sizes.funPtrSize}->{name}")

def handleUsrDict : FrameInterpreter × List String := it.learning payload do
  let id ← readU8
  let name ← readCString
  return (it.dict.insertUser id name,
    s!"           Usr-Dict {zeroPadded 3 (toString id.toNat)}->{name}")

def handleEnumDict : FrameInterpreter × List String := it.learning payload do
  let val ← readU8
  let grp ← readU8
  let name ← readCString
  return (it.dict.insertEnum grp val name, s!"           Enum-Dict grp={grp} {val}->{name}")

end Handlers

/-- The arms of `interpret` for the dictionaries. -/
def handleDictionaries (others : FrameInterpreter → QsFrame → FrameInterpreter × List String)
    (it : FrameInterpreter) (frame : QsFrame) : FrameInterpreter × List String :=
  if frame.recordType = predefined.ENUM_DICT then it.handleEnumDict frame.payload
  else if frame.recordType = predefined.SIG_DICT then it.handleSigDict frame.payload
  else if frame.recordType = predefined.OBJ_DICT then it.handleObjDict frame.payload
  else if frame.recordType = predefined.FUN_DICT then it.handleFunDict frame.payload
  else if frame.recordType = predefined.USR_DICT then it.handleUsrDict frame.payload
  else others it frame

def processed (others : FrameInterpreter → QsFrame → FrameInterpreter × List String)
    (it : FrameInterpreter) (frames : List QsFrame) : FrameInterpreter :=
  frames.foldl (fun it frame => (it.interpret (handleDictionaries others) frame).1) it

end FrameInterpreter

/-- A name that a C string can carry. -/
structure CName where
  text : String
  nulFree : '\x00' ∉ text.toList

/-- One call of a function of `predefined` that builds a dictionary record. -/
inductive DictRecord where
  | sig (signal : UInt16) (object : UInt64) (name : CName)
  | obj (address : UInt64) (name : CName)
  | fn (address : UInt64) (name : CName)
  | usr (recordId : UInt8) (name : CName)

/-- The part of an address that goes into `ptrSize` bytes: on a 64-bit target all of it. -/
def sentAddress (ptrSize : UInt8) (address : UInt64) : UInt64 :=
  UInt64.ofNat (address.toNat % 256 ^ ptrSize.toNat)

@[simp]
theorem sentAddress_eight (address : UInt64) : sentAddress 8 address = address := by
  have fits : address.toNat % 256 ^ 8 = address.toNat := Nat.mod_eq_of_lt address.toNat_lt
  rw [sentAddress, show (8 : UInt8).toNat = 8 from rfl, fits, UInt64.ofNat_toNat]

namespace DictRecord

variable (ptrSize : UInt8)

def frame (seq : UInt8) : DictRecord → QsFrame
  | .sig signal object name =>
      ⟨seq, predefined.SIG_DICT, sigDictPayload ptrSize signal object name.text⟩
  | .obj address name => ⟨seq, predefined.OBJ_DICT, objDictPayload ptrSize address name.text⟩
  | .fn address name => ⟨seq, predefined.FUN_DICT, funDictPayload ptrSize address name.text⟩
  | .usr recordId name => ⟨seq, predefined.USR_DICT, usrDictPayload recordId name.text⟩

def sigEntry : DictRecord → Option ((UInt32 × UInt64) × String)
  | .sig signal object name => some ((signal.toUInt32, sentAddress ptrSize object), name.text)
  | _ => none

def objEntry : DictRecord → Option (UInt64 × String)
  | .obj address name => some (sentAddress ptrSize address, name.text)
  | _ => none

def funEntry : DictRecord → Option (UInt64 × String)
  | .fn address name => some (sentAddress ptrSize address, name.text)
  | _ => none

def usrEntry : DictRecord → Option (UInt8 × String)
  | .usr recordId name => some (recordId, name.text)
  | _ => none

/-- The dictionaries with the entry of a record. -/
def learn (dict : Dictionaries) : DictRecord → Dictionaries
  | .sig signal object name =>
      dict.insertSignal signal.toUInt32 (sentAddress ptrSize object) name.text
  | .obj address name => dict.insertObject (sentAddress ptrSize address) name.text
  | .fn address name => dict.insertFunction (sentAddress ptrSize address) name.text
  | .usr recordId name => dict.insertUser recordId name.text

end DictRecord

open Cursor (ValidSize) in
/-- A target with pointers as wide as its `usize`, and signals of two bytes. -/
structure TargetInfo.Sized (info : TargetInfo) (ptrSize : UInt8) : Prop where
  usize : ValidSize ptrSize
  obj : info.objPtrSize = ptrSize
  func : info.funPtrSize = ptrSize
  signal : info.signalSize = 2
  event : ValidSize info.eventSize
  equeueCtr : ValidSize info.equeueCtrSize
  timeEvtCtr : ValidSize info.timeEvtCtrSize
  mpoolSize : ValidSize info.mpoolSizeSize
  mpoolCtr : ValidSize info.mpoolCtrSize
  time : ValidSize info.timeSize

def TargetInfo.sizes (info : TargetInfo) : TargetSizes where
  timeSize := info.timeSize
  objPtrSize := info.objPtrSize
  funPtrSize := info.funPtrSize
  signalSize := info.signalSize
  eventSize := info.eventSize
  equeueCtr := info.equeueCtrSize
  timeevtCtr := info.timeEvtCtrSize
  mpoolSiz := info.mpoolSizeSize
  mpoolCtr := info.mpoolCtrSize

section Sizes

open Cursor (ValidSize)

theorem TargetSizes.validSize_valid {v : UInt8} (valid : ValidSize v) (fallback : UInt8) :
    TargetSizes.validSize v fallback = v := if_pos valid

theorem packed_sizes {low high : UInt8} (lows : ValidSize low) (highs : ValidSize high) :
    (low ||| high <<< 4) &&& 0x0F = low ∧ ((low ||| high <<< 4) >>> 4) &&& 0x0F = high := by
  rcases lows with rfl | rfl | rfl | rfl <;> rcases highs with rfl | rfl | rfl | rfl <;> decide

theorem TargetInfo.Sized.taken {info : TargetInfo} {ptrSize : UInt8} (sized : info.Sized ptrSize)
    (earlier : TargetSizes) :
    earlier.updateFromTargetInfo (targetInfoPayload info) = info.sizes := by
  have signal : ValidSize info.signalSize := .inr (.inl sized.signal)
  have obj : ValidSize info.objPtrSize := sized.obj ▸ sized.usize
  have func : ValidSize info.funPtrSize := sized.func ▸ sized.usize
  obtain ⟨sigLow, sigHigh⟩ := packed_sizes signal sized.event
  obtain ⟨eqLow, eqHigh⟩ := packed_sizes sized.equeueCtr sized.timeEvtCtr
  obtain ⟨mpLow, mpHigh⟩ := packed_sizes sized.mpoolSize sized.mpoolCtr
  obtain ⟨ptrLow, ptrHigh⟩ := packed_sizes obj func
  simp only [TargetSizes.updateFromTargetInfo, targetInfoPayload, toLeBytes, List.cons_append,
    List.nil_append, sigLow, sigHigh, eqLow, eqHigh, mpLow, mpHigh, ptrLow, ptrHigh,
    TargetSizes.validSize_valid, signal, sized.event, sized.equeueCtr, sized.timeEvtCtr,
    sized.mpoolSize, sized.mpoolCtr, obj, func, sized.time]
  rfl

end Sizes

namespace FrameInterpreter

open Cursor

variable {others : FrameInterpreter → QsFrame → FrameInterpreter × List String}

theorem learning_takes {it : FrameInterpreter} {payload : List UInt8} {dict : Dictionaries}
    {line : String} {read : Read Cursor (Dictionaries × String)}
    (takes : Takes Cursor.Holds payload (dict, line) read) :
    (it.learning payload read).1 = { it with dict := dict } := by
  obtain ⟨after, ran⟩ := takes_whole takes
  rw [learning, ran]

theorem interpret_fst (others : FrameInterpreter → QsFrame → FrameInterpreter × List String)
    (it : FrameInterpreter) (frame : QsFrame) :
    (it.interpret others frame).1 = (it.handle others frame).1 := rfl

section Known

variable {ptrSize : UInt8} {it : FrameInterpreter} (valid : ValidSize ptrSize)
include valid

theorem takes_address (address : UInt64) :
    Takes Cursor.Holds ((toLeBytes 8 address.toNat).take ptrSize.toNat)
      (sentAddress ptrSize address)
      (readSized ptrSize) := by
  have le : ptrSize.toNat ≤ 8 := by
    rcases valid with rfl | rfl | rfl | rfl <;> decide
  rw [take_toLeBytes le]
  exact takes_readSized valid address.toNat

variable (signal : it.sizes.signalSize = 2) (obj : it.sizes.objPtrSize = ptrSize)
  (func : it.sizes.funPtrSize = ptrSize)
include signal obj func

/-- A dictionary record changes its own entry and nothing else. -/
theorem interpret_record (seq : UInt8) (r : DictRecord) :
    (it.interpret (handleDictionaries others) (r.frame ptrSize seq)).1 =
      { it with dict := r.learn ptrSize it.dict } := by
  rw [interpret_fst]
  cases r with
  | sig number object name =>
      rw [DictRecord.learn, ← UInt16.toUInt32_toUInt64 number]
      apply learning_takes
      rw [readSig, readObj, signal, obj]
      refine (takes_readSized_two number).bind ?_
      refine (takes_address valid object).bind ?_
      exact (takes_readCString name.nulFree).last rfl
  | obj address name =>
      apply learning_takes
      rw [readObj, obj]
      refine (takes_address valid address).bind ?_
      exact (takes_readCString name.nulFree).last rfl
  | fn address name =>
      apply learning_takes
      rw [readFun, func]
      refine (takes_address valid address).bind ?_
      exact (takes_readCString name.nulFree).last rfl
  | usr recordId name =>
      apply learning_takes
      refine (takes_readU8 recordId).bind ?_
      exact (takes_readCString name.nulFree).last rfl

theorem processed_records (records : List (UInt8 × DictRecord)) :
    it.processed others (records.map fun r => r.2.frame ptrSize r.1) =
      { it with dict := (records.map Prod.snd).foldl (DictRecord.learn ptrSize) it.dict } := by
  induction records generalizing it with
  | nil => rfl
  | cons r later ih =>
      rw [List.map_cons, processed, List.foldl_cons,
        interpret_record valid signal obj func r.1 r.2]
      exact ih signal obj func

end Known

end FrameInterpreter

namespace Dictionaries

variable (ptrSize : UInt8) (records : List DictRecord) (dict : Dictionaries)

theorem objects_learned (key : UInt64) :
    (records.foldl (DictRecord.learn ptrSize) dict).objects key =
      (Table.latest (records.filterMap (DictRecord.objEntry ptrSize)) key).or
        (dict.objects key) := by
  refine Table.foldl_latest Dictionaries.objects (fun d r => ?_) records dict key
  cases r <;> rfl

theorem functions_learned (key : UInt64) :
    (records.foldl (DictRecord.learn ptrSize) dict).functions key =
      (Table.latest (records.filterMap (DictRecord.funEntry ptrSize)) key).or
        (dict.functions key) := by
  refine Table.foldl_latest Dictionaries.functions (fun d r => ?_) records dict key
  cases r <;> rfl

theorem users_learned (key : UInt8) :
    (records.foldl (DictRecord.learn ptrSize) dict).users key =
      (Table.latest (records.filterMap DictRecord.usrEntry) key).or (dict.users key) := by
  refine Table.foldl_latest Dictionaries.users (fun d r => ?_) records dict key
  cases r <;> rfl

theorem signals_learned (signal : UInt32) (object : UInt64) :
    (records.foldl (DictRecord.learn ptrSize) dict).signals signal object =
      (Table.latest (records.filterMap (DictRecord.sigEntry ptrSize)) (signal, object)).or
        (dict.signals signal object) := by
  have changes (d : Dictionaries) (r : DictRecord) :
      Function.uncurry (r.learn ptrSize d).signals = (r.sigEntry ptrSize).elim
        (Function.uncurry d.signals)
          fun e => Table.insert (Function.uncurry d.signals) e.1 e.2 := by
    cases r <;> rfl
  exact Table.foldl_latest (fun d => Function.uncurry d.signals) changes records dict
    (signal, object)

theorem enums_learned : (records.foldl (DictRecord.learn ptrSize) dict).enums = dict.enums := by
  induction records generalizing dict with
  | nil => rfl
  | cons r later ih =>
      rw [List.foldl_cons, ih]
      cases r <;> rfl

end Dictionaries

/-- After the record of the target and any dictionary records the host has the target's sizes, and
under every key of each dictionary the name that was sent last for it. -/
theorem dictionaries_built
    (others : FrameInterpreter → QsFrame → FrameInterpreter × List String) {info : TargetInfo}
    {ptrSize : UInt8} (sized : info.Sized ptrSize) (earlier : TargetSizes) (seq : UInt8)
    (records : List (UInt8 × DictRecord)) :
    let host := { FrameInterpreter.new with sizes := earlier }
    let frames := ⟨seq, predefined.TARGET_INFO, targetInfoPayload info⟩ ::
      records.map fun r => r.2.frame ptrSize r.1
    let sent := records.map Prod.snd
    let built := host.processed others frames
    built.sizes = info.sizes ∧
      (∀ addr, built.dict.objects addr =
        Table.latest (sent.filterMap (DictRecord.objEntry ptrSize)) addr) ∧
      (∀ addr, built.dict.functions addr =
        Table.latest (sent.filterMap (DictRecord.funEntry ptrSize)) addr) ∧
      (∀ signal object, built.dict.signals signal object =
        Table.latest (sent.filterMap (DictRecord.sigEntry ptrSize)) (signal, object)) ∧
      (∀ id, built.dict.users id = Table.latest (sent.filterMap DictRecord.usrEntry) id) ∧
      ∀ group value, built.dict.enums group value = none := by
  intro host frames sent built
  have informed : built = ({ host with sizes := info.sizes } : FrameInterpreter).processed others
      (records.map fun r => r.2.frame ptrSize r.1) := by
    rw [← sized.taken earlier]
    rfl
  have learned : built = { host with
      sizes := info.sizes
      dict := sent.foldl (DictRecord.learn ptrSize) host.dict } := by
    rw [informed]
    exact FrameInterpreter.processed_records sized.usize sized.signal sized.obj sized.func records
  rw [learned]
  refine ⟨rfl, fun addr => ?_, fun addr => ?_, fun signal object => ?_, fun id => ?_,
    fun group value => ?_⟩
  · exact (Dictionaries.objects_learned ptrSize sent host.dict addr).trans Option.or_none
  · exact (Dictionaries.functions_learned ptrSize sent host.dict addr).trans Option.or_none
  · exact (Dictionaries.signals_learned ptrSize sent host.dict signal object).trans Option.or_none
  · exact (Dictionaries.users_learned ptrSize sent host.dict id).trans Option.or_none
  · exact congrFun (congrFun (Dictionaries.enums_learned ptrSize sent host.dict) group) value

/-- An object that is named twice has its second name, and a function under the same address has
its own. -/
theorem renamed_object_built :
    let host := { FrameInterpreter.new with sizes := {} }
    let records : List (UInt8 × DictRecord) :=
      [(2, .obj 0x1000 ⟨"a", by decide⟩), (3, .fn 0x1000 ⟨"f", by decide⟩),
        (4, .obj 0x1000 ⟨"b", by decide⟩)]
    let built := host.processed noOthers
      (⟨1, predefined.TARGET_INFO, targetInfoPayload {}⟩ ::
        records.map fun r => r.2.frame 8 r.1)
    built.dict.objects 0x1000 = some "b" ∧ built.dict.functions 0x1000 = some "f" := by
  intro host records built
  have sized : ({} : TargetInfo).Sized 8 :=
    ⟨.inr (.inr (.inr rfl)), rfl, rfl, rfl, .inr (.inl rfl), .inr (.inl rfl), .inr (.inl rfl),
      .inr (.inl rfl), .inr (.inl rfl), .inr (.inr (.inl rfl))⟩
  obtain ⟨_, objects, functions, _⟩ := dictionaries_built noOthers sized {} 1 records
  exact ⟨(objects 0x1000).trans rfl, (functions 0x1000).trans rfl⟩

end QpRs.Qs
