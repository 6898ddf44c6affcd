import QpRs.Lib.Utf8
import QpRs.Qs.Interpreter

/-! The reads of the host's cursor, on bytes that were written in the layout they expect. -/

namespace QpRs.Qs

open QpRs.Lib

namespace Cursor

def readCString : Read Cursor String := fun cur =>
  let remaining := cur.data.drop cur.pos
  match remaining.findIdx? (· == 0) with
  | none => none
  | some last =>
      some (fromUtf8Lossy (remaining.take last), { cur with pos := cur.pos + (last + 1) })

/-- What a cursor has still to read. -/
def Holds (cur : Cursor) (bytes : List UInt8) : Prop :=
  cur.pos ≤ cur.data.length ∧ cur.data.drop cur.pos = bytes

theorem holds_new (data : List UInt8) : (new data).Holds data := ⟨Nat.zero_le _, rfl⟩

theorem Holds.remaining {cur : Cursor} {bytes : List UInt8} (held : cur.Holds bytes) :
    cur.remaining = bytes.length := by
  rw [← held.2, List.length_drop, Cursor.remaining]

theorem Holds.after {cur : Cursor} {taken rest : List UInt8} (held : cur.Holds (taken ++ rest)) :
    cur.pos + taken.length ≤ cur.data.length ∧
      Holds { cur with pos := cur.pos + taken.length } rest := by
  obtain ⟨inside, ahead⟩ := held
  have count : cur.data.length - cur.pos = taken.length + rest.length := by
    rw [← List.length_drop, ahead, List.length_append]
  have room : cur.pos + taken.length ≤ cur.data.length := by omega
  refine ⟨room, room, ?_⟩
  show cur.data.drop (cur.pos + taken.length) = rest
  rw [← List.drop_drop, ahead, List.drop_left]

theorem takes_readBytes (bytes : List UInt8) :
    Takes Holds bytes bytes (readBytes bytes.length) := by
  intro cur rest held
  obtain ⟨room, after⟩ := held.after
  have read : readBytes bytes.length cur =
      some (bytes, { cur with pos := cur.pos + bytes.length }) := by
    rw [readBytes, if_neg (Nat.not_lt.mpr room), held.2, List.take_left]
  exact ⟨_, read, after⟩

theorem takes_readNum {α : Type} {width value : Nat} (ofNat : Nat → α)
    (fits : value < 256 ^ width) :
    Takes Holds (toLeBytes width value) (ofNat value) (readNum width ofNat) := by
  have bytes := takes_readBytes (toLeBytes width value)
  rw [length_toLeBytes] at bytes
  have number := bytes.map fun bytes => ofNat (fromLeBytes bytes)
  rw [fromLeBytes_toLeBytes fits] at number
  exact number

theorem takes_readU8 (n : UInt8) : Takes Holds [n] n readU8 := by
  have read := @takes_readNum _ 1 _ UInt8.ofNat n.toNat_lt
  rw [UInt8.ofNat_toNat] at read
  have bytes : toLeBytes 1 n.toNat = [n] := by rw [toLeBytes, UInt8.ofNat_toNat, toLeBytes]
  rw [bytes] at read
  exact read

theorem takes_readU16 (n : UInt16) : Takes Holds (toLeBytes 2 n.toNat) n readU16 := by
  have read := @takes_readNum _ 2 _ UInt16.ofNat n.toNat_lt
  rw [UInt16.ofNat_toNat] at read
  exact read

theorem takes_readU32 (n : UInt32) : Takes Holds (toLeBytes 4 n.toNat) n readU32 := by
  have read := @takes_readNum _ 4 _ UInt32.ofNat n.toNat_lt
  rw [UInt32.ofNat_toNat] at read
  exact read

theorem takes_readU64 (n : UInt64) : Takes Holds (toLeBytes 8 n.toNat) n readU64 := by
  have read := @takes_readNum _ 8 _ UInt64.ofNat n.toNat_lt
  rw [UInt64.ofNat_toNat] at read
  exact read

theorem takes_readSized_two (n : UInt16) :
    Takes Holds (toLeBytes 2 n.toNat) n.toUInt64 (readSized 2) :=
  (takes_readU16 n).map UInt16.toUInt64

theorem takes_readSized_four (n : UInt32) :
    Takes Holds (toLeBytes 4 n.toNat) n.toUInt64 (readSized 4) :=
  (takes_readU32 n).map UInt32.toUInt64

theorem takes_readSized_eight (n : UInt64) :
    Takes Holds (toLeBytes 8 n.toNat) n (readSized 8) :=
  takes_readU64 n

theorem takes_widened {α : Type} {width : Nat} (ofNat : Nat → α) (widen : α → UInt64)
    (keeps : ∀ n < 256 ^ width, (widen (ofNat n)).toNat = n) (value : Nat) :
    Takes Holds (toLeBytes width value) (UInt64.ofNat (value % 256 ^ width))
      (widen <$> readNum width ofNat) := by
  have fits : value % 256 ^ width < 256 ^ width := Nat.mod_lt _ (by positivity)
  have read := (takes_readNum ofNat fits).map widen
  have same : widen (ofNat (value % 256 ^ width)) = UInt64.ofNat (value % 256 ^ width) := by
    rw [← keeps _ fits, UInt64.ofNat_toNat, keeps _ fits]
  rw [same, toLeBytes_mod] at read
  exact read

/-- The sizes that a number can be read with. -/
def ValidSize (size : UInt8) : Prop := size = 1 ∨ size = 2 ∨ size = 4 ∨ size = 8

theorem takes_readSized {size : UInt8} (valid : ValidSize size) (value : Nat) :
    Takes Holds (toLeBytes size.toNat value) (UInt64.ofNat (value % 256 ^ size.toNat))
      (readSized size) := by
  rcases valid with one | two | four | eight
  · rw [one]
    exact takes_widened UInt8.ofNat UInt8.toUInt64 (fun n fits => UInt8.toNat_ofNat_of_lt' fits)
        value
  · rw [two]
    exact takes_widened UInt16.ofNat UInt16.toUInt64 (fun n fits => UInt16.toNat_ofNat_of_lt' fits)
      value
  · rw [four]
    exact takes_widened UInt32.ofNat UInt32.toUInt64 (fun n fits => UInt32.toNat_ofNat_of_lt' fits)
      value
  · rw [eight]
    have read := @takes_widened _ 8 UInt64.ofNat id
      (fun n fits => UInt64.toNat_ofNat_of_lt' fits) value
    rw [id_map] at read
    exact read

theorem takes_readCString {name : String} (nulFree : '\x00' ∉ name.toList) :
    Takes Holds (utf8Bytes name ++ [0]) name readCString := by
  intro cur rest held
  obtain ⟨_, after⟩ := held.after
  have unbroken : (utf8Bytes name).findIdx? (· == 0) = none := by
    refine List.findIdx?_eq_none_iff.mpr fun b b_mem => ?_
    exact beq_false_of_ne fun zero => zero_not_mem_utf8Bytes nulFree (zero ▸ b_mem)
  have last : (utf8Bytes name ++ ([0] ++ rest)).findIdx? (· == 0) =
      some (utf8Bytes name).length := by
    rw [List.findIdx?_append, unbroken, Option.none_or]
    exact congrArg some (Nat.zero_add _)
  have read : readCString cur =
      some (name, { cur with pos := cur.pos + ((utf8Bytes name).length + 1) }) := by
    simp only [readCString, held.2, List.append_assoc, last, List.take_left,
      fromUtf8Lossy_utf8Bytes]
  rw [List.length_append] at after
  exact ⟨_, read, after⟩

theorem spends_readCString : Spends remaining 0 readCString := by
  intro cur name after read
  simp only [readCString] at read
  split at read
  · cases read
  · cases read
    simp only [remaining]
    omega

theorem takes_whole {α : Type} {payload : List UInt8} {a : α} {read : Read Cursor α}
    (takes : Takes Holds payload a read) :
    ∃ after, read (Cursor.new payload) = some (a, after) := by
  have start : (Cursor.new payload).Holds (payload ++ []) := by
    rw [List.append_nil]
    exact holds_new payload
  obtain ⟨after, ran, _⟩ := takes _ [] start
  exact ⟨after, ran⟩

end Cursor

namespace FrameInterpreter

open Cursor

theorem reading_takes {payload : List UInt8} {lines : List String}
    {read : Read Cursor (List String)} (takes : Takes Cursor.Holds payload lines read) :
    reading payload read = lines := by
  obtain ⟨after, ran⟩ := takes_whole takes
  rw [reading, readingFrom, ran]

end FrameInterpreter

end QpRs.Qs
