import Mathlib.Data.List.Basic

/-! The bytes of a text, and the text of bytes that may not be one: where no character starts, the
longest beginning of a character (or else one byte) is replaced. -/

namespace QpRs.Lib

def utf8Bytes (text : String) : List UInt8 := text.toList.flatMap String.utf8EncodeChar

theorem length_utf8Bytes_le (text : String) :
    (utf8Bytes text).length ≤ 4 * text.toList.length := by
  rw [utf8Bytes]
  induction text.toList with
  | nil => exact Nat.le_refl _
  | cons c rest ih =>
      have size := Char.utf8Size_le_four c
      rw [List.flatMap_cons, List.length_append, String.length_utf8EncodeChar, List.length_cons]
      omega

/-- The character that the bytes start with. -/
def firstChar? (bytes : List UInt8) : Option Char := bytes.toByteArray.utf8DecodeChar? 0

def isContinuation (b : UInt8) : Bool := 0x80 ≤ b && b ≤ 0xBF

/-- The second bytes that may follow a first byte of a character of three or four bytes. -/
def secondFits (first second : UInt8) : Bool :=
  if first = 0xE0 then 0xA0 ≤ second && second ≤ 0xBF
  else if first = 0xED then 0x80 ≤ second && second ≤ 0x9F
  else if first = 0xF0 then 0x90 ≤ second && second ≤ 0xBF
  else if first = 0xF4 then 0x80 ≤ second && second ≤ 0x8F
  else 0xE0 ≤ first && first ≤ 0xF4 && isContinuation second

/-- How many bytes are replaced together, where no character starts. -/
def malformedLength (first : UInt8) : List UInt8 → Nat
  | [] => 1
  | second :: rest =>
      if !secondFits first second then 1
      else if first < 0xF0 then 2
      else
        match rest with
        | [] => 2
        | third :: _ => if isContinuation third then 3 else 2

/-- The characters of the bytes after the next `skipped` ones. -/
def lossyChars : Nat → List UInt8 → List Char
  | _, [] => []
  | skipped + 1, _ :: rest => lossyChars skipped rest
  | 0, first :: rest =>
      match firstChar? (first :: rest) with
      | some c => c :: lossyChars (c.utf8Size - 1) rest
      | none => '\uFFFD' :: lossyChars (malformedLength first rest - 1) rest

def fromUtf8Lossy (bytes : List UInt8) : String := String.ofList (lossyChars 0 bytes)

theorem lossyChars_skips (before rest : List UInt8) :
    lossyChars before.length (before ++ rest) = lossyChars 0 rest := by
  induction before with
  | nil => rfl
  | cons b before ih => exact ih

theorem firstChar?_encoded (c : Char) (rest : List UInt8) :
    firstChar? (String.utf8EncodeChar c ++ rest) = some c := by
  rw [firstChar?, List.toByteArray_append]
  exact ByteArray.utf8DecodeChar?_utf8EncodeChar_append

theorem lossyChars_char (c : Char) (rest : List UInt8) :
    lossyChars 0 (String.utf8EncodeChar c ++ rest) = c :: lossyChars 0 rest := by
  have first := firstChar?_encoded c rest
  have size := String.length_utf8EncodeChar c
  cases bytes : String.utf8EncodeChar c with
  | nil =>
      have some := Char.utf8Size_pos c
      rw [bytes, List.length_nil] at size
      omega
  | cons b tail =>
      rw [bytes] at first size
      have left : c.utf8Size - 1 = tail.length := by
        rw [← size, List.length_cons, Nat.add_sub_cancel]
      rw [List.cons_append] at first ⊢
      rw [lossyChars, first]
      simp only [left, lossyChars_skips]

theorem lossyChars_chars (chars : List Char) :
    lossyChars 0 (chars.flatMap String.utf8EncodeChar) = chars := by
  induction chars with
  | nil => rfl
  | cons c chars ih => rw [List.flatMap_cons, lossyChars_char, ih]

/-- The bytes of a text are read as that text. -/
theorem fromUtf8Lossy_utf8Bytes (text : String) : fromUtf8Lossy (utf8Bytes text) = text := by
  rw [fromUtf8Lossy, utf8Bytes, lossyChars_chars, String.ofList_toList]

theorem zero_not_mem_utf8EncodeChar {c : Char} (c_ne : c ≠ '\x00') :
    (0 : UInt8) ∉ String.utf8EncodeChar c := by
  have positive : 0 < c.val.toNat := by
    refine Nat.pos_of_ne_zero fun zero => c_ne ?_
    exact Char.ext (UInt32.toNat_inj.mp zero)
  have nonzero (n : Nat) (low : 0 < n) (high : n < 256) : (0 : UInt8) ≠ UInt8.ofNat n := by
    intro same
    have value := congrArg UInt8.toNat same
    rw [UInt8.toNat_ofNat_of_lt' high] at value
    exact (Nat.ne_of_lt low) value
  unfold String.utf8EncodeChar
  simp only
  split_ifs with one two three
  all_goals
    simp only [List.mem_cons, List.not_mem_nil, or_false, not_or]
    and_intros <;> apply nonzero <;> omega

theorem zero_not_mem_utf8Bytes {text : String} (nulFree : '\x00' ∉ text.toList) :
    (0 : UInt8) ∉ utf8Bytes text := by
  intro zero
  obtain ⟨c, c_mem, zero_mem⟩ := List.mem_flatMap.mp zero
  have c_ne : c ≠ '\x00' := fun nul => nulFree (nul ▸ c_mem)
  exact zero_not_mem_utf8EncodeChar c_ne zero_mem

end QpRs.Lib
