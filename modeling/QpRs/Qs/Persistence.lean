import QpRs.Lib.Text
import QpRs.Qs.Dictionaries

/-! The dictionary file of the host: the lines that `save_dictionaries` writes, and what
`load_dictionaries` makes of them. -/

namespace QpRs.Qs

open QpRs.Lib

/-- The contents of the five maps, each in the order in which its iterator gives the entries. -/
structure Contents where
  objects : List (UInt64 × String)
  functions : List (UInt64 × String)
  signals : List ((UInt32 × UInt64) × String)
  users : List (UInt8 × String)
  enums : List ((UInt8 × UInt8) × String)
  objects_nodup : (objects.map Prod.fst).Nodup
  functions_nodup : (functions.map Prod.fst).Nodup
  signals_nodup : (signals.map Prod.fst).Nodup
  users_nodup : (users.map Prod.fst).Nodup
  enums_nodup : (enums.map Prod.fst).Nodup

inductive DictEntry where
  | obj (addr : UInt64) (name : String)
  | fn (addr : UInt64) (name : String)
  | sig (signal : UInt32) (object : UInt64) (name : String)
  | usr (id : UInt8) (name : String)
  | enm (grp val : UInt8) (name : String)
  deriving DecidableEq, Repr

namespace DictEntry

def name : DictEntry → String
  | .obj _ text => text
  | .fn _ text => text
  | .sig _ _ text => text
  | .usr _ text => text
  | .enm _ _ text => text

def line : DictEntry → String
  | .obj addr name => s!"OBJ {hexNum 16 addr.toNat} {name}"
  | .fn addr name => s!"FUN {hexNum 16 addr.toNat} {name}"
  | .sig signal object name => s!"SIG {signal} {hexNum 16 object.toNat} {name}"
  | .usr id name => s!"USR {id} {name}"
  | .enm grp val name => s!"ENUM {grp} {val} {name}"

end DictEntry

namespace Contents

def dict (contents : Contents) : Dictionaries where
  objects := Table.latest contents.objects
  functions := Table.latest contents.functions
  signals := Function.curry (Table.latest contents.signals)
  users := Table.latest contents.users
  enums := Function.curry (Table.latest contents.enums)

/-- The entries in the order in which they are saved. -/
def entries (contents : Contents) : List DictEntry :=
  contents.objects.map (fun e => .obj e.1 e.2) ++
    (contents.functions.map (fun e => .fn e.1 e.2) ++
      (contents.signals.map (fun e => .sig e.1.1 e.1.2 e.2) ++
        (contents.users.map (fun e => .usr e.1 e.2) ++
          contents.enums.map (fun e => .enm e.1.1 e.1.2 e.2))))

def fileHeader : List Char := "# qspy dictionary".toList

def saveDictionaries (contents : Contents) : List Char :=
  (fileHeader :: contents.entries.map fun e => e.line.toList).flatMap (· ++ ['\n'])

end Contents

def parseAddr (s : List Char) : Option UInt64 :=
  let hex := match s with
    | '0' :: 'x' :: rest => rest
    | '0' :: 'X' :: rest => rest
    | s => s
  (fromStrRadix 16 (2 ^ 64) hex).map UInt64.ofNat

def parseU32 (s : List Char) : Option UInt32 := (fromStrRadix 10 (2 ^ 32) s).map UInt32.ofNat

def parseU8 (s : List Char) : Option UInt8 := (fromStrRadix 10 (2 ^ 8) s).map UInt8.ofNat

namespace Dictionaries

/-- The match on the parts of a line; a line of any other form is left out. -/
def loadParts (dict : Dictionaries) (parts : List (List Char)) : Dictionaries :=
  match parts with
  | [tag, key, name] =>
      if tag = "OBJ".toList then
        (parseAddr key).elim dict fun a => dict.insertObject a (String.ofList name)
      else if tag = "FUN".toList then
        (parseAddr key).elim dict fun a => dict.insertFunction a (String.ofList name)
      else if tag = "USR".toList then
        (parseU8 key).elim dict fun i => dict.insertUser i (String.ofList name)
      else dict
  | [tag, first, second, name] =>
      if tag = "SIG".toList then
        match parseU32 first, parseAddr second with
        | some s, some o => dict.insertSignal s o (String.ofList name)
        | _, _ => dict
      else if tag = "ENUM".toList then
        match parseU8 first, parseU8 second with
        | some g, some v => dict.insertEnum g v (String.ofList name)
        | _, _ => dict
      else dict
  | _ => dict

def loadLine (dict : Dictionaries) (line : List Char) : Dictionaries :=
  let line := trim line
  if line.isEmpty ∨ line.head? = some '#' then dict else dict.loadParts (splitn ' ' 4 line)

def loadDictionaries (dict : Dictionaries) (text : List Char) : Dictionaries :=
  (lines text).foldl loadLine dict

end Dictionaries

section Numbers

theorem toDigit_upper : ∀ d < 16, toDigit 16 (Nat.digitChar d).toUpper = some d := by decide

theorem toDigit_decimal : ∀ d < 10, toDigit 10 (id (Nat.digitChar d)) = some d := by decide

theorem upper_solid : ∀ d < 16, isWhitespace (Nat.digitChar d).toUpper = false ∧
    (Nat.digitChar d).toUpper ≠ '+' := by decide

theorem decimal_solid : ∀ d < 10, isWhitespace (Nat.digitChar d) = false ∧
    Nat.digitChar d ≠ '+' := by decide

theorem hexNum_toList (n : Nat) : ∃ zeros, (hexNum 16 n).toList =
    '0' :: 'x' :: (List.replicate zeros '0' ++ (Nat.toDigits 16 n).map Char.toUpper) := by
  refine ⟨16 - ((Nat.toDigits 16 n).map Char.toUpper).length, ?_⟩
  simp only [hexNum, hexDigits, zeroPadded, String.toList_append, String.toList_ofList,
    String.length_ofList]
  rfl

theorem mem_upper {n : Nat} {c : Char} (c_mem : c ∈ (Nat.toDigits 16 n).map Char.toUpper) :
    isWhitespace c = false ∧ c ≠ '+' := by
  obtain ⟨low, low_mem, rfl⟩ := List.mem_map.mp c_mem
  obtain ⟨d, small, rfl⟩ := mem_toDigits (by decide) low_mem
  exact upper_solid d small

theorem parseAddr_hexNum (addr : UInt64) : parseAddr (hexNum 16 addr.toNat).toList = some addr := by
  obtain ⟨zeros, text⟩ := hexNum_toList addr.toNat
  have digits := @fromDigits_toDigits 16 (2 ^ 64) Char.toUpper (by decide) toDigit_upper addr.toNat
    addr.toNat_lt
  have padded := @fromDigits_zeros 16 (2 ^ 64) (by decide) (by decide) zeros
    ((Nat.toDigits 16 addr.toNat).map Char.toUpper)
  have plain : '+' ∉ List.replicate zeros '0' ++ (Nat.toDigits 16 addr.toNat).map Char.toUpper := by
    intro plus
    rcases List.mem_append.mp plus with zero | digit
    · exact absurd (List.eq_of_mem_replicate zero) (by decide)
    · exact (mem_upper digit).2 rfl
  have nonempty :
      List.replicate zeros '0' ++ (Nat.toDigits 16 addr.toNat).map Char.toUpper ≠ [] := by
    simp
  simp only [parseAddr, text]
  rw [fromStrRadix_digits nonempty plain, padded, digits, Option.map_some, UInt64.ofNat_toNat]

theorem fromStrRadix_repr {n bound : Nat} (fits : n < bound) :
    fromStrRadix 10 bound (toString n).toList = some n := by
  have digits := @fromDigits_toDigits 10 bound id (by decide) toDigit_decimal n fits
  rw [List.map_id] at digits
  have text : (toString n).toList = Nat.toDigits 10 n := Nat.toList_repr
  have plain : '+' ∉ Nat.toDigits 10 n := by
    intro plus
    obtain ⟨d, small, digit⟩ := mem_toDigits (by decide) plus
    exact (decimal_solid d small).2 digit.symm
  rw [text, fromStrRadix_digits Nat.toDigits_ne_nil plain, digits]

theorem parseU32_toString (n : UInt32) : parseU32 (toString n).toList = some n := by
  have read := fromStrRadix_repr n.toNat_lt
  rw [parseU32, show toString n = toString n.toNat from rfl, read, Option.map_some,
    UInt32.ofNat_toNat]

theorem parseU8_toString (n : UInt8) : parseU8 (toString n).toList = some n := by
  have read := fromStrRadix_repr n.toNat_lt
  rw [parseU8, show toString n = toString n.toNat from rfl, read, Option.map_some,
    UInt8.ofNat_toNat]

theorem word_hexNum (n : Nat) : Word (hexNum 16 n).toList := by
  obtain ⟨zeros, text⟩ := hexNum_toList n
  rw [text]
  refine ⟨List.cons_ne_nil _ _, fun c c_mem => ?_⟩
  simp only [List.mem_cons, List.mem_append] at c_mem
  rcases c_mem with rfl | rfl | zero | digit
  · rfl
  · rfl
  · rw [List.eq_of_mem_replicate zero]
    rfl
  · exact (mem_upper digit).1

theorem word_repr (n : Nat) : Word (toString n).toList := by
  have text : (toString n).toList = Nat.toDigits 10 n := Nat.toList_repr
  rw [text]
  refine ⟨Nat.toDigits_ne_nil, fun c c_mem => ?_⟩
  obtain ⟨d, small, rfl⟩ := mem_toDigits (by decide) c_mem
  exact (decimal_solid d small).1

theorem word_u32 (n : UInt32) : Word (toString n).toList := word_repr n.toNat

theorem word_u8 (n : UInt8) : Word (toString n).toList := word_repr n.toNat

end Numbers

section Words

variable (tag key second name : String)

theorem toList_three : (tag ++ " " ++ key ++ " " ++ name).toList =
    tag.toList ++ ' ' :: (key.toList ++ ' ' :: name.toList) := by
  simp

theorem toList_four : (tag ++ " " ++ key ++ " " ++ second ++ " " ++ name).toList =
    tag.toList ++ ' ' :: (key.toList ++ ' ' :: (second.toList ++ ' ' :: name.toList)) := by
  simp

end Words

/-- What comes back of a name behind one key. -/
def plainName (name : String) : Option String :=
  let text := trimEnd name.toList
  if text = [] ∨ ' ' ∈ text then none else some (String.ofList text)

/-- What comes back of a name that is the fourth part of its line. -/
def lastName (name : String) : Option String :=
  let text := trimEnd name.toList
  if text = [] then none else some (String.ofList text)

/-- What comes back of an entry. -/
def DictEntry.restored : DictEntry → Option DictEntry
  | .obj addr name => (plainName name).map (.obj addr)
  | .fn addr name => (plainName name).map (.fn addr)
  | .sig signal object name => (lastName name).map (.sig signal object)
  | .usr id name => (plainName name).map (.usr id)
  | .enm grp val name => (lastName name).map (.enm grp val)

def Dictionaries.insert (dict : Dictionaries) : DictEntry → Dictionaries
  | .obj addr name => dict.insertObject addr name
  | .fn addr name => dict.insertFunction addr name
  | .sig signal object name => dict.insertSignal signal object name
  | .usr id name => dict.insertUser id name
  | .enm grp val name => dict.insertEnum grp val name

namespace Dictionaries

variable (dict : Dictionaries) {tag key second : List Char} (tagged : Word tag)
  (unmarked : tag.head? ≠ some '#') (keyed : Word key)
include tagged unmarked

theorem loadLine_parts (rest : List Char) :
    dict.loadLine (stripReturn (tag ++ ' ' :: rest)) =
      dict.loadParts (splitn ' ' 4 (trimEnd (tag ++ ' ' :: rest))) := by
  have trimmed := tagged.trim_line (List.cons_ne_nil ' ' rest)
  have first : (trimEnd (tag ++ ' ' :: rest)).head? = tag.head? := by
    rw [tagged.trimEnd_blank]
    split_ifs
    · rfl
    · exact List.head?_append_of_ne_nil tag tagged.nonempty
  have some_left : trimEnd (tag ++ ' ' :: rest) ≠ [] := by
    intro none_left
    rw [none_left] at first
    exact tagged.nonempty (List.head?_eq_none_iff.mp first.symm)
  rw [loadLine, trimmed]
  refine if_neg ?_
  rw [List.isEmpty_iff, first, not_or]
  exact ⟨some_left, unmarked⟩

include keyed

theorem loadLine_plain (name : String) (insert : String → Dictionaries)
    (three : ∀ text, dict.loadParts [tag, key, text] = insert (String.ofList text))
    (four : ∀ a b, dict.loadParts [tag, key, a, b] = dict) :
    dict.loadLine (stripReturn (tag ++ ' ' :: (key ++ ' ' :: name.toList))) =
      (plainName name).elim dict insert := by
  have some_left : trimEnd (key ++ ' ' :: name.toList) ≠ [] := by
    rw [keyed.trimEnd_blank]
    split_ifs <;> simp [keyed.nonempty]
  rw [loadLine_parts dict tagged unmarked, tagged.splitn_trimmed, if_neg some_left,
    keyed.splitn_trimmed, plainName]
  by_cases empty : trimEnd name.toList = []
  · simp only [empty, true_or, if_true, Option.elim_none]
    rfl
  · by_cases blank : ' ' ∈ trimEnd name.toList
    · obtain ⟨a, b, parts⟩ := splitn_two blank
      simp only [if_neg empty, blank, or_true, if_true, parts, Option.elim_none, four]
    · simp only [empty, blank, or_false, if_false, splitn_last 1 blank, Option.elim_some, three]

theorem loadLine_last (seconded : Word second) (name : String) (insert : String → Dictionaries)
    (three : dict.loadParts [tag, key, second] = dict)
    (four : ∀ text, dict.loadParts [tag, key, second, text] = insert (String.ofList text)) :
    dict.loadLine (stripReturn (tag ++ ' ' :: (key ++ ' ' :: (second ++ ' ' :: name.toList)))) =
      (lastName name).elim dict insert := by
  have some_second : trimEnd (second ++ ' ' :: name.toList) ≠ [] := by
    rw [seconded.trimEnd_blank]
    split_ifs <;> simp [seconded.nonempty]
  have some_left : trimEnd (key ++ ' ' :: (second ++ ' ' :: name.toList)) ≠ [] := by
    rw [keyed.trimEnd_blank, if_neg some_second]
    simp
  rw [loadLine_parts dict tagged unmarked, tagged.splitn_trimmed, if_neg some_left,
    keyed.splitn_trimmed, if_neg some_second, seconded.splitn_trimmed, lastName]
  by_cases empty : trimEnd name.toList = []
  · simp only [if_pos empty, Option.elim_none, three]
  · simp only [if_neg empty, splitn, Option.elim_some, four]

end Dictionaries

section Lines

theorem word_tag {tag : String} (listed : tag ∈ ["OBJ", "FUN", "SIG", "USR", "ENUM"]) :
    Word tag.toList := by
  have plain : ∀ tag ∈ ["OBJ", "FUN", "SIG", "USR", "ENUM"],
      tag.toList ≠ [] ∧ tag.toList.all (fun c => !isWhitespace c) = true := by decide
  exact .of_all (plain tag listed).1 (plain tag listed).2

theorem obj_line (addr : UInt64) (name : String) : (DictEntry.obj addr name).line.toList =
    "OBJ".toList ++ ' ' :: ((hexNum 16 addr.toNat).toList ++ ' ' :: name.toList) :=
  toList_three "OBJ" (hexNum 16 addr.toNat) name

theorem fn_line (addr : UInt64) (name : String) : (DictEntry.fn addr name).line.toList =
    "FUN".toList ++ ' ' :: ((hexNum 16 addr.toNat).toList ++ ' ' :: name.toList) :=
  toList_three "FUN" (hexNum 16 addr.toNat) name

theorem sig_line (signal : UInt32) (object : UInt64) (name : String) :
    (DictEntry.sig signal object name).line.toList =
      "SIG".toList ++ ' ' :: ((toString signal).toList ++
        ' ' :: ((hexNum 16 object.toNat).toList ++ ' ' :: name.toList)) :=
  toList_four "SIG" (toString signal) (hexNum 16 object.toNat) name

theorem usr_line (id : UInt8) (name : String) : (DictEntry.usr id name).line.toList =
    "USR".toList ++ ' ' :: ((toString id).toList ++ ' ' :: name.toList) :=
  toList_three "USR" (toString id) name

theorem enm_line (grp val : UInt8) (name : String) : (DictEntry.enm grp val name).line.toList =
    "ENUM".toList ++ ' ' :: ((toString grp).toList ++
      ' ' :: ((toString val).toList ++ ' ' :: name.toList)) :=
  toList_four "ENUM" (toString grp) (toString val) name

theorem loadLine_line (dict : Dictionaries) (e : DictEntry) :
    dict.loadLine (stripReturn e.line.toList) = e.restored.elim dict dict.insert := by
  cases e with
  | obj addr name =>
      rw [obj_line, DictEntry.restored, Option.elim_map]
      refine dict.loadLine_plain (word_tag (by decide)) (by decide) (word_hexNum addr.toNat) name _
        (fun text => ?_) fun a b => rfl
      rw [Dictionaries.loadParts, if_pos rfl, parseAddr_hexNum]
      rfl
  | fn addr name =>
      rw [fn_line, DictEntry.restored, Option.elim_map]
      refine dict.loadLine_plain (word_tag (by decide)) (by decide) (word_hexNum addr.toNat) name _
        (fun text => ?_) fun a b => rfl
      rw [Dictionaries.loadParts, if_neg (by decide), if_pos rfl, parseAddr_hexNum]
      rfl
  | sig signal object name =>
      rw [sig_line, DictEntry.restored, Option.elim_map]
      refine dict.loadLine_last (word_tag (by decide)) (by decide) (word_u32 signal)
        (word_hexNum object.toNat) name _ rfl fun text => ?_
      rw [Dictionaries.loadParts, if_pos rfl, parseU32_toString, parseAddr_hexNum]
      rfl
  | usr id name =>
      rw [usr_line, DictEntry.restored, Option.elim_map]
      refine dict.loadLine_plain (word_tag (by decide)) (by decide) (word_u8 id) name _
        (fun text => ?_) fun a b => rfl
      rw [Dictionaries.loadParts, if_neg (by decide), if_neg (by decide), if_pos rfl,
        parseU8_toString]
      rfl
  | enm grp val name =>
      rw [enm_line, DictEntry.restored, Option.elim_map]
      refine dict.loadLine_last (word_tag (by decide)) (by decide) (word_u8 grp) (word_u8 val) name
        _ rfl fun text => ?_
      rw [Dictionaries.loadParts, if_neg (by decide), if_pos rfl, parseU8_toString,
        parseU8_toString]
      rfl

theorem newline_not_mem_part {part rest : List Char} (word : Word part) (unbroken : '\n' ∉ rest) :
    '\n' ∉ part ++ ' ' :: rest := by
  have first : '\n' ∉ part := word.not_mem (by decide)
  simp [first, unbroken]

theorem newline_not_mem_line (e : DictEntry) (unbroken : '\n' ∉ e.name.toList) :
    '\n' ∉ e.line.toList := by
  cases e with
  | obj addr name =>
      rw [obj_line]
      apply newline_not_mem_part (word_tag (by decide))
      exact newline_not_mem_part (word_hexNum addr.toNat) unbroken
  | fn addr name =>
      rw [fn_line]
      apply newline_not_mem_part (word_tag (by decide))
      exact newline_not_mem_part (word_hexNum addr.toNat) unbroken
  | sig signal object name =>
      rw [sig_line]
      apply newline_not_mem_part (word_tag (by decide))
      apply newline_not_mem_part (word_u32 signal)
      exact newline_not_mem_part (word_hexNum object.toNat) unbroken
  | usr id name =>
      rw [usr_line]
      apply newline_not_mem_part (word_tag (by decide))
      exact newline_not_mem_part (word_u8 id) unbroken
  | enm grp val name =>
      rw [enm_line]
      apply newline_not_mem_part (word_tag (by decide))
      apply newline_not_mem_part (word_u8 grp)
      exact newline_not_mem_part (word_u8 val) unbroken

end Lines

theorem newline_not_mem_header : '\n' ∉ Contents.fileHeader := by decide

theorem loadLine_header (dict : Dictionaries) :
    dict.loadLine (stripReturn Contents.fileHeader) = dict := by
  have marked : (trim (stripReturn Contents.fileHeader)).head? = some '#' := by decide
  rw [Dictionaries.loadLine, if_pos (.inr marked)]

/-- A saved file is read back entry by entry. -/
theorem loadDictionaries_save (contents : Contents)
    (unbroken : ∀ e ∈ contents.entries, '\n' ∉ e.name.toList) (dict : Dictionaries) :
    dict.loadDictionaries contents.saveDictionaries =
      contents.entries.foldl (fun dict e => e.restored.elim dict dict.insert) dict := by
  have solid : ∀ line ∈ Contents.fileHeader :: contents.entries.map fun e => e.line.toList,
      '\n' ∉ line := by
    intro line line_mem
    rcases List.mem_cons.mp line_mem with rfl | entry_mem
    · exact newline_not_mem_header
    · obtain ⟨e, e_mem, rfl⟩ := List.mem_map.mp entry_mem
      exact newline_not_mem_line e (unbroken e e_mem)
  rw [Dictionaries.loadDictionaries, Contents.saveDictionaries, lines_written _ solid,
    List.map_cons, List.foldl_cons, loadLine_header, List.map_map, List.foldl_map]
  refine congrArg (fun step => contents.entries.foldl step dict) ?_
  funext dict e
  exact loadLine_line dict e

namespace DictEntry

def objEntry : DictEntry → Option (UInt64 × String)
  | .obj addr name => some (addr, name)
  | _ => none

def fnEntry : DictEntry → Option (UInt64 × String)
  | .fn addr name => some (addr, name)
  | _ => none

def sigEntry : DictEntry → Option ((UInt32 × UInt64) × String)
  | .sig signal object name => some ((signal, object), name)
  | _ => none

def usrEntry : DictEntry → Option (UInt8 × String)
  | .usr id name => some (id, name)
  | _ => none

def enmEntry : DictEntry → Option ((UInt8 × UInt8) × String)
  | .enm grp val name => some ((grp, val), name)
  | _ => none

end DictEntry

section Views

variable {κ : Type} [DecidableEq κ] (view : Dictionaries → Table κ String)
  {entry : DictEntry → Option (κ × String)}

theorem view_loaded (changes : ∀ d e, view (Dictionaries.insert d e) =
      (entry e).elim (view d) fun e => Table.insert (view d) e.1 e.2) (entries : List DictEntry)
    {dict : Dictionaries} (empty : view dict = fun _ => none) :
    view (entries.foldl (fun dict e => e.restored.elim dict dict.insert) dict) =
      Table.latest (entries.filterMap fun e => e.restored.bind entry) := by
  funext key
  have step : ∀ (d : Dictionaries) (e : DictEntry), view (e.restored.elim d d.insert) =
      (e.restored.bind entry).elim (view d) fun e => Table.insert (view d) e.1 e.2 := by
    intro d e
    cases e.restored with
    | none => rfl
    | some f => exact changes d f
  have latest := Table.foldl_latest view step entries dict key
  rw [empty, Option.or_none] at latest
  exact latest

theorem view_restored (changes : ∀ d e, view (Dictionaries.insert d e) =
      (entry e).elim (view d) fun e => Table.insert (view d) e.1 e.2) {entries : List DictEntry}
    {dict : Dictionaries} (empty : view dict = fun _ => none) {listing : List (κ × String)}
    (apart : (listing.map Prod.fst).Nodup) {restore : String → Option String}
    (made : (entries.filterMap fun e => e.restored.bind entry) =
      listing.filterMap fun e => (restore e.2).map (e.1, ·)) :
    view (entries.foldl (fun dict e => e.restored.elim dict dict.insert) dict) =
        Table.latest listing ↔
      ∀ e ∈ listing, restore e.2 = some e.2 := by
  rw [view_loaded view changes entries empty, made]
  exact Table.latest_restored apart restore

end Views

namespace Contents

variable (contents : Contents)

theorem filterMap_entries {β : Type} (read : DictEntry → Option β) :
    contents.entries.filterMap read =
      contents.objects.filterMap (fun e => read (.obj e.1 e.2)) ++
        (contents.functions.filterMap (fun e => read (.fn e.1 e.2)) ++
          (contents.signals.filterMap (fun e => read (.sig e.1.1 e.1.2 e.2)) ++
            (contents.users.filterMap (fun e => read (.usr e.1 e.2)) ++
              contents.enums.filterMap fun e => read (.enm e.1.1 e.1.2 e.2)))) := by
  simp only [entries, List.filterMap_append, List.filterMap_map, Function.comp_def]

theorem objects_restored :
    contents.entries.filterMap (fun e => e.restored.bind DictEntry.objEntry) =
      contents.objects.filterMap fun e => (plainName e.2).map (e.1, ·) := by
  rw [filterMap_entries]
  simp [DictEntry.restored, DictEntry.objEntry, Option.map_eq_bind, Option.bind_assoc]

theorem functions_restored :
    contents.entries.filterMap (fun e => e.restored.bind DictEntry.fnEntry) =
      contents.functions.filterMap fun e => (plainName e.2).map (e.1, ·) := by
  rw [filterMap_entries]
  simp [DictEntry.restored, DictEntry.fnEntry, Option.map_eq_bind, Option.bind_assoc]

theorem signals_restored :
    contents.entries.filterMap (fun e => e.restored.bind DictEntry.sigEntry) =
      contents.signals.filterMap fun e => (lastName e.2).map (e.1, ·) := by
  rw [filterMap_entries]
  simp [DictEntry.restored, DictEntry.sigEntry, Option.map_eq_bind, Option.bind_assoc]

theorem users_restored :
    contents.entries.filterMap (fun e => e.restored.bind DictEntry.usrEntry) =
      contents.users.filterMap fun e => (plainName e.2).map (e.1, ·) := by
  rw [filterMap_entries]
  simp [DictEntry.restored, DictEntry.usrEntry, Option.map_eq_bind, Option.bind_assoc]

theorem enums_restored :
    contents.entries.filterMap (fun e => e.restored.bind DictEntry.enmEntry) =
      contents.enums.filterMap fun e => (lastName e.2).map (e.1, ·) := by
  rw [filterMap_entries]
  simp [DictEntry.restored, DictEntry.enmEntry, Option.map_eq_bind, Option.bind_assoc]

end Contents

theorem ofList_eq (text : List Char) (name : String) :
    String.ofList text = name ↔ text = name.toList := by
  constructor
  · intro same
    rw [← same, String.toList_ofList]
  · intro same
    rw [same, String.ofList_toList]

theorem lastName_eq (name : String) : lastName name = some name ↔
    name ≠ "" ∧ ∀ c, name.toList.getLast? = some c → isWhitespace c = false := by
  have empty : name.toList = [] ↔ name = "" := String.toList_eq_nil_iff
  rw [lastName, ← trimEnd_eq_self]
  by_cases blank : trimEnd name.toList = []
  · simp only [blank, if_true, reduceCtorEq, false_iff, not_and]
    exact fun nonempty none_left => nonempty (empty.mp none_left.symm)
  · simp only [if_neg blank, Option.some.injEq, ofList_eq]
    refine ⟨fun same => ⟨fun none_left => blank ?_, same⟩, And.right⟩
    rw [same]
    exact empty.mpr none_left

/-- A name behind one key must have no blank besides. -/
theorem plainName_eq (name : String) : plainName name = some name ↔
    lastName name = some name ∧ ' ' ∉ name.toList := by
  rw [plainName, lastName]
  by_cases blank : trimEnd name.toList = []
  · simp only [blank, true_or, if_true, reduceCtorEq, false_and]
  · by_cases broken : ' ' ∈ trimEnd name.toList
    · simp only [blank, broken, or_true, if_true, if_false, reduceCtorEq, Option.some.injEq,
        ofList_eq, false_iff, not_and, not_not]
      exact fun same => same ▸ broken
    · simp only [blank, broken, or_false, if_false, Option.some.injEq, ofList_eq]
      exact ⟨fun same => ⟨same, same ▸ broken⟩, And.left⟩

namespace DictEntry

/-- The lines with one key: the parser expects three parts of them. -/
def OneKey : DictEntry → Prop
  | .obj _ _ | .fn _ _ | .usr _ _ => True
  | .sig _ _ _ | .enm _ _ _ => False

/-- The names that a line gives back. -/
structure Kept (e : DictEntry) : Prop where
  nonempty : e.name ≠ ""
  solid : ∀ c, e.name.toList.getLast? = some c → isWhitespace c = false
  unbroken : e.OneKey → ' ' ∉ e.name.toList

theorem kept_iff (e : DictEntry) : e.Kept ↔
    lastName e.name = some e.name ∧ (e.OneKey → ' ' ∉ e.name.toList) := by
  rw [lastName_eq, and_assoc]
  exact ⟨fun kept => ⟨kept.nonempty, kept.solid, kept.unbroken⟩,
    fun kept => ⟨kept.1, kept.2.1, kept.2.2⟩⟩

theorem kept_plain {e : DictEntry} (one : e.OneKey) : e.Kept ↔ plainName e.name = some e.name := by
  rw [kept_iff, plainName_eq]
  exact and_congr_right fun _ => ⟨fun unbroken => unbroken one, fun unbroken _ => unbroken⟩

theorem kept_last {e : DictEntry} (two : ¬e.OneKey) : e.Kept ↔ lastName e.name = some e.name := by
  rw [kept_iff]
  exact and_iff_left fun one => absurd one two

theorem kept_obj (addr : UInt64) (text : String) :
    (obj addr text).Kept ↔ plainName text = some text := kept_plain trivial

theorem kept_fn (addr : UInt64) (text : String) :
    (fn addr text).Kept ↔ plainName text = some text := kept_plain trivial

theorem kept_sig (signal : UInt32) (object : UInt64) (text : String) :
    (sig signal object text).Kept ↔ lastName text = some text := kept_last id

theorem kept_usr (id : UInt8) (text : String) :
    (usr id text).Kept ↔ plainName text = some text := kept_plain trivial

theorem kept_enm (grp val : UInt8) (text : String) :
    (enm grp val text).Kept ↔ lastName text = some text := kept_last id

end DictEntry

/-- The dictionaries come back from their file exactly when no name is empty or ends in white
space, and no name of an object, a function or a user record has a blank in it. -/
theorem dictionaries_restored_iff (contents : Contents)
    (unbroken : ∀ e ∈ contents.entries, '\n' ∉ e.name.toList) :
    FrameInterpreter.new.dict.loadDictionaries contents.saveDictionaries = contents.dict ↔
      ∀ e ∈ contents.entries, e.Kept := by
  let loaded := contents.entries.foldl (fun dict e => e.restored.elim dict dict.insert)
    FrameInterpreter.new.dict
  have objects : loaded.objects = Table.latest contents.objects ↔ _ :=
    view_restored Dictionaries.objects (fun d e => by cases e <;> rfl) rfl
      contents.objects_nodup contents.objects_restored
  have functions : loaded.functions = Table.latest contents.functions ↔ _ :=
    view_restored Dictionaries.functions (fun d e => by cases e <;> rfl) rfl
      contents.functions_nodup contents.functions_restored
  have signals : Function.uncurry loaded.signals = Table.latest contents.signals ↔ _ :=
    view_restored (fun d => Function.uncurry d.signals) (fun d e => by cases e <;> rfl) rfl
      contents.signals_nodup contents.signals_restored
  have users : loaded.users = Table.latest contents.users ↔ _ :=
    view_restored Dictionaries.users (fun d e => by cases e <;> rfl) rfl
      contents.users_nodup contents.users_restored
  have enums : Function.uncurry loaded.enums = Table.latest contents.enums ↔ _ :=
    view_restored (fun d => Function.uncurry d.enums) (fun d e => by cases e <;> rfl) rfl
      contents.enums_nodup contents.enums_restored
  have maps : loaded = contents.dict ↔ loaded.objects = Table.latest contents.objects ∧
      loaded.functions = Table.latest contents.functions ∧
      Function.uncurry loaded.signals = Table.latest contents.signals ∧
      loaded.users = Table.latest contents.users ∧
      Function.uncurry loaded.enums = Table.latest contents.enums := by
    constructor
    · intro same
      rw [same]
      exact ⟨rfl, rfl, rfl, rfl, rfl⟩
    · intro ⟨objects, functions, signals, users, enums⟩
      have curried : loaded.signals = Function.curry (Table.latest contents.signals) := by
        rw [← signals]
        rfl
      have grouped : loaded.enums = Function.curry (Table.latest contents.enums) := by
        rw [← enums]
        rfl
      calc loaded = ⟨loaded.objects, loaded.functions, loaded.signals, loaded.users,
            loaded.enums⟩ := rfl
        _ = contents.dict := by rw [objects, functions, curried, users, grouped, Contents.dict]
  rw [loadDictionaries_save contents unbroken, maps, objects, functions, signals, users, enums]
  simp only [Contents.entries, List.forall_mem_append, List.forall_mem_map, DictEntry.kept_obj,
    DictEntry.kept_fn, DictEntry.kept_sig, DictEntry.kept_usr, DictEntry.kept_enm]

/-- A signal may have a blank in its name. -/
theorem spaced_signal_restored :
    let contents : Contents :=
      ⟨[(0x1000, "Blinky")], [], [((4, 0x1000), "button down")], [], [], by decide, by decide,
        by decide, by decide, by decide⟩
    FrameInterpreter.new.dict.loadDictionaries contents.saveDictionaries = contents.dict := by
  intro contents
  have unbroken : ∀ e ∈ contents.entries, '\n' ∉ e.name.toList := by decide
  refine (dictionaries_restored_iff contents unbroken).mpr fun e e_mem => ?_
  rcases List.mem_cons.mp e_mem with rfl | e_mem
  · exact (DictEntry.kept_obj _ _).mpr (by decide)
  · rw [List.mem_singleton.mp e_mem]
    exact (DictEntry.kept_sig _ _ _).mpr (by decide)

/-- The line of an object with a blank in its name has four parts, and is left out. -/
theorem spaced_object_dropped :
    let contents : Contents :=
      ⟨[(0x1000, "Blinky task")], [], [], [], [], by decide, by decide, by decide, by decide,
        by decide⟩
    (∀ e ∈ contents.entries, '\n' ∉ e.name.toList) ∧
      (FrameInterpreter.new.dict.loadDictionaries contents.saveDictionaries).objects 0x1000 = none ∧
      FrameInterpreter.new.dict.loadDictionaries contents.saveDictionaries ≠ contents.dict := by
  intro contents
  have unbroken : ∀ e ∈ contents.entries, '\n' ∉ e.name.toList := by decide
  have dropped : (FrameInterpreter.new.dict.loadDictionaries
      contents.saveDictionaries).objects 0x1000 = none := by
    rw [loadDictionaries_save contents unbroken]
    decide
  refine ⟨unbroken, dropped, fun same => ?_⟩
  rw [same] at dropped
  cases dropped

end QpRs.Qs
