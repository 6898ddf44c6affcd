import Mathlib.Data.List.DropRight
import Mathlib.Tactic.IntervalCases

/-! Texts of lines and words: what is read of a text that was written line by line and word by
word, and the numbers in it. -/

namespace QpRs.Lib

def isWhitespace (c : Char) : Bool :=
  (0x09 ≤ c.toNat && c.toNat ≤ 0x0D) || (0x2000 ≤ c.toNat && c.toNat ≤ 0x200A) ||
    [0x20, 0x85, 0xA0, 0x1680, 0x2028, 0x2029, 0x202F, 0x205F, 0x3000].contains c.toNat

def trimEnd (text : List Char) : List Char := text.rdropWhile isWhitespace

def trim (text : List Char) : List Char := trimEnd (text.dropWhile isWhitespace)

/-- A line without the carriage return before its newline. -/
def stripReturn (line : List Char) : List Char :=
  if line.getLast? = some '\r' then line.dropLast else line

/-- The lines of a text; `line` is the beginning of the first one, backwards. -/
def linesFrom : List Char → List Char → List (List Char)
  | [], [] => []
  | line, [] => [line.reverse]
  | line, c :: rest =>
      if c = '\n' then stripReturn line.reverse :: linesFrom [] rest
      else linesFrom (c :: line) rest

def lines (text : List Char) : List (List Char) := linesFrom [] text

/-- The parts between separators, at most so many of them: the last one keeps what is left. -/
def splitn (sep : Char) : Nat → List Char → List (List Char)
  | 0, _ => []
  | 1, text => [text]
  | n + 2, text =>
      match text.dropWhile (· ≠ sep) with
      | [] => [text]
      | _ :: rest => text.takeWhile (· ≠ sep) :: splitn sep (n + 1) rest

def toDigit (radix : Nat) (c : Char) : Option Nat :=
  let value :=
    if '0' ≤ c ∧ c ≤ '9' then some (c.toNat - 48)
    else if 'a' ≤ c ∧ c ≤ 'z' then some (c.toNat - 87)
    else if 'A' ≤ c ∧ c ≤ 'Z' then some (c.toNat - 55)
    else none
  value.filter (· < radix)

/-- The number of more digits behind a value, as long as it stays below the bound. -/
def fromDigits (radix bound : Nat) : Nat → List Char → Option Nat
  | value, [] => some value
  | value, c :: rest =>
      match toDigit radix c with
      | none => none
      | some d =>
          if value * radix + d < bound then fromDigits radix bound (value * radix + d) rest
          else none

def fromStrRadix (radix bound : Nat) (text : List Char) : Option Nat :=
  let digits := match text with
    | '+' :: rest => rest
    | text => text
  if digits = [] then none else fromDigits radix bound 0 digits

/-- A text with no white space that is not empty. -/
structure Word (text : List Char) : Prop where
  nonempty : text ≠ []
  unbroken : ∀ c ∈ text, isWhitespace c = false

theorem Word.of_all {text : List Char} (nonempty : text ≠ [])
    (unbroken : text.all (fun c => !isWhitespace c) = true) : Word text where
  nonempty := nonempty
  unbroken c member := by
    have plain := List.all_eq_true.mp unbroken c member
    rwa [Bool.not_eq_true'] at plain

section Trim

variable {text rest : List Char}

theorem trimEnd_append :
    trimEnd (text ++ rest) = if trimEnd rest = [] then trimEnd text else text ++ trimEnd rest := by
  simp only [trimEnd, List.rdropWhile, List.reverse_append, List.dropWhile_append,
    List.reverse_eq_nil_iff, List.isEmpty_iff]
  split_ifs
  · rfl
  · rw [List.reverse_append, List.reverse_reverse]

theorem trimEnd_eq_self :
    trimEnd text = text ↔ ∀ c, text.getLast? = some c → isWhitespace c = false := by
  rw [trimEnd, List.rdropWhile_eq_self_iff]
  constructor
  · intro solid c last
    have nonempty : text ≠ [] := by
      rintro rfl
      cases last
    rw [List.getLast?_eq_some_getLast nonempty] at last
    rw [← Option.some.inj last]
    exact Bool.eq_false_iff.mpr (solid nonempty)
  · intro solid nonempty
    exact Bool.eq_false_iff.mp (solid _ (List.getLast?_eq_some_getLast nonempty))

theorem Word.trimEnd (word : Word text) : trimEnd text = text := by
  refine trimEnd_eq_self.mpr fun c last => ?_
  exact word.unbroken c (List.mem_of_getLast? last)

theorem Word.trimEnd_append (word : Word rest) : Lib.trimEnd (text ++ rest) = text ++ rest := by
  rw [Lib.trimEnd_append, word.trimEnd, if_neg word.nonempty]

theorem trimEnd_stripReturn : trimEnd (stripReturn text) = trimEnd text := by
  by_cases last : text.getLast? = some '\r'
  · have split : text = text.dropLast ++ ['\r'] := (List.dropLast_append_getLast? '\r' last).symm
    rw [stripReturn, if_pos last]
    conv_rhs => rw [split]
    exact (List.rdropWhile_concat_pos _ _ _ (by decide)).symm
  · rw [stripReturn, if_neg last]

theorem stripReturn_append (nonempty : rest ≠ []) :
    stripReturn (text ++ rest) = text ++ stripReturn rest := by
  rw [stripReturn, stripReturn, List.getLast?_append_of_ne_nil text nonempty]
  split_ifs
  · exact List.dropLast_append_of_ne_nil nonempty
  · rfl

theorem Word.trim_line (word : Word text) (nonempty : rest ≠ []) :
    trim (stripReturn (text ++ rest)) = Lib.trimEnd (text ++ rest) := by
  have back := @trimEnd_stripReturn (text ++ rest)
  rw [stripReturn_append nonempty] at back ⊢
  cases text with
  | nil => exact absurd rfl word.nonempty
  | cons c tail =>
      have solid := word.unbroken c List.mem_cons_self
      rw [trim, List.cons_append, List.dropWhile_cons_of_neg (Bool.eq_false_iff.mp solid)]
      exact back

theorem Word.trimEnd_blank (word : Word text) :
    Lib.trimEnd (text ++ ' ' :: rest) =
      if Lib.trimEnd rest = [] then text else text ++ ' ' :: Lib.trimEnd rest := by
  have blank : Lib.trimEnd (' ' :: rest) =
      if Lib.trimEnd rest = [] then [] else ' ' :: Lib.trimEnd rest :=
    @Lib.trimEnd_append [' '] rest
  rw [Lib.trimEnd_append, blank, word.trimEnd]
  by_cases empty : Lib.trimEnd rest = []
  · simp only [if_pos empty]
    rfl
  · simp only [if_neg empty, List.cons_ne_nil, if_false]

end Trim

section Lines

theorem linesFrom_line {rest : List Char} (line before : List Char) (unbroken : '\n' ∉ line) :
    linesFrom before (line ++ '\n' :: rest) =
      stripReturn (before.reverse ++ line) :: linesFrom [] rest := by
  induction line generalizing before with
  | nil => simp [linesFrom]
  | cons c line ih =>
      rw [List.mem_cons, not_or] at unbroken
      have next := ih (c :: before) unbroken.2
      rw [List.reverse_cons, List.append_assoc] at next
      rw [List.cons_append, linesFrom, if_neg (Ne.symm unbroken.1), next]
      rfl

theorem lines_written (written : List (List Char)) (unbroken : ∀ line ∈ written, '\n' ∉ line) :
    lines (written.flatMap (· ++ ['\n'])) = written.map stripReturn := by
  induction written with
  | nil => rfl
  | cons line later ih =>
      have first := unbroken line List.mem_cons_self
      have rest := ih fun l l_mem => unbroken l (List.mem_cons_of_mem line l_mem)
      rw [lines] at rest ⊢
      rw [List.flatMap_cons, List.append_assoc, List.singleton_append, linesFrom_line line [] first,
        rest]
      rfl

end Lines

section Parts

variable {sep : Char} {part rest : List Char}

theorem splitn_next (n : Nat) (unbroken : sep ∉ part) :
    splitn sep (n + 2) (part ++ sep :: rest) = part :: splitn sep (n + 1) rest := by
  have solid : ∀ c ∈ part, decide (c ≠ sep) = true := by
    intro c c_mem
    exact decide_eq_true fun same => unbroken (same ▸ c_mem)
  have taken : (part ++ sep :: rest).takeWhile (· ≠ sep) = part := by
    rw [List.takeWhile_append_of_pos solid]
    simp
  have left : (part ++ sep :: rest).dropWhile (· ≠ sep) = sep :: rest := by
    rw [List.dropWhile_append_of_pos solid]
    simp
  rw [splitn, left, taken]

theorem splitn_last (n : Nat) (unbroken : sep ∉ part) : splitn sep (n + 1) part = [part] := by
  cases n with
  | zero => rfl
  | succ n =>
      have none_left : part.dropWhile (· ≠ sep) = [] := by
        refine List.dropWhile_eq_nil_iff.mpr fun c c_mem => ?_
        exact decide_eq_true fun same => unbroken (same ▸ c_mem)
      rw [splitn, none_left]

theorem splitn_two (broken : sep ∈ rest) : ∃ a b, splitn sep 2 rest = [a, b] := by
  cases left : rest.dropWhile (· ≠ sep) with
  | nil =>
      have solid := List.dropWhile_eq_nil_iff.mp left sep broken
      exact absurd rfl (of_decide_eq_true solid)
  | cons c more =>
      refine ⟨rest.takeWhile (· ≠ sep), more, ?_⟩
      rw [splitn, left]
      rfl

theorem Word.not_mem (word : Word part) {c : Char} (white : isWhitespace c = true) : c ∉ part := by
  intro c_mem
  exact Bool.false_ne_true ((word.unbroken c c_mem).symm.trans white)

theorem Word.splitn_trimmed (word : Word part) (n : Nat) :
    splitn ' ' (n + 2) (Lib.trimEnd (part ++ ' ' :: rest)) =
      part :: if Lib.trimEnd rest = [] then [] else splitn ' ' (n + 1) (Lib.trimEnd rest) := by
  rw [word.trimEnd_blank]
  split_ifs
  · exact splitn_last (n + 1) (word.not_mem rfl)
  · exact splitn_next n (word.not_mem rfl)

end Parts

section Numbers

variable {radix bound : Nat} {shape : Char → Char}

theorem fromDigits_append (value : Nat) (first later : List Char) :
    fromDigits radix bound value (first ++ later) =
      (fromDigits radix bound value first).bind (fromDigits radix bound · later) := by
  induction first generalizing value with
  | nil => rfl
  | cons c first ih =>
      rw [List.cons_append, fromDigits, fromDigits]
      cases toDigit radix c with
      | none => rfl
      | some d =>
          simp only
          split_ifs
          · exact ih _
          · rfl

theorem fromDigits_one {d : Nat} (value : Nat) {c : Char} (digit : toDigit radix c = some d)
    (fits : value * radix + d < bound) :
    fromDigits radix bound value [c] = some (value * radix + d) := by
  simp only [fromDigits, digit, if_pos fits]

theorem fromDigits_toDigits (large : 1 < radix)
    (digits : ∀ d < radix, toDigit radix (shape d.digitChar) = some d) {n : Nat}
    (fits : n < bound) :
    fromDigits radix bound 0 ((Nat.toDigits radix n).map shape) = some n := by
  induction n using Nat.strong_induction_on with
  | _ n ih =>
      rw [Nat.toDigits_eq_if large]
      split_ifs with small
      · have one := @fromDigits_one _ bound n 0 _ (digits n small) (by omega)
        rw [Nat.zero_mul, Nat.zero_add] at one
        exact one
      · have shorter : n / radix < n := Nat.div_lt_self (by omega) large
        have again : n / radix * radix + n % radix = n := Nat.div_add_mod' n radix
        have last := digits (n % radix) (Nat.mod_lt n (by omega))
        rw [List.map_append, fromDigits_append, ih _ shorter (by omega), Option.bind_some,
          List.map_singleton]
        calc fromDigits radix bound (n / radix) [shape (n % radix).digitChar]
            = some (n / radix * radix + n % radix) := fromDigits_one _ last (again.symm ▸ fits)
          _ = some n := by rw [again]

theorem fromDigits_zeros (zero : toDigit radix '0' = some 0) (positive : 0 < bound) (count : Nat)
    (rest : List Char) :
    fromDigits radix bound 0 (List.replicate count '0' ++ rest) =
      fromDigits radix bound 0 rest := by
  induction count with
  | zero => rfl
  | succ count ih =>
      rw [List.replicate_succ, List.cons_append, fromDigits, zero]
      simp only [Nat.zero_mul, Nat.add_zero, if_pos positive]
      exact ih

theorem fromStrRadix_digits {text : List Char} (nonempty : text ≠ []) (plain : '+' ∉ text) :
    fromStrRadix radix bound text = fromDigits radix bound 0 text := by
  cases text with
  | nil => exact absurd rfl nonempty
  | cons c rest =>
      have unsigned : c ≠ '+' := fun plus => plain (plus ▸ List.mem_cons_self)
      simp [fromStrRadix, unsigned]

theorem mem_toDigits (large : 1 < radix) {n : Nat} {c : Char} (c_mem : c ∈ Nat.toDigits radix n) :
    ∃ d < radix, c = d.digitChar := by
  induction n using Nat.strong_induction_on with
  | _ n ih =>
      rw [Nat.toDigits_eq_if large] at c_mem
      split_ifs at c_mem with small
      · exact ⟨n, small, List.mem_singleton.mp c_mem⟩
      · rcases List.mem_append.mp c_mem with first | last
        · exact ih _ (Nat.div_lt_self (by omega) large) first
        · exact ⟨n % radix, Nat.mod_lt n (by omega), List.mem_singleton.mp last⟩

end Numbers

end QpRs.Lib
