import Mathlib.Data.List.Basic
import Mathlib.Data.Nat.Digits.Defs
import QpRs.Lib.Outcome

/-! Reads of byte strings: indices, slices and fixed-size arrays that fail out of bounds, and
numbers as little-endian bytes. -/

namespace QpRs.Lib

variable {ε α : Type}

def index (fault : ε) (xs : List α) (i : Nat) : Except ε α :=
  if inside : i < xs.length then .ok (xs.get ⟨i, inside⟩) else .error fault

def slice (fault : ε) (xs : List α) (first last : Nat) : Except ε (List α) :=
  if first ≤ last ∧ last ≤ xs.length then .ok ((xs.take last).drop first) else .error fault

def tryInto (fault : ε) (n : Nat) (xs : List α) : Except ε (Vector α n) :=
  if sized : xs.length = n then .ok ⟨xs.toArray, sized⟩ else .error fault

def arrayAt (fault : ε) (xs : List α) (first n : Nat) : Except ε (Vector α n) := do
  let bytes ← slice fault xs first (first + n)
  tryInto fault n bytes

/-- The array with a slice from `first` on copied over. -/
def overwrite (fault : ε) {n : Nat} (xs : Vector α n) (first : Nat) (data : List α) :
    Except ε (Vector α n) :=
  if inside : first + data.length ≤ n then
    .ok ⟨(xs.toList.take first ++ data ++ xs.toList.drop (first + data.length)).toArray, by
      simp only [List.size_toArray, List.length_append, List.length_take, List.length_drop,
        Vector.length_toList]
      omega⟩
  else .error fault

def toLeBytes : Nat → Nat → List UInt8
  | 0, _ => []
  | width + 1, value => UInt8.ofNat value :: toLeBytes width (value / 256)

def fromLeBytes (bytes : List UInt8) : Nat :=
  Nat.ofDigits 256 (bytes.map UInt8.toNat)

variable {fault : ε}

theorem index_ok {xs : List α} {i : Nat} {x : α} (found : xs[i]? = some x) :
    index fault xs i = .ok x := by
  obtain ⟨inside, read⟩ := List.getElem?_eq_some_iff.mp found
  simp only [index, inside, dif_pos, List.get_eq_getElem, read]

theorem index_returns {xs : List α} {i : Nat} (inside : i < xs.length) :
    Returns (index fault xs i) :=
  ⟨xs[i], index_ok (List.getElem?_eq_getElem inside)⟩

theorem slice_ok {xs : List α} {first last : Nat} (ordered : first ≤ last)
    (inside : last ≤ xs.length) :
    slice fault xs first last = .ok ((xs.take last).drop first) :=
  if_pos ⟨ordered, inside⟩

theorem arrayAt_returns {xs : List α} {first n : Nat} (inside : first + n ≤ xs.length) :
    Returns (arrayAt fault xs first n) := by
  have sized : ((xs.take (first + n)).drop first).length = n := by
    rw [List.length_drop, List.length_take]
    omega
  rw [arrayAt, slice_ok (Nat.le_add_right first n) inside]
  exact ⟨_, dif_pos sized⟩

theorem fromLeBytes_cons (b : UInt8) (rest : List UInt8) :
    fromLeBytes (b :: rest) = b.toNat + 256 * fromLeBytes rest := rfl

theorem length_toLeBytes (width value : Nat) : (toLeBytes width value).length = width := by
  induction width generalizing value with
  | zero => rfl
  | succ width ih => rw [toLeBytes, List.length_cons, ih]

theorem take_toLeBytes {width wider : Nat} (le : width ≤ wider) (value : Nat) :
    (toLeBytes wider value).take width = toLeBytes width value := by
  induction width generalizing wider value with
  | zero => rfl
  | succ width ih =>
      cases wider with
      | zero => omega
      | succ wider =>
          rw [toLeBytes, List.take_succ_cons, ih (Nat.le_of_succ_le_succ le)]
          rfl

theorem toLeBytes_mod (width value : Nat) :
    toLeBytes width (value % 256 ^ width) = toLeBytes width value := by
  induction width generalizing value with
  | zero => rfl
  | succ width ih =>
      have low : UInt8.ofNat (value % 256 ^ (width + 1)) = UInt8.ofNat value := by
        apply UInt8.toNat_inj.mp
        rw [UInt8.toNat_ofNat', UInt8.toNat_ofNat']
        exact Nat.mod_mod_of_dvd _ ⟨256 ^ width, pow_succ' 256 width⟩
      have high : value % 256 ^ (width + 1) / 256 = value / 256 % 256 ^ width := by
        rw [pow_succ', Nat.mod_mul_right_div_self]
      rw [toLeBytes, low, high, ih]
      rfl

theorem fromLeBytes_toLeBytes {width value : Nat} (fits : value < 256 ^ width) :
    fromLeBytes (toLeBytes width value) = value := by
  induction width generalizing value with
  | zero =>
      have zero : value = 0 := by omega
      rw [zero]
      rfl
  | succ width ih =>
      have shorter : value / 256 < 256 ^ width := by
        rw [pow_succ] at fits
        exact Nat.div_lt_of_lt_mul (by omega)
      have low : (UInt8.ofNat value).toNat = value % 256 := UInt8.toNat_ofNat'
      rw [toLeBytes, fromLeBytes_cons, ih shorter, low]
      exact Nat.mod_add_div value 256

theorem toLeBytes_fromLeBytes (bytes : List UInt8) :
    toLeBytes bytes.length (fromLeBytes bytes) = bytes := by
  induction bytes with
  | nil => rfl
  | cons b rest ih =>
      have bound := b.toNat_lt
      have low : UInt8.ofNat (b.toNat + 256 * fromLeBytes rest) = b := by
        apply UInt8.toNat_inj.mp
        rw [UInt8.toNat_ofNat']
        omega
      have high : (b.toNat + 256 * fromLeBytes rest) / 256 = fromLeBytes rest := by omega
      rw [fromLeBytes_cons, List.length_cons, toLeBytes, low, high, ih]

theorem fromLeBytes_lt (bytes : List UInt8) : fromLeBytes bytes < 256 ^ bytes.length := by
  induction bytes with
  | nil => exact Nat.one_pos
  | cons b rest ih =>
      have bound := b.toNat_lt
      rw [fromLeBytes_cons, List.length_cons, pow_succ]
      omega

theorem low_nibble (low high : UInt8) : (low ||| high <<< 4) &&& 0x0F = low &&& 0x0F := by
  have shifted : (high <<< 4).toNat % 2 ^ 4 = 0 := by
    rw [UInt8.toNat_shiftLeft, Nat.shiftLeft_eq]
    change high.toNat * 16 % 256 % 16 = 0
    omega
  apply UInt8.toNat_inj.mp
  rw [UInt8.toNat_and, UInt8.toNat_or, UInt8.toNat_and]
  change (low.toNat ||| (high <<< 4).toNat) &&& (2 ^ 4 - 1) = low.toNat &&& (2 ^ 4 - 1)
  rw [Nat.and_two_pow_sub_one_eq_mod, Nat.and_two_pow_sub_one_eq_mod, Nat.or_mod_two_pow, shifted,
    Nat.or_zero]

theorem overwrite_ok {n : Nat} (xs : Vector α n) {first : Nat} {data : List α}
    (inside : first + data.length ≤ n) :
    ∃ ys : Vector α n, overwrite fault xs first data = .ok ys ∧
      ys.toList = xs.toList.take first ++ data ++ xs.toList.drop (first + data.length) :=
  ⟨_, dif_pos inside, rfl⟩

theorem overwrite_returns (fault : ε) {n : Nat} (xs : Vector α n) {first : Nat} {data : List α}
    (inside : first + data.length ≤ n) : Returns (overwrite fault xs first data) := by
  obtain ⟨ys, wrote, _⟩ := overwrite_ok xs inside
  exact ⟨ys, wrote⟩

theorem slice_overwrite {n : Nat} {xs ys : Vector α n} {first : Nat} {data : List α}
    (wrote : overwrite fault xs first data = .ok ys) :
    slice fault ys.toList first (first + data.length) = .ok data := by
  by_cases inside : first + data.length ≤ n
  · obtain ⟨_, same, bytes⟩ := overwrite_ok xs inside
    rw [wrote] at same
    cases same
    have front : (xs.toList.take first).length = first := by
      rw [List.length_take, Vector.length_toList]
      omega
    have both : (xs.toList.take first ++ data).length = first + data.length := by
      rw [List.length_append, front]
    rw [slice_ok (Nat.le_add_right _ _) (by rw [Vector.length_toList]; exact inside), bytes]
    rw [List.take_append_of_le_length both.ge, List.take_of_length_le both.le,
      List.drop_append_of_le_length front.ge, List.drop_of_length_le front.le, List.nil_append]
  · rw [overwrite, dif_neg inside] at wrote
    cases wrote

end QpRs.Lib
