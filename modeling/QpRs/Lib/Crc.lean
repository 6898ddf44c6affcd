import Mathlib.Algebra.CharP.Two
import Mathlib.Algebra.Field.ZMod
import Mathlib.Algebra.Polynomial.Div
import Mathlib.Data.ZMod.Basic
import Mathlib.RingTheory.Coprime.Lemmas
import Mathlib.Tactic.LinearCombination
import Mathlib.Tactic.Ring

/-! Cyclic redundancy checks: the shift register of `w` bits computes the remainder of the message
polynomial over the field with two elements.

Registers are reflected, so the lowest bit has the highest power, and a byte is sent lowest bit
first. -/

namespace QpRs.Lib.Crc

open Polynomial

variable {w : Nat}

noncomputable def poly (x : BitVec w) : (ZMod 2)[X] :=
  ∑ i ∈ Finset.range w, if x.getLsbD i then X ^ (w - 1 - i) else 0

/-- The monic polynomial of degree `w` whose lower part is the constant `g`. -/
noncomputable def generator (g : BitVec w) : (ZMod 2)[X] := X ^ w + poly g

/-- The polynomial of a message of bytes, the first bit with the highest power. -/
noncomputable def message (bytes : List UInt8) : (ZMod 2)[X] :=
  bytes.foldl (fun m b => X ^ 8 * m + poly b.toBitVec) 0

/-- The remainder of a message behind the start value of the register. -/
noncomputable def remainder (g start : BitVec w) (bytes : List UInt8) : (ZMod 2)[X] :=
  (X ^ (8 * bytes.length) * poly start + X ^ w * message bytes) %ₘ generator g

/-- One shift of the register. -/
def shift (g x : BitVec w) : BitVec w := if x.getLsbD 0 then (x >>> 1) ^^^ g else x >>> 1

def feedByte (g x : BitVec w) (b : UInt8) : BitVec w :=
  (shift g)^[8] (x ^^^ b.toBitVec.setWidth w)

def feed (g start : BitVec w) (bytes : List UInt8) : BitVec w := bytes.foldl (feedByte g) start

theorem poly_xor (a b : BitVec w) : poly (a ^^^ b) = poly a + poly b := by
  unfold poly
  rw [← Finset.sum_add_distrib]
  refine Finset.sum_congr rfl fun i _ => ?_
  rw [BitVec.getLsbD_xor]
  cases a.getLsbD i <;> cases b.getLsbD i <;> simp [CharTwo.add_self_eq_zero]

theorem degree_poly_lt (x : BitVec w) : (poly x).degree < w := by
  refine (degree_sum_le _ _).trans_lt ((Finset.sup_lt_iff (WithBot.bot_lt_coe w)).mpr ?_)
  intro i member
  have low : i < w := Finset.mem_range.mp member
  split
  · rw [degree_X_pow]
    have below : w - 1 - i < w := by omega
    exact WithBot.coe_lt_coe.mpr below
  · rw [degree_zero]
    exact WithBot.bot_lt_coe w

theorem generator_monic (g : BitVec w) : (generator g).Monic :=
  monic_X_pow_add (degree_poly_lt g)

theorem degree_generator (g : BitVec w) : (generator g).degree = w := by
  have low : (poly g).degree < (X ^ w : (ZMod 2)[X]).degree := by
    rw [degree_X_pow]
    exact degree_poly_lt g
  rw [generator, degree_add_eq_left_of_degree_lt low, degree_X_pow]

theorem X_mul_poly (x : BitVec w) :
    X * poly x = poly (x >>> 1) + if x.getLsbD 0 then X ^ w else 0 := by
  cases w with
  | zero => simp [poly]
  | succ n =>
      have last : (x >>> 1).getLsbD n = false := by simp
      unfold poly
      rw [Finset.mul_sum, Finset.sum_range_succ', Finset.sum_range_succ _ n, last]
      simp only [Bool.false_eq_true, if_false, add_zero]
      congr 1
      · refine Finset.sum_congr rfl fun i member => ?_
        have low : i < n := Finset.mem_range.mp member
        rw [BitVec.getLsbD_ushiftRight, Nat.add_comm 1 i]
        split
        · rw [← pow_succ']
          congr 1
          omega
        · exact mul_zero _
      · split
        · rw [← pow_succ']
          rfl
        · exact mul_zero _

theorem dvd_shift (g x : BitVec w) : generator g ∣ poly (shift g x) - X * poly x := by
  rw [X_mul_poly, shift]
  split
  · refine ⟨1, ?_⟩
    rw [poly_xor, generator]
    have two : (2 : (ZMod 2)[X]) = 0 := CharTwo.two_eq_zero
    linear_combination -(X ^ w) * two
  · simp

theorem dvd_shifts (g : BitVec w) (n : Nat) (x : BitVec w) :
    generator g ∣ poly ((shift g)^[n] x) - X ^ n * poly x := by
  induction n generalizing x with
  | zero => simp
  | succ n ih =>
      obtain ⟨p, first⟩ := dvd_shift g x
      obtain ⟨q, rest⟩ := ih (shift g x)
      refine ⟨q + X ^ n * p, ?_⟩
      rw [Function.iterate_succ_apply]
      linear_combination rest + X ^ n * first

theorem poly_setWidth (wide : 8 ≤ w) (b : BitVec 8) :
    poly (b.setWidth w) = X ^ (w - 8) * poly b := by
  have high : ∀ i ∈ Finset.range w, i ∉ Finset.range 8 →
      (if (b.setWidth w).getLsbD i then (X : (ZMod 2)[X]) ^ (w - 1 - i) else 0) = 0 := by
    intro i _ above
    have out : 8 ≤ i := by simpa using above
    simp [BitVec.getLsbD_setWidth, BitVec.getLsbD_of_ge b i out]
  unfold poly
  rw [← Finset.sum_subset (Finset.range_subset_range.mpr wide) high, Finset.mul_sum]
  refine Finset.sum_congr rfl fun i member => ?_
  have low : i < 8 := Finset.mem_range.mp member
  have inside : i < w := by omega
  rw [BitVec.getLsbD_setWidth]
  simp only [inside, decide_true, Bool.true_and]
  split
  · rw [← pow_add]
    congr 1
    omega
  · exact (mul_zero _).symm

theorem dvd_feedByte (wide : 8 ≤ w) (g x : BitVec w) (b : UInt8) :
    generator g ∣ poly (feedByte g x b) - (X ^ 8 * poly x + X ^ w * poly b.toBitVec) := by
  obtain ⟨q, shifted⟩ := dvd_shifts g 8 (x ^^^ b.toBitVec.setWidth w)
  have power : (X : (ZMod 2)[X]) ^ w = X ^ 8 * X ^ (w - 8) := by
    rw [← pow_add, Nat.add_sub_cancel' wide]
  rw [poly_xor, poly_setWidth wide] at shifted
  refine ⟨q, ?_⟩
  rw [feedByte, power]
  linear_combination shifted

theorem dvd_feed (wide : 8 ≤ w) (g start : BitVec w) (bytes : List UInt8) :
    generator g ∣ poly (feed g start bytes) -
      (X ^ (8 * bytes.length) * poly start + X ^ w * message bytes) := by
  induction bytes using List.reverseRecOn with
  | nil => simp [feed, message]
  | append_singleton bytes b ih =>
      obtain ⟨p, before⟩ := ih
      obtain ⟨q, last⟩ := dvd_feedByte wide g (feed g start bytes) b
      refine ⟨q + X ^ 8 * p, ?_⟩
      have fed : feed g start (bytes ++ [b]) = feedByte g (feed g start bytes) b :=
        List.foldl_append
      have sent : message (bytes ++ [b]) = X ^ 8 * message bytes + poly b.toBitVec :=
        List.foldl_append
      rw [fed, sent, List.length_append, List.length_singleton, Nat.mul_add, pow_add]
      linear_combination last + X ^ 8 * before

theorem poly_feed (wide : 8 ≤ w) (g start : BitVec w) (bytes : List UInt8) :
    poly (feed g start bytes) = remainder g start bytes := by
  have monic := generator_monic g
  have same := (modByMonic_eq_zero_iff_dvd monic).mpr (dvd_feed wide g start bytes)
  rw [sub_modByMonic, sub_eq_zero] at same
  have low : (poly (feed g start bytes)).degree < (generator g).degree := by
    rw [degree_generator]
    exact degree_poly_lt _
  rw [remainder, ← same, modByMonic_eq_self_iff monic |>.mpr low]

/-! ## Words and bits -/

/-- A word, bit `i` with the power `i`. -/
noncomputable def word (x : BitVec w) : (ZMod 2)[X] :=
  ∑ i ∈ Finset.range w, if x.getLsbD i then X ^ i else 0

/-- The word of the coefficients below the power `w`. -/
noncomputable def coefficients (w : Nat) (p : (ZMod 2)[X]) : BitVec w :=
  (BitVec.ofBoolListLE ((List.range w).map fun i => decide (p.coeff i = 1))).cast (by simp)

def bits (bytes : List UInt8) : List Bool :=
  bytes.flatMap fun b => (List.range 8).map b.toBitVec.getLsbD

noncomputable def ofBits : List Bool → (ZMod 2)[X]
  | [] => 0
  | b :: rest => (if b then X ^ rest.length else 0) + ofBits rest

/-- The sequences differ at most in `n` places from place `k` on. -/
def SameOutside (k n : Nat) (bs bs' : List Bool) : Prop :=
  bs.take k = bs'.take k ∧ bs.drop (k + n) = bs'.drop (k + n)

theorem poly_eq_word (x : BitVec w) : poly x = word x.reverse := by
  rw [poly, ← Finset.sum_range_reflect, word]
  refine Finset.sum_congr rfl fun i member => ?_
  have low : i < w := Finset.mem_range.mp member
  have back : w - 1 - (w - 1 - i) = i := by omega
  rw [BitVec.getLsbD_reverse, BitVec.getMsbD, back]
  simp [low]

theorem coeff_word (x : BitVec w) (i : Nat) :
    (word x).coeff i = if x.getLsbD i then 1 else 0 := by
  rw [word, finsetSum_coeff]
  by_cases low : i < w
  · rw [Finset.sum_eq_single i]
    · split
      · rw [coeff_X_pow_self]
      · rw [coeff_zero]
    · intro j _ other
      split
      · rw [coeff_X_pow, if_neg other.symm]
      · rw [coeff_zero]
    · intro out
      exact absurd (Finset.mem_range.mpr low) out
  · rw [BitVec.getLsbD_of_ge x i (by omega)]
    refine Finset.sum_eq_zero fun j member => ?_
    have other : i ≠ j := by
      have := Finset.mem_range.mp member
      omega
    split
    · rw [coeff_X_pow, if_neg other]
    · rw [coeff_zero]

theorem coefficients_word (x : BitVec w) : coefficients w (word x) = x := by
  refine BitVec.eq_of_getLsbD_eq fun i low => ?_
  have bit : decide ((word x).coeff i = 1) = x.getLsbD i := by
    rw [coeff_word]
    cases x.getLsbD i <;> simp
  rw [coefficients, BitVec.getLsbD_cast, BitVec.getLsbD_ofBoolListLE, List.getD_eq_getElem?_getD,
    List.getElem?_map, List.getElem?_range low]
  exact bit

theorem ofBits_append (bs bs' : List Bool) :
    ofBits (bs ++ bs') = X ^ bs'.length * ofBits bs + ofBits bs' := by
  induction bs with
  | nil => simp [ofBits]
  | cons b bs ih =>
      have first : (if b then (X : (ZMod 2)[X]) ^ (bs ++ bs').length else 0) =
          X ^ bs'.length * if b then X ^ bs.length else 0 := by
        rw [mul_ite, mul_zero, ← pow_add, List.length_append, Nat.add_comm]
      rw [List.cons_append, ofBits, ofBits, ih, first]
      ring

theorem ofBits_range (f : Nat → Bool) (n : Nat) :
    ofBits ((List.range n).map f) =
      ∑ i ∈ Finset.range n, if f i then X ^ (n - 1 - i) else 0 := by
  induction n with
  | zero => rfl
  | succ n ih =>
      have last : ofBits [f n] = if f n then 1 else 0 := by simp [ofBits]
      rw [List.range_succ, List.map_append, ofBits_append, ih, Finset.sum_range_succ,
        Finset.mul_sum, List.map_singleton, last, Nat.add_sub_cancel, Nat.sub_self, pow_zero]
      congr 1
      refine Finset.sum_congr rfl fun i member => ?_
      have low : i < n := Finset.mem_range.mp member
      have power : n - i = 1 + (n - 1 - i) := by omega
      rw [mul_ite, mul_zero, List.length_singleton, ← pow_add, ← power]

theorem ofBits_bits (bytes : List UInt8) : ofBits (bits bytes) = message bytes := by
  induction bytes using List.reverseRecOn with
  | nil => rfl
  | append_singleton bytes b ih =>
      have sent : message (bytes ++ [b]) = X ^ 8 * message bytes + poly b.toBitVec :=
        List.foldl_append
      have last : ofBits (bits [b]) = poly b.toBitVec := by
        rw [bits, List.flatMap_singleton]
        exact ofBits_range _ 8
      have eight : (bits [b]).length = 8 := by simp [bits]
      have split_last : bits (bytes ++ [b]) = bits bytes ++ bits [b] := List.flatMap_append
      rw [split_last, ofBits_append, ih, sent, last, eight]

theorem bits_cons (b : UInt8) (rest : List UInt8) :
    bits (b :: rest) = (List.range 8).map b.toBitVec.getLsbD ++ bits rest := rfl

theorem length_bits (bytes : List UInt8) : (bits bytes).length = 8 * bytes.length := by
  induction bytes with
  | nil => rfl
  | cons b rest ih =>
      rw [bits_cons, List.length_append, List.length_map, List.length_range, ih, List.length_cons]
      omega

theorem bits_injective {bytes bytes' : List UInt8} (len : bytes.length = bytes'.length)
    (same : bits bytes = bits bytes') : bytes = bytes' := by
  induction bytes generalizing bytes' with
  | nil => exact (List.length_eq_zero_iff.mp len.symm).symm
  | cons b rest ih =>
      cases bytes' with
      | nil => cases len
      | cons b' rest' =>
          rw [bits_cons, bits_cons] at same
          obtain ⟨first, later⟩ := List.append_inj same (by simp)
          have byte : b = b' := by
            refine UInt8.toBitVec_inj.mp (BitVec.eq_of_getLsbD_eq fun i low => ?_)
            exact List.map_inj_left.mp first i (List.mem_range.mpr low)
          rw [byte, ih (Nat.succ.inj len) later]

/-! ## Bursts -/

theorem degree_ofBits_lt (bs : List Bool) : (ofBits bs).degree < bs.length := by
  induction bs with
  | nil => simp [ofBits]
  | cons b bs ih =>
      have grown : ((bs.length : Nat) : WithBot Nat) < ((bs.length + 1 : Nat) : WithBot Nat) :=
        WithBot.coe_lt_coe.mpr (Nat.lt_succ_self _)
      refine (degree_add_le _ _).trans_lt (max_lt ?_ (ih.trans grown))
      split
      · rw [degree_X_pow]
        exact grown
      · rw [degree_zero]
        exact WithBot.bot_lt_coe _

theorem ofBits_injective {bs bs' : List Bool} (len : bs.length = bs'.length)
    (same : ofBits bs = ofBits bs') : bs = bs' := by
  induction bs generalizing bs' with
  | nil => exact (List.length_eq_zero_iff.mp len.symm).symm
  | cons b bs ih =>
      cases bs' with
      | nil => cases len
      | cons b' bs' =>
          have rest_len : bs.length = bs'.length := Nat.succ.inj len
          -- The rest has no coefficient at the power of the first bit.
          have top : (ofBits bs).coeff bs.length = (ofBits bs').coeff bs.length := by
            rw [coeff_eq_zero_of_degree_lt (degree_ofBits_lt bs), rest_len,
              coeff_eq_zero_of_degree_lt (degree_ofBits_lt bs')]
          rw [ofBits, ofBits, ← rest_len] at same
          have first : b = b' := by
            have at_top := congrArg (fun p => coeff p bs.length) same
            simp only [coeff_add, top, add_left_inj] at at_top
            revert at_top
            cases b <;> cases b' <;> simp
          subst first
          rw [ih rest_len (add_left_cancel same)]

theorem isCoprime_generator {g : BitVec w} (ends : g.getLsbD (w - 1) = true) (n : Nat) :
    IsCoprime (generator g) (X ^ n) := by
  have positive : w ≠ 0 := by
    rintro rfl
    simp at ends
  have constant : (generator g).coeff 0 = 1 := by
    rw [generator, coeff_add, coeff_X_pow, if_neg positive.symm, poly_eq_word, coeff_word,
      BitVec.getLsbD_reverse, BitVec.getMsbD]
    simp [ends, Nat.pos_of_ne_zero positive]
  refine IsCoprime.pow_right ⟨1, -(generator g).divX, ?_⟩
  have parts := divX_mul_X_add (generator g)
  rw [constant, C_1] at parts
  linear_combination -parts

section Burst

variable {k n : Nat} {bs bs' : List Bool}

theorem split_burst (k n : Nat) (bs : List Bool) :
    bs = bs.take k ++ ((bs.drop k).take n ++ bs.drop (k + n)) := by
  rw [← List.drop_drop, List.take_append_drop, List.take_append_drop]

theorem ofBits_split (k n : Nat) (bs : List Bool) :
    ofBits bs = X ^ (bs.length - k) * ofBits (bs.take k) +
      (X ^ (bs.length - (k + n)) * ofBits ((bs.drop k).take n) + ofBits (bs.drop (k + n))) := by
  have behind : ((bs.drop k).take n ++ bs.drop (k + n)).length = bs.length - k := by
    rw [← List.drop_drop, List.take_append_drop, List.length_drop]
  conv_lhs => rw [split_burst k n bs]
  rw [ofBits_append, ofBits_append, behind, List.length_drop]

theorem ofBits_sub (len : bs.length = bs'.length) (outside : SameOutside k n bs bs') :
    ofBits bs - ofBits bs' = X ^ (bs.length - (k + n)) *
      (ofBits ((bs.drop k).take n) - ofBits ((bs'.drop k).take n)) := by
  rw [ofBits_split k n bs, ofBits_split k n bs', outside.1, outside.2, len]
  ring

theorem SameOutside.eq (outside : SameOutside k n bs bs')
    (inside : (bs.drop k).take n = (bs'.drop k).take n) : bs = bs' := by
  rw [split_burst k n bs, outside.1, inside, outside.2, ← split_burst]

end Burst

theorem dvd_of_feed (wide : 8 ≤ w) {g start : BitVec w} {bytes bytes' : List UInt8}
    (len : bytes.length = bytes'.length) (same : feed g start bytes = feed g start bytes') :
    generator g ∣ X ^ w * (message bytes - message bytes') := by
  obtain ⟨p, left⟩ := dvd_feed wide g start bytes
  obtain ⟨q, right⟩ := dvd_feed wide g start bytes'
  rw [← same, ← len] at right
  refine ⟨q - p, ?_⟩
  linear_combination right - left

/-- A burst of errors no longer than the register is never lost. -/
theorem burst_detected (wide : 8 ≤ w) {g : BitVec w} (ends : g.getLsbD (w - 1) = true)
    (start : BitVec w) {bytes bytes' : List UInt8} (len : bytes.length = bytes'.length) {k : Nat}
    (outside : SameOutside k w (bits bytes) (bits bytes'))
    (same : feed g start bytes = feed g start bytes') : bytes = bytes' := by
  have bits_len : (bits bytes).length = (bits bytes').length := by
    rw [length_bits, length_bits, len]
  have divides := dvd_of_feed wide len same
  rw [← ofBits_bits, ← ofBits_bits, ofBits_sub bits_len outside] at divides
  have burst := (isCoprime_generator ends _).dvd_of_dvd_mul_left
    ((isCoprime_generator ends _).dvd_of_dvd_mul_left divides)
  have low (bs : List Bool) : (ofBits (bs.take w)).degree < (generator g).degree := by
    calc
      (ofBits (bs.take w)).degree < (bs.take w).length := degree_ofBits_lt _
      _ ≤ w := WithBot.coe_le_coe.mpr (List.length_take_le _ _)
      _ = (generator g).degree := (degree_generator g).symm
  have none : ofBits (((bits bytes).drop k).take w) - ofBits (((bits bytes').drop k).take w) = 0 :=
    eq_zero_of_dvd_of_degree_lt burst ((degree_sub_le _ _).trans_lt (max_lt (low _) (low _)))
  have inside := ofBits_injective (by simp [bits_len]) (sub_eq_zero.mp none)
  exact bits_injective len (outside.eq inside)

end QpRs.Lib.Crc
