import Mathlib.Data.Nat.Bitwise

/-! The 64-bit priority bitmap of the preemptive schedulers (`qk/src/scheduler.rs`,
`qxk/src/scheduler.rs`).

`assert_range` stops the program at a priority above 63; the kernels only pass priorities of their
registered slots, which are in range. -/

namespace QpRs

structure ReadySet where
  bits : BitVec 64
  deriving DecidableEq

namespace ReadySet

def empty : ReadySet := ⟨0#64⟩

def insert (r : ReadySet) (prio : Nat) : ReadySet := ⟨r.bits ||| (1#64 <<< prio)⟩

def remove (r : ReadySet) (prio : Nat) : ReadySet := ⟨r.bits &&& ~~~(1#64 <<< prio)⟩

def contains (r : ReadySet) (prio : Nat) : Bool := (r.bits &&& (1#64 <<< prio)) != 0#64

def max (r : ReadySet) : Option Nat :=
  if r.bits = 0#64 then none else some (63 - r.bits.clz.toNat)

theorem contains_eq (r : ReadySet) (prio : Nat) : r.contains prio = r.bits.getLsbD prio := by
  unfold contains
  cases bit : r.bits.getLsbD prio with
  | true =>
      have inRange := BitVec.lt_of_getLsbD bit
      simp only [bne_iff_ne]
      intro zero
      have same := congrArg (fun x => x.getLsbD prio) zero
      simp only [BitVec.getLsbD_and, bit, BitVec.getLsbD_shiftLeft, BitVec.getLsbD_one] at same
      simp [inRange] at same
  | false =>
      simp only [bne_eq_false_iff_eq]
      apply BitVec.eq_of_getLsbD_eq
      intro i inRange
      by_cases same : i = prio
      · subst same
        simp [bit]
      · simp only [BitVec.getLsbD_and, BitVec.getLsbD_shiftLeft, BitVec.getLsbD_one]
        simp
        omega

@[simp] theorem contains_empty (prio : Nat) : empty.contains prio = false := by
  simp [contains_eq, empty]

theorem contains_insert (r : ReadySet) {prio : Nat} (inRange : prio < 64) (q : Nat) :
    (r.insert prio).contains q = (decide (q = prio) || r.contains q) := by
  simp only [contains_eq, insert, BitVec.getLsbD_or, BitVec.getLsbD_shiftLeft, BitVec.getLsbD_one]
  by_cases same : q = prio
  · subst same
    simp [inRange]
  · by_cases low : q < prio
    · simp [low, same]
    · have above : q - prio ≠ 0 := by omega
      simp [same, above]

theorem contains_remove (r : ReadySet) (prio q : Nat) :
    (r.remove prio).contains q = (decide (q ≠ prio) && r.contains q) := by
  simp only [contains_eq, remove, BitVec.getLsbD_and, BitVec.getLsbD_not, BitVec.getLsbD_shiftLeft,
    BitVec.getLsbD_one]
  by_cases high : 64 ≤ q
  · simp [BitVec.getLsbD_of_ge _ q high]
  · have inRange : q < 64 := by omega
    by_cases same : q = prio
    · subst same
      simp [inRange]
    · by_cases low : q < prio
      · simp [low, same, inRange]
      · have above : q - prio ≠ 0 := by omega
        simp [same, above, inRange]

theorem max_spec {r : ReadySet} {prio : Nat} (highest : r.max = some prio) :
    r.contains prio = true ∧ ∀ q, r.contains q = true → q ≤ prio := by
  unfold max at highest
  split at highest
  · cases highest
  · rename_i nonzero
    simp only [Option.some.injEq] at highest
    constructor
    · rw [contains_eq, ← highest]
      exact BitVec.getLsbD_true_clz_of_ne_zero (by decide) nonzero
    · intro q present
      rw [contains_eq] at present
      have low : 2 ^ q ≤ r.bits.toNat := Nat.ge_two_pow_of_testBit present
      have high : r.bits.toNat < 2 ^ (64 - r.bits.clz.toNat) := BitVec.toNat_lt_two_pow_sub_clz
      have below : q < 64 - r.bits.clz.toNat :=
        (Nat.pow_lt_pow_iff_right (by decide)).mp (Nat.lt_of_le_of_lt low high)
      omega

theorem max_none {r : ReadySet} (idle : r.max = none) (q : Nat) : r.contains q = false := by
  unfold max at idle
  split at idle
  · rename_i zero
    simp [contains_eq, zero]
  · cases idle

end ReadySet

end QpRs
