import Mathlib.Algebra.Group.Nat.Defs
import QpRs.Lib.Outcome

/-! Machine words of the target, and words stored together with their complement. -/

namespace QpRs.Pool

/-- Why the node stops: `fusa::on_error`, a failed assertion, or arithmetic that overflows in a
build with overflow checks. -/
inductive Fault where
  | onError
  | assertion
  | overflow
  deriving DecidableEq, Repr

/-- The target and the build: a pointer has `2 ^ wordLog` bytes. -/
structure Build where
  wordLog : Nat
  overflowChecks : Bool
  debugAssertions : Bool
  deriving DecidableEq, Repr

namespace Build

variable (b : Build)

/-- `size_of::<usize>()` -/
def align : Nat := 2 ^ b.wordLog

/-- `usize::MAX` -/
def max : Nat := 2 ^ (8 * b.align) - 1

def wrap (value : Nat) : Except Fault Nat :=
  if value ≤ b.max then .ok value
  else if b.overflowChecks then .error .overflow
  else .ok (value % (b.max + 1))

def add (x y : Nat) : Except Fault Nat := b.wrap (x + y)

def mul (x y : Nat) : Except Fault Nat := b.wrap (x * y)

def sub (x y : Nat) : Except Fault Nat :=
  if y ≤ x then .ok (x - y)
  else if b.overflowChecks then .error .overflow
  else .ok (x + (b.max + 1) - y)

def not (value : Nat) : Nat := b.max - value

def debugAssert (p : Prop) [Decidable p] : Except Fault Unit :=
  if b.debugAssertions && !decide p then .error .assertion else .ok ()

variable {b} {x y : Nat}

theorem align_pos : 0 < b.align := Nat.two_pow_pos b.wordLog

theorem max_succ : b.max + 1 = 2 ^ (8 * b.align) :=
  Nat.sub_add_cancel (Nat.two_pow_pos (8 * b.align))

theorem max_pos : 0 < b.max := by
  have wide : 1 < 2 ^ (8 * b.align) := Nat.one_lt_two_pow (by have := b.align_pos; omega)
  exact Nat.sub_pos_of_lt wide

theorem add_ok (fits : x + y ≤ b.max) : b.add x y = .ok (x + y) := if_pos fits

theorem mul_ok (fits : x * y ≤ b.max) : b.mul x y = .ok (x * y) := if_pos fits

theorem sub_ok (ordered : y ≤ x) : b.sub x y = .ok (x - y) := if_pos ordered

theorem debugAssert_ok {p : Prop} [Decidable p] (holds : p) : b.debugAssert p = .ok () := by
  simp [debugAssert, holds]

end Build

/-- Duplicate inverse storage of an unsigned integer type with the largest value `max`. -/
structure Dis where
  value : Nat
  inverse : Nat
  deriving DecidableEq, Repr

namespace Dis

variable {max value : Nat}

def new (max value : Nat) : Dis := ⟨value, max - value⟩

def get (max : Nat) (d : Dis) : Except Fault Nat :=
  if d.value ≠ max - d.inverse then .error .onError else .ok d.value

theorem get_new (fits : value ≤ max) : (new max value).get max = .ok value := by
  have twice : max - (max - value) = value := by omega
  rw [get, new, twice]
  exact if_neg fun differ => differ rfl

end Dis

/-! ## The atomic count -/

namespace DisAtomicU16

/-- The count in the low half of the word and its complement in the high half. -/
def pack (v : UInt16) : UInt32 := v.toUInt32 ||| (~~~v).toUInt32 <<< 16

def verify (word : UInt32) : Except Fault UInt16 :=
  let lo := word.toUInt16
  let hi := (word >>> 16).toUInt16
  if lo ≠ ~~~hi then .error .onError else .ok lo

/-- The halves of a word are each other's complement. -/
def Complementary (word : UInt32) : Prop := word.toUInt16 = ~~~(word >>> 16).toUInt16

theorem pack_low (v : UInt16) : (pack v).toUInt16 = v := by
  have low (x : BitVec 16) : (x.setWidth 32 ||| (~~~x).setWidth 32 <<< 16).setWidth 16 = x := by
    ext i inside
    simp
  exact UInt16.toBitVec_inj.mp (low v.toBitVec)

theorem pack_high (v : UInt16) : (pack v >>> 16).toUInt16 = ~~~v := by
  have high (x : BitVec 16) :
      ((x.setWidth 32 ||| (~~~x).setWidth 32 <<< 16) >>> 16).setWidth 16 = ~~~x := by
    ext i inside
    have shifted : 16 + i < 32 := by omega
    simp [inside, shifted]
  exact UInt16.toBitVec_inj.mp (high v.toBitVec)

theorem pack_complementary (v : UInt16) : Complementary (pack v) := by
  rw [Complementary, pack_low, pack_high, UInt16.not_not]

theorem verify_pack (v : UInt16) : verify (pack v) = .ok v := by
  rw [verify, pack_low, pack_high, UInt16.not_not]
  exact if_neg fun differ => differ rfl

end DisAtomicU16

end QpRs.Pool
