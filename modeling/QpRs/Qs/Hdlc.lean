import Mathlib.Data.UInt
import QpRs.Lib.Framing

/-! The HDLC bytes and the checksum shared by the two ends of the QS stream.

The tracer, the RX parser, the host's decoder and the host's command sender each declare the same
three constants. -/

namespace QpRs.Qs

open QpRs.Lib

def FLAG : UInt8 := 0x7E

def ESC : UInt8 := 0x7D

def ESC_XOR : UInt8 := 0x20

def sum (bytes : List UInt8) : UInt8 := bytes.foldl (· + ·) 0

/-- The test and the two pushes that every sender makes for a byte. -/
def pushLiteral (dest : List UInt8) (byte : UInt8) : List UInt8 :=
  if byte = FLAG ∨ byte = ESC then dest ++ [ESC] ++ [byte ^^^ ESC_XOR] else dest ++ [byte]

def hdlc : Stuffing UInt8 where
  flag := FLAG
  esc := ESC
  flip := (· ^^^ ESC_XOR)
  flip_flip := by
    intro b
    rw [UInt8.xor_assoc, UInt8.xor_self, UInt8.xor_zero]
  flip_flag := by decide
  flip_esc := by decide

theorem pushLiteral_eq (dest : List UInt8) (byte : UInt8) :
    pushLiteral dest byte = dest ++ hdlc.stuffByte byte := by
  by_cases special : byte = FLAG ∨ byte = ESC
  · rw [pushLiteral, if_pos special, Stuffing.stuffByte]
    exact (List.append_assoc dest _ _).trans (congrArg (dest ++ ·) (if_pos special).symm)
  · rw [pushLiteral, if_neg special, Stuffing.stuffByte]
    exact congrArg (dest ++ ·) (if_neg special).symm

theorem foldl_pushLiteral (dest raw : List UInt8) :
    raw.foldl pushLiteral dest = dest ++ hdlc.stuff raw := by
  induction raw generalizing dest with
  | nil => exact (List.append_nil dest).symm
  | cons b rest ih =>
      calc
        (b :: rest).foldl pushLiteral dest
            = rest.foldl pushLiteral (dest ++ hdlc.stuffByte b) := by
              rw [List.foldl_cons, pushLiteral_eq]
        _ = dest ++ hdlc.stuffByte b ++ hdlc.stuff rest := ih _
        _ = dest ++ hdlc.stuff (b :: rest) := List.append_assoc _ _ _

theorem foldl_add (start : UInt8) (bytes : List UInt8) :
    bytes.foldl (· + ·) start = start + sum bytes := by
  induction bytes generalizing start with
  | nil => exact (UInt8.add_zero start).symm
  | cons b rest ih =>
      rw [sum, List.foldl_cons, List.foldl_cons, ih, ih (0 + b), UInt8.zero_add, UInt8.add_assoc]

theorem sum_append (xs ys : List UInt8) : sum (xs ++ ys) = sum xs + sum ys := by
  rw [sum, List.foldl_append]
  exact foldl_add _ ys

theorem sum_cons (b : UInt8) (bytes : List UInt8) : sum (b :: bytes) = b + sum bytes := by
  rw [sum, List.foldl_cons, foldl_add, UInt8.zero_add]

theorem add_not (b : UInt8) : b + ~~~b = 0xFF := by
  apply UInt8.toBitVec_inj.mp
  rw [UInt8.toBitVec_add, UInt8.toBitVec_not, BitVec.add_not_self]
  rfl

theorem sum_checked (body : List UInt8) : sum (body ++ [~~~sum body]) = 0xFF := by
  have last : sum [~~~sum body] = ~~~sum body := UInt8.zero_add _
  rw [sum_append, last]
  exact add_not (sum body)

theorem sum_set_ne {bytes : List UInt8} {i : Nat} {b : UInt8} (inside : i < bytes.length)
    (other : b ≠ bytes[i]) : sum (bytes.set i b) ≠ sum bytes := by
  intro same
  have split : sum bytes = sum (bytes.take i) + (bytes[i] + sum (bytes.drop (i + 1))) := by
    conv_lhs => rw [← List.take_append_drop i bytes, List.drop_eq_getElem_cons inside]
    rw [sum_append, sum_cons]
  rw [List.set_eq_take_append_cons_drop, if_pos inside, sum_append, sum_cons, split] at same
  exact other (add_right_cancel (add_left_cancel same))

end QpRs.Qs
