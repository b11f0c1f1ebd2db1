import Corio.Foundation.Number
import Corio.Logging.LogStream

/-! # Integers in the log

`convert` never negates: a negative number has negative remainders, and `digits` is the same
in both directions from `zero`. What it writes is the decimal representation for every value
of every type.
-/

namespace Corio.LogStream

variable {t : IntType}

/-- The decimal representation of an integer. -/
def decimalText (n : Int) : Bytes := (if n < 0 then bytes "-" else []) ++ toDecimalString n.natAbs

/-- The integer a text denotes: an optional sign and digits. -/
def readInteger (text : Bytes) : Int :=
  let signed := sign text
  if signed.1 then -decimal signed.2 else decimal signed.2

/-- The characters in front of the terminator. -/
def Converted.text (c : Converted) : Bytes := c.written.take c.length

/-- What formatting an integer exactly comes to. -/
structure WritesDecimal (value : Value t) (c : Converted) : Prop where
  terminated : c.written = c.text ++ [0]
  returned : c.length = c.text.length
  short : c.written.length < kMaxNumericSize
  spelled : c.text = decimalText value.val
  minus : c.text.head? = some 45 ↔ value.val < 0
  noLeadingZero : (sign c.text).2.head? = some 48 → value.val = 0 ∧ c.text = bytes "0"
  readBack : readInteger c.text = value.val

/-- `digits` is mirrored at `zero`. -/
theorem digits_mirrored (k : Fin digits.length) :
    digits.get k = UInt8.ofNat (48 + (k.val - 9 : Int).natAbs) := by
  revert k
  decide

theorem lastDigit_eq (i : Int) : lastDigit i = UInt8.ofNat (48 + i.natAbs % 10) := by
  have bound : (i.tmod 10).natAbs = i.natAbs % 10 := Int.natAbs_tmod i 10
  rw [lastDigit, digits_mirrored]
  congr 2
  simp only
  omega

/-- The loop writes the digits of the absolute value backwards. -/
theorem convertLoop_eq (i : Value t) :
    convertLoop i = (toDecimalString i.val.natAbs).reverse := by
  induction i using convertLoop.induct with
  | case1 i ih =>
      have tenth : i.divTen.val.natAbs = i.val.natAbs / 10 := Int.natAbs_tdiv i.val 10
      rw [convertLoop, toDecimalString_step, List.reverse_append, List.reverse_singleton,
        lastDigit_eq, List.singleton_append]
      congr 1
      split
      · rw [if_pos (by omega), List.reverse_nil]
      · rename_i more
        rw [if_neg (by omega), ih more, tenth]

theorem convert_eq (value : Value t) :
    convert value = ⟨decimalText value.val ++ [0], (decimalText value.val).length⟩ := by
  have minus : (bytes "-").reverse = bytes "-" := by decide
  rw [convert, decimalText, convertLoop_eq]
  split
  · simp only [List.reverse_append, List.reverse_reverse, minus, List.length_append,
      List.length_reverse, Nat.add_comm]
  · simp only [List.reverse_reverse, List.nil_append, List.length_reverse]

theorem decimalText_neg {n : Int} (negative : n < 0) :
    decimalText n = 45 :: toDecimalString n.natAbs := by
  rw [decimalText, if_pos negative]
  rfl

theorem decimalText_nonneg {n : Int} (natural : 0 ≤ n) :
    decimalText n = toDecimalString n.natAbs := by
  rw [decimalText, if_neg (by omega), List.nil_append]

/-- The sign comes off, and the digits stay. -/
theorem sign_decimalText (n : Int) :
    sign (decimalText n) = (decide (n < 0), toDecimalString n.natAbs) := by
  rcases Int.lt_or_le n 0 with negative | natural
  · rw [decimalText_neg negative, decide_eq_true negative]
    rfl
  · obtain ⟨c, rest, spelled⟩ := List.exists_cons_of_ne_nil (toDecimalString_ne_nil n.natAbs)
    have digit : isdigit c = true := by
      apply isdigit_toDecimalString (n := n.natAbs)
      rw [spelled]
      exact List.mem_cons_self
    rw [decimalText_nonneg natural, decide_eq_false (by omega), spelled, sign_digit digit]

/-- Reading the text gives the number back. -/
theorem readInteger_decimalText (n : Int) : readInteger (decimalText n) = n := by
  simp only [readInteger, sign_decimalText, decide_eq_true_eq, decimal_toDecimalString]
  split <;> omega

theorem head_decimalText (n : Int) : (decimalText n).head? = some 45 ↔ n < 0 := by
  rcases Int.lt_or_le n 0 with negative | natural
  · rw [decimalText_neg negative]
    exact iff_of_true rfl negative
  · rw [decimalText_nonneg natural]
    refine iff_of_false ?_ (by omega)
    intro minus
    have digit := isdigit_toDecimalString 45 (List.mem_of_head? minus)
    revert digit
    decide

/-- Twenty digits and a sign are enough for 64 bits. -/
theorem Value.natAbs_lt (value : Value t) : value.val.natAbs < 10 ^ 20 := by
  have low := value.low
  have high := value.high
  have wide := IntType.two_pow_le t.atMost
  have narrower := IntType.two_pow_le (Nat.sub_le t.bits 1)
  rw [IntType.min] at low
  rw [IntType.max] at high
  split at low <;> split at high <;> omega

theorem length_decimalText (value : Value t) : (decimalText value.val).length ≤ 21 := by
  have few := toDecimalString_length_le (by decide) value.natAbs_lt
  rw [decimalText, List.length_append]
  split
  · have one : (bytes "-").length = 1 := by decide
    omega
  · rw [List.length_nil]
    omega

/-- Integer formatting is exact for every value of every type of up to 64 bits. -/
theorem convert_exact (value : Value t) : WritesDecimal value (convert value) := by
  have text : (convert value).text = decimalText value.val := by
    rw [Converted.text, convert_eq, List.take_left']
    rfl
  have written : (convert value).written = decimalText value.val ++ [0] := by
    rw [convert_eq]
  have bound := length_decimalText value
  refine ⟨?_, ?_, ?_, text, ?_, ?_, ?_⟩
  · rw [text, written]
  · rw [text, convert_eq]
  · rw [written, List.length_append, List.length_singleton, kMaxNumericSize]
    omega
  · rw [text]
    exact head_decimalText value.val
  · rw [text, sign_decimalText]
    intro zero
    have none_ : value.val = 0 := Int.natAbs_eq_zero.mp (toDecimalString_leading _ zero)
    rw [none_]
    exact ⟨rfl, by decide⟩
  · rw [text]
    exact readInteger_decimalText value.val

end Corio.LogStream
