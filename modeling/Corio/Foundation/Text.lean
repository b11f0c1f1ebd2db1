import Mathlib.Algebra.Ring.Int.Defs
import Mathlib.Algebra.Ring.Nat
import Mathlib.Data.List.DropRight

/-! # Byte strings and the text functions of the C and C++ libraries

`std::string` is a list of bytes. Character classes are those of the "C" locale.
Offsets and sizes are `size_t`, so additions that can leave 64 bits go through
`wrap64`.
-/

namespace Corio

abbrev Bytes := List UInt8

/-- The bytes of a string literal in a UTF-8 source file. -/
def bytes (literal : String) : Bytes := literal.toUTF8.data.toList

/-- Arithmetic of a 64-bit unsigned type. -/
def wrap64 (n : Nat) : Nat := n % 2 ^ 64

/-- `std::string::npos`. -/
def npos : Nat := 2 ^ 64 - 1

/-- `s.substr(pos, n)` for `pos <= s.size()`. -/
def substr (s : Bytes) (pos n : Nat) : Bytes := (s.drop pos).take n

def isspace (c : UInt8) : Bool := c == 32 || (9 ≤ c && c ≤ 13)

def isdigit (c : UInt8) : Bool := 48 ≤ c && c ≤ 57

def tolower (c : UInt8) : UInt8 := if 65 ≤ c && c ≤ 90 then c + 32 else c

/-- The number a run of decimal digits denotes. -/
def decimal (digits : Bytes) : Nat := digits.foldl (fun n c => 10 * n + (c.toNat - 48)) 0

/-- `std::to_string` on an unsigned value. -/
def toDecimalString (n : Nat) : Bytes := (Nat.toDigits 10 n).map fun c => UInt8.ofNat c.toNat

/-- The optional sign `strtoul` reads before the digits, and what follows it. -/
def sign (s : Bytes) : Bool × Bytes :=
  match s with
  | 45 :: rest => (true, rest)
  | 43 :: rest => (false, rest)
  | rest => (false, rest)

/-- `std::stoul` in base ten: leading blanks, an optional sign, then the longest
    run of digits. `none` is the exception, `std::invalid_argument` without a
    digit and `std::out_of_range` past 64 bits. A minus sign negates modulo 2^64. -/
def stoul (s : Bytes) : Option Nat :=
  let signed := sign (s.dropWhile isspace)
  let digits := signed.2.takeWhile isdigit
  if digits = [] then none
  else if 2 ^ 64 ≤ decimal digits then none
  else some (if signed.1 then wrap64 (2 ^ 64 - decimal digits) else decimal digits)

/-- A wider integer stored in an `int`. -/
def toInt (n : Int) : Int := (BitVec.ofInt 32 n).toInt

/-- An `int` used as a `size_t`. -/
def toSize (i : Int) : Nat := (BitVec.ofInt 64 i).toNat

/-- The difference of two `size_t`. -/
def sub64 (a b : Nat) : Nat := toSize (a - b)

/-- `std::stoi` in base ten; `none` is the exception. -/
def stoi (s : Bytes) : Option Int :=
  let signed := sign (s.dropWhile isspace)
  let digits := signed.2.takeWhile isdigit
  let value : Int := if signed.1 then - decimal digits else decimal digits
  if digits = [] then none
  else if value < - 2 ^ 31 ∨ 2 ^ 31 ≤ value then none
  else some value

/-- Small sizes fit. -/
theorem toInt_small {n : Nat} (small : n < 2 ^ 31) : toInt n = n := by
  rw [toInt, BitVec.toInt_ofInt, Int.bmod_eq_of_le] <;> omega

theorem toInt_npos : toInt npos = -1 := by decide

theorem toInt_nat (n : Nat) :
    toInt n = if n % 2 ^ 32 < 2 ^ 31 then (n % 2 ^ 32 : Int) else n % 2 ^ 32 - 2 ^ 32 := by
  rw [toInt, BitVec.toInt_ofInt, Int.bmod_def]
  split <;> split <;> omega

theorem toInt_le (n : Nat) : toInt n ≤ n := by
  rw [toInt_nat]
  split <;> omega

theorem toInt_lt (n : Int) : toInt n < 2 ^ 31 := by
  rw [toInt, BitVec.toInt_ofInt]
  exact Int.bmod_lt (by decide)

theorem toSize_nat {n : Nat} (small : n < 2 ^ 64) : toSize n = n := by
  rw [toSize, BitVec.toNat_ofInt]
  omega

theorem sub64_of_le {a b : Nat} (le : b ≤ a) (small : a < 2 ^ 64) : sub64 a b = a - b := by
  rw [sub64, ← Int.ofNat_sub le, toSize_nat (by omega)]

/-- The difference to `npos` wraps around. -/
theorem sub64_npos {n : Nat} (short : n < npos) : sub64 n npos = n + 1 := by
  rw [npos] at short
  rw [sub64, toSize, BitVec.toNat_ofInt, npos]
  omega

theorem stoul_lt {s : Bytes} {n : Nat} (read : stoul s = some n) : n < 2 ^ 64 := by
  simp only [stoul] at read
  split at read
  · cases read
  · split at read
    · cases read
    · obtain rfl := Option.some.inj read
      split
      · exact Nat.mod_lt _ (by decide)
      · omega

theorem decimal_foldl (digits : Bytes) (n : Nat) :
    n ≤ digits.foldl (fun n c => 10 * n + (c.toNat - 48)) n := by
  induction digits generalizing n with
  | nil => exact Nat.le_refl n
  | cons c digits ih => exact Nat.le_trans (by omega) (ih (10 * n + (c.toNat - 48)))

/-- More digits never denote a smaller number. -/
theorem decimal_le_append (front back : Bytes) : decimal front ≤ decimal (front ++ back) := by
  simp only [decimal, List.foldl_append]
  exact decimal_foldl back _

theorem isspace_of_isdigit {c : UInt8} (h : isdigit c = true) : isspace c = false := by
  simp only [isdigit, Bool.and_eq_true, decide_eq_true_eq, isspace, Bool.or_eq_false_iff,
    Bool.and_eq_false_iff, beq_eq_false_iff_ne, decide_eq_false_iff_not, UInt8.le_iff_toNat_le,
    ne_eq, ← UInt8.toNat_inj, UInt8.reduceToNat] at h ⊢
  omega

theorem sign_digit {c : UInt8} (digit : isdigit c = true) (rest : Bytes) :
    sign (c :: rest) = (false, c :: rest) := by
  simp only [isdigit, Bool.and_eq_true, decide_eq_true_eq] at digit
  unfold sign
  split
  · rename_i same
    obtain ⟨rfl, -⟩ := List.cons.inj same
    exact absurd digit.1 (by decide)
  · rename_i same
    obtain ⟨rfl, -⟩ := List.cons.inj same
    exact absurd digit.1 (by decide)
  · rfl

/-- Digits stand behind no blank and no sign. -/
theorem sign_digits {s : Bytes} (all : ∀ c ∈ s, isdigit c = true) :
    sign (s.dropWhile isspace) = (false, s) := by
  cases s with
  | nil => rfl
  | cons c rest =>
      have digit : isdigit c = true := all c List.mem_cons_self
      rw [List.dropWhile_cons, isspace_of_isdigit digit, if_neg Bool.false_ne_true,
        sign_digit digit]

/-- A string of digits reads as the number it denotes. -/
theorem stoul_digits {s : Bytes} (nonempty : s ≠ []) (all : ∀ c ∈ s, isdigit c = true)
    (fits : decimal s < 2 ^ 64) : stoul s = some (decimal s) := by
  have whole : s.takeWhile isdigit = s := List.takeWhile_eq_self_iff.mpr all
  simp only [stoul, sign_digits all, whole, if_neg nonempty, if_neg (Nat.not_le.mpr fits),
    Bool.false_eq_true, if_false]

theorem stoi_digits {s : Bytes} (nonempty : s ≠ []) (all : ∀ c ∈ s, isdigit c = true)
    (fits : decimal s < 2 ^ 31) : stoi s = some (decimal s : Int) := by
  have whole : s.takeWhile isdigit = s := List.takeWhile_eq_self_iff.mpr all
  simp only [stoi, sign_digits all, whole, if_neg nonempty, Bool.false_eq_true, if_false]
  rw [if_neg (by omega)]

end Corio
