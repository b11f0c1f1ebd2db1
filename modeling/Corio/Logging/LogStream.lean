import Corio.Foundation.Text

/-! # The stream behind `LOG`

`FixedBuffer`, `LogStream` and `Logger`. A buffer is what lies between `data_` and `cur_`,
with a record of where each write to it began and ended, inside `data_` or not. Sizes are
cast to `int` where the source casts them.
-/

namespace Corio.LogStream

/-- An integer type of at most 64 bits. -/
structure IntType where
  signed : Bool
  bits : Nat
  positive : 0 < bits
  atMost : bits ≤ 64

namespace IntType

def int : IntType := ⟨true, 32, by decide, by decide⟩

def min (t : IntType) : Int := if t.signed then -2 ^ (t.bits - 1) else 0

def max (t : IntType) : Int := if t.signed then 2 ^ (t.bits - 1) - 1 else 2 ^ t.bits - 1

/-- `short` and `unsigned short` are formatted as `int` and `unsigned int`. -/
def widened (t : IntType) : IntType := if t.bits < 32 then { int with signed := t.signed } else t

theorem min_le_zero (t : IntType) : t.min ≤ 0 := by
  rw [min]
  split
  · exact Int.neg_nonpos_of_nonneg (Int.pow_nonneg (by decide))
  · exact Int.le_refl 0

theorem zero_le_max (t : IntType) : 0 ≤ t.max := by
  rw [max]
  split
  · have := Int.pow_pos (n := 2) (m := t.bits - 1) (by decide)
    omega
  · have := Int.pow_pos (n := 2) (m := t.bits) (by decide)
    omega

theorem two_pow_le {m n : Nat} (le : m ≤ n) : (2 : Int) ^ m ≤ 2 ^ n := by
  exact_mod_cast Nat.pow_le_pow_right (by decide) le

/-- A wider type of the same signedness has every value. -/
theorem min_le_min {t u : IntType} (alike : t.signed = u.signed) (narrow : t.bits ≤ u.bits) :
    u.min ≤ t.min := by
  have := two_pow_le (Nat.sub_le_sub_right narrow 1)
  rw [min, min, alike]
  split
  · exact Int.neg_le_neg this
  · exact Int.le_refl 0

theorem max_le_max {t u : IntType} (alike : t.signed = u.signed) (narrow : t.bits ≤ u.bits) :
    t.max ≤ u.max := by
  have := two_pow_le narrow
  have := two_pow_le (Nat.sub_le_sub_right narrow 1)
  rw [max, max, alike]
  split <;> omega

theorem widened_wider (t : IntType) : t.signed = t.widened.signed ∧ t.bits ≤ t.widened.bits := by
  rw [widened]
  split
  · rename_i narrow
    exact ⟨rfl, Nat.le_of_lt narrow⟩
  · exact ⟨rfl, Nat.le_refl _⟩

end IntType

structure Value (t : IntType) where
  val : Int
  low : t.min ≤ val
  high : val ≤ t.max

namespace Value

variable {t : IntType}

/-- Division truncates towards zero, so it stays in the type. -/
def divTen (i : Value t) : Value t where
  val := i.val.tdiv 10
  low := by
    have := i.low
    have := t.min_le_zero
    have := Int.natAbs_tdiv_le_natAbs i.val 10
    rcases Int.le_total 0 i.val with natural | negative
    · have := Int.tdiv_nonneg natural (b := 10) (by decide)
      omega
    · omega
  high := by
    have := i.high
    have := t.zero_le_max
    have := Int.natAbs_tdiv_le_natAbs i.val 10
    rcases Int.le_total 0 i.val with natural | negative
    · omega
    · have := Int.tdiv_nonneg (Int.neg_nonneg_of_nonpos negative) (b := 10) (by decide)
      rw [Int.neg_tdiv] at this
      omega

/-- The cast in front of `formatInteger`. -/
def widened (v : Value t) : Value t.widened where
  val := v.val
  low := Int.le_trans (IntType.min_le_min t.widened_wider.1 t.widened_wider.2) v.low
  high := Int.le_trans v.high (IntType.max_le_max t.widened_wider.1 t.widened_wider.2)

end Value

def digits : Bytes := bytes "9876543210123456789"

/-- `zero` points into the middle of `digits`. -/
theorem zero_inside (i : Int) : (9 + i.tmod 10).toNat < digits.length := by
  have size : digits.length = 19 := by decide
  have bound : (i.tmod 10).natAbs = i.natAbs % 10 := Int.natAbs_tmod i 10
  omega

/-- `zero[lsd]`, where `lsd` is `i % 10` and has the sign of `i`. -/
def lastDigit (i : Int) : UInt8 := digits.get ⟨(9 + i.tmod 10).toNat, zero_inside i⟩

/-- What the loop of `convert` writes, the last digit first. -/
def convertLoop {t : IntType} (i : Value t) : Bytes :=
  lastDigit i.val :: if i.divTen.val = 0 then [] else convertLoop i.divTen
termination_by i.val.natAbs
decreasing_by
  have shrinks : i.divTen.val.natAbs = i.val.natAbs / 10 := Int.natAbs_tdiv i.val 10
  omega

/-- What `buf` begins with when `convert` returns, and what it returns. -/
structure Converted where
  written : Bytes
  length : Nat
  deriving DecidableEq, Repr

def convert {t : IntType} (value : Value t) : Converted :=
  let text := convertLoop value
  let text := if value.val < 0 then text ++ bytes "-" else text
  ⟨text.reverse ++ [0], text.length⟩

def kSmallBuffer : Nat := 4000

def kMaxNumericSize : Nat := 32

/-- The argument of the template: an array has a positive size, and it is an `int`. -/
abbrev Size := { SIZE : Nat // 0 < SIZE ∧ SIZE < 2 ^ 31 }

structure FixedBuffer (SIZE : Size) where
  /-- The bytes from `data_` to `cur_`. -/
  data : Bytes
  /-- Where each write began and ended, counted from `data_`. -/
  writes : List (Nat × Nat)
  deriving DecidableEq, Repr

namespace FixedBuffer

variable {SIZE : Size}

def empty (SIZE : Size) : FixedBuffer SIZE := ⟨[], []⟩

def length (b : FixedBuffer SIZE) : Int := toInt b.data.length

def avail (b : FixedBuffer SIZE) : Int := toInt (SIZE.val - b.data.length)

/-- Write at `cur_`, which then moves on by `len`. -/
def put (b : FixedBuffer SIZE) (written : Bytes) (len : Nat) : FixedBuffer SIZE where
  data := b.data ++ written.take len
  writes := b.writes ++ [(b.data.length, b.data.length + written.length)]

def append (b : FixedBuffer SIZE) (buf : Bytes) : FixedBuffer SIZE :=
  if b.avail > toInt buf.length then b.put buf buf.length else b

def formatInteger {t : IntType} (b : FixedBuffer SIZE) (v : Value t) : FixedBuffer SIZE :=
  if b.avail ≥ kMaxNumericSize then b.put (convert v).written (convert v).length else b

/-- `operator<<(double)` and `operator<<(long double)`, given what `snprintf` makes of the
    number. -/
def formatFloating (b : FixedBuffer SIZE) (text : Bytes) : FixedBuffer SIZE :=
  if b.avail ≥ kMaxNumericSize then b.put (text ++ [0]) text.length else b

end FixedBuffer

/-- What can stand behind `<<`. -/
inductive Insertion where
  | bool (v : Bool)
  | char (v : UInt8)
  | integer {t : IntType} (v : Value t)
  /-- A floating value by its text, which is short enough for the buffer of `snprintf`. -/
  | floating (text : { text : Bytes // text.length < kMaxNumericSize })
  /-- `const char*`, up to the first zero byte. -/
  | cString (str : Option Bytes)
  | string (v : Bytes)

def insert {SIZE : Size} (b : FixedBuffer SIZE) : Insertion → FixedBuffer SIZE
  | .bool v => b.append (if v then bytes "1" else bytes "0")
  | .char v => b.append [v]
  | .integer v => b.formatInteger v.widened
  | .floating text => b.formatFloating text
  | .cString (some str) => b.append str
  | .cString none => b.append (bytes "(null)")
  | .string v => b.append v

/-- What is in an empty buffer after these insertions. -/
def inserted (SIZE : Size) (values : List Insertion) : FixedBuffer SIZE :=
  values.foldl insert (.empty SIZE)

/-- What a `LOG` statement gives: the text of the time, the file and the line, and what is
    inserted. -/
structure LogStatement where
  /-- What `strftime` leaves in `str_t`. -/
  time : { str_t : Bytes // str_t.length < 26 }
  fileName : Bytes
  line : Value .int
  values : List Insertion

namespace LogStatement

def smallBuffer : Size := ⟨kSmallBuffer, by decide, by decide⟩

/-- Everything that is inserted up to the newline: by `formatTime`, by the statement and by
    the destructor. -/
def insertions (log : LogStatement) : List Insertion :=
  .cString (some log.time) :: log.values ++
    [.cString (some (bytes " -- ")), .string log.fileName, .char 58, .integer log.line]

/-- The buffer in front of the newline. -/
def beforeNewline (log : LogStatement) : FixedBuffer smallBuffer :=
  inserted smallBuffer log.insertions

/-- What the destructor passes to `output`. -/
def output (log : LogStatement) : Bytes :=
  let buf := insert log.beforeNewline (.char 10)
  buf.data.take buf.length.toNat

end LogStatement

end Corio.LogStream
