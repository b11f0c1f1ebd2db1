import Corio.Foundation.Text

/-! # Numbers that are still being received

`std::stoul` reads a number from the front of a text and ignores the rest. A text
is open when more bytes can make it readable: it ends before the first digit, or
the digits it has denote a number that still fits.
-/

namespace Corio

/-- What follows the blanks and the sign. -/
def unsigned (s : Bytes) : Bytes := (sign (s.dropWhile isspace)).2

/-- The digits `stoul` reads. -/
def numeral (s : Bytes) : Bytes := (unsigned s).takeWhile isdigit

def OpenNumber (s : Bytes) : Prop :=
  (unsigned s = [] ∨ numeral s ≠ []) ∧ decimal (numeral s) < 2 ^ 64

instance (s : Bytes) : Decidable (OpenNumber s) := by
  unfold OpenNumber
  infer_instance

/-- A decimal digit as a byte. -/
theorem digit_byte {c : Char} (digit : c.isDigit = true) :
    isdigit (UInt8.ofNat c.toNat) = true ∧ (UInt8.ofNat c.toNat).toNat = c.toNat := by
  obtain ⟨low, high⟩ := Char.isDigit_iff_toNat.mp digit
  simp only [Char.reduceToNat] at low high
  have small : (UInt8.ofNat c.toNat).toNat = c.toNat := by
    rw [UInt8.toNat_ofNat']
    omega
  refine ⟨?_, small⟩
  simp only [isdigit, Bool.and_eq_true, decide_eq_true_eq, UInt8.le_iff_toNat_le, small,
    UInt8.reduceToNat]
  omega

theorem toDigits_isDigit {n : Nat} : ∀ c ∈ Nat.toDigits 10 n, c.isDigit = true :=
  fun _ member => Nat.isDigit_of_mem_toDigits (by decide) (Nat.le_refl _) member

theorem toDecimalString_ne_nil (n : Nat) : toDecimalString n ≠ [] := by
  rw [toDecimalString, ne_eq, List.map_eq_nil_iff]
  exact Nat.toDigits_ne_nil

/-- The last digit stands behind the digits of a tenth. -/
theorem toDecimalString_step (n : Nat) :
    toDecimalString n =
      (if n < 10 then [] else toDecimalString (n / 10)) ++ [UInt8.ofNat (48 + n % 10)] := by
  have last (d : Fin 10) : UInt8.ofNat d.val.digitChar.toNat = UInt8.ofNat (48 + d) := by
    revert d
    decide
  have here := last ⟨n % 10, Nat.mod_lt n (by decide)⟩
  simp only at here
  rw [toDecimalString, Nat.toDigits_eq_if (by decide)]
  split
  · rename_i small
    rw [Nat.mod_eq_of_lt small] at here ⊢
    rw [List.map_singleton, here, List.nil_append]
  · rw [List.map_append, List.map_singleton, here]
    rfl

theorem toDecimalString_length_le {n k : Nat} (some_ : 0 < k) (small : n < 10 ^ k) :
    (toDecimalString n).length ≤ k := by
  rw [toDecimalString, List.length_map]
  exact (Nat.length_toDigits_le_iff (by decide) some_).mpr small

/-- Only zero begins with a zero. -/
theorem toDecimalString_leading (n : Nat) (zero : (toDecimalString n).head? = some 48) :
    n = 0 := by
  induction n using Nat.strongRecOn with
  | ind n ih =>
      rw [toDecimalString_step] at zero
      split at zero
      · rename_i small
        rw [List.nil_append, List.head?_singleton, Nat.mod_eq_of_lt small] at zero
        have same := congrArg UInt8.toNat (Option.some.inj zero)
        rw [UInt8.toNat_ofNat'] at same
        simp only [UInt8.reduceToNat] at same
        omega
      · rename_i large
        rw [List.head?_append_of_ne_nil _ (toDecimalString_ne_nil _)] at zero
        have := ih (n / 10) (by omega) zero
        omega

theorem isdigit_toDecimalString {n : Nat} : ∀ c ∈ toDecimalString n, isdigit c = true := by
  intro c member
  obtain ⟨digit, inside, rfl⟩ := List.mem_map.mp member
  exact (digit_byte (toDigits_isDigit digit inside)).1

/-- The digits of a number denote it. -/
theorem decimal_toDecimalString (n : Nat) : decimal (toDecimalString n) = n := by
  have same (digits : List Char) (all : ∀ c ∈ digits, c.isDigit = true) (start : Nat) :
      (digits.map fun c => UInt8.ofNat c.toNat).foldl (fun n c => 10 * n + (c.toNat - 48)) start =
        Nat.ofDigitChars 10 digits start := by
    induction digits generalizing start with
    | nil => rfl
    | cons c digits ih =>
        obtain ⟨digit, others⟩ := List.forall_mem_cons.mp all
        rw [List.map_cons, List.foldl_cons, ih others, (digit_byte digit).2,
          Nat.ofDigitChars_cons]
        rfl
  rw [decimal, toDecimalString, same _ toDigits_isDigit, Nat.ofDigitChars_ten_toDigits]

theorem stoul_isSome {s : Bytes} :
    (stoul s).isSome ↔ numeral s ≠ [] ∧ decimal (numeral s) < 2 ^ 64 := by
  simp only [stoul, numeral, unsigned]
  split
  · rename_i missing
    simp [missing]
  · rename_i present
    split
    · rename_i large
      exact iff_of_false (by simp) fun both => absurd both.2 (Nat.not_lt.mpr large)
    · rename_i small
      exact iff_of_true rfl ⟨present, Nat.not_le.mp small⟩

theorem sign_append {s : Bytes} (nonempty : s ≠ []) (t : Bytes) :
    sign (s ++ t) = ((sign s).1, (sign s).2 ++ t) := by
  obtain ⟨c, rest, rfl⟩ := List.exists_cons_of_ne_nil nonempty
  by_cases minus : c = 45
  · subst c
    rfl
  · by_cases plus : c = 43
    · subst c
      rfl
    · have same (rest : Bytes) : sign (c :: rest) = (false, c :: rest) := by
        unfold sign
        split
        · rename_i spelled
          exact absurd (List.cons.inj spelled).1 minus
        · rename_i spelled
          exact absurd (List.cons.inj spelled).1 plus
        · rfl
      rw [List.cons_append, same, same, List.cons_append]

/-- Behind something that is not blank, appending is harmless. -/
theorem unsigned_append {s : Bytes} (nonblank : s.dropWhile isspace ≠ []) (t : Bytes) :
    unsigned (s ++ t) = unsigned s ++ t := by
  have dropped : (s ++ t).dropWhile isspace = s.dropWhile isspace ++ t := by
    rw [List.dropWhile_append, if_neg]
    simpa using nonblank
  rw [unsigned, dropped, sign_append nonblank]
  rfl

/-- Appending behind blanks only is starting afresh. -/
theorem unsigned_blank {s : Bytes} (blank : s.dropWhile isspace = []) (t : Bytes) :
    unsigned (s ++ t) = unsigned t := by
  have all : ∀ c ∈ s, isspace c = true := List.dropWhile_eq_nil_iff.mp blank
  rw [unsigned, List.dropWhile_append_of_pos all, unsigned]

theorem unsigned_of_blank {s : Bytes} (blank : s.dropWhile isspace = []) : unsigned s = [] := by
  rw [unsigned, blank]
  rfl

theorem isdigit_of_isspace {c : UInt8} (blank : isspace c = true) : isdigit c = false := by
  cases digit : isdigit c with
  | false => rfl
  | true =>
      rw [isspace_of_isdigit digit] at blank
      cases blank

/-- A run of digits is not prolonged by something else. -/
theorem takeWhile_isdigit_append (s : Bytes) {t : Bytes} (stop : t.takeWhile isdigit = []) :
    (s ++ t).takeWhile isdigit = s.takeWhile isdigit := by
  induction s with
  | nil => exact stop
  | cons c s ih =>
      simp only [List.cons_append, List.takeWhile_cons, ih]

theorem takeWhile_prefix_append (s t : Bytes) :
    s.takeWhile isdigit <+: (s ++ t).takeWhile isdigit := by
  induction s with
  | nil => exact List.nil_prefix
  | cons c s ih =>
      simp only [List.cons_append, List.takeWhile_cons]
      split
      · exact List.cons_prefix_cons.mpr ⟨rfl, ih⟩
      · exact List.nil_prefix

/-- Blanks at the end are not read. -/
theorem numeral_append_blank (s : Bytes) {t : Bytes} (blank : ∀ c ∈ t, isspace c = true) :
    numeral (s ++ t) = numeral s := by
  have noDigit : t.takeWhile isdigit = [] := by
    cases t with
    | nil => rfl
    | cons c t =>
        have stops := isdigit_of_isspace (blank c List.mem_cons_self)
        simp only [List.takeWhile_cons, stops, Bool.false_eq_true, if_false]
  by_cases onlyBlank : s.dropWhile isspace = []
  · have none_ : unsigned t = [] := unsigned_of_blank (List.dropWhile_eq_nil_iff.mpr blank)
    rw [numeral, unsigned_blank onlyBlank, none_, numeral, unsigned_of_blank onlyBlank]
  · rw [numeral, unsigned_append onlyBlank, takeWhile_isdigit_append _ noDigit, numeral]

/-- Blanks at the front are not read either. -/
theorem numeral_dropWhile (s : Bytes) : numeral (s.dropWhile isspace) = numeral s := by
  simp only [numeral, unsigned, List.dropWhile_idempotent]

/-- A readable text was open before its last bytes arrived. -/
theorem openNumber_of_stoul {s t : Bytes} (read : (stoul (s ++ t)).isSome) : OpenNumber s := by
  obtain ⟨digits, fits⟩ := stoul_isSome.mp read
  by_cases blank : s.dropWhile isspace = []
  · rw [OpenNumber, numeral, unsigned_of_blank blank]
    exact ⟨.inl rfl, by decide⟩
  · rw [numeral, unsigned_append blank] at digits fits
    refine ⟨?_, ?_⟩
    · cases started : unsigned s with
      | nil => exact .inl rfl
      | cons c rest =>
          refine .inr ?_
          rw [started, List.cons_append, List.takeWhile_cons] at digits
          rw [numeral, started, List.takeWhile_cons]
          split
          · exact List.cons_ne_nil _ _
          · rename_i notDigit
            rw [if_neg notDigit] at digits
            exact absurd rfl digits
    · obtain ⟨more, longer⟩ := takeWhile_prefix_append (unsigned s) t
      rw [← longer] at fits
      exact Nat.lt_of_le_of_lt (decimal_le_append _ _) fits

/-- An open text becomes readable with one more byte: a zero where no digit has come
    yet, and anything else behind digits. -/
theorem OpenNumber.close {s : Bytes} (isOpen : OpenNumber s) :
    (stoul (s ++ bytes "0")).isSome ∨ (stoul (s ++ bytes "x")).isSome := by
  obtain ⟨started, fits⟩ := isOpen
  rcases started with nothing | digits
  · refine .inl (stoul_isSome.mpr ?_)
    have zero : unsigned (s ++ bytes "0") = bytes "0" := by
      by_cases blank : s.dropWhile isspace = []
      · rw [unsigned_blank blank]
        decide
      · rw [unsigned_append blank, nothing, List.nil_append]
    rw [numeral, zero]
    exact ⟨by decide, by decide⟩
  · refine .inr (stoul_isSome.mpr ?_)
    have nonblank : s.dropWhile isspace ≠ [] := by
      intro blank
      rw [numeral, unsigned_of_blank blank] at digits
      exact digits rfl
    rw [numeral, unsigned_append nonblank, takeWhile_isdigit_append _ (by decide)]
    exact ⟨digits, fits⟩

end Corio
