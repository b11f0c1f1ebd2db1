import Corio.Coroutine.Framing
import Corio.Coroutine.HeaderMap
import Corio.Foundation.Number

/-! # Which length counts

Of several lengths the parser takes the first one, and of that what `std::stoul` makes of
its front. A peer that takes another one, or nothing but digits, sees another request.
-/

namespace Corio.Coroutine

open Find

/-- A length as a peer reads it that conforms to HTTP: digits and nothing else. -/
def plainNumber (value : Bytes) : Option Nat :=
  if value ≠ [] ∧ value.all isdigit then some (decimal value) else none

/-- The values of the `content-length` lines of the header block, all of them. -/
def lengths (buffer : Bytes) : List Bytes :=
  match find? [CR, LF] buffer, find? [CR, LF, CR, LF] buffer with
  | some firstLineEnd, some headerEnd =>
      (splitLines (textBetween buffer firstLineEnd headerEnd)).filterMap
        (fieldValue (bytes "content-length"))
  | _, _ => []

/-- Whichever of the lengths a peer reads, it is that of the body. -/
def Unambiguous (buffer : Bytes) (parsed : ParsedRequest) : Prop :=
  ∀ value ∈ lengths buffer, plainNumber value = some parsed.request.body.length

/-- All lengths are written in digits and are the same number, and the buffer holds that many
    bytes behind the header block. -/
def OneLength (buffer : Bytes) : Prop :=
  ∃ n, (∀ value ∈ lengths buffer, plainNumber value = some n) ∧
    ∀ headerEnd, find? [CR, LF, CR, LF] buffer = some headerEnd →
      headerEnd + 4 + n ≤ buffer.length

theorem numeral_digits {s : Bytes} (all : ∀ c ∈ s, isdigit c = true) : numeral s = s := by
  rw [numeral, unsigned, sign_digits all]
  exact List.takeWhile_eq_self_iff.mpr all

/-- What both read is the same number. -/
theorem stoul_plain {value : Bytes} {n m : Nat} (plain : plainNumber value = some n)
    (read : stoul value = some m) : m = n := by
  unfold plainNumber at plain
  split at plain
  · rename_i digits
    obtain ⟨nonempty, all⟩ := digits
    obtain rfl := Option.some.inj plain
    have fits := (stoul_isSome.mp (Option.isSome_of_eq_some read)).2
    rw [numeral_digits (List.all_eq_true.mp all)] at fits
    rw [stoul_digits nonempty (List.all_eq_true.mp all) fits] at read
    exact (Option.some.inj read).symm
  · cases plain

/-- The length that counts is the first one. -/
theorem announced_lengths (buffer : Bytes) (whole : (block? CR LF buffer).isSome) :
    announced buffer =
      match (lengths buffer).head? with
      | none => some 0
      | some value => stoul value := by
  obtain ⟨⟨ls, rest⟩, read⟩ := Option.isSome_iff_exists.mp whole
  obtain ⟨requestLine, fields, rfl⟩ := List.exists_cons_of_ne_nil (block?_some read).1
  obtain ⟨firstEnds, blockEnds⟩ := block_ends read
  have all : lengths buffer = fields.filterMap (valueFor (bytes "content-length")) := by
    rw [lengths, firstEnds, blockEnds]
    exact fieldValues_block read _
  have first : (fields.foldl emplaceLine Dict.empty).find? (bytes "content-length") =
      (lengths buffer).head? := by
    rw [find?_fields, Dict.find?_empty, Option.none_or, all, List.head?_filterMap]
  rw [announced, read, Option.bind_some, List.tail_cons, ← first]
  rfl

/-- No length of an accepted request can be read another way, if and only if all of them are
    the same number in digits. -/
theorem unambiguous_iff {buffer : Bytes} {parsed : ParsedRequest}
    (accepted : tryParseRequest buffer = some parsed) :
    Unambiguous buffer parsed ↔ OneLength buffer := by
  obtain ⟨headerEnd, length, ends, announces, -, -, -, body⟩ := tryParseRequest_some accepted
  have behind : headerEnd + 4 ≤ buffer.length := by
    obtain ⟨le, here⟩ := find?_some ends
    have long := here.length_le
    simp only [List.length_drop, List.length_cons, List.length_nil] at long
    omega
  have size : parsed.request.body.length = min length (buffer.length - (headerEnd + 4)) := by
    rw [body, substr, List.length_take, List.length_drop]
  constructor
  · intro plain
    refine ⟨parsed.request.body.length, plain, fun other found => ?_⟩
    obtain rfl := Option.some.inj (ends.symm.trans found)
    omega
  · rintro ⟨n, plain, fits⟩ value member
    have inside := fits headerEnd ends
    have whole : (block? CR LF buffer).isSome := by
      rw [find?_double_eq_block crlf_distinct] at ends
      obtain ⟨block, read, -⟩ := Option.map_eq_some_iff.mp ends
      exact Option.isSome_of_eq_some read
    have first := announced_lengths buffer whole
    obtain ⟨value', others, same⟩ := List.exists_cons_of_ne_nil (List.ne_nil_of_mem member)
    rw [announces, same, List.head?_cons] at first
    have lengthIs : length = n :=
      stoul_plain (plain value' (same ▸ List.mem_cons_self)) first.symm
    rw [plain value member, size, lengthIs]
    congr 1
    omega

theorem unambiguous_greeting : ∃ parsed, tryParseRequest greeting = some parsed ∧
    Unambiguous greeting parsed := by
  have some_ : (tryParseRequest greeting).isSome = true := by decide +kernel
  obtain ⟨parsed, accepted⟩ := Option.isSome_iff_exists.mp some_
  have values : lengths greeting = [bytes "2"] := by decide +kernel
  have ends : find? [CR, LF, CR, LF] greeting = some 34 := by decide +kernel
  refine ⟨parsed, accepted, (unambiguous_iff accepted).mpr ⟨2, ?_, ?_⟩⟩
  · rw [values]
    decide +kernel
  · intro headerEnd found
    obtain rfl := Option.some.inj (ends.symm.trans found)
    decide

/-- A request that another peer takes for one with a body of two bytes. -/
def twoLengths : Bytes :=
  bytes "POST / HTTP/1.1\r\nContent-Length: 5\r\nContent-Length: 2\r\n\r\nhello"

/-- A request that another peer refuses. -/
def suffixedLength : Bytes := bytes "POST / HTTP/1.1\r\nContent-Length: +5 bytes\r\n\r\nhello"

theorem lengths_ambiguous :
    (∃ parsed, tryParseRequest twoLengths = some parsed ∧ ¬ Unambiguous twoLengths parsed) ∧
      ∃ parsed, tryParseRequest suffixedLength = some parsed ∧
        ¬ Unambiguous suffixedLength parsed := by
  have first : (tryParseRequest twoLengths).map (·.request.body.length) = some 5 := by
    decide +kernel
  have second : (tryParseRequest suffixedLength).map (·.request.body.length) = some 5 := by
    decide +kernel
  obtain ⟨parsed, accepted, five⟩ := Option.map_eq_some_iff.mp first
  obtain ⟨parsed', accepted', -⟩ := Option.map_eq_some_iff.mp second
  have values : lengths twoLengths = [bytes "5", bytes "2"] := by decide +kernel
  have value : lengths suffixedLength = [bytes "+5 bytes"] := by decide +kernel
  refine ⟨⟨parsed, accepted, fun same => ?_⟩, parsed', accepted', fun same => ?_⟩
  · have two := same (bytes "2") (by simp [values])
    rw [five] at two
    exact absurd two (by decide +kernel)
  · have refused : plainNumber (bytes "+5 bytes") = none := by decide +kernel
    have read := same (bytes "+5 bytes") (by simp [value])
    rw [refused] at read
    cases read

end Corio.Coroutine
