import Corio.Coroutine.Lines
import Corio.Foundation.Number

/-! # Buffers that can still become a request

`read_request` takes `nullopt` for "incomplete" and goes on receiving. Some
buffers never become a request: their request line has ended without three
tokens, or the `content-length` that counts can no longer be read as a number.
Every other buffer has a continuation.
-/

namespace Corio.Coroutine

open Find

def contentLength : Bytes := bytes "content-length"

/-- The value so far of a `content-length` line that has not ended. -/
def unfinishedLength (line : Bytes) : Option Bytes :=
  match find? [58] line with
  | none => none
  | some colon =>
      if contentLength = toLower (trim (line.take colon)) then some (line.drop (colon + 1))
      else none

/-- The first `content-length` among these lines is a number or can become one. -/
def LengthViable (fields : List Bytes) (unfinished : Bytes) : Prop :=
  match fields.findSome? (valueFor contentLength) with
  | some value => (stoul value).isSome
  | none => ∀ value, unfinishedLength unfinished = some value → OpenNumber value

/-- The lines of the header block and, as long as that is not complete, the
    unfinished one. -/
def headLines (buffer : Bytes) : List Bytes × Bytes :=
  match block? CR LF buffer with
  | some (ls, _) => (ls, [])
  | none => lines CR LF buffer

/-- The buffer is the beginning of something the parser accepts. -/
def Viable (buffer : Bytes) : Prop :=
  match headLines buffer with
  | ([], _) => True
  | (requestLine :: fields, unfinished) =>
      ThreeTokens requestLine ∧ LengthViable fields unfinished

/-- Only the digits count, and trimming keeps them. -/
theorem stoul_trim_isSome (value : Bytes) : (stoul (trim value)).isSome ↔ (stoul value).isSome := by
  have same : numeral (trim value) = numeral value := by
    rw [← numeral_dropWhile value]
    have parts : trim value ++ (value.dropWhile isspace).rtakeWhile isspace =
        value.dropWhile isspace := List.rdropWhile_append_rtakeWhile
    rw [← parts]
    exact (numeral_append_blank _ fun c member => List.mem_rtakeWhile_imp member).symm
  simp only [stoul_isSome, same]

/-- The length header of the block, by its lines. -/
theorem bodyLength_isSome {fields : List Bytes} :
    (bodyLength (fields.foldl emplaceLine Dict.empty)).isSome ↔
      ∀ value, fields.findSome? (valueFor contentLength) = some value → (stoul value).isSome := by
  have found := find?_fields Dict.empty fields contentLength
  rw [Dict.find?_empty, Option.none_or] at found
  simp only [bodyLength, show bytes "content-length" = contentLength from rfl, found]
  cases fields.findSome? (valueFor contentLength) with
  | none => simp
  | some value => simp

theorem valueFor_colon {name : Bytes} (noColon : (58 : UInt8) ∉ name) (key value : Bytes) :
    valueFor key (name ++ 58 :: value) =
      if key = toLower (trim name) then some (trim value) else none := by
  simp only [valueFor, headerField_colon noColon]

theorem valueFor_noColon {line : Bytes} (noColon : (58 : UInt8) ∉ line) (key : Bytes) :
    valueFor key line = none := by
  simp only [valueFor, headerField_none noColon]

theorem unfinishedLength_colon {name : Bytes} (noColon : (58 : UInt8) ∉ name) (value : Bytes) :
    unfinishedLength (name ++ 58 :: value) =
      if contentLength = toLower (trim name) then some value else none := by
  have behind : (name ++ 58 :: value).drop (name.length + 1) = value := by
    rw [← List.drop_drop, List.drop_left]
    rfl
  simp only [unfinishedLength, find?_symbol noColon, List.take_left, behind]

/-- A request needs a complete block with a readable head. -/
theorem head_of_parse {buffer : Bytes} (accepted : tryParseRequest buffer ≠ none) :
    ∃ requestLine fields rest, block? CR LF buffer = some (requestLine :: fields, rest) ∧
      ThreeTokens requestLine ∧
      ∀ value, fields.findSome? (valueFor contentLength) = some value → (stoul value).isSome := by
  cases block : block? CR LF buffer with
  | none => exact absurd (tryParseRequest_incomplete block) accepted
  | some r =>
      obtain ⟨ls, rest⟩ := r
      obtain ⟨requestLine, fields, rfl⟩ := List.exists_cons_of_ne_nil (block?_some block).1
      rw [tryParseRequest_eq block] at accepted
      have head : (readHead requestLine fields).isSome := by
        cases read : readHead requestLine fields with
        | none => rw [read] at accepted; exact absurd rfl accepted
        | some head => rfl
      obtain ⟨three, length⟩ := readHead_isSome.mp head
      exact ⟨requestLine, fields, rest, rfl, three, bodyLength_isSome.mp length⟩

/-- With a readable head, enough further bytes make any buffer a request. -/
theorem parse_of_head {buffer rest requestLine : Bytes} {fields : List Bytes}
    (block : block? CR LF buffer = some (requestLine :: fields, rest))
    (three : ThreeTokens requestLine)
    (length : ∀ value, fields.findSome? (valueFor contentLength) = some value →
      (stoul value).isSome) :
    ∃ s, tryParseRequest (buffer ++ s) ≠ none := by
  have head : (readHead requestLine fields).isSome :=
    readHead_isSome.mpr ⟨three, bodyLength_isSome.mpr length⟩
  obtain ⟨head, read⟩ := Option.isSome_iff_exists.mp head
  refine ⟨List.replicate (2 ^ 64) 0, ?_⟩
  have long : ¬ (buffer ++ List.replicate (2 ^ 64) 0).length <
      wrap64 (bodyBegin requestLine fields + head.length) := by
    have := Nat.mod_lt (bodyBegin requestLine fields + head.length) (Nat.two_pow_pos 64)
    simp only [List.length_append, List.length_replicate, wrap64]
    omega
  rw [tryParseRequest_eq (block?_append block _), read, Option.bind_some]
  simp only [long, if_false]
  exact Option.some_ne_none _

theorem token_nonempty {s : Bytes} (word : ∃ c ∈ s, c ≠ 32) : (token s).1 ≠ [] := by
  obtain ⟨c, member, notSpace⟩ := word
  have starts : s.dropWhile (· == 32) ≠ [] := by
    intro blank
    have := List.dropWhile_eq_nil_iff.mp blank c member
    exact notSpace (by simpa using this)
  have head := List.head_dropWhile_not (· == 32) starts
  obtain ⟨x, rest, same⟩ := List.exists_cons_of_ne_nil starts
  simp only [same, List.head_cons] at head
  have keeps : (x != 32) = true := by simpa using head
  simp only [token, same, List.takeWhile_cons, keeps, if_true]
  exact List.cons_ne_nil _ _

/-- A token in front of a space is taken there or behind the space. -/
theorem token_append (u t : Bytes) :
    (∃ left, (token (u ++ 32 :: t)).2 = left ++ 32 :: t) ∨ token (u ++ 32 :: t) = token t := by
  by_cases blank : ∀ c ∈ u, (c == 32) = true
  · refine .inr ?_
    simp only [token, List.dropWhile_append_of_pos blank]
    rfl
  · refine .inl ?_
    have starts : u.dropWhile (· == 32) ≠ [] := fun all =>
      blank (List.dropWhile_eq_nil_iff.mp all)
    have dropped : (u ++ 32 :: t).dropWhile (· == 32) = u.dropWhile (· == 32) ++ 32 :: t := by
      rw [List.dropWhile_append, if_neg]
      simpa using starts
    simp only [token, dropped]
    rw [List.dropWhile_append]
    split
    · exact ⟨[], rfl⟩
    · exact ⟨_, rfl⟩

/-- Three words behind anything are three tokens at least. -/
theorem threeTokens_append (u : Bytes) : ThreeTokens (u ++ bytes " x x x") := by
  have spelled : bytes " x x x" = 32 :: bytes "x x x" := by decide
  have more (u : Bytes) (t : Bytes) (word : ∃ c ∈ t, c ≠ 32) : (token (u ++ 32 :: t)).1 ≠ [] := by
    obtain ⟨c, member, notSpace⟩ := word
    exact token_nonempty ⟨c, by simp [member], notSpace⟩
  have words : ∃ c ∈ bytes "x x x", c ≠ 32 := ⟨120, by decide, by decide⟩
  have first : token (bytes "x x x") = (bytes "x", bytes " x x") := by decide
  have second : token (bytes " x x") = (bytes "x", bytes " x") := by decide
  have third : token (bytes " x") = (bytes "x", []) := by decide
  have one : bytes "x" ≠ [] := by decide
  refine ⟨?_, ?_, ?_⟩
  · rw [spelled]
    exact more u _ words
  · simp only [tokens, spelled]
    rcases token_append u (bytes "x x x") with ⟨left, same⟩ | same
    · rw [same]
      exact more left _ words
    · rw [same, first, second]
      exact one
  · simp only [tokens, spelled]
    rcases token_append u (bytes "x x x") with ⟨left, same⟩ | same
    · rw [same]
      rcases token_append left (bytes "x x x") with ⟨left', same'⟩ | same'
      · rw [same']
        exact more left' _ words
      · rw [same', first, second]
        exact one
    · rw [same, first, second, third]
      exact one

/-- A line that has not ended can be prolonged without ending it. -/
theorem free_append {u : Bytes} (more : Bytes) (free : ¬ [CR, LF] <:+: u) (noLF : LF ∉ more) :
    ¬ [CR, LF] <:+: u ++ more := by
  rintro ⟨front, back, same⟩
  rw [List.append_assoc] at same
  rcases List.append_eq_append_iff.mp same with ⟨middle, rfl, tail⟩ | ⟨middle, rfl, tail⟩
  · cases middle with
    | nil =>
        rw [List.nil_append] at tail
        exact noLF (tail ▸ by simp)
    | cons c middle =>
        obtain ⟨-, tail⟩ := List.cons.inj tail
        cases middle with
        | nil => exact noLF (by rw [← show [LF] ++ back = more from tail]; simp)
        | cons d middle =>
            obtain ⟨rfl, -⟩ := List.cons.inj tail
            exact free ⟨front, middle, by simp_all⟩
  · exact noLF (by rw [tail]; simp)

/-- A line begun in the buffer is ended by what follows, or its last symbol is
    already part of the separator. -/
theorem prefix_of_unfinished {u s line later : Bytes} (free : ¬ [CR, LF] <:+: u)
    (same : u ++ s = line ++ [CR, LF] ++ later) : u <+: line ++ [CR] := by
  have inside : u <+: line ++ [CR, LF] ++ later := ⟨s, same⟩
  by_cases long : (line ++ [CR, LF]).length ≤ u.length
  · obtain ⟨more, rfl⟩ := List.prefix_of_prefix_length_le (List.prefix_append _ later) inside long
    exact absurd ⟨line, more, rfl⟩ free
  · have whole : line ++ [CR, LF] ++ later = line ++ [CR] ++ ([LF] ++ later) := by simp
    rw [whole] at inside
    refine List.prefix_of_prefix_length_le inside (List.prefix_append _ _) ?_
    simp only [List.length_append, List.length_cons, List.length_nil] at long ⊢
    omega

/-- The unfinished value was open if the finished one can be read. -/
theorem openNumber_of_line {u line value : Bytes} (begun : u <+: line ++ [CR])
    (unfinished : unfinishedLength u = some value)
    (length : ∀ v, valueFor contentLength line = some v → (stoul v).isSome) : OpenNumber value := by
  rcases colon_cases u with noColon | ⟨name, v, rfl, noColon⟩
  · have absent : find? [58] u = none := find?_none_iff.mpr fun ⟨front, back, same⟩ =>
      noColon (same ▸ by simp)
    simp only [unfinishedLength, absent] at unfinished
    cases unfinished
  · rw [unfinishedLength_colon noColon] at unfinished
    split at unfinished
    · rename_i key
      obtain rfl := Option.some.inj unfinished
      obtain ⟨more, same⟩ := begun
      -- The finished line without the last symbol of `value ++ more`.
      have nonempty : v ++ more ≠ [] := by
        intro empty
        have last := congrArg List.getLast? same
        obtain ⟨rfl, rfl⟩ := List.append_eq_nil_iff.mp empty
        simp [CR] at last
      obtain ⟨v', c, split⟩ : ∃ v' c, v ++ more = v' ++ [c] :=
        ⟨_, _, (List.dropLast_concat_getLast nonempty).symm⟩
      have both : (name ++ 58 :: v') ++ [c] = line ++ [CR] := by
        rw [← same]
        simp [split]
      obtain ⟨rfl, sameLast⟩ := List.append_inj' both rfl
      obtain rfl := (List.cons.inj sameLast).1
      have read := length (trim v') (by rw [valueFor_colon noColon, if_pos key])
      refine openNumber_of_stoul (t := more) ?_
      have blank : ∀ x ∈ [CR], isspace x = true := List.all_eq_true.mp rfl
      rw [split, stoul_isSome, numeral_append_blank _ blank, ← stoul_isSome]
      exact (stoul_trim_isSome v').mp read
    · cases unfinished

theorem viable_of_parse {buffer s : Bytes} (accepted : tryParseRequest (buffer ++ s) ≠ none) :
    Viable buffer := by
  obtain ⟨requestLine, fields, rest, block, three, length⟩ := head_of_parse accepted
  unfold Viable headLines
  cases whole : block? CR LF buffer with
  | some r =>
      obtain ⟨ls, body⟩ := r
      obtain ⟨rfl, -⟩ := Prod.mk.inj (Option.some.inj ((block?_append whole s).symm.trans block))
      refine ⟨three, ?_⟩
      unfold LengthViable
      split
      · rename_i value found
        exact length value found
      · intro value impossible
        cases impossible
  | none =>
      obtain ⟨parts, free, unfinishedFree⟩ := lines_whole (c := CR) (d := LF) buffer
      cases read : lines CR LF buffer with
      | mk ls u =>
          rw [read] at parts free unfinishedFree
          cases ls with
          | nil => trivial
          | cons first others =>
              have nonblank := lines_of_block?_none whole read
              obtain ⟨firstFree, othersFree⟩ := List.forall_mem_cons.mp free
              rw [parts, List.append_assoc, block?_unlines_append crlf_distinct firstFree
                fun line member => ⟨nonblank line member, othersFree line member⟩] at block
              simp only at unfinishedFree
              split at block
              · -- The buffer ends inside the blank line.
                rename_i blank
                obtain ⟨same, -⟩ := Prod.mk.inj (Option.some.inj block)
                obtain ⟨rfl, rfl⟩ := List.cons.inj same
                refine ⟨three, ?_⟩
                unfold LengthViable
                split
                · rename_i value found
                  exact length value found
                · intro value unfinished
                  obtain ⟨later, tail⟩ := blank
                  have ended : u ++ s = [] ++ [CR, LF] ++ later := by rw [← tail]; rfl
                  have begun := prefix_of_unfinished unfinishedFree ended
                  exact openNumber_of_line begun unfinished (by simp [valueFor, headerField, find?])
              · obtain ⟨⟨more, rest'⟩, later, same⟩ := Option.map_eq_some_iff.mp block
                obtain ⟨sameLines, -⟩ := Prod.mk.inj same
                rw [List.cons_append] at sameLines
                obtain ⟨rfl, rfl⟩ := List.cons.inj sameLines
                refine ⟨three, ?_⟩
                unfold LengthViable
                split
                · rename_i value found
                  exact length value (by rw [List.findSome?_append, found, Option.some_or])
                · rename_i notFound
                  intro value unfinished
                  obtain ⟨line, more, rfl⟩ := List.exists_cons_of_ne_nil (block?_some later).1
                  obtain ⟨tail, cut, -⟩ := block?_first later
                  refine openNumber_of_line
                    (prefix_of_unfinished unfinishedFree (cut?_some cut).1) unfinished ?_
                  intro v here
                  refine length v ?_
                  rw [List.findSome?_append, notFound, Option.none_or, List.findSome?_cons, here]

/-- One more byte ends an unfinished header line well. -/
theorem finish_fields {fields : List Bytes} {u : Bytes} (viable : LengthViable fields u) :
    ∃ c, c ≠ LF ∧ ∀ value,
      (fields ++ [u ++ [c]]).findSome? (valueFor contentLength) = some value →
        (stoul value).isSome := by
  have notLF : (120 : UInt8) ≠ LF := by decide
  have zeroNotLF : (48 : UInt8) ≠ LF := by decide
  unfold LengthViable at viable
  split at viable
  · rename_i value found
    refine ⟨120, notLF, fun v later => ?_⟩
    rw [List.findSome?_append, found, Option.some_or] at later
    obtain rfl := Option.some.inj later
    exact viable
  · rename_i notFound
    have only (c : UInt8) : (fields ++ [u ++ [c]]).findSome? (valueFor contentLength) =
        valueFor contentLength (u ++ [c]) := by
      rw [List.findSome?_append, notFound, Option.none_or, List.findSome?_singleton]
    simp only [only]
    rcases colon_cases u with noColon | ⟨name, v, rfl, noColon⟩
    · refine ⟨120, notLF, fun value given => ?_⟩
      rw [valueFor_noColon (by simp [noColon])] at given
      cases given
    · simp only [List.append_assoc, List.cons_append, valueFor_colon noColon]
      by_cases key : contentLength = toLower (trim name)
      · have isOpen := viable v (by rw [unfinishedLength_colon noColon, if_pos key])
        simp only [key, if_true, Option.some.injEq, forall_eq', stoul_trim_isSome]
        rcases isOpen.close with zero | other
        · exact ⟨48, zeroNotLF, zero⟩
        · exact ⟨120, notLF, other⟩
      · exact ⟨120, notLF, by simp [key]⟩

theorem parse_of_viable {buffer : Bytes} (viable : Viable buffer) :
    ∃ s, tryParseRequest (buffer ++ s) ≠ none := by
  -- It is enough to complete the header block.
  have finish {t rest requestLine : Bytes} {fields : List Bytes}
      (block : block? CR LF (buffer ++ t) = some (requestLine :: fields, rest))
      (three : ThreeTokens requestLine)
      (length : ∀ value, fields.findSome? (valueFor contentLength) = some value →
        (stoul value).isSome) : ∃ s, tryParseRequest (buffer ++ s) ≠ none := by
    obtain ⟨s, accepted⟩ := parse_of_head block three length
    exact ⟨t ++ s, by rwa [← List.append_assoc]⟩
  unfold Viable headLines at viable
  cases whole : block? CR LF buffer with
  | some r =>
      obtain ⟨ls, body⟩ := r
      obtain ⟨requestLine, fields, rfl⟩ := List.exists_cons_of_ne_nil (block?_some whole).1
      rw [whole] at viable
      obtain ⟨three, length⟩ := viable
      refine finish (t := []) (by rw [List.append_nil]; exact whole) three fun value found => ?_
      simpa only [LengthViable, found] using length
  | none =>
      rw [whole] at viable
      obtain ⟨parts, free, unfinishedFree⟩ := lines_whole (c := CR) (d := LF) buffer
      cases read : lines CR LF buffer with
      | mk ls u =>
          rw [read] at parts free unfinishedFree
          simp only [read] at viable
          cases ls with
          | nil =>
              have text : buffer ++ (bytes " x x x" ++ [CR, LF, CR, LF]) =
                  unlines CR LF [u ++ bytes " x x x"] ++ [CR, LF] ++ [] := by
                rw [parts]
                simp [unlines]
              have free := free_append (bytes " x x x") unfinishedFree (by decide)
              refine finish (text ▸ block?_unlines crlf_distinct free (by simp) [])
                (threeTokens_append u) (by simp)
          | cons first others =>
              obtain ⟨three, length⟩ := viable
              obtain ⟨firstFree, othersFree⟩ := List.forall_mem_cons.mp free
              have nonblank := lines_of_block?_none whole read
              obtain ⟨c, notLF, readable⟩ := finish_fields length
              have text : buffer ++ (c :: [CR, LF, CR, LF]) =
                  unlines CR LF (first :: (others ++ [u ++ [c]])) ++ [CR, LF] ++ [] := by
                rw [parts]
                simp [unlines]
              have lastFree := free_append [c] unfinishedFree
                (by simpa using fun same => notLF same.symm)
              refine finish (text ▸ block?_unlines crlf_distinct firstFree ?_ []) three readable
              intro line member
              rcases List.mem_append.mp member with early | last
              · exact ⟨nonblank line early, othersFree line early⟩
              · obtain rfl := List.mem_singleton.mp last
                exact ⟨by simp, lastFree⟩

/-- The parser's `nullopt` leaves a continuation that is accepted. -/
def NeverFinal (buffer : Bytes) : Prop :=
  tryParseRequest buffer = none → ∃ s, tryParseRequest (buffer ++ s) ≠ none

/-- Exactly the viable buffers are not stuck. -/
theorem neverFinal_iff (buffer : Bytes) : NeverFinal buffer ↔ Viable buffer := by
  constructor
  · intro neverFinal
    by_cases rejected : tryParseRequest buffer = none
    · obtain ⟨s, accepted⟩ := neverFinal rejected
      exact viable_of_parse accepted
    · exact viable_of_parse (s := []) (by rwa [List.append_nil])
  · exact fun viable _ => parse_of_viable viable

/-- An empty request line is taken for an incomplete request for ever. -/
theorem emptyLine_stuck : ¬ NeverFinal (bytes "\r\n\r\n") := by
  intro neverFinal
  obtain ⟨s, accepted⟩ := neverFinal (by decide)
  have block : block? CR LF (bytes "\r\n\r\n" ++ s) = some ([[]], s) := by
    have free : ¬ [CR, LF] <:+: [] := by decide
    have := block?_unlines crlf_distinct free (fun line member => absurd member List.not_mem_nil) s
    exact this
  obtain ⟨requestLine, fields, rest, other, three, -⟩ := head_of_parse accepted
  obtain ⟨same, -⟩ := Prod.mk.inj (Option.some.inj (block.symm.trans other))
  obtain ⟨rfl, -⟩ := List.cons.inj same
  exact three.1 (by decide)

end Corio.Coroutine
