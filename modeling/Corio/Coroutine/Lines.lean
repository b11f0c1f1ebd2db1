import Corio.Coroutine.Parser

/-! # One line at a time

What the parser makes of a request line and of a header line, said on the text
of the line instead of on offsets. Of several header lines with the same key the
first one counts.
-/

namespace Corio.Coroutine

open Find

/-- A token behind blanks, and what follows it. -/
def token (s : Bytes) : Bytes × Bytes :=
  let word := s.dropWhile (· == 32)
  (word.takeWhile (· != 32), word.dropWhile (· != 32))

theorem dropWhile_eq_drop (p : UInt8 → Bool) (s : Bytes) :
    s.dropWhile p = s.drop (s.takeWhile p).length := by
  calc s.dropWhile p = (s.takeWhile p ++ s.dropWhile p).drop (s.takeWhile p).length := by
        rw [List.drop_left]
    _ = s.drop (s.takeWhile p).length := by rw [List.takeWhile_append_dropWhile]

theorem nextToken_eq (line : Bytes) (pos : Nat) :
    (nextToken line pos).1 = (token (line.drop pos)).1 ∧
    line.drop (nextToken line pos).2 = (token (line.drop pos)).2 := by
  have word : line.drop (pos + ((line.drop pos).takeWhile (· == 32)).length) =
      (line.drop pos).dropWhile (· == 32) := by
    rw [dropWhile_eq_drop, List.drop_drop]
  refine ⟨by simp only [nextToken, token, word], ?_⟩
  simp only [nextToken, token, word]
  rw [← List.drop_drop, word, ← dropWhile_eq_drop]

/-- The three tokens of a request line. -/
def tokens (line : Bytes) : Bytes × Bytes × Bytes :=
  let method := token line
  let target := token method.2
  let version := token target.2
  (method.1, target.1, version.1)

/-- None of the three tokens is missing. -/
def ThreeTokens (line : Bytes) : Prop :=
  (tokens line).1 ≠ [] ∧ (tokens line).2.1 ≠ [] ∧ (tokens line).2.2 ≠ []

theorem readHead_eq (requestLine : Bytes) (fields : List Bytes) :
    readHead requestLine fields =
      let parts := tokens requestLine
      if parts.1 = [] ∨ parts.2.1 = [] ∨ parts.2.2 = [] then none
      else
        let headers := fields.foldl emplaceLine Dict.empty
        (bodyLength headers).map fun length =>
          ⟨⟨parts.1, stripQuery parts.2.1, parts.2.2, headers, []⟩, length⟩ := by
  have first := nextToken_eq requestLine 0
  have second := nextToken_eq requestLine (nextToken requestLine 0).2
  have third := nextToken_eq requestLine
    (nextToken requestLine (nextToken requestLine 0).2).2
  rw [List.drop_zero] at first
  rw [first.2] at second
  rw [second.2] at third
  simp only [readHead, tokens, first.1, second.1, third.1]
  exact if_congr Iff.rfl rfl rfl

/-- A head is read exactly from three tokens and a length. -/
theorem readHead_isSome {requestLine : Bytes} {fields : List Bytes} :
    (readHead requestLine fields).isSome ↔
      ThreeTokens requestLine ∧ (bodyLength (fields.foldl emplaceLine Dict.empty)).isSome := by
  simp only [readHead_eq, ThreeTokens]
  split
  · rename_i missing
    simp only [Option.isSome_none, Bool.false_eq_true, false_iff]
    rintro ⟨⟨method, target, version⟩, -⟩
    rcases missing with absent | absent | absent
    · exact method absent
    · exact target absent
    · exact version absent
  · rename_i present
    simp only [not_or] at present
    simp only [Option.isSome_map, ne_eq, present, not_false_eq_true, true_and]

theorem takeWhile_word {word : Bytes} (noSpace : (32 : UInt8) ∉ word) (back : Bytes) :
    (word ++ 32 :: back).takeWhile (· != 32) = word ∧
    (word ++ 32 :: back).dropWhile (· != 32) = 32 :: back := by
  induction word with
  | nil => simp
  | cons c word ih =>
      have notSpace : (c != 32) = true := by
        simp only [bne_iff_ne, ne_eq]
        rintro rfl
        exact noSpace List.mem_cons_self
      have later := ih fun member => noSpace (List.mem_cons_of_mem _ member)
      simp only [List.cons_append, List.takeWhile_cons, notSpace, if_true, later.1,
        List.dropWhile_cons, later.2, and_self]

/-- A token ends at the next space. -/
theorem token_word {word : Bytes} (nonempty : word ≠ []) (noSpace : (32 : UInt8) ∉ word)
    (back : Bytes) : token (word ++ 32 :: back) = (word, 32 :: back) := by
  have starts : (word ++ 32 :: back).dropWhile (· == 32) = word ++ 32 :: back := by
    obtain ⟨c, word, rfl⟩ := List.exists_cons_of_ne_nil nonempty
    have notSpace : (c == 32) = false := by
      simp only [beq_eq_false_iff_ne, ne_eq]
      rintro rfl
      exact noSpace List.mem_cons_self
    simp only [List.cons_append, List.dropWhile_cons, notSpace, Bool.false_eq_true, if_false]
  simp only [token, starts, takeWhile_word noSpace back]

theorem token_blank (s : Bytes) : token (32 :: s) = token s := by
  simp [token]

theorem token_last {word : Bytes} (noSpace : (32 : UInt8) ∉ word) : token word = (word, []) := by
  have all : ∀ c ∈ word, (c != 32) = true := by
    intro c member
    simp only [bne_iff_ne, ne_eq]
    rintro rfl
    exact noSpace member
  have starts : word.dropWhile (· == 32) = word := by
    cases word with
    | nil => rfl
    | cons c word =>
        have notSpace : (c == 32) = false := by
          simpa only [bne_iff_ne, ne_eq, beq_eq_false_iff_ne] using all c List.mem_cons_self
        simp only [List.dropWhile_cons, notSpace, Bool.false_eq_true, if_false]
  simp only [token, starts, List.takeWhile_eq_self_iff.mpr all, List.dropWhile_eq_nil_iff.mpr all]

/-- A request line of three words has these as its tokens. -/
theorem tokens_words {method target version : Bytes}
    (methodNonempty : method ≠ []) (methodWord : (32 : UInt8) ∉ method)
    (targetNonempty : target ≠ []) (targetWord : (32 : UInt8) ∉ target)
    (versionWord : (32 : UInt8) ∉ version) :
    tokens (method ++ 32 :: (target ++ 32 :: version)) = (method, target, version) := by
  simp only [tokens, token_word methodNonempty methodWord, token_blank,
    token_word targetNonempty targetWord, token_last versionWord]

/-- A line with a colon is a field. -/
theorem headerField_colon {name : Bytes} (noColon : (58 : UInt8) ∉ name) (value : Bytes) :
    headerField (name ++ 58 :: value) = some (toLower (trim name), trim value) := by
  have behind : (name ++ 58 :: value).drop (name.length + 1) = value := by
    rw [← List.drop_drop, List.drop_left]
    rfl
  simp only [headerField, find?_symbol noColon, List.take_left, behind]

theorem headerField_none {line : Bytes} (noColon : (58 : UInt8) ∉ line) :
    headerField line = none := by
  have absent : find? [58] line = none := by
    rw [find?_none_iff]
    rintro ⟨front, back, rfl⟩
    exact noColon (by simp)
  simp only [headerField, absent]

/-- Every line has a colon or not. -/
theorem colon_cases (line : Bytes) :
    (58 : UInt8) ∉ line ∨ ∃ name value, line = name ++ 58 :: value ∧ (58 : UInt8) ∉ name := by
  by_cases colon : (58 : UInt8) ∈ line
  · obtain ⟨name, value, same, first⟩ := List.eq_append_cons_of_mem colon
    exact .inr ⟨name, value, same, first⟩
  · exact .inl colon

/-- The value a header line gives to a key. -/
def valueFor (key line : Bytes) : Option Bytes :=
  match headerField line with
  | none => none
  | some (name, value) => if key = name then some value else none

theorem find?_emplaceLine (headers : Dict Bytes Bytes) (line key : Bytes) :
    (emplaceLine headers line).find? key = (headers.find? key).or (valueFor key line) := by
  cases field : headerField line with
  | none => simp only [emplaceLine, valueFor, field, Option.or_none]
  | some entry => simp only [emplaceLine, valueFor, field, Dict.find?_emplace]

/-- The first line with the key decides. -/
theorem find?_fields (headers : Dict Bytes Bytes) (fields : List Bytes) (key : Bytes) :
    (fields.foldl emplaceLine headers).find? key =
      (headers.find? key).or (fields.findSome? (valueFor key)) := by
  induction fields generalizing headers with
  | nil => simp
  | cons line fields ih =>
      rw [List.foldl_cons, ih, find?_emplaceLine, Option.or_assoc, List.findSome?_cons]
      cases valueFor key line <;> rfl

end Corio.Coroutine
