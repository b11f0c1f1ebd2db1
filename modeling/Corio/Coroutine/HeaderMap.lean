import Corio.Coroutine.Lines

/-! # The header map of a request

The loop over the header lines searches the whole buffer, and leaves early in two places.
Neither is ever reached: what it reads are the lines between the request line and the blank
line, and nothing behind them matters.
-/

namespace Corio.Coroutine

open Find

/-- A text split at every CRLF. -/
def splitLines (text : Bytes) : List Bytes := (lines CR LF text).1 ++ [(lines CR LF text).2]

/-- What lies between two offsets of line ends, behind the first one. -/
def textBetween (buffer : Bytes) (firstLineEnd headerEnd : Nat) : Bytes :=
  substr buffer (firstLineEnd + 2) (headerEnd - (firstLineEnd + 2))

/-- The value a line gives to a key: the text behind its first colon, without blanks. -/
def fieldValue (key line : Bytes) : Option Bytes :=
  match cut? [58] line with
  | none => none
  | some (name, value) => if toLower (trim name) = key then some (trim value) else none

/-- The map that a text of header lines spells. The first line with a key counts. -/
def headerMap (text key : Bytes) : Option Bytes := (splitLines text).findSome? (fieldValue key)

/-- An offset at which a turn of the header loop begins. -/
inductive TurnAt (buffer : Bytes) (headerEnd start : Nat) : Nat → Prop where
  | first : TurnAt buffer headerEnd start start
  | later {lineBegin next : Nat} {line : Bytes} (before : TurnAt buffer headerEnd start lineBegin)
      (turn : headerTurn buffer headerEnd lineBegin = .line line next) :
      TurnAt buffer headerEnd start next

theorem fieldValue_eq (key line : Bytes) : fieldValue key line = valueFor key line := by
  unfold fieldValue valueFor headerField cut?
  cases find? [58] line with
  | none => rfl
  | some colon =>
      simp only [Option.map_some, List.length_cons, List.length_nil, Nat.zero_add]
      exact if_congr eq_comm rfl rfl

/-- Lines that end a text make it up when it is split. -/
theorem splitLines_unlines {text : Bytes} {fields : List Bytes}
    (free : ∀ line ∈ fields, ¬ [CR, LF] <:+: line)
    (whole : text ++ [CR, LF] = unlines CR LF fields) : splitLines text = fields := by
  obtain ⟨parts, splitFree, unfinishedFree⟩ := lines_whole (c := CR) (d := LF) text
  have allFree : ∀ line ∈ splitLines text, ¬ [CR, LF] <:+: line := by
    rw [splitLines, List.forall_mem_append]
    exact ⟨splitFree, by simpa using unfinishedFree⟩
  have same : unlines CR LF (splitLines text) = unlines CR LF fields := by
    rw [← whole, splitLines, unlines, List.flatMap_append]
    conv_rhs => rw [parts]
    simp [unlines]
  have spelled := lines_unlines crlf_distinct allFree
  rw [same, lines_unlines crlf_distinct free] at spelled
  exact (Prod.mk.inj spelled).1.symm

section Block

variable {buffer rest requestLine : Bytes} {fields : List Bytes}

/-- The two offsets the parser works with. -/
theorem block_ends (read : block? CR LF buffer = some (requestLine :: fields, rest)) :
    find? [CR, LF] buffer = some requestLine.length ∧
      find? [CR, LF, CR, LF] buffer =
        some (requestLine.length + (unlines CR LF fields).length) := by
  obtain ⟨later, cut, -⟩ := block?_first read
  refine ⟨(cut?_some cut).2, ?_⟩
  rw [find?_double_eq_block crlf_distinct, read, Option.map_some, unlines_cons]
  simp only [List.length_append, List.length_cons, List.length_nil]
  congr 1
  omega

/-- The text between them is that of the header lines. -/
theorem splitLines_block (read : block? CR LF buffer = some (requestLine :: fields, rest)) :
    splitLines (textBetween buffer requestLine.length
      (requestLine.length + (unlines CR LF fields).length)) =
        if fields = [] then [[]] else fields := by
  have behind : buffer.drop (requestLine.length + 2) =
      unlines CR LF fields ++ [CR, LF] ++ rest := by
    rw [(block?_some read).2, unlines_cons, List.append_assoc, List.append_assoc,
      List.append_assoc, List.append_assoc, List.drop_append, List.drop_of_length_le (by omega)]
    simp
  cases fields with
  | nil =>
      have empty : textBetween buffer requestLine.length
          (requestLine.length + (unlines CR LF ([] : List Bytes)).length) = [] := by
        simp only [textBetween, unlines, List.flatMap_nil, List.length_nil, Nat.add_zero, substr]
        rw [Nat.sub_eq_zero_of_le (by omega), List.take_zero]
      rw [empty, if_pos rfl]
      rfl
  | cons first others =>
      obtain ⟨-, othersFree⟩ := block?_lines read
      have free : ∀ line ∈ first :: others, ¬ [CR, LF] <:+: line :=
        fun line member => (othersFree line member).2
      obtain ⟨text, whole⟩ : ∃ text, text ++ [CR, LF] = unlines CR LF (first :: others) := by
        obtain ⟨init, last, split⟩ := (first :: others).eq_nil_or_concat.resolve_left (by simp)
        refine ⟨unlines CR LF init ++ last, ?_⟩
        rw [split, List.concat_eq_append, unlines, unlines, List.flatMap_append]
        simp
      have size := congrArg List.length whole
      simp only [List.length_append, List.length_cons, List.length_nil] at size
      have between : textBetween buffer requestLine.length (requestLine.length +
          (unlines CR LF (first :: others)).length) = text := by
        rw [textBetween, substr, behind, ← size, ← whole, List.append_assoc, List.append_assoc,
          List.take_left' (by omega)]
      rw [between, splitLines_unlines free whole, if_neg (List.cons_ne_nil _ _)]

/-- The values that the lines of the text give to a key. -/
theorem fieldValues_block (read : block? CR LF buffer = some (requestLine :: fields, rest))
    (key : Bytes) :
    (splitLines (textBetween buffer requestLine.length
      (requestLine.length + (unlines CR LF fields).length))).filterMap (fieldValue key) =
        fields.filterMap (valueFor key) := by
  have values : fieldValue key = valueFor key := funext fun line => fieldValue_eq key line
  rw [splitLines_block read, values]
  split
  · rename_i none_
    have nothing : valueFor key [] = none := rfl
    subst none_
    rw [List.filterMap_cons_none nothing]
  · rfl

/-- Everything of an accepted request but its body is read off the lines of the block. -/
theorem tryParseRequest_lines {parsed : ParsedRequest}
    (read : block? CR LF buffer = some (requestLine :: fields, rest))
    (accepted : tryParseRequest buffer = some parsed) :
    ∃ head, readHead requestLine fields = some head ∧
      parsed.request = { head.request with body := rest.take head.length } := by
  rw [tryParseRequest_eq read] at accepted
  obtain ⟨head, headIs, accepted⟩ := Option.bind_eq_some_iff.mp accepted
  dsimp only at accepted
  split at accepted
  · cases accepted
  · obtain rfl := Option.some.inj accepted
    exact ⟨head, headIs, rfl⟩

theorem headers_of_readHead {head : Head} (read : readHead requestLine fields = some head) :
    head.request.headers = fields.foldl emplaceLine Dict.empty := by
  rw [readHead_eq] at read
  dsimp only at read
  split at read
  · cases read
  · obtain ⟨length, -, rfl⟩ := Option.map_eq_some_iff.mp read
    rfl

/-- At every turn of the loop the rest of the lines begins, or the block is over. -/
theorem TurnAt.stands (read : block? CR LF buffer = some (requestLine :: fields, rest))
    {lineBegin : Nat}
    (at_ : TurnAt buffer (requestLine.length + (unlines CR LF fields).length)
      (requestLine.length + 2) lineBegin) :
    requestLine.length + (unlines CR LF fields).length ≤ lineBegin ∨
      ∃ left, AtLine buffer rest (requestLine.length + (unlines CR LF fields).length)
        lineBegin left := by
  induction at_ with
  | first =>
      have length := block?_length read
      obtain ⟨later, cut, next⟩ := block?_first read
      have cutLength := cut?_length cut
      simp only [unlines_cons, List.length_append, List.length_cons, List.length_nil] at *
      rcases next with ⟨rfl, -⟩ | ⟨notBlank, next⟩
      · simp only [unlines, List.flatMap_nil, List.length_nil]
        exact .inl (by omega)
      · have laterIs : buffer.drop (requestLine.length + 2) = later := by
          rw [(cut?_some cut).1, List.drop_left' (by simp)]
        exact .inr ⟨fields, by omega, laterIs.symm ▸ next, laterIs.symm ▸ notBlank, by omega⟩
  | later before turn stands =>
      rcases stands with past | ⟨left, stands⟩
      · rw [headerTurn, if_neg (Nat.not_lt.mpr past)] at turn
        cases turn
      · obtain ⟨line, others, rfl⟩ := List.exists_cons_of_ne_nil (block?_some stands.read).1
        obtain ⟨reads, -, next⟩ := stands.turn
        obtain ⟨-, rfl⟩ := Turn.line.inj (reads.symm.trans turn)
        rcases next with ⟨-, past⟩ | next
        · exact .inl past
        · exact .inr ⟨others, next⟩

end Block

/-- The headers of an accepted request are the map that the text between the first CRLF and
    the first CRLFCRLF spells. The loop that collects them leaves only when that text is
    read, and nothing behind it counts for the rest of the request either, but for the body. -/
theorem header_map {buffer : Bytes} {parsed : ParsedRequest}
    (accepted : tryParseRequest buffer = some parsed) :
    ∃ firstLineEnd headerEnd, find? [CR, LF] buffer = some firstLineEnd ∧
      find? [CR, LF, CR, LF] buffer = some headerEnd ∧
      (∀ key, parsed.request.headers.find? key =
        headerMap (textBetween buffer firstLineEnd headerEnd) key) ∧
      (∀ lineBegin, TurnAt buffer headerEnd (firstLineEnd + 2) lineBegin →
        headerTurn buffer headerEnd lineBegin ≠ .noEnd ∧
          headerTurn buffer headerEnd lineBegin ≠ .blank) ∧
      ∀ other parsed', other.take (headerEnd + 4) = buffer.take (headerEnd + 4) →
        tryParseRequest other = some parsed' →
          parsed'.request = { parsed.request with body := parsed'.request.body } := by
  cases read : block? CR LF buffer with
  | none =>
      rw [tryParseRequest_incomplete read] at accepted
      cases accepted
  | some block =>
      obtain ⟨ls, rest⟩ := block
      obtain ⟨requestLine, fields, rfl⟩ := List.exists_cons_of_ne_nil (block?_some read).1
      obtain ⟨firstEnds, blockEnds⟩ := block_ends read
      obtain ⟨head, headIs, request⟩ := tryParseRequest_lines read accepted
      refine ⟨_, _, firstEnds, blockEnds, fun key => ?_, fun lineBegin at_ => ?_,
        fun other parsed' same accepted' => ?_⟩
      · rw [headerMap, ← List.head?_filterMap, fieldValues_block read, List.head?_filterMap,
          request, headers_of_readHead headIs, find?_fields, Dict.find?_empty, Option.none_or]
      · rcases at_.stands read with past | ⟨left, stands⟩
        · rw [headerTurn, if_neg (Nat.not_lt.mpr past)]
          constructor <;> simp
        · obtain ⟨line, others, rfl⟩ := List.exists_cons_of_ne_nil (block?_some stands.read).1
          rw [stands.turn.1]
          constructor <;> simp
      · have front : buffer.take (requestLine.length + (unlines CR LF fields).length + 4) =
            unlines CR LF (requestLine :: fields) ++ [CR, LF] := by
          rw [(block?_some read).2, List.take_left']
          simp only [unlines_cons, List.length_append, List.length_cons, List.length_nil]
          omega
        have whole : other = unlines CR LF (requestLine :: fields) ++ [CR, LF] ++
            other.drop (requestLine.length + (unlines CR LF fields).length + 4) := by
          rw [← front, ← same, List.take_append_drop]
        have read' := block?_replace crlf_distinct read
          (other.drop (requestLine.length + (unlines CR LF fields).length + 4))
        rw [← whole] at read'
        obtain ⟨head', headIs', request'⟩ := tryParseRequest_lines read' accepted'
        obtain rfl := Option.some.inj (headIs.symm.trans headIs')
        rw [request', request]

/-- A key given twice, an empty one, a line without a colon, and a body of header lines. -/
def tangled : Bytes := bytes "GET / HTTP/1.1\r\nA: 1\r\n: x\r\n-\r\na:2\r\n\r\nB: 3\r\n\r\n"

theorem header_map_tangled : ∃ parsed, tryParseRequest tangled = some parsed ∧
    parsed.request.headers.find? (bytes "a") = some (bytes "1") ∧
    ∀ key, parsed.request.headers.find? key =
      headerMap (bytes "A: 1\r\n: x\r\n-\r\na:2") key := by
  have some_ : (tryParseRequest tangled).isSome = true := by decide +kernel
  obtain ⟨parsed, accepted⟩ := Option.isSome_iff_exists.mp some_
  obtain ⟨firstLineEnd, headerEnd, first, block, map, -⟩ := header_map accepted
  have firstIs : find? [CR, LF] tangled = some 14 := by decide +kernel
  have blockIs : find? [CR, LF, CR, LF] tangled = some 33 := by decide +kernel
  obtain rfl := Option.some.inj (firstIs.symm.trans first)
  obtain rfl := Option.some.inj (blockIs.symm.trans block)
  have between : textBetween tangled 14 33 = bytes "A: 1\r\n: x\r\n-\r\na:2" := by
    decide +kernel
  rw [between] at map
  refine ⟨parsed, accepted, ?_, map⟩
  rw [map]
  decide +kernel

end Corio.Coroutine
