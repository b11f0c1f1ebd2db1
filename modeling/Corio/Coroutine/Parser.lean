import Corio.Coroutine.Resolve
import Corio.Foundation.Find

/-! # `try_parse_request`

The parser works on offsets into the whole receive buffer. `readHead` says the
same thing without offsets, on the lines of the header block, and
`tryParseRequest_eq` is the bridge: everything later is proved on lines.
-/

namespace Corio.Coroutine

open Find

def CR : UInt8 := 13

def LF : UInt8 := 10

/-- `s.find(pat, pos)`. -/
def findFrom (pat s : Bytes) (pos : Nat) : Option Nat := (find? pat (s.drop pos)).map (· + pos)

/-- The closure `next_token`: the token, and where it leaves `pos`. -/
def nextToken (requestLine : Bytes) (pos : Nat) : Bytes × Nat :=
  let start := pos + ((requestLine.drop pos).takeWhile (· == 32)).length
  let token := (requestLine.drop start).takeWhile (· != 32)
  (token, start + token.length)

/-- One line of the header block: its key and value when it has a colon. -/
def headerField (line : Bytes) : Option (Bytes × Bytes) :=
  match find? [58] line with
  | none => none
  | some colon => some (toLower (trim (line.take colon)), trim (line.drop (colon + 1)))

def emplaceLine (headers : Dict Bytes Bytes) (line : Bytes) : Dict Bytes Bytes :=
  match headerField line with
  | none => headers
  | some (key, value) => headers.emplace key value

/-- The loop over the header lines. Every turn moves `lineBegin` forward, so
    `headerEnd` turns are enough. -/
def headerLoop (buffer : Bytes) (headerEnd : Nat) :
    Nat → Nat → Dict Bytes Bytes → Dict Bytes Bytes
  | 0, _, headers => headers
  | fuel + 1, lineBegin, headers =>
      if lineBegin < headerEnd then
        match findFrom [CR, LF] buffer lineBegin with
        | none => headers
        | some lineEnd =>
            if lineEnd > headerEnd then headers
            else if lineEnd = lineBegin then headers
            else
              let line := substr buffer lineBegin (lineEnd - lineBegin)
              headerLoop buffer headerEnd fuel (lineEnd + 2) (emplaceLine headers line)
      else headers

/-- The length a `content-length` header announces; `none` is an exception. -/
def bodyLength (headers : Dict Bytes Bytes) : Option Nat :=
  match headers.find? (bytes "content-length") with
  | none => some 0
  | some value => stoul value

structure ParsedRequest where
  request : HttpRequest
  consumed : Nat
  deriving DecidableEq, Repr

def tryParseRequest (buffer : Bytes) : Option ParsedRequest :=
  match findFrom [CR, LF, CR, LF] buffer 0 with
  | none => none
  | some headerEnd =>
      let headerBlock := buffer.take (headerEnd + 2)
      match findFrom [CR, LF] headerBlock 0 with
      | none => none
      | some firstLineEnd =>
          let requestLine := substr headerBlock 0 firstLineEnd
          let method := nextToken requestLine 0
          let target := nextToken requestLine method.2
          let version := nextToken requestLine target.2
          if method.1 = [] ∨ target.1 = [] ∨ version.1 = [] then none
          else
            let headers := headerLoop buffer headerEnd headerEnd (firstLineEnd + 2) Dict.empty
            match bodyLength headers with
            | none => none
            | some bodyLength =>
                let bodyBegin := headerEnd + 4
                let consumed := wrap64 (bodyBegin + bodyLength)
                if buffer.length < consumed then none
                else
                  some
                    { request :=
                        { method := method.1
                          target := stripQuery target.1
                          version := version.1
                          headers := headers
                          body := substr buffer bodyBegin bodyLength }
                      consumed := consumed }

/-- A request up to its body, and the length announced for that. -/
structure Head where
  request : HttpRequest
  length : Nat
  deriving DecidableEq, Repr

def readHead (requestLine : Bytes) (fields : List Bytes) : Option Head :=
  let method := nextToken requestLine 0
  let target := nextToken requestLine method.2
  let version := nextToken requestLine target.2
  if method.1 = [] ∨ target.1 = [] ∨ version.1 = [] then none
  else
    let headers := fields.foldl emplaceLine Dict.empty
    (bodyLength headers).map fun length =>
      { request :=
          { method := method.1
            target := stripQuery target.1
            version := version.1
            headers := headers
            body := [] }
        length := length }

/-- Offset of the body behind a header block of these lines. -/
def bodyBegin (requestLine : Bytes) (fields : List Bytes) : Nat :=
  (unlines CR LF (requestLine :: fields)).length + 2

theorem crlf_distinct : CR ≠ LF := by decide

theorem headerLoop_past {buffer : Bytes} {headerEnd fuel lineBegin : Nat}
    (headers : Dict Bytes Bytes) (past : ¬ lineBegin < headerEnd) :
    headerLoop buffer headerEnd fuel lineBegin headers = headers := by
  cases fuel with
  | zero => rfl
  | succ fuel => simp only [headerLoop, past, if_false]

/-- One turn of the loop: where it leaves, or the line and where the next one begins. -/
inductive Turn where
  /-- The header block is read. -/
  | over
  /-- `line_end == npos || line_end > header_end`. -/
  | noEnd
  /-- `line_end == line_begin`. -/
  | blank
  | line (line : Bytes) (next : Nat)

def headerTurn (buffer : Bytes) (headerEnd lineBegin : Nat) : Turn :=
  if lineBegin < headerEnd then
    match findFrom [CR, LF] buffer lineBegin with
    | none => .noEnd
    | some lineEnd =>
        if lineEnd > headerEnd then .noEnd
        else if lineEnd = lineBegin then .blank
        else .line (substr buffer lineBegin (lineEnd - lineBegin)) (lineEnd + 2)
  else .over

theorem headerLoop_turn (buffer : Bytes) (headerEnd fuel lineBegin : Nat)
    (headers : Dict Bytes Bytes) :
    headerLoop buffer headerEnd (fuel + 1) lineBegin headers =
      match headerTurn buffer headerEnd lineBegin with
      | .line line next => headerLoop buffer headerEnd fuel next (emplaceLine headers line)
      | _ => headers := by
  rw [headerLoop, headerTurn]
  split
  · cases findFrom [CR, LF] buffer lineBegin with
    | none => rfl
    | some lineEnd =>
        dsimp only
        split
        · rfl
        · split <;> rfl
  · rfl

/-- These lines of the header block begin here. -/
structure AtLine (buffer rest : Bytes) (headerEnd lineBegin : Nat) (fields : List Bytes) :
    Prop where
  inside : lineBegin ≤ buffer.length
  read : block? CR LF (buffer.drop lineBegin) = some (fields, rest)
  notBlank : ¬ [CR, LF] <+: buffer.drop lineBegin
  headerEnds : headerEnd + 4 + rest.length = buffer.length

/-- A turn reads the line that begins here, and the next one begins behind it. -/
theorem AtLine.turn {buffer rest line : Bytes} {headerEnd lineBegin : Nat} {fields : List Bytes}
    (at_ : AtLine buffer rest headerEnd lineBegin (line :: fields)) :
    headerTurn buffer headerEnd lineBegin = .line line (lineBegin + line.length + 2) ∧
      lineBegin < headerEnd ∧
      (fields = [] ∧ headerEnd ≤ lineBegin + line.length + 2 ∨
        AtLine buffer rest headerEnd (lineBegin + line.length + 2) fields) := by
  obtain ⟨inside, read, notBlank, headerEnds⟩ := at_
  obtain ⟨later, cut, next⟩ := block?_first read
  obtain ⟨whole, found⟩ := cut?_some cut
  have cutLength := cut?_length cut
  simp only [List.length_drop, List.length_cons, List.length_nil] at cutLength
  have lineNonempty : line.length ≠ 0 := by
    intro zero
    obtain rfl := List.length_eq_zero_iff.mp zero
    exact notBlank ⟨later, by rw [whole]; rfl⟩
  have laterIs : buffer.drop (lineBegin + line.length + 2) = later := by
    rw [Nat.add_assoc, ← List.drop_drop, whole]
    simp
  have lineIs : substr buffer lineBegin line.length = line := by
    rw [substr, whole, List.append_assoc, List.take_left]
  have laterLength : 2 + rest.length ≤ later.length := by
    rcases next with ⟨-, rfl⟩ | ⟨-, next⟩
    · simp only [List.length_append, List.length_cons, List.length_nil]
      omega
    · have length := block?_length next
      omega
  have before : lineBegin < headerEnd := by omega
  have notPast : ¬ line.length + lineBegin > headerEnd := by omega
  have moved : ¬ line.length + lineBegin = lineBegin := by omega
  refine ⟨?_, before, ?_⟩
  · simp only [headerTurn, before, if_true, findFrom, found, Option.map_some, notPast,
      if_false, moved, Nat.add_sub_cancel, lineIs]
    rw [Nat.add_comm line.length]
  · rcases next with ⟨rfl, rfl⟩ | ⟨stillNot, next⟩
    · -- the last line: the loop stands behind the header block
      simp only [List.length_append, List.length_cons, List.length_nil] at cutLength
      exact .inl ⟨rfl, by omega⟩
    · exact .inr ⟨by omega, laterIs.symm ▸ next, laterIs.symm ▸ stillNot, headerEnds⟩

/-- The loop collects the lines the block is made of, whatever surrounds them:
    neither of its two early exits is ever taken. -/
theorem headerLoop_eq {buffer rest : Bytes} {headerEnd : Nat} {fields : List Bytes}
    {fuel lineBegin : Nat} (headers : Dict Bytes Bytes)
    (at_ : AtLine buffer rest headerEnd lineBegin fields) (enough : headerEnd ≤ lineBegin + fuel) :
    headerLoop buffer headerEnd fuel lineBegin headers = fields.foldl emplaceLine headers := by
  induction fuel generalizing lineBegin fields headers with
  | zero =>
      obtain ⟨first, others, rfl⟩ := List.exists_cons_of_ne_nil (block?_some at_.read).1
      have before := at_.turn.2.1
      omega
  | succ fuel ih =>
      obtain ⟨line, others, rfl⟩ := List.exists_cons_of_ne_nil (block?_some at_.read).1
      obtain ⟨turn, before, next⟩ := at_.turn
      rw [headerLoop_turn, turn, List.foldl_cons]
      rcases next with ⟨rfl, past⟩ | next
      · exact headerLoop_past _ (Nat.not_lt.mpr past)
      · exact ih (emplaceLine headers line) next (by omega)

theorem findFrom_zero (pat s : Bytes) : findFrom pat s 0 = find? pat s := by
  simp only [findFrom, List.drop_zero, Nat.add_zero, Option.map_id']

theorem tryParseRequest_incomplete {buffer : Bytes} (open_ : block? CR LF buffer = none) :
    tryParseRequest buffer = none := by
  simp only [tryParseRequest, findFrom_zero, find?_double_eq_block crlf_distinct, open_,
    Option.map_none]

/-- The parser on a buffer that holds a whole header block. -/
theorem tryParseRequest_eq {buffer rest requestLine : Bytes} {fields : List Bytes}
    (read : block? CR LF buffer = some (requestLine :: fields, rest)) :
    tryParseRequest buffer =
      (readHead requestLine fields).bind fun head =>
        let consumed := wrap64 (bodyBegin requestLine fields + head.length)
        if buffer.length < consumed then none
        else some ⟨{ head.request with body := rest.take head.length }, consumed⟩ := by
  have whole := (block?_some read).2
  have length := block?_length read
  obtain ⟨later, cut, next⟩ := block?_first read
  have free : ¬ [CR, LF] <:+: requestLine := cut?_free cut
  -- The offsets of the source, in terms of the lines.
  have blockLength : (unlines CR LF (requestLine :: fields)).length =
      requestLine.length + 2 + (unlines CR LF fields).length := by
    simp only [unlines_cons, List.length_append, List.length_cons, List.length_nil]
  let headerEnd := requestLine.length + (unlines CR LF fields).length
  have headerFound : findFrom [CR, LF, CR, LF] buffer 0 = some headerEnd := by
    rw [findFrom_zero, find?_double_eq_block crlf_distinct, read, Option.map_some, blockLength]
    congr 1
    omega
  have headerBlock : buffer.take (headerEnd + 2) = unlines CR LF (requestLine :: fields) := by
    rw [whole, List.append_assoc, List.take_left' (by rw [blockLength]; omega)]
  have lineFound : findFrom [CR, LF] (unlines CR LF (requestLine :: fields)) 0 =
      some requestLine.length := by
    rw [findFrom_zero, unlines_cons]
    exact (cut?_some (cut?_pair crlf_distinct free _)).2
  have lineIs : substr (unlines CR LF (requestLine :: fields)) 0 requestLine.length =
      requestLine := by
    rw [substr, List.drop_zero, unlines_cons, List.append_assoc, List.take_left]
  have headersAre : headerLoop buffer headerEnd headerEnd (requestLine.length + 2) Dict.empty =
      fields.foldl emplaceLine Dict.empty := by
    have laterIs : buffer.drop (requestLine.length + 2) = later := by
      rw [(cut?_some cut).1, List.drop_left' (by simp)]
    rcases next with ⟨rfl, rfl⟩ | ⟨notBlank, next⟩
    · refine headerLoop_past Dict.empty ?_
      simp only [headerEnd, unlines, List.flatMap_nil, List.length_nil]
      omega
    · exact headerLoop_eq Dict.empty
        ⟨by omega, laterIs.symm ▸ next, laterIs.symm ▸ notBlank, by omega⟩ (by omega)
  have bodyIs (n : Nat) : substr buffer (headerEnd + 4) n = rest.take n := by
    have behind : buffer.drop (headerEnd + 4) = rest := by
      rw [whole, List.drop_left']
      simp only [List.length_append, blockLength, List.length_cons, List.length_nil]
      omega
    rw [substr, behind]
  have beginIs : bodyBegin requestLine fields = headerEnd + 4 := by
    rw [bodyBegin, blockLength]
    omega
  simp only [tryParseRequest, headerFound, headerBlock, lineFound, lineIs, headersAre, readHead,
    beginIs, bodyIs]
  split
  · simp only [Option.bind_none]
  · cases bodyLength (fields.foldl emplaceLine Dict.empty) with
    | none => simp only [Option.map_none, Option.bind_none]
    | some n => simp only [Option.map_some, Option.bind_some]

end Corio.Coroutine
