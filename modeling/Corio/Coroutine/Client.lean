import Corio.Coroutine.Resolve
import Corio.Coroutine.Serialize
import Corio.Foundation.Number

/-! # Responses survive the wire

A client that splits a stream of responses at the first blank line and believes the
one `Content-Length` it finds there reads every response of the server back, whatever
the bodies hold.
-/

namespace Corio.Coroutine

open Find

/-- What a client knows of a response. The length it read is not a header any more. -/
structure Received where
  status : Nat
  reason : Bytes
  headers : List (Bytes × Bytes)
  body : Bytes
  deriving DecidableEq, Repr

/-- A decimal number and nothing else. -/
def readDecimal (s : Bytes) : Option Nat :=
  if s ≠ [] ∧ s.all isdigit then some (decimal s) else none

/-- `HTTP/1.1 SP status SP reason`. -/
def readStatusLine (line : Bytes) : Option (Nat × Bytes) :=
  match cut? [32] line with
  | none => none
  | some (version, rest) =>
      if version = bytes "HTTP/1.1" then
        match cut? [32] rest with
        | none => none
        | some (status, reason) => (readDecimal status).map fun n => (n, reason)
      else none

/-- `name: value`. -/
def readField (line : Bytes) : Option (Bytes × Bytes) := cut? [58, 32] line

def isContentLength (header : Bytes × Bytes) : Bool := toLower header.1 == bytes "content-length"

/-- The announced length, when exactly one header announces it. -/
def readLength (headers : List (Bytes × Bytes)) : Option Nat :=
  match headers.filter isContentLength with
  | [header] => readDecimal header.2
  | _ => none

def readHeader (block : Bytes) : Option (Received × Nat) :=
  match (lines CR LF (block ++ [CR, LF])).1 with
  | [] => none
  | statusLine :: fields => do
      let (status, reason) ← readStatusLine statusLine
      let headers ← fields.mapM readField
      let length ← readLength headers
      some (⟨status, reason, headers.filter (! isContentLength ·), []⟩, length)

/-- One response off the front of a stream. `head` tells that the request was `HEAD`. -/
def readMessage (head : Bool) (s : Bytes) : Option (Received × Bytes) := do
  let (block, rest) ← cut? [CR, LF, CR, LF] s
  let (received, announced) ← readHeader block
  let length := if head then 0 else announced
  if rest.length < length then none
  else some ({ received with body := rest.take length }, rest.drop length)

/-- The responses to requests that were `HEAD` or not, and what is left of the stream. -/
def readMessages : List Bool → Bytes → Option (List Received × Bytes)
  | [], s => some ([], s)
  | head :: heads, s => do
      let (received, rest) ← readMessage head s
      let (later, left) ← readMessages heads rest
      some (received :: later, left)

theorem toDecimalString_inline (n : Nat) : Inline (toDecimalString n) :=
  ⟨fun member => absurd (isdigit_toDecimalString CR member) (by decide),
    fun member => absurd (isdigit_toDecimalString LF member) (by decide)⟩

theorem space_toDecimalString {n : Nat} : (32 : UInt8) ∉ toDecimalString n :=
  fun member => absurd (isdigit_toDecimalString 32 member) (by decide)

theorem readDecimal_toDecimalString (n : Nat) : readDecimal (toDecimalString n) = some n := by
  have digits : (toDecimalString n).all isdigit = true :=
    List.all_eq_true.mpr isdigit_toDecimalString
  rw [readDecimal, if_pos ⟨toDecimalString_ne_nil n, digits⟩, decimal_toDecimalString]

namespace HttpResponse

/-- What of a response is on the wire. -/
def received (r : HttpResponse) : Received :=
  ⟨r.status, r.reason, r.headers, if r.headOnly then [] else r.body⟩

/-- The head of the response is a status line and fields a client can tell apart. -/
structure Framable (r : HttpResponse) : Prop where
  reason : Inline r.reason
  names : ∀ header ∈ r.headers, Inline header.1 ∧ ¬ [58, 32] <:+: header.1
  values : ∀ header ∈ r.headers, Inline header.2
  noLength : ∀ header ∈ r.headers, isContentLength header = false

def statusLine (r : HttpResponse) : Bytes :=
  bytes "HTTP/1.1 " ++ toDecimalString r.status ++ bytes " " ++ r.reason

/-- The fields `toWire` writes. -/
def wireHeaders (r : HttpResponse) : List (Bytes × Bytes) :=
  r.headers ++ [(bytes "Content-Length", toDecimalString r.body.length)]

variable {r : HttpResponse}

theorem toWire_eq (framable : r.Framable) :
    r.toWire = unlines CR LF (r.statusLine :: r.wireHeaders.map fieldLine) ++ [CR, LF] ++
      (if r.headOnly then [] else r.body) := by
  have none_ : r.headers.any (fun header => toLower header.1 == bytes "content-length") = false :=
    List.any_eq_false.mpr fun header member =>
      Bool.eq_false_iff.mp (framable.noLength header member)
  have line : headerLine = fun header => fieldLine header ++ [CR, LF] := rfl
  have crlf : bytes "\r\n" = [CR, LF] := rfl
  have colon : bytes "Content-Length: " = bytes "Content-Length" ++ bytes ": " := by decide
  simp only [toWire, none_, Bool.false_eq_true, if_false, crlf, unlines, List.flatMap_cons,
    wireHeaders, List.map_append, List.map_cons, List.map_nil, List.flatMap_append,
    List.flatMap_map, List.flatMap_nil, List.append_nil, line, statusLine, fieldLine, colon,
    List.append_assoc]

theorem Framable.wireHeaders (framable : r.Framable) {header : Bytes × Bytes}
    (member : header ∈ r.wireHeaders) :
    (Inline header.1 ∧ ¬ [58, 32] <:+: header.1) ∧ Inline header.2 := by
  rcases List.mem_append.mp member with own | length
  · exact ⟨framable.names header own, framable.values header own⟩
  · obtain rfl := List.mem_singleton.mp length
    have name : Inline (bytes "Content-Length") := ⟨by decide, by decide⟩
    have free : ¬ [58, 32] <:+: bytes "Content-Length" := by decide
    exact ⟨⟨name, free⟩, toDecimalString_inline _⟩

theorem Framable.lines (framable : r.Framable) :
    ∀ line ∈ r.statusLine :: r.wireHeaders.map fieldLine, ¬ [CR, LF] <:+: line := by
  have space : Inline (bytes " ") := ⟨by decide, by decide⟩
  have version : Inline (bytes "HTTP/1.1 ") := ⟨by decide, by decide⟩
  have colon : Inline (bytes ": ") := ⟨by decide, by decide⟩
  rw [List.forall_mem_cons]
  refine ⟨(((version.append (toDecimalString_inline _)).append space).append
    framable.reason).noBreak, fun line member => ?_⟩
  obtain ⟨header, inHeaders, rfl⟩ := List.mem_map.mp member
  obtain ⟨⟨name, -⟩, value⟩ := framable.wireHeaders inHeaders
  exact ((name.append colon).append value).noBreak

theorem readStatusLine_statusLine : readStatusLine r.statusLine = some (r.status, r.reason) := by
  have spelled : r.statusLine =
      bytes "HTTP/1.1" ++ 32 :: (toDecimalString r.status ++ 32 :: r.reason) := by
    have version : bytes "HTTP/1.1 " = bytes "HTTP/1.1" ++ [32] := by decide
    have space : bytes " " = [32] := by decide
    simp [statusLine, version, space]
  have first : cut? [32] r.statusLine =
      some (bytes "HTTP/1.1", toDecimalString r.status ++ 32 :: r.reason) := by
    rw [spelled]
    exact cut?_symbol (by decide) _
  have second : cut? [32] (toDecimalString r.status ++ 32 :: r.reason) =
      some (toDecimalString r.status, r.reason) := cut?_symbol space_toDecimalString _
  simp only [readStatusLine, first, if_true, second, readDecimal_toDecimalString, Option.map_some]

theorem readField_fieldLine {header : Bytes × Bytes} (free : ¬ [58, 32] <:+: header.1) :
    readField (fieldLine header) = some header := by
  have spelled : fieldLine header = header.1 ++ [58, 32] ++ header.2 := rfl
  rw [readField, spelled, cut?_pair (by decide) free]

theorem mapM_fieldLine {headers : List (Bytes × Bytes)}
    (free : ∀ header ∈ headers, ¬ [58, 32] <:+: header.1) :
    (headers.map fieldLine).mapM readField = some headers := by
  induction headers with
  | nil => rfl
  | cons header others ih =>
      obtain ⟨headerFree, othersFree⟩ := List.forall_mem_cons.mp free
      rw [List.map_cons, List.mapM_cons, readField_fieldLine headerFree, ih othersFree]
      rfl

theorem readLength_wireHeaders (framable : r.Framable) :
    readLength r.wireHeaders = some r.body.length := by
  have own : r.headers.filter isContentLength = [] :=
    List.filter_eq_nil_iff.mpr fun header member =>
      Bool.eq_false_iff.mp (framable.noLength header member)
  have length : r.wireHeaders.filter isContentLength =
      [(bytes "Content-Length", toDecimalString r.body.length)] := by
    rw [HttpResponse.wireHeaders, List.filter_append, own]
    rfl
  rw [readLength, length]
  exact readDecimal_toDecimalString _

theorem filter_wireHeaders (framable : r.Framable) :
    r.wireHeaders.filter (! isContentLength ·) = r.headers := by
  have own : r.headers.filter (! isContentLength ·) = r.headers :=
    List.filter_eq_self.mpr fun header member => by rw [framable.noLength header member]; rfl
  rw [HttpResponse.wireHeaders, List.filter_append, own]
  exact List.append_nil _

/-- The head the client reads is the one the response has. -/
theorem readHeader_toWire (framable : r.Framable) {block : Bytes}
    (ends : block ++ [CR, LF] = unlines CR LF (r.statusLine :: r.wireHeaders.map fieldLine)) :
    readHeader block = some (⟨r.status, r.reason, r.headers, []⟩, r.body.length) := by
  have fields := mapM_fieldLine fun header member => (framable.wireHeaders member).1.2
  simp only [readHeader, ends, lines_unlines crlf_distinct framable.lines,
    readStatusLine_statusLine, fields, readLength_wireHeaders framable, bind, Option.bind_some,
    filter_wireHeaders framable]

/-- The client reads a response back from the front of any stream. -/
theorem readMessage_toWire (framable : r.Framable) (rest : Bytes) :
    readMessage r.headOnly (r.toWire ++ rest) = some (r.received, rest) := by
  have read : block? CR LF (r.toWire ++ rest) =
      some (r.statusLine :: r.wireHeaders.map fieldLine,
        (if r.headOnly then [] else r.body) ++ rest) := by
    obtain ⟨first, others⟩ := List.forall_mem_cons.mp framable.lines
    rw [toWire_eq framable, List.append_assoc]
    refine block?_unlines crlf_distinct first (fun line member => ⟨?_, others line member⟩) _
    obtain ⟨header, -, rfl⟩ := List.mem_map.mp member
    simp [fieldLine, show bytes ": " = [58, 32] by decide]
  obtain ⟨block, cut, ends⟩ := cut?_double crlf_distinct read
  simp only [readMessage, cut, bind, Option.bind_some, readHeader_toWire framable ends, received]
  cases r.headOnly with
  | true => simp
  | false => simp

end HttpResponse

theorem mimeTypeFor_inline (path : Bytes) : Inline (mimeTypeFor path) := by
  unfold mimeTypeFor
  split
  · exact ⟨by decide, by decide⟩
  · simp only
    split_ifs <;> exact ⟨by decide, by decide⟩

/-- Responses with the three headers the server gives. -/
theorem framable_of_headers {status : Nat} {reason type body : Bytes} {keep headOnly : Bool}
    (reasonInline : Inline reason) (typeInline : Inline type) :
    HttpResponse.Framable
      ⟨status, reason,
        [(bytes "Server", bytes "CoroutineWebServer"),
         (bytes "Connection", if keep then bytes "keep-alive" else bytes "close")] ++
          [(bytes "Content-Type", type)], body, headOnly⟩ where
  reason := reasonInline
  names := by
    simp only [List.cons_append, List.nil_append, List.forall_mem_cons, List.not_mem_nil,
      false_implies, implies_true, and_true]
    refine ⟨⟨⟨?_, ?_⟩, ?_⟩, ⟨⟨?_, ?_⟩, ?_⟩, ⟨?_, ?_⟩, ?_⟩ <;> decide
  values := by
    simp only [List.cons_append, List.nil_append, List.forall_mem_cons, List.not_mem_nil,
      false_implies, implies_true, and_true]
    have connection : Inline (if keep then bytes "keep-alive" else bytes "close") := by
      cases keep <;> exact ⟨by decide, by decide⟩
    exact ⟨⟨by decide, by decide⟩, connection, typeInline⟩
  noLength := by
    simp only [List.cons_append, List.nil_append, List.forall_mem_cons, List.not_mem_nil,
      false_implies, implies_true, and_true, isContentLength]
    decide

/-- Every response of the server is framable, and has no body exactly for `HEAD`. -/
theorem buildResponse_framable (fs : FileSystem) (docroot : Path) (request : HttpRequest) :
    (buildResponse fs docroot request).1.Framable ∧
      (buildResponse fs docroot request).1.headOnly = request.isHead := by
  have ok : Inline (bytes "OK") := ⟨by decide, by decide⟩
  have bad : Inline (bytes "Bad Request") := ⟨by decide, by decide⟩
  have missing : Inline (bytes "Not Found") := ⟨by decide, by decide⟩
  have text : Inline (bytes "text/plain; charset=utf-8") := ⟨by decide, by decide⟩
  simp only [buildResponse]
  split
  · exact ⟨framable_of_headers ok text, rfl⟩
  split
  · exact ⟨framable_of_headers ok text, rfl⟩
  split
  · exact ⟨framable_of_headers bad text, rfl⟩
  split
  · split
    · split
      · exact ⟨framable_of_headers ok text, rfl⟩
      · exact ⟨framable_of_headers missing text, rfl⟩
    · exact ⟨framable_of_headers ok (mimeTypeFor_inline _), rfl⟩
  · exact ⟨framable_of_headers ok text, rfl⟩

/-- A client reads the responses to any requests back, one after the other, and nothing
    is left over. -/
theorem readMessages_responses (fs : FileSystem) (docroot : Path) (requests : List HttpRequest) :
    readMessages (requests.map HttpRequest.isHead)
        (requests.flatMap fun r => (buildResponse fs docroot r).1.toWire) =
      some (requests.map fun r => (buildResponse fs docroot r).1.received, []) := by
  induction requests with
  | nil => rfl
  | cons request others ih =>
      obtain ⟨framable, head⟩ := buildResponse_framable fs docroot request
      have first := HttpResponse.readMessage_toWire framable
        (others.flatMap fun r => (buildResponse fs docroot r).1.toWire)
      rw [head] at first
      simp only [List.map_cons, List.flatMap_cons, readMessages, first, ih, bind, Option.bind_some]

end Corio.Coroutine
