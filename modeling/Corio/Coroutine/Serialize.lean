import Corio.Coroutine.Lines
import Corio.Coroutine.ReadRequest

/-! # Well-formed requests survive the wire

A `WireRequest` is a request as a client writes it. The parser reads it back
from the front of any buffer and judges every proper part of it incomplete, so
`read_request` returns a pipeline of them whatever chunks it arrives in.
-/

namespace Corio.Coroutine

open Find

def fieldLine (header : Bytes × Bytes) : Bytes := header.1 ++ bytes ": " ++ header.2

def requestLineOf (method target version : Bytes) : Bytes :=
  method ++ bytes " " ++ target ++ bytes " " ++ version

/-- `M SP T SP V CRLF (name: value CRLF)* CRLF body`. -/
def wireText (method target version : Bytes) (headers : List (Bytes × Bytes)) (body : Bytes) :
    Bytes :=
  unlines CR LF (requestLineOf method target version :: headers.map fieldLine) ++ [CR, LF] ++ body

/-- Part of a single line. -/
structure Inline (s : Bytes) : Prop where
  noCR : CR ∉ s
  noLF : LF ∉ s

structure IsToken (s : Bytes) : Prop extends Inline s where
  nonempty : s ≠ []
  noSpace : (32 : UInt8) ∉ s

structure IsName (s : Bytes) : Prop extends Inline s where
  trimmed : trim s = s
  noColon : (58 : UInt8) ∉ s

structure IsValue (s : Bytes) : Prop extends Inline s where
  trimmed : trim s = s

/-- Digits that denote this length. -/
structure IsLength (s : Bytes) (n : Nat) : Prop where
  nonempty : s ≠ []
  digits : ∀ c ∈ s, isdigit c = true
  denotes : decimal s = n

structure WireRequest where
  method : Bytes
  target : Bytes
  version : Bytes
  headers : List (Bytes × Bytes)
  body : Bytes
  methodToken : IsToken method
  targetToken : IsToken target
  versionToken : IsToken version
  names : ∀ header ∈ headers, IsName header.1
  values : ∀ header ∈ headers, IsValue header.2
  distinct : (headers.map fun header => toLower header.1).Nodup
  lengths : ∀ header ∈ headers, toLower header.1 = bytes "content-length" →
    IsLength header.2 body.length
  announced : body ≠ [] → ∃ header ∈ headers, toLower header.1 = bytes "content-length"
  /-- The text has a size in `size_t`, as every `std::string` has. -/
  fits : (wireText method target version headers body).length < 2 ^ 64

namespace WireRequest

variable (r : WireRequest)

def serialize : Bytes := wireText r.method r.target r.version r.headers r.body

def requestLine : Bytes := requestLineOf r.method r.target r.version

def fields : List Bytes := r.headers.map fieldLine

def loweredHeaders : Dict Bytes Bytes where
  entries := r.headers.map fun header => (toLower header.1, header.2)
  distinct := by simpa only [List.map_map, Function.comp_def] using r.distinct

/-- The request the server should see. -/
def expected : HttpRequest where
  method := r.method
  target := stripQuery r.target
  version := r.version
  headers := r.loweredHeaders
  body := r.body

/-- One request after the other. -/
def stream (rs : List WireRequest) : Bytes := rs.flatMap serialize

end WireRequest

theorem Inline.noBreak {s : Bytes} (inline_ : Inline s) : ¬ [CR, LF] <:+: s := by
  rintro ⟨front, back, rfl⟩
  exact inline_.noCR (by simp)

theorem Inline.append {a b : Bytes} (left : Inline a) (right : Inline b) : Inline (a ++ b) :=
  ⟨by simp [left.noCR, right.noCR], by simp [left.noLF, right.noLF]⟩

theorem trim_blank (value : Bytes) : trim (32 :: value) = trim value := by
  simp [trim, isspace]

namespace WireRequest

variable {r : WireRequest}

theorem serialize_eq :
    r.serialize = unlines CR LF (r.requestLine :: r.fields) ++ [CR, LF] ++ r.body := rfl

theorem requestLine_inline : Inline r.requestLine := by
  have space : Inline (bytes " ") := ⟨by decide, by decide⟩
  exact (((r.methodToken.toInline.append space).append r.targetToken.toInline).append
    space).append r.versionToken.toInline

theorem fields_inline {line : Bytes} (member : line ∈ r.fields) : line ≠ [] ∧ Inline line := by
  obtain ⟨header, inHeaders, rfl⟩ := List.mem_map.mp member
  have colon : Inline (bytes ": ") := ⟨by decide, by decide⟩
  refine ⟨?_, ((r.names header inHeaders).toInline.append colon).append
    (r.values header inHeaders).toInline⟩
  have : (bytes ": ").length = 2 := by decide
  apply List.ne_nil_of_length_pos
  simp only [fieldLine, List.length_append]
  omega

/-- The header block is read back, and the body is what follows. -/
theorem block_serialize (rest : Bytes) :
    block? CR LF (r.serialize ++ rest) = some (r.requestLine :: r.fields, r.body ++ rest) := by
  rw [serialize_eq, List.append_assoc]
  exact block?_unlines crlf_distinct requestLine_inline.noBreak
    (fun line member => ⟨(fields_inline member).1, (fields_inline member).2.noBreak⟩) _

theorem tokens_requestLine : tokens r.requestLine = (r.method, r.target, r.version) := by
  have spelled : r.requestLine = r.method ++ 32 :: (r.target ++ 32 :: r.version) := by
    simp only [requestLine, requestLineOf, show bytes " " = [32] by decide, List.append_assoc,
      List.cons_append, List.nil_append]
  rw [spelled]
  exact tokens_words r.methodToken.nonempty r.methodToken.noSpace r.targetToken.nonempty
    r.targetToken.noSpace r.versionToken.noSpace

theorem headerField_fieldLine {header : Bytes × Bytes} (member : header ∈ r.headers) :
    headerField (fieldLine header) = some (toLower header.1, header.2) := by
  have spelled : fieldLine header = header.1 ++ 58 :: 32 :: header.2 := by
    simp only [fieldLine, show bytes ": " = [58, 32] by decide, List.append_assoc,
      List.cons_append, List.nil_append]
  rw [spelled, headerField_colon (r.names header member).noColon, trim_blank,
    (r.names header member).trimmed, (r.values header member).trimmed]

/-- Emplacing lines with new keys appends their entries. -/
theorem foldl_emplaceLine {headers : List (Bytes × Bytes)} (inside : headers ⊆ r.headers)
    (d : Dict Bytes Bytes)
    (fresh : ∀ header ∈ headers, toLower header.1 ∉ d.entries.map Prod.fst)
    (distinct : (headers.map fun header => toLower header.1).Nodup) :
    ((headers.map fieldLine).foldl emplaceLine d).entries =
      d.entries ++ headers.map fun header => (toLower header.1, header.2) := by
  induction headers generalizing d with
  | nil => simp
  | cons header headers ih =>
      obtain ⟨member, insideRest⟩ := List.cons_subset.mp inside
      obtain ⟨new, distinctRest⟩ := List.nodup_cons.mp distinct
      have absent := fresh header List.mem_cons_self
      have step : (emplaceLine d (fieldLine header)).entries =
          d.entries ++ [(toLower header.1, header.2)] := by
        simp only [emplaceLine, headerField_fieldLine member, Dict.entries_emplace absent]
      rw [List.map_cons, List.foldl_cons, ih insideRest _ ?_ distinctRest, step]
      · simp
      · intro other later
        rw [step]
        simp only [List.map_append, List.map_cons, List.map_nil, List.mem_append,
          List.mem_singleton, not_or]
        refine ⟨fresh other (List.mem_cons_of_mem _ later), fun same => new ?_⟩
        exact List.mem_map.mpr ⟨other, later, same⟩

theorem headers_fields : r.fields.foldl emplaceLine Dict.empty = r.loweredHeaders := by
  have entries := foldl_emplaceLine (r := r) (List.Subset.refl _) Dict.empty
    (by simp [Dict.empty]) r.distinct
  have same : ∀ {d d' : Dict Bytes Bytes}, d.entries = d'.entries → d = d' := by
    rintro ⟨_, _⟩ ⟨_, _⟩ rfl
    rfl
  exact same (entries.trans (List.nil_append _))

theorem bodyLength_headers : bodyLength r.loweredHeaders = some r.body.length := by
  have small : r.body.length < 2 ^ 64 := by
    have := r.fits
    simp only [wireText, List.length_append] at this
    omega
  cases found : r.loweredHeaders.find? (bytes "content-length") with
  | none =>
      have empty : r.body = [] := by
        by_contra nonempty
        obtain ⟨header, member, key⟩ := r.announced nonempty
        refine Dict.lookup_none.mp found ?_
        rw [← key]
        simp only [loweredHeaders, List.map_map]
        exact List.mem_map.mpr ⟨header, member, rfl⟩
      simp only [bodyLength, found, empty, List.length_nil]
  | some value =>
      have member : (bytes "content-length", value) ∈ r.loweredHeaders.entries :=
        Dict.mem_of_find? found
      obtain ⟨header, inHeaders, same⟩ := List.mem_map.mp member
      obtain ⟨key, rfl⟩ := Prod.mk.inj same
      have isLength := r.lengths header inHeaders key
      simp only [bodyLength, found]
      rw [stoul_digits isLength.nonempty isLength.digits (isLength.denotes ▸ small),
        isLength.denotes]

theorem readHead_serialize :
    readHead r.requestLine r.fields = some ⟨{ r.expected with body := [] }, r.body.length⟩ := by
  have present : ¬ (r.method = [] ∨ r.target = [] ∨ r.version = []) := by
    simp only [r.methodToken.nonempty, r.targetToken.nonempty, r.versionToken.nonempty, or_self,
      not_false_eq_true]
  simp only [readHead_eq, tokens_requestLine, present, if_false, headers_fields,
    bodyLength_headers, Option.map_some, expected]

theorem consumed_serialize :
    wrap64 (bodyBegin r.requestLine r.fields + r.body.length) = r.serialize.length := by
  have size : bodyBegin r.requestLine r.fields + r.body.length = r.serialize.length := by
    simp only [bodyBegin, serialize_eq, List.length_append, List.length_cons, List.length_nil]
  rw [size]
  exact Nat.mod_eq_of_lt r.fits

/-- The parser reads a request back from the front of any buffer. -/
theorem parse_serialize (rest : Bytes) :
    tryParseRequest (r.serialize ++ rest) = some ⟨r.expected, r.serialize.length⟩ := by
  have inside : ¬ (r.serialize ++ rest).length < r.serialize.length := by
    simp only [List.length_append]
    omega
  rw [tryParseRequest_eq (block_serialize rest), readHead_serialize]
  simp only [Option.bind_some, consumed_serialize, inside, if_false, List.take_left, expected]

/-- Every proper part of a request is incomplete. -/
theorem parse_part {part : Bytes} (inside : part <+: r.serialize)
    (proper : part.length < r.serialize.length) : tryParseRequest part = none := by
  obtain ⟨missing, whole⟩ := inside
  cases block : block? CR LF part with
  | none => exact tryParseRequest_incomplete block
  | some b =>
      obtain ⟨ls, body⟩ := b
      have full := block?_append block missing
      rw [whole, ← List.append_nil r.serialize, block_serialize] at full
      obtain ⟨rfl, -⟩ := Prod.mk.inj (Option.some.inj full)
      rw [tryParseRequest_eq block, readHead_serialize]
      simp only [Option.bind_some, consumed_serialize, proper, if_true]

end WireRequest

end Corio.Coroutine
