import Corio.Coroutine.ReadRequest
import Corio.Foundation.Machine

/-! # What a request takes from the buffer

`body_begin + body_length` is computed in 64 bits and `std::stoul` reads a minus
sign, so a client can choose a length for which the sum wraps around. The bound
check then passes, and `consumed` ends inside the header block or even before it.
-/

namespace Corio.Coroutine

open Find

/-- Behind the header block, inside the buffer, and the body is what lies between. -/
def Framed (buffer : Bytes) (parsed : ParsedRequest) : Prop :=
  ∀ headerEnd, find? [CR, LF, CR, LF] buffer = some headerEnd →
    headerEnd + 4 ≤ parsed.consumed ∧ parsed.consumed ≤ buffer.length ∧
    parsed.request.body = substr buffer (headerEnd + 4) (parsed.consumed - (headerEnd + 4))

/-- The length the header block at the front of the buffer announces. -/
def announced (buffer : Bytes) : Option Nat :=
  (block? CR LF buffer).bind fun block =>
    bodyLength (block.1.tail.foldl emplaceLine Dict.empty)

/-- The header block and the announced body have a common size in 64 bits. -/
def LengthFits (buffer : Bytes) : Prop :=
  ∀ headerEnd length, find? [CR, LF, CR, LF] buffer = some headerEnd →
    announced buffer = some length → headerEnd + 4 + length < 2 ^ 64

/-- Everything the parser read, for a buffer it made a request of. -/
theorem tryParseRequest_some {buffer : Bytes} {parsed : ParsedRequest}
    (read : tryParseRequest buffer = some parsed) :
    ∃ headerEnd length, find? [CR, LF, CR, LF] buffer = some headerEnd ∧
      announced buffer = some length ∧ length < 2 ^ 64 ∧
      parsed.consumed = wrap64 (headerEnd + 4 + length) ∧ parsed.consumed ≤ buffer.length ∧
      parsed.request.body = substr buffer (headerEnd + 4) length := by
  cases block : block? CR LF buffer with
  | none =>
      rw [tryParseRequest_incomplete block] at read
      cases read
  | some r =>
      obtain ⟨ls, rest⟩ := r
      obtain ⟨requestLine, fields, rfl⟩ := List.exists_cons_of_ne_nil (block?_some block).1
      rw [tryParseRequest_eq block] at read
      obtain ⟨head, headIs, accepted⟩ := Option.bind_eq_some_iff.mp read
      simp only at accepted
      split at accepted
      · cases accepted
      · rename_i enough
        obtain rfl := Option.some.inj accepted
        have lengthIs : bodyLength (fields.foldl emplaceLine Dict.empty) = some head.length := by
          simp only [readHead] at headIs
          split at headIs
          · cases headIs
          · obtain ⟨length, announces, same⟩ := Option.map_eq_some_iff.mp headIs
            rw [announces, ← same]
        have bounded : head.length < 2 ^ 64 := by
          simp only [bodyLength] at lengthIs
          split at lengthIs
          · obtain same := Option.some.inj lengthIs
            omega
          · exact stoul_lt lengthIs
        have blockLength : 2 ≤ (unlines CR LF (requestLine :: fields)).length := by
          simp only [unlines_cons, List.length_append, List.length_cons, List.length_nil]
          omega
        have beginIs : (unlines CR LF (requestLine :: fields)).length - 2 + 4 =
            bodyBegin requestLine fields := by
          rw [bodyBegin]
          omega
        have behind : buffer.drop (bodyBegin requestLine fields) = rest := by
          rw [(block?_some block).2, List.drop_left']
          simp only [List.length_append, bodyBegin, List.length_cons, List.length_nil]
        refine ⟨(unlines CR LF (requestLine :: fields)).length - 2, head.length, ?_, ?_, bounded,
          ?_, Nat.not_lt.mp enough, ?_⟩
        · rw [find?_double_eq_block crlf_distinct, block, Option.map_some]
        · simp only [announced, block, Option.bind_some, List.tail_cons, lengthIs]
        · simp only [beginIs]
        · simp only [beginIs, substr, behind]

/-- A request is framed exactly when the sum did not wrap. -/
theorem framed_iff {buffer : Bytes} {parsed : ParsedRequest}
    (read : tryParseRequest buffer = some parsed) :
    Framed buffer parsed ↔ LengthFits buffer := by
  obtain ⟨headerEnd, length, ends, announces, bounded, consumed, inside, body⟩ :=
    tryParseRequest_some read
  constructor
  · intro framed otherEnd otherLength found announced
    obtain rfl := Option.some.inj (ends.symm.trans found)
    obtain rfl := Option.some.inj (announces.symm.trans announced)
    have behind := (framed _ found).1
    by_contra wraps
    -- At most one wrap happens, and it takes the sum below its first summand.
    have wrapped : wrap64 (headerEnd + 4 + length) < headerEnd + 4 := by
      simp only [wrap64]
      omega
    omega
  · intro fits otherEnd found
    obtain rfl := Option.some.inj (ends.symm.trans found)
    have exact_ : parsed.consumed = headerEnd + 4 + length := by
      rw [consumed, wrap64, Nat.mod_eq_of_lt (fits _ _ ends announces)]
    refine ⟨by omega, inside, ?_⟩
    rw [body, exact_, Nat.add_sub_cancel_left]

/-- A connection between two calls of `read_request`. -/
structure Connection where
  buffer : Bytes
  received : Nat
  produced : List HttpRequest
  deriving DecidableEq, Repr

/-- Calls of `read_request` that answer a request. An action is the part of the
    script the call takes. -/
def connection : Machine Connection (List Event) where
  init := ⟨[], 0, []⟩
  step c script :=
    match readRequest script c.buffer with
    | (.request request, buffer, []) =>
        some ⟨buffer, c.received + (delivered script).length, c.produced ++ [request]⟩
    | _ => none

theorem connection_step {c c' : Connection} {script : List Event}
    (taken : connection.step c script = some c') :
    ∃ parsed, tryParseRequest (c.buffer ++ delivered script) = some parsed ∧
      c' = ⟨(c.buffer ++ delivered script).drop parsed.consumed,
        c.received + (delivered script).length, c.produced ++ [parsed.request]⟩ := by
  simp only [connection] at taken
  split at taken
  · rename_i request buffer answered
    obtain ⟨chunks, parsed, rfl, completes, rfl, rfl⟩ := readRequest_request answered
    simp only [List.append_nil, delivered_arrivals, Option.some.injEq] at taken ⊢
    exact ⟨parsed, completes.closed, taken.symm⟩
  · cases taken

/-- No request is produced without a byte of its own. -/
theorem produced_step {c c' : Connection} {script : List Event}
    (bounded : c.produced.length + c.buffer.length ≤ c.received)
    (fits : LengthFits (c.buffer ++ delivered script))
    (taken : connection.step c script = some c') :
    c'.produced.length + c'.buffer.length ≤ c'.received := by
  obtain ⟨parsed, read, rfl⟩ := connection_step taken
  obtain ⟨headerEnd, _, ends, _⟩ := tryParseRequest_some read
  obtain ⟨behind, inside, -⟩ := (framed_iff read).mpr fits headerEnd ends
  simp only [List.length_append, List.length_cons, List.length_nil, List.length_drop] at inside ⊢
  omega

/-- Requests are framed exactly when their lengths fit, and a connection on which
    they do produces at most as many requests as it received bytes. -/
theorem framing (buffer : Bytes) (calls : List (List Event)) :
    (∀ parsed, tryParseRequest buffer = some parsed →
      (Framed buffer parsed ↔ LengthFits buffer)) ∧
    (connection.Guarded (fun c script => LengthFits (c.buffer ++ delivered script))
        connection.init calls →
      ∀ c, connection.run connection.init calls = some c →
        c.produced.length + c.buffer.length ≤ c.received) := by
  refine ⟨fun parsed read => framed_iff read, fun fits c ran => ?_⟩
  exact fits.preserves (I := fun c => c.produced.length + c.buffer.length ≤ c.received)
    (fun _ _ _ bounded fits taken => produced_step bounded fits taken) (Nat.zero_le _) ran

/-- A whole request and the first bytes of the next one. -/
def greeting : Bytes := bytes "POST / HTTP/1.1\r\nContent-Length: 2\r\n\r\nhiGET"

theorem framing_greeting :
    (∃ parsed, tryParseRequest greeting = some parsed ∧
      (Framed greeting parsed ↔ LengthFits greeting)) ∧
    ∃ c, connection.run connection.init [[.received greeting]] = some c ∧
      c.produced.length + c.buffer.length ≤ c.received := by
  have values : (tryParseRequest greeting).map (fun p => (p.consumed, p.request.body)) =
      some (40, bytes "hi") := by decide +kernel
  obtain ⟨parsed, read, same⟩ := Option.map_eq_some_iff.mp values
  obtain ⟨consumed, body⟩ := Prod.mk.inj same
  have framed : Framed greeting parsed := by
    intro headerEnd ends
    have computed : find? [CR, LF, CR, LF] greeting = some 34 := by decide +kernel
    obtain rfl := Option.some.inj (computed.symm.trans ends)
    rw [consumed, body]
    decide +kernel
  have meets := (framing greeting [[.received greeting]]).1 parsed read
  have fits : LengthFits greeting := meets.mp framed
  refine ⟨⟨parsed, read, meets⟩, ?_⟩
  have ran : (connection.run connection.init [[.received greeting]]).isSome = true := by
    decide +kernel
  obtain ⟨c, ran⟩ := Option.isSome_iff_exists.mp ran
  have guarded : connection.Guarded (fun c script => LengthFits (c.buffer ++ delivered script))
      connection.init [[.received greeting]] := by
    refine ⟨?_, fun _ _ => trivial⟩
    simpa [delivered, connection] using fits
  exact ⟨c, ran, (framing greeting _).2 guarded c ran⟩

/-- A request of 39 bytes that announces a body of minus 39 bytes. -/
def minusLength : Bytes := bytes "GET / HTTP/1.1\r\nContent-Length: -39\r\n\r\n"

/-- It is taken off the buffer without a byte, so it is answered for ever. -/
theorem minusLength_spins :
    (∃ parsed, tryParseRequest minusLength = some parsed ∧ ¬ Framed minusLength parsed) ∧
    ∀ n, ∃ calls c, connection.run connection.init calls = some c ∧
      c.received = minusLength.length ∧ c.produced.length = n + 1 := by
  have taken : (tryParseRequest minusLength).map (·.consumed) = some 0 := by decide +kernel
  obtain ⟨parsed, read, nothing⟩ := Option.map_eq_some_iff.mp taken
  refine ⟨⟨parsed, read, fun framed => ?_⟩, fun n => ?_⟩
  · have ends : find? [CR, LF, CR, LF] minusLength = some 35 := by decide +kernel
    have := (framed 35 ends).1
    omega
  · have first : connection.step connection.init [.received minusLength] =
        some ⟨minusLength, minusLength.length, [parsed.request]⟩ := by
      have empty : tryParseRequest [] = none := by decide
      have nonempty : ¬ minusLength.length ≤ 0 := by decide
      simp only [connection, readRequest, reduceCtorEq, if_false, empty, nonempty,
        List.nil_append, read, nothing, List.drop_zero, delivered, List.flatMap_cons,
        List.flatMap_nil, List.append_nil, Nat.zero_add]
    have again (c : Connection) (same : c.buffer = minusLength) :
        connection.step c [] = some ⟨minusLength, c.received, c.produced ++ [parsed.request]⟩ := by
      simp only [connection, readRequest, same, read, nothing, List.drop_zero, delivered,
        List.flatMap_nil, List.length_nil, Nat.add_zero]
    have ran : connection.run connection.init
        ([.received minusLength] :: List.replicate n []) =
          some ⟨minusLength, minusLength.length, List.replicate (n + 1) parsed.request⟩ := by
      induction n with
      | zero => simp only [List.replicate_zero, Machine.run_cons, first, Option.bind_some,
          Machine.run_nil, Nat.zero_add, List.replicate_one]
      | succ n ih =>
          rw [List.replicate_succ', ← List.cons_append, Machine.run_append, ih, Option.bind_some,
            Machine.run_cons, again _ rfl, Option.bind_some, Machine.run_nil,
            ← List.replicate_succ']
    exact ⟨_, _, ran, rfl, List.length_replicate⟩

end Corio.Coroutine
