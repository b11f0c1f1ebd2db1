import Corio.Coroutine.Serialize
import Corio.Coroutine.Framing

/-! # What a stream asks for

The requests at the front of a stream, read off the stream as a whole, and when
reading a part of it gives a part of them. Only a length that wraps around can make
a request out of bytes that have yet to come.
-/

namespace Corio.Coroutine

open Find WireRequest

/-- Requests parsed off the front of a stream one after the other, and what is left of it. -/
inductive Asks : Bytes → List HttpRequest → Bytes → Prop where
  | done (s : Bytes) : Asks s [] s
  | next {s rest : Bytes} {parsed : ParsedRequest} {requests : List HttpRequest} :
    tryParseRequest s = some parsed → Asks (s.drop parsed.consumed) requests rest →
      Asks s (parsed.request :: requests) rest

/-- Where a request may begin in the stream, its length fits. -/
def Sized (s : Bytes) : Prop := ∀ requests rest, Asks s requests rest → LengthFits rest

/-- The requests of a stream up to the first one that ends the connection. A request is
    never empty, so the length of the stream is fuel enough. -/
def requestsIn : Nat → Bytes → List HttpRequest
  | 0, _ => []
  | fuel + 1, s =>
      match tryParseRequest s with
      | none => []
      | some parsed =>
          if parsed.request.keepAlive then
            parsed.request :: requestsIn fuel (s.drop parsed.consumed)
          else [parsed.request]

/-- What a server owes an answer to that has been sent this stream. -/
def owed (s : Bytes) : List HttpRequest := requestsIn s.length s

/-- The connection is not to be kept behind one of these, except perhaps the last. -/
def Continued (requests : List HttpRequest) : Prop :=
  ∀ request ∈ requests.dropLast, request.keepAlive = true

theorem announced_append {s : Bytes} {length : Nat} (announces : announced s = some length)
    (more : Bytes) : announced (s ++ more) = some length := by
  obtain ⟨⟨ls, rest⟩, block, lengthIs⟩ := Option.bind_eq_some_iff.mp announces
  simp only [announced, block?_append block more, Option.bind_some]
  exact lengthIs

theorem LengthFits.of_append {s more : Bytes} (fits : LengthFits (s ++ more)) : LengthFits s :=
  fun headerEnd length ends announces =>
    fits headerEnd length (find?_append ends more) (announced_append announces more)

theorem LengthFits.consumed {s : Bytes} {parsed : ParsedRequest} (fits : LengthFits s)
    (read : tryParseRequest s = some parsed) : 0 < parsed.consumed ∧ parsed.consumed ≤ s.length := by
  obtain ⟨headerEnd, _, ends, _⟩ := tryParseRequest_some read
  obtain ⟨behind, inside, -⟩ := (framed_iff read).mpr fits headerEnd ends
  omega

theorem announced_of_head {s rest requestLine : Bytes} {fields : List Bytes} {head : Head}
    (block : block? CR LF s = some (requestLine :: fields, rest))
    (read : readHead requestLine fields = some head) : announced s = some head.length := by
  simp only [announced, block, Option.bind_some, List.tail_cons]
  simp only [readHead] at read
  split at read
  · cases read
  · obtain ⟨length, announces, same⟩ := Option.map_eq_some_iff.mp read
    rw [announces, ← same]

/-- A length that fits does not wrap the sum around. -/
theorem LengthFits.size {s rest requestLine : Bytes} {fields : List Bytes} {head : Head}
    (fits : LengthFits s) (block : block? CR LF s = some (requestLine :: fields, rest))
    (read : readHead requestLine fields = some head) :
    wrap64 (bodyBegin requestLine fields + head.length) =
      bodyBegin requestLine fields + head.length := by
  have long : 2 ≤ (unlines CR LF (requestLine :: fields)).length := by
    simp only [unlines_cons, List.length_append, List.length_cons, List.length_nil]
    omega
  have ends : find? [CR, LF, CR, LF] s =
      some ((unlines CR LF (requestLine :: fields)).length - 2) := by
    rw [find?_double_eq_block crlf_distinct, block, Option.map_some]
  have small := fits _ _ ends (announced_of_head block read)
  rw [wrap64, Nat.mod_eq_of_lt]
  rw [bodyBegin]
  omega

/-- A request stays what it is whatever follows it. -/
theorem parse_append {s more : Bytes} {parsed : ParsedRequest} (fits : LengthFits (s ++ more))
    (read : tryParseRequest s = some parsed) : tryParseRequest (s ++ more) = some parsed := by
  cases block : block? CR LF s with
  | none =>
      rw [tryParseRequest_incomplete block] at read
      cases read
  | some r =>
      obtain ⟨ls, rest⟩ := r
      obtain ⟨requestLine, fields, rfl⟩ := List.exists_cons_of_ne_nil (block?_some block).1
      rw [tryParseRequest_eq block] at read
      rw [tryParseRequest_eq (block?_append block more)]
      obtain ⟨head, headIs, accepted⟩ := Option.bind_eq_some_iff.mp read
      have length := block?_length block
      simp only [fits.of_append.size block headIs, headIs, Option.bind_some] at accepted ⊢
      split at accepted
      · cases accepted
      · rename_i enough
        have still : ¬ (s ++ more).length < bodyBegin requestLine fields + head.length := by
          rw [List.length_append]
          omega
        have inside : head.length ≤ rest.length := by
          rw [bodyBegin] at enough
          omega
        rw [if_neg still, List.take_append_of_le_length inside]
        exact accepted

theorem Sized.fits {s : Bytes} (sized : Sized s) : LengthFits s := sized [] s (.done s)

theorem Sized.drop {s : Bytes} {parsed : ParsedRequest} (sized : Sized s)
    (read : tryParseRequest s = some parsed) : Sized (s.drop parsed.consumed) :=
  fun _ _ asks => sized _ _ (.next read asks)

theorem Sized.nil : Sized [] := by
  intro requests rest asks
  cases asks with
  | done =>
      intro headerEnd length ends
      cases ends
  | next read =>
      have empty : tryParseRequest [] = none := by decide
      rw [empty] at read
      cases read

/-- More bytes leave the requests before them alone. -/
theorem Asks.append {s rest more : Bytes} {requests : List HttpRequest}
    (asks : Asks s requests rest) (sized : Sized (s ++ more)) :
    Asks (s ++ more) requests (rest ++ more) := by
  induction asks with
  | done s => exact .done _
  | next read _ ih =>
      have again := parse_append sized.fits read
      have inside := (sized.fits.of_append.consumed read).2
      have left : (_ ++ more).drop _ = _ := List.drop_append_of_le_length inside
      refine .next again ?_
      rw [left]
      exact ih (left ▸ sized.drop again)

theorem Sized.of_append {s more : Bytes} (sized : Sized (s ++ more)) : Sized s :=
  fun _ _ asks => (sized _ _ (asks.append sized)).of_append

/-- One more request. -/
theorem Asks.concat {s rest : Bytes} {requests : List HttpRequest} {parsed : ParsedRequest}
    (asks : Asks s requests rest) (read : tryParseRequest rest = some parsed) :
    Asks s (requests ++ [parsed.request]) (rest.drop parsed.consumed) := by
  induction asks with
  | done s => exact .next read (.done _)
  | next first _ ih => exact .next first (ih read)

theorem Asks.sized {s rest : Bytes} {requests : List HttpRequest} (asks : Asks s requests rest)
    (sized : Sized s) : Sized rest := by
  induction asks with
  | done => exact sized
  | next read _ ih => exact ih (sized.drop read)

section Owed

variable {s rest : Bytes} {requests : List HttpRequest} {fuel : Nat}

theorem requestsIn_none (read : tryParseRequest s = none) : requestsIn fuel s = [] := by
  cases fuel with
  | zero => rfl
  | succ fuel => simp only [requestsIn, read]

/-- A step of the induction over the requests: there is fuel for the first, and fuel enough
    is left for the others. -/
theorem requestsIn_some {parsed : ParsedRequest} (sized : Sized s) (enough : s.length ≤ fuel)
    (read : tryParseRequest s = some parsed) :
    ∃ left, (s.drop parsed.consumed).length ≤ left ∧
      requestsIn fuel s =
        if parsed.request.keepAlive then
          parsed.request :: requestsIn left (s.drop parsed.consumed)
        else [parsed.request] := by
  obtain ⟨positive, inside⟩ := sized.fits.consumed read
  cases fuel with
  | zero => omega
  | succ left =>
      refine ⟨left, ?_, ?_⟩
      · rw [List.length_drop]
        omega
      · simp only [requestsIn, read]

theorem Asks.prefix_requestsIn (asks : Asks s requests rest) (sized : Sized s)
    (continued : Continued requests) (enough : s.length ≤ fuel) :
    requests <+: requestsIn fuel s := by
  induction asks generalizing fuel with
  | done => exact List.nil_prefix
  | @next s rest parsed requests read asks ih =>
      obtain ⟨left, enough', same⟩ := requestsIn_some sized enough read
      rw [same]
      cases requests with
      | nil => split <;> exact List.prefix_cons_inj _ |>.mpr List.nil_prefix
      | cons second others =>
          obtain ⟨alive, later⟩ := List.forall_mem_cons.mp continued
          rw [if_pos alive]
          exact (List.prefix_cons_inj _).mpr (ih (sized.drop read) later enough')

/-- Requests that are answered so far are owed. -/
theorem Asks.prefix_owed (asks : Asks s requests rest) (sized : Sized s)
    (continued : Continued requests) : requests <+: owed s :=
  asks.prefix_requestsIn sized continued (Nat.le_refl _)

theorem Asks.requestsIn_eq (asks : Asks s requests rest) (sized : Sized s)
    (continued : Continued requests) (enough : s.length ≤ fuel)
    (ends : tryParseRequest rest = none ∨ ∃ last ∈ requests, last.keepAlive = false) :
    requestsIn fuel s = requests := by
  induction asks generalizing fuel with
  | done s =>
      rcases ends with none_ | ⟨last, member, -⟩
      · exact requestsIn_none none_
      · cases member
  | @next s rest parsed requests read asks ih =>
      obtain ⟨left, enough', same⟩ := requestsIn_some sized enough read
      rw [same]
      cases alive : parsed.request.keepAlive with
      | true =>
          have later : Continued requests := by
            cases requests with
            | nil => exact nofun
            | cons second others => exact (List.forall_mem_cons.mp continued).2
          have ends' : tryParseRequest rest = none ∨ ∃ last ∈ requests, last.keepAlive = false := by
            refine ends.imp_right fun ⟨last, member, closes⟩ => ?_
            rcases List.mem_cons.mp member with rfl | member
            · rw [alive] at closes
              cases closes
            · exact ⟨last, member, closes⟩
          rw [if_pos rfl, ih (sized.drop read) later enough' ends']
      | false =>
          cases requests with
          | nil => rfl
          | cons second others =>
              rw [(List.forall_mem_cons.mp continued).1] at alive
              cases alive

/-- Requests are all that is owed if no other is complete, or one of them ends the
    connection. -/
theorem Asks.owed_eq (asks : Asks s requests rest) (sized : Sized s)
    (continued : Continued requests)
    (ends : tryParseRequest rest = none ∨ ∃ last ∈ requests, last.keepAlive = false) :
    owed s = requests :=
  asks.requestsIn_eq sized continued (Nat.le_refl _) ends

end Owed

/-! ## Well-formed requests -/

theorem lengthFits_serialize (w : WireRequest) (more : Bytes) :
    LengthFits (w.serialize ++ more) := by
  intro headerEnd length ends announces
  have block := w.block_serialize more
  have size : (unlines CR LF (w.requestLine :: w.fields)).length + 2 + w.body.length =
      w.serialize.length := by
    simp only [serialize_eq, List.length_append, List.length_cons, List.length_nil]
  have fits : w.serialize.length < 2 ^ 64 := w.fits
  have long : 2 ≤ (unlines CR LF (w.requestLine :: w.fields)).length := by
    simp only [unlines_cons, List.length_append, List.length_cons, List.length_nil]
    omega
  rw [find?_double_eq_block crlf_distinct, block, Option.map_some, Option.some.injEq] at ends
  rw [announced_of_head block w.readHead_serialize, Option.some.injEq] at announces
  simp only at ends announces
  omega

/-- The requests of a pipeline are the ones that were written. -/
theorem Asks.of_stream {ws : List WireRequest} {requests : List HttpRequest} {rest : Bytes}
    (asks : Asks (stream ws) requests rest) :
    ∃ k ≤ ws.length, requests = (ws.take k).map expected ∧ rest = stream (ws.drop k) := by
  generalize start : stream ws = s at asks
  induction asks generalizing ws with
  | done s => exact ⟨0, Nat.zero_le _, rfl, start.symm⟩
  | @next s rest parsed requests read asks ih =>
      cases ws with
      | nil =>
          subst start
          have empty : tryParseRequest [] = none := by decide
          rw [show stream [] = [] from rfl, empty] at read
          cases read
      | cons w ws =>
          obtain rfl : w.serialize ++ stream ws = s := start
          rw [parse_serialize] at read
          obtain rfl := Option.some.inj read
          simp only [List.drop_left] at ih
          obtain ⟨k, inside, rfl, rfl⟩ := ih rfl
          exact ⟨k + 1, Nat.succ_le_succ inside, rfl, rfl⟩

theorem sized_stream (ws : List WireRequest) : Sized (stream ws) := by
  intro requests rest asks
  obtain ⟨k, inside, -, rfl⟩ := asks.of_stream
  cases ws.drop k with
  | nil => exact Sized.nil.fits
  | cons w others => exact lengthFits_serialize w _

end Corio.Coroutine
