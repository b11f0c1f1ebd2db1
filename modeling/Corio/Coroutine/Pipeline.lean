import Corio.Coroutine.Serialize
import Mathlib.Data.Nat.Find

/-! # Pipelined requests

Calls of `read_request` on one buffer, against a stream of well-formed requests
that arrives in arbitrary pieces. After every call exactly the fewest pieces that
cover the requests so far have been asked for.
-/

namespace Corio.Coroutine

open WireRequest

/-- Calls of `read_request` on one buffer, as long as they answer requests: the
    requests, the buffer and the rest of the script. -/
def readRequests : Nat → List Event → Bytes → List HttpRequest × Bytes × List Event
  | 0, script, buffer => ([], buffer, script)
  | n + 1, script, buffer =>
      match readRequest script buffer with
      | (.request request, left, rest) =>
          let later := readRequests n rest left
          (request :: later.1, later.2)
      | (_, left, rest) => ([], left, rest)

/-- `k` is the least number of pieces that hold `n` bytes together with the buffer. -/
structure Fewest (buffer : Bytes) (chunks : List Bytes) (n k : Nat) : Prop where
  covers : n ≤ (buffer ++ (chunks.take k).flatten).length
  least : ∀ j < k, (buffer ++ (chunks.take j).flatten).length < n

theorem exists_fewest {buffer : Bytes} {chunks : List Bytes} {n : Nat}
    (enough : n ≤ (buffer ++ chunks.flatten).length) :
    ∃ k ≤ chunks.length, Fewest buffer chunks n k := by
  have all : n ≤ (buffer ++ (chunks.take chunks.length).flatten).length := by
    rwa [List.take_length]
  have some_ : ∃ k, n ≤ (buffer ++ (chunks.take k).flatten).length := ⟨_, all⟩
  exact ⟨Nat.find some_, Nat.find_min' some_ all, Nat.find_spec some_,
    fun j before => Nat.not_le.mp (Nat.find_min some_ before)⟩

/-- What has been taken and what has not are the whole stream. -/
theorem taken_and_rest (buffer : Bytes) (chunks : List Bytes) (k : Nat) :
    buffer ++ (chunks.take k).flatten ++ (chunks.drop k).flatten = buffer ++ chunks.flatten := by
  rw [List.append_assoc, ← List.flatten_append, List.take_append_drop]

/-- One call takes the pieces that complete the next request, and no other. -/
theorem readRequest_next {r : WireRequest} {buffer tail : Bytes} {chunks : List Bytes}
    (nonempty : ∀ chunk ∈ chunks, chunk ≠ [])
    (whole : buffer ++ chunks.flatten = r.serialize ++ tail) :
    ∃ k, Fewest buffer chunks r.serialize.length k ∧
      readRequest (arrivals chunks) buffer =
        (.request r.expected, (buffer ++ (chunks.take k).flatten).drop r.serialize.length,
          arrivals (chunks.drop k)) := by
  have enough : r.serialize.length ≤ (buffer ++ chunks.flatten).length := by
    rw [whole, List.length_append]
    omega
  obtain ⟨k, inside, fewest⟩ := exists_fewest enough
  have initial (j : Nat) : buffer ++ (chunks.take j).flatten <+: r.serialize ++ tail :=
    ⟨(chunks.drop j).flatten, by rw [taken_and_rest, whole]⟩
  have completes : Completes buffer (chunks.take k) ⟨r.expected, r.serialize.length⟩ := by
    refine ⟨fun chunk member => nonempty chunk (List.mem_of_mem_take member), ?_, ?_⟩
    · intro j before
      rw [List.length_take] at before
      rw [List.take_take, Nat.min_eq_left (by omega)]
      have proper := fewest.least j (by omega)
      exact parse_part
        (List.prefix_of_prefix_length_le (initial j) (List.prefix_append _ _) (by omega)) proper
    · obtain ⟨rest, same⟩ :=
        List.prefix_of_prefix_length_le (List.prefix_append _ _) (initial k) fewest.covers
      rw [← same]
      exact parse_serialize rest
  have running : (arrivals (chunks.drop k)).head? ≠ some .stopped := by
    cases chunks.drop k with
    | nil => simp [arrivals]
    | cons chunk rest => simp [arrivals]
  refine ⟨k, fewest, ?_⟩
  have answer := readRequest_completes running completes
  rwa [arrivals, arrivals, ← List.map_append, List.take_append_drop] at answer

/-- One more call after calls that all answered. -/
theorem readRequests_succ {n : Nat} {script rest rest' : List Event} {buffer left left' : Bytes}
    {answers : List HttpRequest} {request : HttpRequest}
    (calls : readRequests n script buffer = (answers, left, rest)) (all : answers.length = n)
    (next : readRequest rest left = (.request request, left', rest')) :
    readRequests (n + 1) script buffer = (answers ++ [request], left', rest') := by
  induction n generalizing script buffer answers with
  | zero =>
      simp only [readRequests, Prod.mk.injEq] at calls
      obtain ⟨rfl, rfl, rfl⟩ := calls
      simp only [readRequests, next, List.nil_append]
  | succ n ih =>
      rw [readRequests] at calls
      split at calls
      · rename_i first mid script' answered
        obtain ⟨rfl, same⟩ := Prod.mk.inj calls
        have remaining : readRequests n script' mid =
            ((readRequests n script' mid).1, left, rest) := Prod.ext rfl same
        have later := ih remaining (by simpa using all)
        rw [readRequests]
        simp only [answered, later, List.cons_append]
      · simp only [Prod.mk.injEq] at calls
        obtain ⟨rfl, -⟩ := calls
        simp at all

theorem stream_append (first second : List WireRequest) :
    stream (first ++ second) = stream first ++ stream second := by
  simp only [stream, List.flatMap_append]

/-- The state after each of the calls. -/
theorem readRequests_prefix {rs : List WireRequest} {chunks : List Bytes}
    (nonempty : ∀ chunk ∈ chunks, chunk ≠ []) (cut : chunks.flatten = stream rs)
    {i : Nat} (inside : i ≤ rs.length) :
    ∃ k, Fewest [] chunks (stream (rs.take i)).length k ∧
      readRequests i (arrivals chunks) [] =
        ((rs.take i).map expected, (chunks.take k).flatten.drop (stream (rs.take i)).length,
          arrivals (chunks.drop k)) := by
  induction i with
  | zero => exact ⟨0, ⟨Nat.zero_le _, by simp⟩, by simp [readRequests]⟩
  | succ i ih =>
      obtain ⟨k, fewest, calls⟩ := ih (by omega)
      have covers := fewest.covers
      rw [List.nil_append] at covers
      let left := (chunks.take k).flatten.drop (stream (rs.take i)).length
      have nextRequest : rs.drop i = rs[i] :: rs.drop (i + 1) := List.drop_eq_getElem_cons inside
      have upTo : rs.take (i + 1) = rs.take i ++ [rs[i]] := (List.take_append_getElem inside).symm
      have whole : left ++ (chunks.drop k).flatten =
          rs[i].serialize ++ stream (rs.drop (i + 1)) := by
        have parts : stream rs = stream (rs.take i) ++ stream (rs.drop i) := by
          rw [← stream_append, List.take_append_drop]
        rw [← List.drop_append_of_le_length covers, ← List.flatten_append, List.take_append_drop,
          cut, parts, List.drop_left, nextRequest]
        rfl
      obtain ⟨k', fewest', call⟩ := readRequest_next
        (fun chunk member => nonempty chunk (List.mem_of_mem_drop member)) whole
      have soFar (j : Nat) : (chunks.take (k + j)).flatten =
          (chunks.take k).flatten ++ ((chunks.drop k).take j).flatten := by
        rw [List.take_add, List.flatten_append]
      have leftLength : left.length =
          (chunks.take k).flatten.length - (stream (rs.take i)).length := List.length_drop
      have served : (stream (rs.take (i + 1))).length =
          (stream (rs.take i)).length + rs[i].serialize.length := by
        rw [upTo, stream_append, List.length_append]
        simp [stream]
      refine ⟨k + k', ⟨?_, ?_⟩, ?_⟩
      · have covers' := fewest'.covers
        rw [List.length_append] at covers'
        rw [List.nil_append, soFar, List.length_append, served]
        omega
      · intro j before
        by_cases early : j < k
        · have := fewest.least j early
          omega
        · obtain ⟨j, rfl⟩ := Nat.exists_eq_add_of_le (Nat.not_lt.mp early)
          have least' := fewest'.least j (by omega)
          rw [List.length_append] at least'
          rw [List.nil_append, soFar, List.length_append, served]
          omega
      · have step := readRequests_succ calls (by simp; omega) call
        rw [step, upTo, List.map_append, ← upTo, served, soFar, ← List.drop_drop,
          List.drop_append_of_le_length covers, List.drop_drop]
        rfl

/-- A pipeline of well-formed requests is read back, piece by piece as needed, and
    nothing is left over. -/
theorem readRequests_stream (rs : List WireRequest) (chunks : List Bytes)
    (nonempty : ∀ chunk ∈ chunks, chunk ≠ []) (cut : chunks.flatten = stream rs) :
    (∀ i ≤ rs.length, ∃ k, Fewest [] chunks (stream (rs.take i)).length k ∧
      readRequests i (arrivals chunks) [] =
        ((rs.take i).map expected, (chunks.take k).flatten.drop (stream (rs.take i)).length,
          arrivals (chunks.drop k))) ∧
    readRequests rs.length (arrivals chunks) [] = (rs.map expected, [], []) := by
  refine ⟨fun i inside => readRequests_prefix nonempty cut inside, ?_⟩
  obtain ⟨k, fewest, calls⟩ := readRequests_prefix nonempty cut (Nat.le_refl rs.length)
  have covers := fewest.covers
  rw [List.nil_append, List.take_length, ← cut] at covers
  have parts := taken_and_rest [] chunks k
  have restLength : (chunks.drop k).flatten.length = 0 := by
    have := congrArg List.length parts
    simp only [List.length_append, List.length_nil] at this
    omega
  have noneLeft : chunks.drop k = [] := by
    cases rest : chunks.drop k with
    | nil => rfl
    | cons chunk others =>
        rw [rest, List.flatten_cons, List.length_append] at restLength
        have member : chunk ∈ chunks := List.mem_of_mem_drop (rest ▸ List.mem_cons_self)
        exact absurd (List.length_eq_zero_iff.mp (by omega)) (nonempty chunk member)
  have takenAll : (chunks.take k).flatten.drop (stream rs).length = [] := by
    rw [noneLeft] at parts
    simp only [List.flatten_nil, List.append_nil, List.nil_append] at parts
    rw [parts, cut, List.drop_length]
  rw [calls, List.take_length, takenAll, noneLeft]
  rfl

/-- A request whose body looks like the end of a header block. -/
def tricky : WireRequest where
  method := bytes "POST"
  target := bytes "/form?q=1"
  version := bytes "HTTP/1.1"
  headers := [(bytes "Content-Length", bytes "4")]
  body := bytes "\r\n\r\n"
  methodToken := ⟨⟨by decide, by decide⟩, by decide, by decide⟩
  targetToken := ⟨⟨by decide, by decide⟩, by decide, by decide⟩
  versionToken := ⟨⟨by decide, by decide⟩, by decide, by decide⟩
  names := by
    intro header member
    obtain rfl := List.mem_singleton.mp member
    exact ⟨⟨by decide, by decide⟩, by decide, by decide⟩
  values := by
    intro header member
    obtain rfl := List.mem_singleton.mp member
    exact ⟨⟨by decide, by decide⟩, by decide⟩
  distinct := List.nodup_singleton _
  lengths := by
    intro header member _
    obtain rfl := List.mem_singleton.mp member
    exact ⟨by decide, List.all_eq_true.mp (by decide), by decide⟩
  announced := fun _ => ⟨_, List.mem_singleton_self _, by decide⟩
  fits := by decide

theorem readRequests_tricky :
    readRequests 2 (arrivals [(stream [tricky, tricky]).take 50, (stream [tricky, tricky]).drop 50])
      [] = ([tricky.expected, tricky.expected], [], []) := by
  refine (readRequests_stream [tricky, tricky] _ ?_ ?_).2
  · decide
  · simp

end Corio.Coroutine
