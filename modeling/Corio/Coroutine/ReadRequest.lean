import Corio.Coroutine.Parser

/-! # `read_request`

One call parses the buffer, receives while no request is complete, and erases
what the request took. What the kernel and the other threads contribute is a
script of events, read from the left.
-/

namespace Corio.Coroutine

inductive Event where
  /-- `async_recv_for` returned the size of this chunk. Nothing is the end of the stream. -/
  | received (chunk : Bytes)
  /-- `async_recv_for` threw: a `system_error` with this code, or another exception. -/
  | failed (code : Option Nat)
  /-- `running_` was read as false. -/
  | stopped
  deriving DecidableEq, Repr

inductive Answer where
  | request (request : HttpRequest)
  | nullopt
  | threw (code : Option Nat)
  /-- The coroutine is suspended and the script has ended. -/
  | waiting
  deriving DecidableEq, Repr

def ETIMEDOUT : Nat := 110

def ECANCELED : Nat := 125

/-- The answer, the buffer it leaves and the rest of the script. -/
def readRequest : List Event → Bytes → Answer × Bytes × List Event
  | [], buffer =>
      match tryParseRequest buffer with
      | some parsed => (.request parsed.request, buffer.drop parsed.consumed, [])
      | none => (.waiting, buffer, [])
  | event :: script, buffer =>
      -- `running_` stays false, so this event is never used up.
      if event = .stopped then (.nullopt, buffer, event :: script)
      else
        match tryParseRequest buffer with
        | some parsed =>
            (.request parsed.request, buffer.drop parsed.consumed, event :: script)
        | none =>
            match event with
            | .received chunk =>
                if chunk.length ≤ 0 then (.nullopt, buffer, script)
                else readRequest script (buffer ++ chunk)
            | .failed code =>
                if code = some ETIMEDOUT ∨ code = some ECANCELED then (.nullopt, buffer, script)
                else (.threw code, buffer, script)
            | .stopped => (.nullopt, buffer, script)

/-- The bytes a script delivers. -/
def delivered (script : List Event) : Bytes :=
  script.flatMap fun event =>
    match event with
    | .received chunk => chunk
    | _ => []

/-- Chunks arriving one after the other. -/
def arrivals (chunks : List Bytes) : List Event := chunks.map .received

@[simp] theorem delivered_arrivals (chunks : List Bytes) :
    delivered (arrivals chunks) = chunks.flatten := by
  simp only [delivered, arrivals, List.flatMap_map, List.flatMap_id']

/-- The buffer is not a request after any proper part of these chunks, and is one
    after all of them. -/
structure Completes (buffer : Bytes) (chunks : List Bytes) (parsed : ParsedRequest) : Prop where
  nonempty : ∀ chunk ∈ chunks, chunk ≠ []
  open_ : ∀ n < chunks.length, tryParseRequest (buffer ++ (chunks.take n).flatten) = none
  closed : tryParseRequest (buffer ++ chunks.flatten) = some parsed

theorem Completes.nil {buffer : Bytes} {parsed : ParsedRequest}
    (closed : tryParseRequest buffer = some parsed) : Completes buffer [] parsed :=
  ⟨by simp, by simp, by simpa using closed⟩

theorem Completes.cons {buffer chunk : Bytes} {chunks : List Bytes} {parsed : ParsedRequest}
    (nonempty : chunk ≠ []) (open_ : tryParseRequest buffer = none)
    (later : Completes (buffer ++ chunk) chunks parsed) :
    Completes buffer (chunk :: chunks) parsed := by
  refine ⟨List.forall_mem_cons.mpr ⟨nonempty, later.nonempty⟩, ?_, ?_⟩
  · intro n before
    cases n with
    | zero => simpa using open_
    | succ n => simpa using later.open_ n (by simpa using before)
  · simpa using later.closed

/-- A call that answers a request took exactly the chunks that complete it. -/
theorem readRequest_request {script rest : List Event} {buffer left : Bytes} {r : HttpRequest}
    (answered : readRequest script buffer = (.request r, left, rest)) :
    ∃ chunks parsed, script = arrivals chunks ++ rest ∧ Completes buffer chunks parsed ∧
      r = parsed.request ∧ left = (buffer ++ chunks.flatten).drop parsed.consumed := by
  induction script generalizing buffer with
  | nil =>
      simp only [readRequest] at answered
      split at answered
      · rename_i parsed closed
        simp only [Prod.mk.injEq, Answer.request.injEq] at answered
        obtain ⟨rfl, rfl, rfl⟩ := answered
        exact ⟨[], parsed, rfl, Completes.nil closed, rfl, by simp⟩
      · simp at answered
  | cons event script ih =>
      simp only [readRequest] at answered
      split at answered
      · simp at answered
      · split at answered
        · rename_i parsed closed
          simp only [Prod.mk.injEq, Answer.request.injEq] at answered
          obtain ⟨rfl, rfl, rfl⟩ := answered
          exact ⟨[], parsed, rfl, Completes.nil closed, rfl, by simp⟩
        · rename_i open_
          split at answered
          · rename_i chunk _
            split at answered
            · simp at answered
            · rename_i nonempty
              obtain ⟨chunks, parsed, rfl, completes, same, left⟩ := ih answered
              have chunkNonempty : chunk ≠ [] := by
                rintro rfl
                exact nonempty (Nat.le_refl 0)
              exact ⟨chunk :: chunks, parsed, rfl, completes.cons chunkNonempty open_, same,
                by simpa using left⟩
          · split at answered <;> simp at answered
          · simp at answered

/-- Chunks that complete a request are all a call takes. -/
theorem readRequest_completes {chunks : List Bytes} {rest : List Event} {buffer : Bytes}
    {parsed : ParsedRequest} (running : rest.head? ≠ some .stopped)
    (completes : Completes buffer chunks parsed) :
    readRequest (arrivals chunks ++ rest) buffer =
      (.request parsed.request, (buffer ++ chunks.flatten).drop parsed.consumed, rest) := by
  induction chunks generalizing buffer with
  | nil =>
      have closed : tryParseRequest buffer = some parsed := by simpa using completes.closed
      cases rest with
      | nil => simp only [arrivals, List.map_nil, List.append_nil, readRequest, closed,
          List.flatten_nil]
      | cons event rest =>
          have notStopped : event ≠ .stopped := by simpa using running
          simp only [arrivals, List.map_nil, List.nil_append, readRequest, notStopped, if_false,
            closed, List.flatten_nil, List.append_nil]
  | cons chunk chunks ih =>
      have open_ : tryParseRequest buffer = none := by
        simpa using completes.open_ 0 (by simp)
      have nonempty : ¬ chunk.length ≤ 0 := by
        have := List.length_pos_of_ne_nil (completes.nonempty chunk List.mem_cons_self)
        omega
      have later : Completes (buffer ++ chunk) chunks parsed := by
        refine ⟨fun c member => completes.nonempty c (List.mem_cons_of_mem _ member), ?_, ?_⟩
        · intro n before
          simpa using completes.open_ (n + 1) (by simpa using before)
        · simpa using completes.closed
      have moves := ih later
      simp only [arrivals] at moves ⊢
      simp only [List.map_cons, List.cons_append, readRequest, reduceCtorEq, if_false, open_,
        nonempty, moves, List.flatten_cons, List.append_assoc]

end Corio.Coroutine
