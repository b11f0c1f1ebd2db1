import Corio.Epoll.Verdict
import Corio.Foundation.Machine

/-! # The response stream of a connection

A machine over the turns of the handlers, which also records the responses that
were produced. As long as every turn is orderly, what was written and what waits in
`outBuffer_` is the concatenation of the responses; the greeting, an error page and
a cleared buffer break this when something is waiting.
-/

namespace Corio.Epoll

def errorPage (errNum : Nat) (shortMsg : Bytes) : Bytes :=
  errorHeader errNum shortMsg ++ errorBody errNum shortMsg

/-- The responses a decision produces: one or none. -/
def answers (fs : FileSystem) (decided : HttpData × Verdict) : List Bytes :=
  match decided.2 with
  | .wait => []
  | .refuse shortMsg => [errorPage 400 shortMsg]
  | .analyse =>
      match replyTo fs decided.1 with
      | .nothing => []
      | .hello => [helloResponse]
      | .page response => [response]
      | .notFound _ => [errorPage 404 (bytes "Not Found!")]

structure Stream where
  d : HttpData
  wire : Bytes
  responses : List Bytes
  /-- `handleRead` has called itself. -/
  reading : Bool
  deriving DecidableEq, Repr

inductive Turn where
  /-- `handleEvents` starts over with `events_ = 0`. -/
  | event
  | read (reads : List ReadResult) (writes : List WriteResult)
  | write (writes : List WriteResult)
  | conn
  deriving DecidableEq, Repr

/-- The connection is open and no error page was sent. -/
def Live (d : HttpData) : Prop := d.error = false ∧ d.connectionState ≠ .disconnected

instance (d : HttpData) : Decidable (Live d) := by
  unfold Live
  infer_instance

/-- The handlers of one connection, turn by turn. No write fails. A turn may read at any
    moment, also when epoll would not report the socket. -/
def stream (fs : FileSystem) : Machine Stream Turn where
  init := ⟨{}, [], [], false⟩
  step s turn :=
    match turn with
    | .event =>
        if Live s.d ∧ ¬ s.reading then some { s with d := { s.d with events := {} } } else none
    | .read reads writes =>
        if Live s.d ∧ .failed ∉ writes then
          match judge s.d reads, handleReadPass fs s.d ⟨reads, writes, s.wire⟩ with
          | .ok decided, .ok (again, d, socket) =>
              some ⟨d, socket.wire, s.responses ++ answers fs decided, again⟩
          | _, _ => none
        else none
    | .write writes =>
        if Live s.d ∧ .failed ∉ writes ∧ ¬ s.reading then
          let written := handleWrite s.d ⟨[], writes, s.wire⟩
          some { s with d := written.1, wire := written.2.wire }
        else none
    | .conn =>
        if s.d.connectionState ≠ .disconnected ∧ ¬ s.reading then
          some { s with d := handleConn s.d }
        else none

/-- What was written and what waits are the responses in their order, and only bytes
    of the last one can be missing. -/
structure Intact (s : Stream) : Prop where
  ordered : s.wire ++ s.d.outBuffer <+: s.responses.flatten
  complete : s.responses.dropLast.flatten <+: s.wire ++ s.d.outBuffer

/-- A short write is not taken for a whole one when the size is cast to `int`. -/
def SafeFlush (writes : List WriteResult) (sbuff : Bytes) : Prop :=
  let written := (writeLoop writes sbuff.length 0).writeSum
  written < sbuff.length → (written : Int) ≠ toInt sbuff.length

/-- No byte of the body is written behind a header that was cut short. -/
def PageWhole (writes : List WriteResult) (header body : Bytes) : Prop :=
  let first := writeLoop writes header.length 0
  first.writeSum = header.length ∨ (writeLoop first.writes body.length 0).writeSum = 0

/-- An error page is sent while nothing is waiting. -/
def PageAlone (s : Stream) (writes : List WriteResult) (errNum : Nat) (shortMsg : Bytes) : Prop :=
  s.d.outBuffer = [] ∧ PageWhole writes (errorHeader errNum shortMsg) (errorBody errNum shortMsg)

/-- The condition on a decision: while bytes are waiting, no error page is sent and no
    greeting served. -/
def Duly (fs : FileSystem) (s : Stream) (writes : List WriteResult)
    (decided : HttpData × Verdict) : Prop :=
  match decided.2 with
  | .wait => SafeFlush writes s.d.outBuffer
  | .refuse shortMsg => PageAlone s writes 400 shortMsg
  | .analyse =>
      match replyTo fs decided.1 with
      | .nothing => True
      | .hello => s.d.outBuffer = [] ∧ SafeFlush writes helloResponse
      | .page response => SafeFlush writes (s.d.outBuffer ++ response)
      | .notFound _ => PageAlone s writes 404 (bytes "Not Found!")

/-- The condition on a turn, in the state before it. -/
def Orderly (fs : FileSystem) (s : Stream) : Turn → Prop
  | .event => True
  | .conn => True
  | .write writes => SafeFlush writes s.d.outBuffer
  | .read reads writes => ∀ decided, judge s.d reads = .ok decided → Duly fs s writes decided

section Decidable

instance (writes : List WriteResult) (sbuff : Bytes) : Decidable (SafeFlush writes sbuff) := by
  unfold SafeFlush
  infer_instance

instance (s : Stream) (writes : List WriteResult) (errNum : Nat) (shortMsg : Bytes) :
    Decidable (PageAlone s writes errNum shortMsg) := by
  unfold PageAlone PageWhole
  infer_instance

instance (fs : FileSystem) (s : Stream) (writes : List WriteResult)
    (decided : HttpData × Verdict) : Decidable (Duly fs s writes decided) := by
  unfold Duly
  split
  · infer_instance
  · infer_instance
  · split <;> infer_instance

instance (fs : FileSystem) (s : Stream) (turn : Turn) : Decidable (Orderly fs s turn) :=
  match turn with
  | .event | .conn => .isTrue trivial
  | .write writes => inferInstanceAs (Decidable (SafeFlush writes s.d.outBuffer))
  | .read reads writes =>
      match judged : judge s.d reads with
      | .error _ => decidable_of_iff True (by simp [Orderly, judged])
      | .ok decided => decidable_of_iff (Duly fs s writes decided) (by simp [Orderly, judged])

end Decidable

section Writes

variable {writes : List WriteResult}

theorem writeLoop_bounds (writes : List WriteResult) (nleft writeSum : Nat) :
    writeSum ≤ (writeLoop writes nleft writeSum).writeSum ∧
      (writeLoop writes nleft writeSum).writeSum ≤ writeSum + nleft := by
  induction writes generalizing nleft writeSum with
  | nil => simp [writeLoop]
  | cons result writes ih =>
      simp only [writeLoop]
      split
      · exact ⟨Nat.le_refl _, Nat.le_add_right _ _⟩
      · cases result with
        | accepted n =>
            have := ih (nleft - min n nleft) (writeSum + min n nleft)
            simp only
            omega
        | interrupted => exact ih nleft writeSum
        | again => simp
        | failed => simp

/-- What the loop leaves of the script is its end. -/
theorem writeLoop_writes (writes : List WriteResult) (nleft writeSum : Nat) :
    (writeLoop writes nleft writeSum).writes <:+ writes := by
  induction writes generalizing nleft writeSum with
  | nil => exact List.suffix_refl _
  | cons result writes ih =>
      simp only [writeLoop]
      split
      · exact List.suffix_refl _
      · cases result with
        | accepted | interrupted => exact (ih _ _).trans (List.suffix_cons _ _)
        | again | failed => exact List.suffix_cons _ _

/-- The loop only fails when a write does. -/
theorem writeLoop_clean (clean : .failed ∉ writes) (nleft writeSum : Nat) :
    (writeLoop writes nleft writeSum).failed = false := by
  induction writes generalizing nleft writeSum with
  | nil => rfl
  | cons result writes ih =>
      obtain ⟨notFailed, later⟩ := not_or.mp (List.mem_cons.not.mp clean)
      simp only [writeLoop]
      split
      · rfl
      · cases result with
        | accepted | interrupted => exact ih later _ _
        | again => rfl
        | failed => exact absurd rfl notFailed

/-- A write that does not fail moves bytes from the buffer to the wire. -/
theorem writenString_moves {socket : Socket} {sbuff : Bytes} (clean : .failed ∉ socket.writes)
    (safe : SafeFlush socket.writes sbuff) :
    (writenString socket sbuff).1 = false ∧
      (writenString socket sbuff).2.2.wire ++ (writenString socket sbuff).2.1 =
        socket.wire ++ sbuff := by
  have inside := (writeLoop_bounds socket.writes sbuff.length 0).2
  rw [Nat.zero_add] at inside
  have ok := writeLoop_clean clean sbuff.length 0
  simp only [writenString, ok, Bool.false_eq_true, if_false]
  split
  · rename_i whole
    have all : (writeLoop socket.writes sbuff.length 0).writeSum = sbuff.length := by
      by_contra short
      exact safe (by omega) whole
    simp only [all, List.take_length, List.append_nil, and_self]
  · simp only [List.append_assoc, List.take_append_drop, and_self]

/-- An error page that is not torn apart is a prefix of itself. -/
theorem handleError_page {socket : Socket} {errNum : Nat} {shortMsg : Bytes}
    (whole : PageWhole socket.writes (errorHeader errNum shortMsg) (errorBody errNum shortMsg)) :
    ∃ part, part <+: errorPage errNum shortMsg ∧
      (handleError socket errNum shortMsg).wire = socket.wire ++ part := by
  refine ⟨_, ?_, by simp only [handleError, writen, List.append_assoc]; rfl⟩
  rcases whole with all | nothing
  · simp only [all, List.take_length, errorPage]
    exact List.prefix_append_right_inj _ |>.mpr (List.take_prefix _ _)
  · simp only [nothing, List.take_zero, List.append_nil, errorPage]
    exact (List.take_prefix _ _).trans (List.prefix_append _ _)

end Writes

/-- Everything produced is on the wire or waiting. -/
def Accounted (d : HttpData) (wire : Bytes) (responses : List Bytes) : Prop :=
  wire ++ d.outBuffer = responses.flatten

variable {fs : FileSystem} {d : HttpData} {socket : Socket} {responses : List Bytes}

theorem handleWrite_accounted (clean : .failed ∉ socket.writes)
    (safe : SafeFlush socket.writes d.outBuffer) (noError : d.error = false) :
    (handleWrite d socket).1.error = false ∧
      (handleWrite d socket).2.wire ++ (handleWrite d socket).1.outBuffer =
        socket.wire ++ d.outBuffer := by
  obtain ⟨ok, moved⟩ := writenString_moves clean safe
  unfold handleWrite
  split
  · simp only [ok, Bool.false_eq_true, if_false]
    split <;> exact ⟨noError, moved⟩
  · exact ⟨noError, rfl⟩

theorem flush_accounted (clean : .failed ∉ socket.writes)
    (safe : SafeFlush socket.writes d.outBuffer) (noError : d.error = false) :
    (flush d socket).1.error = false ∧
      (flush d socket).2.wire ++ (flush d socket).1.outBuffer = socket.wire ++ d.outBuffer := by
  unfold flush
  split
  · exact handleWrite_accounted clean safe noError
  · exact ⟨noError, rfl⟩

theorem finishPass_keeps (d : HttpData) :
    (finishPass d).2.outBuffer = d.outBuffer ∧ (finishPass d).2.error = d.error := by
  unfold finishPass
  split
  · exact ⟨rfl, rfl⟩
  · split <;> exact ⟨rfl, rfl⟩

theorem afterRead_accounted (clean : .failed ∉ socket.writes)
    (safe : SafeFlush socket.writes d.outBuffer) (noError : d.error = false)
    (accounted : Accounted d socket.wire responses) :
    Accounted (afterRead d socket).2.1 (afterRead d socket).2.2.wire responses := by
  rw [afterRead_ok noError]
  have moved := (flush_accounted clean safe noError).2
  simp only [Accounted, (finishPass_keeps _).1, moved]
  exact accounted

/-- The invariant of the runs: intact, and accounted for as long as there is no error. -/
structure Kept (s : Stream) : Prop where
  intact : Intact s
  accounted : s.d.error = false → Accounted s.d s.wire s.responses

theorem dropLast_flatten (responses : List Bytes) :
    responses.dropLast.flatten <+: responses.flatten := by
  cases responses using List.reverseRecOn with
  | nil => exact List.prefix_refl _
  | append_singleton rest last =>
      rw [List.dropLast_concat, List.flatten_append]
      exact List.prefix_append _ _

theorem Kept.of_accounted {s : Stream} (accounted : Accounted s.d s.wire s.responses) : Kept s where
  intact := ⟨accounted ▸ List.prefix_refl _, accounted ▸ dropLast_flatten _⟩
  accounted := fun _ => accounted

/-- An error page behind responses that are all on the wire. -/
theorem Kept.of_page {s : Stream} {wire page part : Bytes} {before : List Bytes}
    (error : s.d.error = true) (quiet : s.d.outBuffer = []) (sent : wire = before.flatten)
    (wireIs : s.wire = wire ++ part) (responsesAre : s.responses = before ++ [page])
    (inside : part <+: page) : Kept s where
  intact := by
    refine ⟨?_, ?_⟩
    · rw [quiet, List.append_nil, wireIs, sent, responsesAre, List.flatten_append]
      exact (List.prefix_append_right_inj _).mpr (by simpa using inside)
    · rw [quiet, List.append_nil, wireIs, sent, responsesAre, List.dropLast_concat]
      exact List.prefix_append _ _
  accounted := by
    intro noError
    rw [error] at noError
    cases noError

/-- The stream after a turn whose decision was carried out. -/
def ended (responses : List Bytes) (carried : HttpData × Socket) : Stream :=
  let after := afterRead carried.1 carried.2
  ⟨after.2.1, after.2.2.wire, responses, after.1⟩

/-- A turn of `handleRead` in terms of its decision. -/
theorem ended_accounted (clean : .failed ∉ socket.writes) (noError : d.error = false)
    (safe : SafeFlush socket.writes d.outBuffer) (accounted : Accounted d socket.wire responses) :
    Kept (ended responses (d, socket)) :=
  .of_accounted (afterRead_accounted clean safe noError accounted)

/-- After an error nothing is flushed any more. -/
theorem ended_error (error : d.error = true) :
    ended responses (d, socket) = ⟨d, socket.wire, responses, false⟩ := by
  simp only [ended, afterRead, error, if_true]

/-- An error page behind what is accounted for. -/
theorem ended_page {errNum : Nat} {shortMsg : Bytes} (error : d.error = true)
    (quiet : d.outBuffer = []) (sent : socket.wire = responses.flatten)
    (whole : PageWhole socket.writes (errorHeader errNum shortMsg) (errorBody errNum shortMsg)) :
    Kept (ended (responses ++ [errorPage errNum shortMsg])
      (d, handleError socket errNum shortMsg)) := by
  obtain ⟨part, inside, wireIs⟩ := handleError_page whole
  rw [ended_error error]
  exact .of_page error quiet sent wireIs rfl inside

/-- Answering a request keeps the stream, under the condition for its reply. -/
theorem analyse_kept {s : Stream} (noError : d.error = false) (clean : .failed ∉ socket.writes)
    (waiting : d.outBuffer = s.d.outBuffer) (accounted : Accounted d socket.wire responses)
    (condition : Duly fs s socket.writes (d, .analyse)) :
    Kept (ended (responses ++ answers fs (d, .analyse)) (analyse fs d socket)) := by
  simp only [answers, analyse, analysisRequest_eq]
  simp only [Duly] at condition
  cases reply : replyTo fs d with
  | nothing =>
      simp only [ended_error, List.append_nil]
      exact .of_accounted accounted
  | hello =>
      rw [reply] at condition
      obtain ⟨quiet, safe⟩ := condition
      refine ended_accounted clean noError safe ?_
      simp only [Accounted, waiting, quiet, List.append_nil] at accounted
      simp only [Accounted, accounted, List.flatten_append, List.flatten_singleton]
  | page response =>
      rw [reply, ← waiting] at condition
      refine ended_accounted clean noError condition ?_
      simp only [Accounted] at accounted
      simp only [Accounted, ← accounted, List.append_assoc, List.flatten_append,
        List.flatten_singleton]
  | notFound cleared =>
      rw [reply] at condition
      obtain ⟨quiet, whole⟩ := condition
      rw [quiet] at waiting
      simp only [Accounted, waiting, List.append_nil] at accounted
      exact ended_page rfl (by cases cleared <;> simp [waiting]) accounted whole

/-- A read turn keeps the stream. -/
theorem carryOut_kept {s : Stream} {decided : HttpData × Verdict} {reads : List ReadResult}
    (kept : Kept s) (live : Live s.d) (clean : .failed ∉ socket.writes)
    (sameWire : socket.wire = s.wire) (orderly : Orderly fs s (.read reads socket.writes))
    (judged : judge s.d reads = .ok decided) :
    Kept (ended (s.responses ++ answers fs decided) (carryOut fs socket decided)) := by
  have same := judge_decided judged
  have noError : decided.1.error = false := same.error.trans live.1
  have accounted : Accounted decided.1 socket.wire s.responses := by
    simpa only [Accounted, same.outBuffer, sameWire] using kept.accounted live.1
  have condition := orderly decided judged
  obtain ⟨d, verdict⟩ := decided
  cases verdict with
  | wait =>
      simp only [answers, List.append_nil]
      exact ended_accounted clean noError (same.outBuffer ▸ condition) accounted
  | refuse shortMsg =>
      obtain ⟨quiet, whole⟩ := condition
      have waiting : d.outBuffer = [] := same.outBuffer.trans quiet
      simp only [Accounted, waiting, List.append_nil] at accounted
      exact ended_page rfl waiting accounted whole
  | analyse => exact analyse_kept noError clean same.outBuffer accounted condition

/-- Every orderly turn keeps the stream. -/
theorem stream_step (s : Stream) (turn : Turn) (next : Stream) (kept : Kept s)
    (orderly : Orderly fs s turn) (taken : (stream fs).step s turn = some next) : Kept next := by
  cases turn with
  | event =>
      simp only [stream, Option.ite_none_right_eq_some, Option.some.injEq] at taken
      obtain ⟨-, rfl⟩ := taken
      exact ⟨⟨kept.intact.ordered, kept.intact.complete⟩, kept.accounted⟩
  | read reads writes =>
      simp only [stream, Option.ite_none_right_eq_some] at taken
      obtain ⟨⟨live, clean⟩, taken⟩ := taken
      cases judged : judge s.d reads with
      | error fault => simp only [judged, reduceCtorEq] at taken
      | ok decided =>
          have judged_ : judge s.d (Socket.mk reads writes s.wire).reads = .ok decided := judged
          simp only [judged, handleReadPass_judged judged_, Option.some.injEq] at taken
          obtain rfl := taken
          exact carryOut_kept kept live clean rfl orderly judged
  | write writes =>
      simp only [stream, Option.ite_none_right_eq_some, Option.some.injEq] at taken
      obtain ⟨⟨live, clean, -⟩, rfl⟩ := taken
      have clean_ : .failed ∉ (Socket.mk [] writes s.wire).writes := clean
      have moved := (handleWrite_accounted clean_ orderly live.1).2
      exact .of_accounted (moved.trans (kept.accounted live.1))
  | conn =>
      simp only [stream, Option.ite_none_right_eq_some, Option.some.injEq] at taken
      obtain ⟨-, rfl⟩ := taken
      obtain ⟨connectionState, events, same⟩ := handleConn_same s.d
      rw [same]
      exact ⟨⟨kept.intact.ordered, kept.intact.complete⟩, kept.accounted⟩

theorem stream_init : Kept (stream fs).init := .of_accounted rfl

/-- The bytes written are a prefix of the responses in their order, and nothing waiting
    is lost, in every state of a run whose turns are orderly. -/
theorem stream_intact (fs : FileSystem) (turns : List Turn) (s : Stream)
    (orderly : (stream fs).Guarded (Orderly fs) (stream fs).init turns)
    (ran : (stream fs).run (stream fs).init turns = some s) : Intact s :=
  (Machine.Guarded.preserves stream_step stream_init orderly ran).intact

/-- Two requests for the icon in one piece, flushed in three. The header parser takes the
    byte behind a request with it, so an empty line separates them. -/
def iconTurns : List Turn :=
  let getIcon := bytes "GET /favicon.ico HTTP/1.1\r\nHost: a\r\n\r\n"
  [.event, .read [.data (getIcon ++ bytes "\r\n" ++ getIcon)] [.accepted 10, .again],
    .read [] [.accepted 700, .again], .conn, .event, .write [.accepted 50, .again], .conn]

theorem stream_intact_icons :
    ∃ s, (stream noFiles).run (stream noFiles).init iconTurns = some s ∧ Intact s := by
  obtain ⟨s, ran⟩ := Option.isSome_iff_exists.mp
    (show ((stream noFiles).run (stream noFiles).init iconTurns).isSome by decide +kernel)
  exact ⟨s, ran, stream_intact noFiles iconTurns s (by decide +kernel) ran⟩

/-- Ten bytes of the greeting are written when the next request is refused. -/
def helloTurns : List Turn :=
  let getHello := bytes "GET /hello HTTP/1.1\r\nHost: a\r\n\r\n"
  [.event, .read [.data (getHello ++ getHello)] [.accepted 10, .again], .read [] [], .conn]

theorem hello_overtaken :
    ∃ s, (stream noFiles).run (stream noFiles).init helloTurns = some s ∧
      ¬ s.wire <+: s.responses.flatten := by
  obtain ⟨s, ran⟩ := Option.isSome_iff_exists.mp
    (show ((stream noFiles).run (stream noFiles).init helloTurns).isSome by decide +kernel)
  have overtaken : ((stream noFiles).run (stream noFiles).init helloTurns).all
      (fun s => ¬ s.wire <+: s.responses.flatten) := by
    decide +kernel
  rw [ran] at overtaken
  exact ⟨s, ran, of_decide_eq_true overtaken⟩

section Handlers

theorem writen_writes (socket : Socket) (buff : Bytes) :
    (writen socket buff).writes <:+ socket.writes :=
  writeLoop_writes _ _ _

theorem handleError_writes (socket : Socket) (errNum : Nat) (shortMsg : Bytes) :
    (handleError socket errNum shortMsg).writes <:+ socket.writes :=
  (writen_writes _ _).trans (writen_writes _ _)

theorem writenString_writes (socket : Socket) (sbuff : Bytes) :
    (writenString socket sbuff).2.2.writes <:+ socket.writes := by
  have left := writeLoop_writes socket.writes sbuff.length 0
  simp only [writenString]
  split
  · exact left
  · split <;> exact left

theorem handleWrite_frame (d : HttpData) (socket : Socket) :
    (handleWrite d socket).2.writes <:+ socket.writes ∧
      (handleWrite d socket).1.connectionState = d.connectionState := by
  obtain ⟨outBuffer, events, error, same⟩ := handleWrite_same d socket
  refine ⟨?_, by rw [same]⟩
  rcases handleWrite_socket d socket with written | written <;> rw [written]
  exact writenString_writes socket d.outBuffer

theorem flush_frame (d : HttpData) (socket : Socket) :
    (flush d socket).2.writes <:+ socket.writes ∧
      (flush d socket).1.connectionState = d.connectionState := by
  obtain ⟨outBuffer, events, error, same⟩ := flush_same d socket
  refine ⟨?_, by rw [same]⟩
  rcases flush_socket d socket with written | written <;> rw [written]
  exact writenString_writes socket d.outBuffer

theorem carryOut_frame (fs : FileSystem) (socket : Socket) (decided : HttpData × Verdict) :
    (carryOut fs socket decided).2.writes <:+ socket.writes ∧
      (carryOut fs socket decided).1.connectionState = decided.1.connectionState := by
  obtain ⟨d, verdict⟩ := decided
  cases verdict with
  | wait => exact ⟨List.suffix_refl _, rfl⟩
  | refuse shortMsg => exact ⟨handleError_writes _ _ _, rfl⟩
  | analyse =>
      simp only [carryOut, analyse, analysisRequest_eq]
      cases replyTo fs d with
      | nothing | hello | page => exact ⟨List.suffix_refl _, rfl⟩
      | notFound => exact ⟨handleError_writes _ _ _, rfl⟩

/-- `handleRead` calls itself only when there is no error. -/
theorem finishPass_frame (d : HttpData) :
    (finishPass d).2.connectionState = d.connectionState ∧
      ((finishPass d).1 = true → (finishPass d).2.error = false) := by
  unfold finishPass
  split
  · rename_i going
    exact ⟨rfl, fun _ => Bool.not_eq_true _ ▸ going.1⟩
  · split <;> exact ⟨rfl, nofun⟩

theorem afterRead_frame (d : HttpData) (socket : Socket) :
    (afterRead d socket).2.2.writes <:+ socket.writes ∧
      (afterRead d socket).2.1.connectionState = d.connectionState ∧
      ((afterRead d socket).1 = true → (afterRead d socket).2.1.error = false) := by
  unfold afterRead
  split
  · exact ⟨List.suffix_refl _, rfl, nofun⟩
  · obtain ⟨left, same⟩ := flush_frame d socket
    obtain ⟨still, noError⟩ := finishPass_frame (flush d socket).1
    exact ⟨left, still.trans same, noError⟩

/-- A turn of `handleRead` is a turn of the machine, and so is the one after it. -/
theorem handleReadPass_stream {s : Stream} {reads : List ReadResult} {writes : List WriteResult}
    {again : Bool} {d' : HttpData} {socket' : Socket} (live : Live s.d) (clean : .failed ∉ writes)
    (done : handleReadPass fs s.d ⟨reads, writes, s.wire⟩ = .ok (again, d', socket')) :
    (∃ responses, (stream fs).step s (.read reads writes) =
        some ⟨d', socket'.wire, responses, again⟩) ∧
      .failed ∉ socket'.writes ∧ d'.connectionState ≠ .disconnected ∧
      (again = true → Live d') := by
  cases judged : judge s.d reads with
  | error fault =>
      rw [handleReadPass, readOnce_judge, judged] at done
      cases done
  | ok decided =>
      have stepped : (stream fs).step s (.read reads writes) =
          some ⟨d', socket'.wire, s.responses ++ answers fs decided, again⟩ := by
        simp only [stream, live, clean, judged, done, not_false_eq_true, and_self, if_true]
      have judged_ : judge s.d (Socket.mk reads writes s.wire).reads = .ok decided := judged
      rw [handleReadPass_judged judged_] at done
      have carried := carryOut_frame fs
        ⟨(readn reads s.d.inBuffer 0).reads, writes, s.wire⟩ decided
      have after := afterRead_frame (carryOut fs
        ⟨(readn reads s.d.inBuffer 0).reads, writes, s.wire⟩ decided).1 (carryOut fs
        ⟨(readn reads s.d.inBuffer 0).reads, writes, s.wire⟩ decided).2
      rw [Except.ok.inj done] at after
      obtain ⟨left, same, noError⟩ := after
      have stillOpen : d'.connectionState ≠ .disconnected := by
        intro closed
        rw [same, carried.2] at closed
        exact live.2 ((judge_decided judged).stillOpen closed)
      exact ⟨⟨_, stepped⟩, fun failed => clean ((left.trans carried.1).subset failed), stillOpen,
        fun more => ⟨noError more, stillOpen⟩⟩

/-- The turns that a call of `handleRead` consists of. -/
def readTurns (fs : FileSystem) : Nat → HttpData → Socket → List Turn
  | 0, _, _ => []
  | fuel + 1, d, socket =>
      .read socket.reads socket.writes ::
        match handleReadPass fs d socket with
        | .ok (true, d, socket) => readTurns fs fuel d socket
        | _ => []

/-- A call of `handleRead` is a run of the machine. -/
theorem readTurns_run {fuel : Nat} {s : Stream} {reads : List ReadResult}
    {writes : List WriteResult} {after : HttpData × Socket} (live : Live s.d)
    (clean : .failed ∉ writes)
    (done : handleReadFuel fs fuel s.d ⟨reads, writes, s.wire⟩ = .ok after) :
    (∃ responses, (stream fs).run s (readTurns fs fuel s.d ⟨reads, writes, s.wire⟩) =
        some ⟨after.1, after.2.wire, responses, false⟩) ∧
      .failed ∉ after.2.writes ∧ after.1.connectionState ≠ .disconnected := by
  induction fuel generalizing s reads writes with
  | zero => cases done
  | succ fuel ih =>
      obtain ⟨⟨again, mid, midSocket⟩, pass, later⟩ := bind_ok.mp done
      obtain ⟨⟨responses, stepped⟩, stillClean, stillOpen, going⟩ :=
        handleReadPass_stream live clean pass
      simp only [readTurns, pass]
      cases again with
      | false =>
          obtain rfl := Except.ok.inj later
          exact ⟨⟨responses, (Machine.run_cons_some _).mpr ⟨_, stepped, rfl⟩⟩, stillClean, stillOpen⟩
      | true =>
          obtain ⟨⟨final, ran⟩, ended⟩ :=
            ih (s := ⟨mid, midSocket.wire, responses, true⟩) (going rfl) stillClean later
          exact ⟨⟨final, (Machine.run_cons_some _).mpr ⟨_, stepped, ran⟩⟩, ended⟩

/-- What the channel does with a readable socket is a run of the machine. -/
theorem handleReadable_stream {s : Stream} {reads : List ReadResult}
    {writes : List WriteResult} {d' : HttpData} {socket' : Socket} (live : Live s.d)
    (idle : s.reading = false) (clean : .failed ∉ writes)
    (done : handleReadable fs s.d ⟨reads, writes, s.wire⟩ = .ok (d', socket')) :
    ∃ turns responses, (stream fs).run s turns = some ⟨d', socket'.wire, responses, false⟩ := by
  obtain ⟨⟨mid, midSocket⟩, read, same⟩ := bind_ok.mp done
  obtain ⟨rfl, rfl⟩ := Prod.mk.inj (Except.ok.inj same)
  obtain ⟨⟨responses, ran⟩, -, stillOpen⟩ :=
    readTurns_run (s := { s with d := { s.d with events := {} } }) live clean read
  generalize readTurns fs _ _ _ = turns at ran
  refine ⟨.event :: turns ++ [.conn], responses, ?_⟩
  rw [Machine.run_append_some]
  refine ⟨_, (Machine.run_cons_some _).mpr ⟨_, ?_, ran⟩, ?_⟩
  · simp only [stream, live, idle, Bool.false_eq_true, not_false_eq_true, and_self, if_true]
  · simp only [Machine.run_cons, stream, stillOpen, ne_eq, not_false_eq_true, Bool.false_eq_true,
      and_self, if_true, Option.bind_some, Machine.run_nil]

/-- What the channel does with a writable socket is a run of the machine. -/
theorem handleWritable_stream {s : Stream} {writes : List WriteResult} (live : Live s.d)
    (idle : s.reading = false) (clean : .failed ∉ writes) :
    ∃ turns, (stream fs).run s turns =
      some { s with d := (handleWritable s.d ⟨[], writes, s.wire⟩).1,
                    wire := (handleWritable s.d ⟨[], writes, s.wire⟩).2.wire } := by
  have fresh : Live { s.d with events := {} } := live
  have still := (handleWrite_frame { s.d with events := {} } ⟨[], writes, s.wire⟩).2
  have stillOpen : (handleWrite { s.d with events := {} } ⟨[], writes, s.wire⟩).1.connectionState ≠
      .disconnected := still ▸ live.2
  refine ⟨[.event, .write writes, .conn], ?_⟩
  simp only [Machine.run_cons, stream, live, fresh, idle, clean, stillOpen, Bool.false_eq_true,
    not_false_eq_true, and_self, if_true, Option.bind_some, ne_eq, Machine.run_nil]
  rfl

end Handlers

end Corio.Epoll
