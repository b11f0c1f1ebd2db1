import Corio.Epoll.OwnTurns
import Corio.Epoll.Pages
import Corio.Epoll.Stream

/-! # A client in turn with the server

A client sends a request, reads the response off the wire, and only then sends the next one.
The server sees of this what epoll reports and what the calls return. Each response is that of
its request, and a client that waits does not wait in vain.
-/

namespace Corio.Epoll

open Coroutine (Received readMessage)

/-- A client and its connection. -/
structure Conversation where
  server : Solo
  sent : List RequestHead
  /-- The request that the server has not read. -/
  coming : Bytes
  received : List Received
  /-- How many bytes the client took off the wire. -/
  taken : Nat

inductive Talk where
  | send (h : RequestHead)
  | receive
  | add
  | event (readable writable : Bool) (reads : List ReadResult) (writes : List WriteResult)
  | conclude
  /-- The time of the connection is up. -/
  | close

/-- What it is to the server. -/
def Talk.turn (fs : FileSystem) : Talk → Option SoloStep
  | .send _ | .receive => none
  | .add => some .add
  | .event readable writable reads writes =>
      some (.ready { epollin := readable, epollout := writable } fs reads writes)
  | .conclude => some .conclude
  | .close => some .close

/-- The calls of `read` deliver these bytes, and there are no others yet. -/
def Brings (reads : List ReadResult) (coming : Bytes) : Prop :=
  (readn reads [] 0).readSum = coming.length ∧ (readn reads [] 0).inBuffer = coming ∧
    (readn reads [] 0).zero = false

instance (reads : List ReadResult) (coming : Bytes) : Decidable (Brings reads coming) := by
  unfold Brings
  infer_instance

namespace Conversation

/-- The client takes the response to its oldest open request, when it is there. -/
def receive (s : Conversation) : Option Conversation :=
  s.sent[s.received.length]?.bind fun h =>
    (readMessage (h.line.method == .head) (s.server.wire.drop s.taken)).map fun read =>
      { s with
        received := s.received ++ [read.1], taken := s.server.wire.length - read.2.length }

/-- An event is reported for something, and a request arrives as a whole. -/
def Allows (s : Conversation) : Talk → Prop
  | .event readable writable reads writes =>
      (readable = true ∨ writable = true) ∧
        (readable = true → s.coming ≠ [] ∧ Brings reads s.coming) ∧ .failed ∉ writes
  | _ => True

instance (s : Conversation) : DecidablePred s.Allows
  | .event readable writable reads writes =>
      inferInstanceAs (Decidable ((readable = true ∨ writable = true) ∧
        (readable = true → s.coming ≠ [] ∧ Brings reads s.coming) ∧ .failed ∉ writes))
  | .send _ | .receive | .add | .conclude | .close => .isTrue trivial

/-- What the server has yet to read behind a step of its own. -/
def left (s : Conversation) : Talk → Bytes
  | .event true .. => []
  | _ => s.coming

end Conversation

open Conversation in
/-- The files stay as they are, no write fails, and the client neither closes nor runs ahead. -/
def conversation (fs : FileSystem) : Machine Conversation Talk where
  init := ⟨solo.init, [], [], [], 0⟩
  step s action :=
    match action with
    | .send h =>
        if s.received.length = s.sent.length then
          some { s with sent := s.sent ++ [h], coming := h.text }
        else none
    | .receive => s.receive
    | action =>
        if s.Allows action then
          (action.turn fs).bind fun turn =>
            (solo.step s.server turn).map fun server =>
              { s with server := server, coming := s.left action }
        else none

/-- There is a page for the request, and it is less than 2 GiB. -/
structure Answerable (fs : FileSystem) (h : RequestHead) : Prop where
  clean : h.Clean
  paged : ∃ page, h.page? fs = some page ∧ (h.response page).length < 2 ^ 31

/-- The bytes that answer a request. -/
def responseTo (fs : FileSystem) (h : RequestHead) : Bytes :=
  ((h.page? fs).map h.response).getD []

def responsesTo (fs : FileSystem) (heads : List RequestHead) : Bytes :=
  heads.flatMap (responseTo fs)

/-- Nothing of a request is left over, and the connection is open. -/
structure Quiet (d : HttpData) : Prop where
  noError : d.error = false
  connected : d.connectionState = .connected
  state : d.state = .parseURI
  empty : d.inBuffer = []
  awaits : Awaits d

theorem Quiet.calm {d : HttpData} (quiet : Quiet d) : Quiet { d with events := {} } :=
  ⟨quiet.noError, quiet.connected, quiet.state, quiet.empty, quiet.awaits.nowReadPos,
    quiet.awaits.hState, quiet.awaits.headers⟩

/-- The connection when the request has been analysed. -/
def RequestHead.answered (h : RequestHead) (d : HttpData) (page : Bytes × Nat × Bytes) :
    HttpData :=
  { withKeepAlive (h.parsed d) with outBuffer := h.response page, state := .finish }

/-- Where bytes and requests are. -/
inductive Stage (fs : FileSystem) (s : Conversation) : Prop where
  | rests (all : s.received.length = s.sent.length) (coming : s.coming = [])
    (wire : s.server.wire = responsesTo fs s.sent) (nothing : s.server.data.outBuffer = [])
    (taken : s.taken = s.server.wire.length)
  | asks (earlier : List RequestHead) (h : RequestHead) (sent : s.sent = earlier ++ [h])
    (before : s.received.length = earlier.length) (coming : s.coming = h.text)
    (wire : s.server.wire = responsesTo fs earlier) (nothing : s.server.data.outBuffer = [])
    (taken : s.taken = s.server.wire.length)
  | answers (earlier : List RequestHead) (h : RequestHead) (part : Bytes)
    (sent : s.sent = earlier ++ [h]) (before : s.received.length = earlier.length)
    (coming : s.coming = []) (wire : s.server.wire = responsesTo fs earlier ++ part)
    (whole : responseTo fs h = part ++ s.server.data.outBuffer)
    (taken : s.taken = (responsesTo fs earlier).length)

/-- Nothing but room is asked for, and this if there is something to write. -/
structure WantsRoom (d : HttpData) : Prop where
  only : d.events = { epollout := d.events.epollout }
  room : d.outBuffer ≠ [] → d.events.epollout = true

/-- The server as it is between the steps of a conversation. -/
structure Serves (s : Solo) : Prop where
  coming : s.phase = .coming → s.data = {}
  idle : s.phase = .idle → Quiet s.data ∧
    (s.data.outBuffer ≠ [] → s.data.events.epollout = true) ∧
    s.data.events.epollin = !s.data.events.epollout
  busy : s.phase = .busy → Quiet s.data ∧ WantsRoom s.data

structure Talking (fs : FileSystem) (s : Conversation) : Prop where
  answerable : ∀ h ∈ s.sent, Answerable fs h
  serves : Serves s.server
  stage : Stage fs s
  received : s.received.map some =
    (s.sent.take s.received.length).map fun h => (h.page? fs).map h.expected

section Handlers

variable {fs : FileSystem} {d : HttpData} {socket : Socket} {h : RequestHead}

theorem writeLoop_still (clean : .failed ∉ socket.writes) (nleft writeSum : Nat) :
    .failed ∉ (writeLoop socket.writes nleft writeSum).writes :=
  fun member => clean ((writeLoop_writes socket.writes nleft writeSum).subset member)

/-- A write that does not fail sends a part, and asks for room for the rest. -/
theorem handleWrite_sends (noError : d.error = false) (isOpen : d.connectionState ≠ .disconnected)
    (clean : .failed ∉ socket.writes) (small : d.outBuffer.length < 2 ^ 31) :
    ∃ part waiting writes, d.outBuffer = part ++ waiting ∧ .failed ∉ writes ∧
      part.length = (writeLoop socket.writes d.outBuffer.length 0).writeSum ∧
      handleWrite d socket =
        ({ d with
            outBuffer := waiting,
            events := if waiting = [] then d.events else { d.events with epollout := true } },
          ⟨socket.reads, writes, socket.wire ++ part⟩) := by
  have inside := (writeLoop_bounds socket.writes d.outBuffer.length 0).2
  have ok := writeLoop_clean clean d.outBuffer.length 0
  have still := writeLoop_still clean d.outBuffer.length 0
  rw [Nat.zero_add] at inside
  generalize outcome_ : writeLoop socket.writes d.outBuffer.length 0 = outcome at inside ok still ⊢
  refine ⟨d.outBuffer.take outcome.writeSum, d.outBuffer.drop outcome.writeSum, outcome.writes,
    (List.take_append_drop _ _).symm, still, List.length_take_of_le inside, ?_⟩
  have live : ¬ d.error = true ∧ d.connectionState ≠ .disconnected := ⟨by simp [noError], isOpen⟩
  simp only [handleWrite, if_pos live, writenString, outcome_, ok, Bool.false_eq_true, if_false,
    toInt_small small, Int.natCast_inj]
  by_cases all : outcome.writeSum = d.outBuffer.length
  · simp [all]
  · have more : d.outBuffer.drop outcome.writeSum ≠ [] := by
      rw [ne_eq, List.drop_eq_nil_iff]
      omega
    have positive := List.length_pos_of_ne_nil more
    simp only [if_neg all, Bool.false_eq_true, if_false, gt_iff_lt, if_pos positive, if_neg more]

theorem handleWrite_quiet (quiet : Quiet d) (clean : .failed ∉ socket.writes)
    (small : d.outBuffer.length < 2 ^ 31) :
    Quiet (handleWrite d socket).1 ∧
      (d.events = { epollout := d.events.epollout } → WantsRoom (handleWrite d socket).1) ∧
      (d.outBuffer = [] → (handleWrite d socket).1.events = d.events) ∧
      ∃ part, d.outBuffer = part ++ (handleWrite d socket).1.outBuffer ∧
        part.length = (writeLoop socket.writes d.outBuffer.length 0).writeSum ∧
        (handleWrite d socket).2.wire = socket.wire ++ part := by
  have isOpen : d.connectionState ≠ .disconnected := by simp [quiet.connected]
  obtain ⟨part, waiting, writes, whole, -, sum, same⟩ :=
    handleWrite_sends quiet.noError isOpen clean small
  rw [same]
  refine ⟨⟨quiet.noError, quiet.connected, quiet.state, quiet.empty, ?_⟩, fun only => ?_,
    fun nothing => ?_, part, whole, sum, rfl⟩
  · exact ⟨quiet.awaits.nowReadPos, quiet.awaits.hState, quiet.awaits.headers⟩
  · by_cases all : waiting = []
    · simp only [if_pos all]
      exact ⟨only, fun more => absurd all more⟩
    · simp only [if_neg all]
      exact ⟨by rw [only], fun _ => rfl⟩
  · exact if_pos (List.append_eq_nil_iff.mp (whole.symm.trans nothing)).2

theorem finishPass_empty (noError : d.error = false) (state : d.state = .finish)
    (empty : d.inBuffer = []) : finishPass d = (false, reset d) := by
  simp [finishPass, noError, state, empty, reset]

/-- The turn of `handleRead` that takes a request. -/
theorem handleReadPass_answers {page : Bytes × Nat × Bytes} (quiet : Quiet d)
    (nothing : d.outBuffer = []) (clean : h.Clean) (paged : h.page? fs = some page)
    (brings : Brings socket.reads h.text) :
    handleReadPass fs d socket =
      let written := handleWrite (h.answered d page)
        { socket with reads := (readn socket.reads d.inBuffer 0).reads }
      .ok ((finishPass written.1).1, (finishPass written.1).2, written.2) := by
  have replied := (replyTo_parsed clean paged d).1
  have whole : readn socket.reads [] 0 =
      ⟨h.text.length, h.text, false, (readn socket.reads [] 0).reads⟩ := by
    obtain ⟨sum, inBuffer, zero⟩ := brings
    rw [← sum, ← inBuffer, ← zero]
  have judged := judge_head clean quiet.awaits quiet.state quiet.empty quiet.connected whole
  have carried (socket : Socket) :
      carryOut fs socket (h.parsed d, .analyse) = (h.answered d page, socket) := by
    have before : (h.parsed d).outBuffer = [] := nothing
    simp only [carryOut, analyse, analysisRequest_eq, replied, before, List.nil_append]
    rfl
  have some_ : (h.answered d page).outBuffer.length > 0 :=
    (page_ok200 replied).length_le.trans_lt' (by decide)
  have noError : (h.answered d page).error = false := quiet.noError
  simp only [handleReadPass_judged judged, carried, afterRead_ok noError, flush, if_pos some_]

/-- The request is read, its page is sent as far as there is room, and the connection is as
    before it. -/
theorem handleRead_answers (quiet : Quiet d) (nothing : d.outBuffer = [])
    (events : d.events = {}) (answerable : Answerable fs h) (brings : Brings socket.reads h.text)
    (clean : .failed ∉ socket.writes) :
    ∃ d' socket', handleRead fs d socket = .ok (d', socket') ∧ Quiet d' ∧ WantsRoom d' ∧
      .failed ∉ socket'.writes ∧
      ∃ part, responseTo fs h = part ++ d'.outBuffer ∧ socket'.wire = socket.wire ++ part := by
  obtain ⟨page, paged, small⟩ := answerable.paged
  have response : responseTo fs h = (h.answered d page).outBuffer := by
    rw [responseTo, paged]
    rfl
  have connected : (h.answered d page).connectionState = .connected := quiet.connected
  have before : (h.answered d page).events = {} := events
  have pass := handleReadPass_answers quiet nothing answerable.clean paged brings
  obtain ⟨part, waiting, writes, cut, still, -, sent⟩ := @handleWrite_sends (h.answered d page)
    { socket with reads := (readn socket.reads d.inBuffer 0).reads } quiet.noError
    (by simp [connected]) clean small
  have ended (events : Events) :
      finishPass { h.answered d page with outBuffer := waiting, events := events } =
        (false, reset { h.answered d page with outBuffer := waiting, events := events }) :=
    finishPass_empty quiet.noError rfl rfl
  simp only [sent, ended] at pass
  have done : handleRead fs d socket =
      handleReadFuel fs (d.inBuffer.length + unread socket.reads + 2) d socket := rfl
  simp only [handleReadFuel, pass, bind, Except.bind, Bool.false_eq_true, if_false] at done
  refine ⟨_, _, done, ?_, ?_, still, part, response.trans cut, rfl⟩
  · exact ⟨quiet.noError, quiet.connected, rfl, rfl, rfl, rfl, rfl⟩
  · by_cases all : waiting = []
    · exact ⟨by simp [reset, all, before], fun more => absurd all more⟩
    · exact ⟨by simp [reset, all, before], fun _ => by simp [reset, all]⟩

/-- What `handleEvents` does when there is room. -/
theorem handleTurn_writes (quiet : Quiet d) (events : d.events = {})
    (clean : .failed ∉ socket.writes) (small : d.outBuffer.length < 2 ^ 31) :
    ∃ d' socket', handleTurn fs d { epollout := true } socket = .ok (d', socket') ∧ Quiet d' ∧
      WantsRoom d' ∧ (d.outBuffer = [] → d'.events = {}) ∧
      ∃ part, d.outBuffer = part ++ d'.outBuffer ∧
        part.length = (writeLoop socket.writes d.outBuffer.length 0).writeSum ∧
        socket'.wire = socket.wire ++ part := by
  obtain ⟨still, room, calm, part, whole, sum, sent⟩ := handleWrite_quiet quiet clean small
  exact ⟨_, _, rfl, still, room (by rw [events]), fun nothing => (calm nothing).trans events, part,
    whole, sum, sent⟩

theorem responseTo_small (answerable : Answerable fs h) :
    (responseTo fs h).length < 2 ^ 31 := by
  obtain ⟨page, paged, small⟩ := answerable.paged
  have response : responseTo fs h = h.response page := by rw [responseTo, paged]; rfl
  rwa [response]

/-- What `handleEvents` does when a request is there. -/
theorem handleTurn_answers (writable : Bool) (quiet : Quiet d) (nothing : d.outBuffer = [])
    (events : d.events = {}) (answerable : Answerable fs h) (brings : Brings socket.reads h.text)
    (clean : .failed ∉ socket.writes) :
    ∃ d' socket', handleTurn fs d { epollin := true, epollout := writable } socket =
        .ok (d', socket') ∧ Quiet d' ∧ WantsRoom d' ∧
      ∃ part, responseTo fs h = part ++ d'.outBuffer ∧ socket'.wire = socket.wire ++ part := by
  obtain ⟨d₁, socket₁, read, quiet₁, room₁, clean₁, part₁, whole₁, sent₁⟩ :=
    handleRead_answers quiet nothing events answerable brings clean
  have turn : handleTurn fs d { epollin := true, epollout := writable } socket =
      .ok (if writable then handleWrite d₁ socket₁ else (d₁, socket₁)) := by
    simp only [handleTurn, Bool.true_or, if_true, read, Except.map]
  cases writable with
  | false => exact ⟨d₁, socket₁, turn, quiet₁, room₁, part₁, whole₁, sent₁⟩
  | true =>
      have shorter : d₁.outBuffer.length < 2 ^ 31 := by
        have small := responseTo_small answerable
        rw [whole₁, List.length_append] at small
        omega
      obtain ⟨still, room, -, part₂, whole₂, -, sent₂⟩ := handleWrite_quiet quiet₁ clean₁ shorter
      refine ⟨(handleWrite d₁ socket₁).1, (handleWrite d₁ socket₁).2, turn, still,
        room room₁.only, part₁ ++ part₂, ?_, ?_⟩
      · rw [List.append_assoc, ← whole₂, whole₁]
      · rw [sent₂, sent₁, List.append_assoc]

end Handlers

/-- More bytes behind a response do not change it. -/
theorem readMessage_append {head : Bool} {s rest : Bytes} {message : Received}
    (read : readMessage head s = some (message, rest)) (later : Bytes) :
    readMessage head (s ++ later) = some (message, rest ++ later) := by
  simp only [readMessage, bind, Option.bind_eq_some_iff] at read ⊢
  obtain ⟨⟨block, behind⟩, cut, ⟨received, announced⟩, header, done⟩ := read
  refine ⟨_, Find.cut?_append cut later, _, header, ?_⟩
  simp only at done ⊢
  generalize (if head = true then 0 else announced) = length at done ⊢
  split at done
  · cases done
  · rename_i enough
    obtain ⟨rfl, rfl⟩ := Prod.mk.inj (Option.some.inj done)
    have inside : length ≤ behind.length := Nat.le_of_not_lt enough
    rw [if_neg (by rw [List.length_append]; omega), List.take_append_of_le_length inside,
      List.drop_append_of_le_length inside]

/-- A step of the server. -/
theorem server_step {fs : FileSystem} {s s' : Conversation} {action : Talk} {turn : SoloStep}
    (taken : (conversation fs).step s action = some s') (acts : action.turn fs = some turn) :
    s.Allows action ∧ ∃ server, solo.step s.server turn = some server ∧
      s' = { s with server := server, coming := s.left action } := by
  cases action with
  | send | receive => cases acts
  | add | event | conclude | close =>
      simp only [conversation, acts, Option.bind_some, Option.ite_none_right_eq_some,
        Option.map_eq_some_iff] at taken
      obtain ⟨allowed, server, stepped, rfl⟩ := taken
      exact ⟨allowed, server, stepped, rfl⟩

namespace Talking

variable {fs : FileSystem} {s s' : Conversation}

theorem init : Talking fs (conversation fs).init where
  answerable := by simp [conversation]
  serves := ⟨fun _ => rfl, by simp [conversation, solo], by simp [conversation, solo]⟩
  stage := .rests rfl rfl rfl rfl rfl
  received := rfl

theorem send {h : RequestHead} (talking : Talking fs s) (answerable : Answerable fs h)
    (all : s.received.length = s.sent.length) :
    Talking fs { s with sent := s.sent ++ [h], coming := h.text } := by
  refine ⟨?_, talking.serves, ?_, ?_⟩
  · intro other member
    rcases List.mem_append.mp member with before | last
    · exact talking.answerable other before
    · rwa [List.mem_singleton.mp last]
  · cases talking.stage with
    | rests _ coming wire nothing taken => exact .asks s.sent h rfl all rfl wire nothing taken
    | asks earlier _ sent before | answers earlier _ _ sent before =>
        rw [before, sent, List.length_append, List.length_singleton] at all
        omega
  · have received := talking.received
    rw [all, List.take_length] at received
    simp only
    rw [received, all, List.take_left]

/-- The response to the open request is the only one that can be read. -/
theorem receive (talking : Talking fs s) (taken : s.receive = some s') : Talking fs s' := by
  obtain ⟨h, asked, taken⟩ := Option.bind_eq_some_iff.mp taken
  obtain ⟨⟨message, rest⟩, read, rfl⟩ := Option.map_eq_some_iff.mp taken
  cases talking.stage with
  | rests all =>
      rw [all, List.getElem?_eq_none (Nat.le_refl _)] at asked
      cases asked
  | asks earlier h' sent before coming wire nothing behind =>
      rw [behind, List.drop_length] at read
      have none_ : readMessage (h.line.method == .head) [] = none := rfl
      rw [none_] at read
      cases read
  | answers earlier h' part sent before coming wire whole behind =>
      rw [sent, before, List.getElem?_append_right (Nat.le_refl _), Nat.sub_self] at asked
      obtain rfl : h' = h := Option.some.inj asked
      rw [wire, behind, List.drop_left] at read
      have answerable := talking.answerable h' (sent ▸ by simp)
      obtain ⟨page, paged, -⟩ := answerable.paged
      have response : responseTo fs h' = h'.response page := by rw [responseTo, paged]; rfl
      have full := readMessage_response answerable.clean paged []
      rw [List.append_nil, ← response, whole, readMessage_append read] at full
      obtain ⟨rfl, nothing⟩ := Prod.mk.inj (Option.some.inj full)
      obtain ⟨rfl, out⟩ := List.append_eq_nil_iff.mp nothing
      have responses : responsesTo fs s.sent = s.server.wire := by
        rw [wire, sent, responsesTo, List.flatMap_append, List.flatMap_singleton, whole, out,
          List.append_nil]
        rfl
      refine ⟨talking.answerable, talking.serves,
        .rests ?_ coming responses.symm out (Nat.sub_zero _), ?_⟩
      · simp only [sent, List.length_append, before, List.length_singleton]
      · have received := talking.received
        simp only [sent, before, List.take_left] at received
        simp [sent, received, before, List.take_append, paged]

/-- The server has a step that leaves the bytes alone. -/
theorem quietly {server : Solo} (talking : Talking fs s) (serves : Serves server)
    (wire : server.wire = s.server.wire) (same : server.data.outBuffer = s.server.data.outBuffer) :
    Talking fs { s with server := server } := by
  refine ⟨talking.answerable, serves, ?_, talking.received⟩
  cases talking.stage with
  | rests all coming sent nothing taken =>
      exact .rests all coming (wire.trans sent) (same.trans nothing) (by rw [taken, wire])
  | asks earlier h asked before coming sent nothing taken =>
      exact .asks earlier h asked before coming (wire.trans sent) (same.trans nothing)
        (by rw [taken, wire])
  | answers earlier h part asked before coming sent whole taken =>
      exact .answers earlier h part asked before coming (wire.trans sent) (by rw [whole, same])
        taken

theorem small (talking : Talking fs s) : s.server.data.outBuffer.length < 2 ^ 31 := by
  cases talking.stage with
  | rests _ _ _ nothing | asks _ _ _ _ _ _ nothing =>
      rw [nothing]
      decide
  | answers earlier h part sent _ _ _ whole =>
      have small := responseTo_small (talking.answerable h (sent ▸ by simp))
      rw [whole, List.length_append] at small
      omega

theorem event {server : Solo} {readable writable : Bool} {reads : List ReadResult}
    {writes : List WriteResult} (talking : Talking fs s)
    (allowed : s.Allows (.event readable writable reads writes))
    (taken : solo.step s.server
      (.ready { epollin := readable, epollout := writable } fs reads writes) = some server) :
    Talking fs { s with
      server := server, coming := s.left (.event readable writable reads writes) } := by
  obtain ⟨some_, asked, clean⟩ := allowed
  obtain ⟨idle, ready⟩ := solo_ready taken
  obtain ⟨quiet, -, -⟩ := talking.serves.idle idle
  have hangs : ({ epollin := readable, epollout := writable } : Revents).hangsUp = false := rfl
  simp only [Solo.ready, hangs, Bool.false_eq_true, if_false] at ready
  cases readable with
  | true =>
      obtain ⟨coming, brings⟩ := asked rfl
      cases talking.stage with
      | rests _ nothing | answers _ _ _ _ _ nothing => exact absurd nothing coming
      | asks earlier h sent before text wire nothing behind =>
          have answerable := talking.answerable h (sent ▸ by simp)
          obtain ⟨d, socket, turn, still, room, part, whole, wrote⟩ := @handleTurn_answers fs _
            ⟨reads, writes, s.server.wire⟩ h writable quiet.calm nothing rfl answerable
            (text ▸ brings) clean
          rw [turn] at ready
          obtain rfl := Option.some.inj ready
          refine ⟨talking.answerable, ⟨by simp, by simp, fun _ => ⟨still, room⟩⟩,
            .answers earlier h part sent before rfl ?_ whole ?_, talking.received⟩
          · exact wrote.trans (congrArg (· ++ part) wire)
          · exact behind.trans (congrArg _ wire)
  | false =>
      obtain rfl : writable = true := by simpa using some_
      obtain ⟨d, socket, turn, still, room, -, part, whole, -, wrote⟩ := @handleTurn_writes fs _
        ⟨reads, writes, s.server.wire⟩ quiet.calm rfl clean talking.small
      rw [turn] at ready
      obtain rfl := Option.some.inj ready
      refine ⟨talking.answerable, ⟨by simp, by simp, fun _ => ⟨still, room⟩⟩, ?_,
        talking.received⟩
      have cut : s.server.data.outBuffer = part ++ d.outBuffer := whole
      cases talking.stage with
      | rests all coming wire nothing taken =>
          obtain ⟨rfl, out⟩ := List.append_eq_nil_iff.mp (cut.symm.trans nothing)
          rw [List.append_nil] at wrote
          exact .rests all coming (wrote.trans wire) out (taken.trans (congrArg _ wrote.symm))
      | asks earlier h sent before text wire nothing taken =>
          obtain ⟨rfl, out⟩ := List.append_eq_nil_iff.mp (cut.symm.trans nothing)
          rw [List.append_nil] at wrote
          exact .asks earlier h sent before text (wrote.trans wire) out
            (taken.trans (congrArg _ wrote.symm))
      | answers earlier h first sent before coming wire response taken =>
          refine .answers earlier h (first ++ part) sent before coming ?_ ?_ taken
          · rw [← List.append_assoc, ← wire]
            exact wrote
          · rw [response, cut, List.append_assoc]

theorem add {server : Solo} (talking : Talking fs s)
    (taken : solo.step s.server .add = some server) : Talking fs { s with server := server } := by
  cases phase : s.server.phase with
  | coming =>
      simp only [solo, phase, Option.some.injEq] at taken
      subst taken
      have fresh := talking.serves.coming phase
      refine talking.quietly ⟨by simp, fun _ => ⟨?_, ?_, rfl⟩, by simp⟩ rfl rfl
      · rw [fresh]
        exact ⟨rfl, rfl, rfl, rfl, rfl, rfl, rfl⟩
      · rw [fresh]
        exact fun more => absurd rfl more
  | idle | busy | gone => simp [solo, phase] at taken

theorem handleConn_quiet {d : HttpData} (quiet : Quiet d) (wants : WantsRoom d) :
    Quiet (handleConn d) ∧ (handleConn d).events.epollout = d.events.epollout ∧
      (handleConn d).events.epollin = !d.events.epollout := by
  have connected : d.error = false ∧ d.connectionState = .connected :=
    ⟨quiet.noError, quiet.connected⟩
  obtain ⟨isOpen, -, -, -⟩ := Poller.handleConn_connected connected
  obtain ⟨connectionState, events, same⟩ := handleConn_same d
  have asked : (handleConn d).events =
      { epollin := !d.events.epollout, epollout := d.events.epollout, epollet := true } := by
    have only := wants.only
    cases room : d.events.epollout with
    | false | true =>
        rw [room] at only
        simp [handleConn, quiet.noError, quiet.connected, only]
  refine ⟨?_, by rw [asked], by rw [asked]⟩
  rw [same] at isOpen ⊢
  exact ⟨quiet.noError, isOpen, quiet.state, quiet.empty, quiet.awaits.nowReadPos,
    quiet.awaits.hState, quiet.awaits.headers⟩

theorem conclude {server : Solo} (talking : Talking fs s)
    (taken : solo.step s.server .conclude = some server) :
    Talking fs { s with server := server } := by
  cases phase : s.server.phase with
  | busy =>
      simp only [solo, phase, Option.some.injEq] at taken
      subst taken
      obtain ⟨quiet, wants⟩ := talking.serves.busy phase
      have stays : ¬ Poller.Closes s.server.data :=
        fun closes => closes.1 ⟨quiet.noError, quiet.connected⟩
      obtain ⟨connectionState, events, same⟩ := handleConn_same s.server.data
      have waiting : (handleConn s.server.data).outBuffer = s.server.data.outBuffer := by rw [same]
      obtain ⟨still, room, asks⟩ := handleConn_quiet quiet wants
      refine talking.quietly ⟨?_, ?_, ?_⟩ rfl waiting
      · simp [stays]
      · refine fun _ => ⟨still, fun more => ?_, by rw [asks, room]⟩
        exact room.trans (wants.room (waiting ▸ more))
      · simp [stays]
  | coming | idle | gone => simp [solo, phase] at taken

theorem close {server : Solo} (talking : Talking fs s)
    (taken : solo.step s.server .close = some server) :
    Talking fs { s with server := server } := by
  cases phase : s.server.phase with
  | idle =>
      simp only [solo, phase, Option.some.injEq] at taken
      subst taken
      exact talking.quietly ⟨by simp, by simp, by simp⟩ rfl rfl
  | coming | busy | gone => simp [solo, phase] at taken

/-- Each request that is sent can be answered. -/
def Sends (fs : FileSystem) : Talk → Prop
  | .send h => Answerable fs h
  | _ => True

theorem step {action : Talk} (talking : Talking fs s) (sends : Sends fs action)
    (taken : (conversation fs).step s action = some s') : Talking fs s' := by
  cases action with
  | send h =>
      obtain ⟨all, same⟩ := Option.ite_none_right_eq_some.mp taken
      obtain rfl := Option.some.inj same
      exact talking.send sends all
  | receive => exact talking.receive taken
  | add =>
      obtain ⟨-, server, stepped, rfl⟩ := server_step taken rfl
      exact talking.add stepped
  | event =>
      obtain ⟨allowed, server, stepped, rfl⟩ := server_step taken rfl
      exact talking.event allowed stepped
  | conclude =>
      obtain ⟨-, server, stepped, rfl⟩ := server_step taken rfl
      exact talking.conclude stepped
  | close =>
      obtain ⟨-, server, stepped, rfl⟩ := server_step taken rfl
      exact talking.close stepped

theorem run {talk : List Talk} (talking : Talking fs s) (sends : ∀ action ∈ talk, Sends fs action)
    (ran : (conversation fs).run s talk = some s') : Talking fs s' :=
  Machine.Guarded.preserves (fun _ _ _ talking sends taken => talking.step sends taken) talking
    (Machine.Guarded.of_actions sends s) ran

end Talking

end Corio.Epoll
