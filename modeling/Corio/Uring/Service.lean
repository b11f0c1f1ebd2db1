import Corio.Coroutine.Client
import Corio.Coroutine.Pipeline
import Corio.Coroutine.Requests
import Corio.Uring.WriteAll

/-! # What a client is answered

A connection with the bytes it has received and the requests it has answered. However
the stream is cut and the sends are split, the answers are to the requests that the
stream asks for, and a connection that waits for more has answered all of them.
-/

namespace Corio.Uring

open Coroutine (FileSystem HttpRequest WireRequest Asks Sized Continued owed tryParseRequest
  buildResponse)

/-- A connection and its history, which no step looks at. -/
structure Service where
  exchange : Exchange
  /-- What the receives took. -/
  stream : Bytes
  /-- The requests whose responses were built, and the files as they were then. -/
  answered : List (HttpRequest × FileSystem)

namespace Service

/-- What a completed receive took. -/
def arrived (s : Exchange) : ExchangeStep → Bytes
  | .complete res chunk =>
      match s.callee with
      | some (.readRequest ..) => chunk.take res.toNat
      | _ => []
  | .exec .. | .stop => []

/-- The request whose response is built. -/
def begun (s : Exchange) : ExchangeStep → List (HttpRequest × FileSystem)
  | .exec _ fs =>
      match s.callee, s.turn, s.server with
      | none, .runs (.returned (.request (some request) _)), .handleConnection _ .reading =>
          [(request, fs)]
      | _, _, _ => []
  | .complete .. | .stop => []

def requests (s : Service) : List HttpRequest := s.answered.map Prod.fst

/-- The response on the wire. -/
def reply (docroot : Bytes) (entry : HttpRequest × FileSystem) : Bytes :=
  (buildResponse entry.2 docroot entry.1).1.toWire

/-- Waiting for bytes of the client. -/
def Listening (s : Service) : Prop :=
  s.exchange.turn = .suspended ∧ ∃ fd buffer, s.exchange.callee = some (.readRequest fd buffer)

end Service

open Service in
def service (docroot : Bytes) (client : Nat) : Machine Service ExchangeStep where
  init := ⟨(exchange docroot client).init, [], []⟩
  step s action :=
    ((exchange docroot client).step s.exchange action).map fun next =>
      ⟨next, s.stream ++ arrived s.exchange action, s.answered ++ begun s.exchange action⟩

/-- The buffer that a receive leaves behind. -/
def held (buffer : Bytes) : Signal Result → Bytes
  | .completed res chunk => buffer ++ chunk.take res.toNat
  | .begin | .returned _ | .dangled => buffer

/-- The buffer holds what is left of the stream behind these requests. -/
def Behind (stream : Bytes) (requests : List HttpRequest) (buffer : Bytes) : Prop :=
  Sized stream → Asks stream requests buffer

def AllKept (requests : List HttpRequest) : Prop :=
  ∀ request ∈ requests, request.keepAlive = true

/-- What each place of the connection knows of the stream and the requests answered. -/
inductive Follows (client : Nat) (stream : Bytes) (requests : List HttpRequest) :
    Body → Option Body → Turn → Prop where
  | entry : stream = [] → requests = [] →
    Follows client stream requests (.handleConnection client .entry) none (.runs .begin)
  | reads {buffer : Bytes} {signal : Signal Result} : AllKept requests →
    Behind stream requests (held buffer signal) →
    Follows client stream requests (.handleConnection client .reading)
      (some (.readRequest client buffer)) (.runs signal)
  | listens {buffer : Bytes} : AllKept requests → Behind stream requests buffer →
    tryParseRequest buffer = none →
    Follows client stream requests (.handleConnection client .reading)
      (some (.readRequest client buffer)) .suspended
  | read {request : HttpRequest} {buffer : Bytes} : AllKept requests →
    Behind stream (requests ++ [request]) buffer →
    Follows client stream requests (.handleConnection client .reading) none
      (.runs (.returned (.request (some request) buffer)))
  | gaveUp {buffer : Bytes} {result : Result} : AllKept requests →
    Behind stream requests buffer → (∀ request left, result ≠ .request (some request) left) →
    Follows client stream requests (.handleConnection client .reading) none
      (.runs (.returned result))
  | writes {earlier : List HttpRequest} {request : HttpRequest} {buffer payload : Bytes}
    {offset : Nat} {turn : Turn} : requests = earlier ++ [request] → AllKept earlier →
    Behind stream requests buffer →
    Follows client stream requests (.handleConnection client (.writing request buffer))
      (some (.writeAll client payload offset)) turn
  | wrote {earlier : List HttpRequest} {request : HttpRequest} {buffer : Bytes}
    {result : Result} : requests = earlier ++ [request] → AllKept earlier →
    Behind stream requests buffer →
    Follows client stream requests (.handleConnection client (.writing request buffer)) none
      (.runs (.returned result))
  /-- An awaited task has thrown. -/
  | dangles {server : Body} {buffer : Bytes} : Continued requests →
    Behind stream requests buffer → Follows client stream requests server none (.runs .dangled)
  | ended {server : Body} {buffer : Bytes} : Continued requests →
    Behind stream requests buffer → Follows client stream requests server none .ended

theorem Behind.append {stream buffer : Bytes} {requests : List HttpRequest}
    (behind : Behind stream requests buffer) (more : Bytes) :
    Behind (stream ++ more) requests (buffer ++ more) :=
  fun sized => (behind sized.of_append).append sized

theorem AllKept.continued {requests : List HttpRequest} (kept : AllKept requests) :
    Continued requests :=
  fun request member => kept request (List.mem_of_mem_dropLast member)

theorem AllKept.concat {earlier : List HttpRequest} (kept : AllKept earlier)
    (request : HttpRequest) : Continued (earlier ++ [request]) := by
  intro other member
  rw [List.dropLast_concat] at member
  exact kept other member

/-- What `read_request` does, by the buffer it has in hand. -/
inductive ReadDoes (fd : Nat) (buffer : Bytes) : Effect Body Result → Prop where
  | waits : tryParseRequest buffer = none →
    ReadDoes fd buffer (.awaitOperation (.readRequest fd buffer))
  | answers {parsed : Coroutine.ParsedRequest} : tryParseRequest buffer = some parsed →
    ReadDoes fd buffer
      (.finish (.request (some parsed.request) (buffer.drop parsed.consumed)))
  | leaves {left : Bytes} : ReadDoes fd buffer (.finish (.request none left))
  | throws {code : Option Nat} : ReadDoes fd buffer (.finish (.threw code))

theorem readDoes_caught (fd : Nat) (buffer : Bytes) (code : Option Nat) (left : Bytes) :
    ReadDoes fd buffer (Body.caught code left) := by
  unfold Body.caught
  split
  · exact .leaves
  · exact .throws

theorem readDoes_readLoop (world : World) (fd : Nat) (buffer : Bytes) :
    ReadDoes fd buffer (Body.readLoop world fd buffer) := by
  unfold Body.readLoop
  split
  · exact .leaves
  · split
    · rename_i parsed read
      exact .answers read
    · rename_i open_
      split
      · exact .waits open_
      · exact readDoes_caught fd buffer _ buffer

theorem readDoes_resume (docroot : Bytes) (world : World) (fd : Nat) (buffer : Bytes)
    (signal : Signal Result) :
    ReadDoes fd (held buffer signal)
      (Body.resume docroot world (.readRequest fd buffer) signal) := by
  cases signal with
  | begin => exact readDoes_readLoop world fd buffer
  | returned | dangled => exact .throws
  | completed res chunk =>
      change ReadDoes fd _ (Body.received world fd buffer res chunk)
      unfold Body.received awaitResume
      split
      · exact readDoes_caught fd _ _ buffer
      · rename_i n whole
        split at whole
        · cases whole
        · obtain rfl := Except.ok.inj whole
          split
          · exact .leaves
          · exact readDoes_readLoop world fd _

/-- `write_all` goes on writing, or it ends. -/
theorem writeAll_does (docroot : Bytes) (world : World) (fd : Nat) (payload : Bytes)
    (offset : Nat) (signal : Signal Result) :
    (∃ offset', Body.resume docroot world (.writeAll fd payload offset) signal =
        .awaitOperation (.writeAll fd payload offset')) ∨
      ∃ result, Body.resume docroot world (.writeAll fd payload offset) signal =
        .finish result := by
  have loop (offset : Nat) :
      (∃ offset', Body.writeLoop world fd payload offset =
          .awaitOperation (.writeAll fd payload offset')) ∨
        ∃ result, Body.writeLoop world fd payload offset = .finish result := by
    rcases writeLoop_cases world fd payload offset with
      ⟨-, effect⟩ | ⟨code, effect⟩ | ⟨-, effect⟩
    · exact .inl ⟨_, effect⟩
    · exact .inr ⟨_, effect⟩
    · exact .inr ⟨_, effect⟩
  cases signal with
  | begin => exact loop offset
  | returned | dangled => exact .inr ⟨_, rfl⟩
  | completed res chunk =>
      change (∃ _, Body.sent world fd payload offset res = _) ∨
        ∃ _, Body.sent world fd payload offset res = _
      unfold Body.sent
      split
      · exact .inr ⟨_, rfl⟩
      · split
        · exact .inr ⟨_, rfl⟩
        · exact loop _

/-- The loop of `handle_connection` reads, or it ends. -/
theorem Follows.loop {client : Nat} {stream buffer : Bytes} {requests : List HttpRequest}
    {world : World} (kept : AllKept requests) (behind : Behind stream requests buffer) :
    (∃ server, Body.connectionLoop world client buffer =
        .awaitTask (.readRequest client buffer) server ∧
        Follows client stream requests server (some (.readRequest client buffer))
          (.runs .begin)) ∨
      ∃ result, Body.connectionLoop world client buffer = .finish result ∧
        ∀ server, Follows client stream requests server none .ended := by
  unfold Body.connectionLoop
  split
  · exact .inl ⟨_, rfl, .reads kept behind⟩
  · exact .inr ⟨_, rfl, fun _ => .ended kept.continued behind⟩

namespace Service

/-- The place of the connection, and that every response is the reply to its request. -/
structure Faithful (docroot : Bytes) (client : Nat) (s : Service) : Prop where
  follows : Follows client s.stream s.requests s.exchange.server s.exchange.callee s.exchange.turn
  replies : s.exchange.responses = s.answered.map (reply docroot)

variable {docroot : Bytes} {client : Nat} {s : Service}

/-- `handle_connection` is at the test of its loop. -/
theorem Faithful.loop {running : Bool} {submits : Except (Option Nat) Unit} {fs : FileSystem}
    {responses : List Bytes} {wire stream buffer : Bytes} {server : Body}
    {answered : List (HttpRequest × FileSystem)}
    (kept : AllKept (answered.map Prod.fst))
    (behind : Behind stream (answered.map Prod.fst) buffer)
    (replies : responses = answered.map (reply docroot)) {e : Exchange}
    (taken : (match some (Body.connectionLoop ⟨running, submits, fs⟩ client buffer) with
      | some (.awaitTask callee server) =>
          some (Exchange.mk running server (some callee) (.runs .begin)
            (responses ++ Exchange.payload callee) wire)
      | some (.finish _) => some ⟨running, server, none, .ended, responses, wire⟩
      | some (.awaitOperation _) | none => none) = some e) :
    Faithful docroot client ⟨e, stream, answered⟩ := by
  have loops : (∃ server, Body.connectionLoop ⟨running, submits, fs⟩ client buffer =
      .awaitTask (.readRequest client buffer) server ∧ _) ∨ _ := Follows.loop kept behind
  rcases loops with ⟨server', effect, follows⟩ | ⟨result, effect, follows⟩
  · rw [effect] at taken
    obtain rfl := Option.some.inj taken
    exact ⟨follows, by simpa [Exchange.payload] using replies⟩
  · rw [effect] at taken
    obtain rfl := Option.some.inj taken
    exact ⟨follows _, replies⟩

/-- `handle_connection` runs. -/
theorem Faithful.runServer {submits : Except (Option Nat) Unit} {fs : FileSystem}
    (faithful : Faithful docroot client s) (idle : s.exchange.callee = none) {e : Exchange}
    (taken : s.exchange.exec docroot submits fs = some e) :
    Faithful docroot client ⟨e, s.stream, s.answered ++ begun s.exchange (.exec submits fs)⟩ := by
  obtain ⟨⟨running, server, callee, turn, responses, wire⟩, stream, answered⟩ := s
  obtain rfl : callee = none := idle
  obtain ⟨follows, replies⟩ := faithful
  simp only [requests] at follows
  simp only [Exchange.exec] at taken
  cases follows with
  | entry fresh none_ =>
      simp only [begun, List.append_nil]
      obtain rfl := List.map_eq_nil_iff.mp none_
      exact Faithful.loop (by simp [AllKept]) (fun _ => fresh ▸ .done _) replies taken
  | read kept behind =>
      rename_i request buffer
      obtain rfl := Option.some.inj taken
      refine ⟨?_, ?_⟩
      · refine .writes (List.map_append ..) kept ?_
        simpa [requests, begun] using behind
      · simp only [begun, List.map_append, ← replies]
        rfl
  | gaveUp kept behind other =>
      rename_i buffer result
      have ends : begun ⟨running, .handleConnection client .reading, none,
            .runs (.returned result), responses, wire⟩ (.exec submits fs) = [] ∧
          e = ⟨running, .handleConnection client .reading, none, .ended, responses, wire⟩ := by
        cases result with
        | request request left =>
            cases request with
            | some request => exact absurd rfl (other request left)
            | none => exact ⟨rfl, (Option.some.inj taken).symm⟩
        | written | done | threw => exact ⟨rfl, (Option.some.inj taken).symm⟩
      obtain ⟨nothing, rfl⟩ := ends
      rw [nothing, List.append_nil]
      exact ⟨.ended kept.continued behind, replies⟩
  | wrote last kept behind =>
      rename_i earlier request buffer result
      simp only [begun, List.append_nil]
      have continued : Continued (answered.map Prod.fst) := by
        rw [last]
        exact kept.concat request
      have ends (server : Body) : Faithful docroot client
          ⟨⟨running, server, none, .ended, responses, wire⟩, stream, answered⟩ :=
        ⟨.ended continued behind, replies⟩
      cases result with
      | written =>
          simp only [Program.go, connections, Body.resume, Body.continued] at taken
          by_cases alive : request.keepAlive = true
          · have all : AllKept (answered.map Prod.fst) := by
              rw [last]
              exact List.forall_mem_append.mpr ⟨kept, List.forall_mem_singleton.mpr alive⟩
            rw [if_pos alive] at taken
            exact Faithful.loop all behind replies taken
          · rw [if_neg alive] at taken
            exact Option.some.inj taken ▸ ends _
      | request | done | threw => exact Option.some.inj taken ▸ ends _
  | dangles continued behind | ended continued behind => cases taken

/-- An awaited task runs. -/
theorem Faithful.runCallee {submits : Except (Option Nat) Unit} {fs : FileSystem} {callee : Body}
    (faithful : Faithful docroot client s) (awaits : s.exchange.callee = some callee)
    {e : Exchange} (taken : s.exchange.exec docroot submits fs = some e) :
    Faithful docroot client ⟨e, s.stream, s.answered⟩ := by
  obtain ⟨⟨running, server, callee', turn, responses, wire⟩, stream, answered⟩ := s
  obtain rfl : callee' = some callee := awaits
  obtain ⟨follows, replies⟩ := faithful
  simp only [requests] at follows
  simp only [Exchange.exec] at taken
  cases follows with
  | reads kept behind =>
      rename_i buffer signal
      simp only at taken
      have does := readDoes_resume docroot ⟨running, submits, fs⟩ client buffer signal
      split at taken
      · rename_i body goes
        rw [resume_of_go goes] at does
        obtain rfl := Option.some.inj taken
        cases does with
        | waits open_ => exact ⟨.listens kept behind open_, replies⟩
      · rename_i result goes
        rw [resume_of_go goes] at does
        obtain rfl := Option.some.inj taken
        cases does with
        | answers read => exact ⟨.read kept fun sized => (behind sized).concat read, replies⟩
        | leaves => exact ⟨.gaveUp kept behind (by simp), replies⟩
        | throws => exact ⟨.dangles kept.continued behind, replies⟩
      · cases taken
      · cases taken
  | listens kept behind open_ => cases taken
  | writes last kept behind =>
      rename_i earlier request buffer payload offset
      cases turn with
      | suspended | ended => cases taken
      | runs signal =>
          simp only at taken
          have does := writeAll_does docroot ⟨running, submits, fs⟩ client payload offset signal
          split at taken
          · rename_i body goes
            obtain ⟨offset', effect⟩ | ⟨result, effect⟩ := does
            · obtain rfl := Effect.awaitOperation.inj ((resume_of_go goes).symm.trans effect)
              obtain rfl := Option.some.inj taken
              exact ⟨.writes last kept behind, replies⟩
            · cases (resume_of_go goes).symm.trans effect
          · rename_i result goes
            obtain rfl := Option.some.inj taken
            have continued : Continued (answered.map Prod.fst) := by
              rw [last]
              exact kept.concat request
            cases result with
            | threw => exact ⟨.dangles continued behind, replies⟩
            | request | written | done => exact ⟨.wrote last kept behind, replies⟩
          · cases taken
          · cases taken

/-- What a receive took comes behind the stream and behind the buffer. -/
theorem Faithful.complete {res : Int} {chunk : Bytes} (faithful : Faithful docroot client s)
    {e : Exchange} (taken : s.exchange.complete res chunk = some e) :
    Faithful docroot client
      ⟨e, s.stream ++ arrived s.exchange (.complete res chunk), s.answered⟩ := by
  obtain ⟨⟨running, server, callee, turn, responses, wire⟩, stream, answered⟩ := s
  obtain ⟨follows, replies⟩ := faithful
  simp only [requests] at follows
  cases follows with
  | entry | reads | read | gaveUp | wrote | dangles | ended => cases taken
  | listens kept behind open_ =>
      obtain rfl := Option.some.inj taken
      exact ⟨.reads kept (behind.append _), replies⟩
  | writes last kept behind =>
      cases turn with
      | runs | ended => cases taken
      | suspended =>
          obtain ⟨-, taken⟩ := Option.ite_none_right_eq_some.mp taken
          obtain rfl := Option.some.inj taken
          simp only [arrived, List.append_nil]
          exact ⟨.writes last kept behind, replies⟩

theorem faithful_step {s' : Service} {action : ExchangeStep}
    (faithful : Faithful docroot client s)
    (taken : (service docroot client).step s action = some s') : Faithful docroot client s' := by
  obtain ⟨e, step, rfl⟩ := Option.map_eq_some_iff.mp taken
  cases action with
  | exec submits fs =>
      simp only [arrived, List.append_nil]
      cases called : s.exchange.callee with
      | none => exact faithful.runServer called step
      | some callee =>
          have nothing : begun s.exchange (.exec submits fs) = [] := by
            simp only [begun, called]
          rw [nothing, List.append_nil]
          exact faithful.runCallee called step
  | complete res chunk =>
      simp only [begun, List.append_nil]
      exact faithful.complete step
  | stop =>
      obtain rfl := Option.some.inj step
      simp only [arrived, begun, List.append_nil]
      exact ⟨faithful.follows, faithful.replies⟩

theorem faithful_reachable (reached : (service docroot client).Reachable s) :
    Faithful docroot client s :=
  reached.induct ⟨.entry rfl rfl, rfl⟩ fun _ _ _ faithful taken => faithful_step faithful taken

theorem exchange_reachable (reached : (service docroot client).Reachable s) :
    (Uring.exchange docroot client).Reachable s.exchange := by
  refine reached.induct (I := fun s => (Uring.exchange docroot client).Reachable s.exchange)
    .init ?_
  intro s action s' before taken
  obtain ⟨e, step, rfl⟩ := Option.map_eq_some_iff.mp taken
  exact before.step step

end Service

section Follows

variable {client : Nat} {stream : Bytes} {requests : List HttpRequest} {server : Body}
  {callee : Option Body} {turn : Turn}

/-- The requests that were answered, and perhaps one more, were taken off the stream. -/
theorem Follows.taken (follows : Follows client stream requests server callee turn)
    (sized : Sized stream) :
    ∃ later buffer, Asks stream (requests ++ later) buffer ∧ Continued (requests ++ later) := by
  cases follows with
  | entry fresh none_ =>
      subst fresh none_
      exact ⟨[], [], .done [], nofun⟩
  | reads kept behind | listens kept behind | gaveUp kept behind =>
      exact ⟨[], _, by simpa using behind sized, by simpa using kept.continued⟩
  | read kept behind => exact ⟨_, _, behind sized, kept.concat _⟩
  | writes last kept behind | wrote last kept behind =>
      exact ⟨[], _, by simpa using behind sized, by simpa [last] using kept.concat _⟩
  | dangles continued behind | ended continued behind =>
      exact ⟨[], _, by simpa using behind sized, by simpa using continued⟩

/-- Behind the last request of a connection nothing more is owed. -/
theorem Follows.closed (follows : Follows client stream requests server callee turn)
    (sized : Sized stream) (closes : ∃ last ∈ requests, last.keepAlive = false) :
    requests = owed stream := by
  have apart (kept : AllKept requests) : False := by
    obtain ⟨last, member, no⟩ := closes
    rw [kept last member] at no
    cases no
  cases follows with
  | entry fresh none_ =>
      subst none_
      obtain ⟨last, member, -⟩ := closes
      cases member
  | reads kept | listens kept | gaveUp kept | read kept => exact (apart kept).elim
  | writes last kept behind | wrote last kept behind =>
      exact ((behind sized).owed_eq sized (last ▸ kept.concat _) (.inr closes)).symm
  | dangles continued behind | ended continued behind =>
      exact ((behind sized).owed_eq sized continued (.inr closes)).symm

/-- A connection that waits for bytes has answered every request that is complete. -/
theorem Follows.listening {fd : Nat} {buffer : Bytes}
    (follows : Follows client stream requests server (some (.readRequest fd buffer)) .suspended)
    (sized : Sized stream) : requests = owed stream := by
  cases follows with
  | listens kept behind open_ =>
      exact ((behind sized).owed_eq sized kept.continued (.inl open_)).symm

end Follows

namespace Service

/-- What the server has done for the stream it was sent. -/
structure Answers (docroot : Bytes) (s : Service) : Prop where
  inOrder : s.requests <+: owed s.stream
  replies : s.exchange.responses = s.answered.map (reply docroot)
  all : s.Listening ∨ (∃ last ∈ s.requests, last.keepAlive = false) → s.requests = owed s.stream
  sent : s.exchange.wire <+: (s.answered.map (reply docroot)).flatten
  sentAll : s.Listening → s.exchange.wire = (s.answered.map (reply docroot)).flatten

end Service

namespace Service

variable {docroot : Bytes} {client : Nat} {s : Service}

theorem answers_reachable (reached : (service docroot client).Reachable s)
    (sized : Sized s.stream)
    (fits : ∀ response ∈ s.exchange.responses, response.length < 2 ^ 32) :
    s.Answers docroot := by
  have faithful := faithful_reachable reached
  have ordered := Exchange.ordered_reachable (exchange_reachable reached) fits
  obtain ⟨later, buffer, asks, continued⟩ := faithful.follows.taken sized
  refine ⟨?_, faithful.replies, ?_, ?_, ?_⟩
  · exact (List.prefix_append _ _).trans (asks.prefix_owed sized continued)
  · rintro (⟨turn, fd, held, callee⟩ | closes)
    · have follows := faithful.follows
      rw [turn, callee] at follows
      exact follows.listening sized
    · exact faithful.follows.closed sized closes
  · rw [← faithful.replies]
    exact ordered.none_behind.2
  · rintro ⟨turn, fd, held, callee⟩
    rw [← faithful.replies]
    simp only [Exchange.Ordered, callee] at ordered
    exact ordered

end Service

/-- In every run the answers are to the first of the requests that the bytes received
    ask for, in order, and what is on the wire is the beginning of the replies. While the
    connection waits for bytes everything is answered, and everything is on the wire. -/
theorem service_answers (docroot : Bytes) (client : Nat) (s : Service)
    (reached : (service docroot client).Reachable s) (sized : Sized s.stream)
    (fits : ∀ response ∈ s.exchange.responses, response.length < 2 ^ 32) :
    s.Answers docroot := Service.answers_reachable reached sized fits

/-- A request that arrives in two pieces. -/
def piecesSteps : List ExchangeStep :=
  let wire := WireRequest.stream [Coroutine.tricky]
  [.exec (.ok ()) Coroutine.noFiles, .exec (.ok ()) Coroutine.noFiles, .complete 20 (wire.take 20),
    .exec (.ok ()) Coroutine.noFiles, .complete (wire.length - 20 : Nat) (wire.drop 20),
    .exec (.ok ()) Coroutine.noFiles, .exec (.ok ()) Coroutine.noFiles,
    .exec (.ok ()) Coroutine.noFiles, .complete 80 []]

theorem service_answers_pieces :
    ∃ s, (service [] 7).run (service [] 7).init piecesSteps = some s ∧ s.answered.length = 1 ∧
      s.exchange.wire.length = 80 ∧ s.Answers [] := by
  have ran : ((service [] 7).run (service [] 7).init piecesSteps).any fun s =>
      s.answered.length = 1 ∧ s.exchange.wire.length = 80 ∧
        s.stream = WireRequest.stream [Coroutine.tricky] ∧
        ∀ response ∈ s.exchange.responses, response.length < 2 ^ 32 := by
    decide +kernel
  obtain ⟨s, ran, final⟩ := (Option.any_eq_true _ _).mp ran
  obtain ⟨one, sent, stream, fits⟩ := of_decide_eq_true final
  have sized : Sized s.stream := stream ▸ Coroutine.sized_stream _
  exact ⟨s, ran, one, sent, service_answers [] 7 s ⟨piecesSteps, ran⟩ sized fits⟩

/-! ## The client's side -/

/-- A client has written these requests, all to be kept alive, and some of it has arrived. -/
structure Pipelined (ws : List WireRequest) (s : Service) : Prop where
  arrived : s.stream <+: WireRequest.stream ws
  kept : ∀ w ∈ ws, w.expected.keepAlive = true

theorem Pipelined.sized {ws : List WireRequest} {s : Service} (pipelined : Pipelined ws s) :
    Sized s.stream := by
  obtain ⟨more, whole⟩ := pipelined.arrived
  exact Sized.of_append (whole ▸ Coroutine.sized_stream ws)

/-- Requests that were answered are the first ones that were written. -/
theorem Follows.written {client : Nat} {ws : List WireRequest} {s : Service} {server : Body}
    {callee : Option Body} {turn : Turn} (pipelined : Pipelined ws s)
    (follows : Follows client s.stream s.requests server callee turn) :
    ∃ k ≤ ws.length, s.requests = (ws.take k).map WireRequest.expected := by
  obtain ⟨later, buffer, asks, -⟩ := follows.taken pipelined.sized
  obtain ⟨more, whole⟩ := pipelined.arrived
  have full : Asks (s.stream ++ more) (s.requests ++ later) (buffer ++ more) :=
    asks.append (whole ▸ Coroutine.sized_stream ws)
  rw [whole] at full
  obtain ⟨k, -, same, -⟩ := full.of_stream
  have first : s.requests <+: (ws.take k).map WireRequest.expected := same ▸ List.prefix_append _ _
  have all : s.requests <+: ws.map WireRequest.expected :=
    first.trans ((List.take_prefix k ws).map _)
  refine ⟨s.requests.length, by simpa using all.length_le, ?_⟩
  rw [List.map_take]
  exact List.prefix_iff_eq_take.mp all

end Corio.Uring
