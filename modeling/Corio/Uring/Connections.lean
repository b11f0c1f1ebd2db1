import Corio.Coroutine.ReadRequest
import Corio.Coroutine.Resolve
import Corio.Uring.Ownership
import Corio.Uring.Ring

/-! # Connections on a worker

The bodies of `handle_connection`, `read_request` and `write_all`, cut at their
suspensions. The buffer that `read_request` takes by reference goes to it with the
call and comes back with its result.
-/

namespace Corio.Uring

open Coroutine

/-- What the coroutines read from outside between two suspensions. -/
structure World where
  /-- `HttpServer::running_`. -/
  running : Bool
  /-- Whether the `submit` of an awaiter throws, and the code if it is a `system_error`. -/
  submits : Except (Option Nat) Unit
  fs : FileSystem

inductive ConnectionPc where
  | entry
  /-- In `co_await read_request`. -/
  | reading
  /-- In `co_await write_all`. -/
  | writing (request : HttpRequest) (buffer : Bytes)
  deriving DecidableEq, Repr

inductive Body where
  | handleConnection (client : Nat) (pc : ConnectionPc)
  | readRequest (fd : Nat) (buffer : Bytes)
  | writeAll (fd : Nat) (payload : Bytes) (offset : Nat)
  deriving DecidableEq, Repr

inductive Result where
  | request (request : Option HttpRequest) (buffer : Bytes)
  | written
  | done
  /-- An exception, with the code if it is a `system_error`. -/
  | threw (code : Option Nat)
  deriving DecidableEq, Repr

/-- Whether the task ends with an exception. -/
def Result.raised : Result → Bool
  | .threw _ => true
  | .request .. | .written | .done => false

namespace Body

/-- The handler around the receive. -/
def caught (code : Option Nat) (buffer : Bytes) : Effect Body Result :=
  if code = some ETIMEDOUT ∨ code = some Coroutine.ECANCELED then .finish (.request none buffer)
  else .finish (.threw code)

/-- `read_request`, from the test of its loop. -/
def readLoop (world : World) (fd : Nat) (buffer : Bytes) : Effect Body Result :=
  if ¬ world.running then .finish (.request none buffer)
  else
    match tryParseRequest buffer with
    | some parsed => .finish (.request (some parsed.request) (buffer.drop parsed.consumed))
    | none =>
        match world.submits with
        | .ok () => .awaitOperation (.readRequest fd buffer)
        | .error code => caught code buffer

/-- `read_request`, from the end of `async_recv_for`. -/
def received (world : World) (fd : Nat) (buffer : Bytes) (res : Int) (chunk : Bytes) :
    Effect Body Result :=
  match awaitResume res with
  | .error code => caught (some code) buffer
  | .ok n =>
      if n ≤ 0 then .finish (.request none buffer)
      else readLoop world fd (buffer ++ chunk.take n)

/-- `write_all`, from the test of its loop. -/
def writeLoop (world : World) (fd : Nat) (payload : Bytes) (offset : Nat) : Effect Body Result :=
  if offset < payload.length ∧ world.running then
    match world.submits with
    | .ok () => .awaitOperation (.writeAll fd payload offset)
    | .error code => .finish (.threw code)
  else .finish .written

/-- `write_all`, from the end of `async_send`. -/
def sent (world : World) (fd : Nat) (payload : Bytes) (offset : Nat) (res : Int) :
    Effect Body Result :=
  match awaitResume res with
  | .error code => .finish (.threw (some code))
  | .ok n => if n ≤ 0 then .finish .written else writeLoop world fd payload (offset + n)

/-- `handle_connection`, from the test of its loop. Its client is a valid descriptor. -/
def connectionLoop (world : World) (client : Nat) (buffer : Bytes) : Effect Body Result :=
  if world.running then
    .awaitTask (.readRequest client buffer) (.handleConnection client .reading)
  else .finish .done

/-- `handle_connection`, from the end of an awaited task. Its handler would catch every
    exception, but with one of an awaited task it does not go on (`Signal.dangled`). -/
def continued (docroot : Bytes) (world : World) (client : Nat) (pc : ConnectionPc)
    (result : Result) : Effect Body Result :=
  match pc, result with
  | .reading, .request (some request) buffer =>
      let wire := (buildResponse world.fs docroot request).1.toWire
      .awaitTask (.writeAll client wire 0) (.handleConnection client (.writing request buffer))
  | .writing request buffer, .written =>
      if request.keepAlive then connectionLoop world client buffer else .finish .done
  | _, _ => .finish .done

def resume (docroot : Bytes) (world : World) (body : Body) (signal : Signal Result) :
    Effect Body Result :=
  match body, signal with
  | .handleConnection client _, .begin => connectionLoop world client []
  | .handleConnection client pc, .returned result => continued docroot world client pc result
  | .readRequest fd buffer, .begin => readLoop world fd buffer
  | .readRequest fd buffer, .completed res chunk => received world fd buffer res chunk
  | .writeAll fd payload offset, .begin => writeLoop world fd payload offset
  | .writeAll fd payload offset, .completed res _ => sent world fd payload offset res
  -- A task awaits no operation itself, and the other two await no task.
  | _, _ => .finish (.threw none)

/-- The `UniqueFd` parameter. -/
def owned : Body → Option Nat
  | .handleConnection client _ => some client
  | .readRequest .. | .writeAll .. => none

section Script

variable (fs : FileSystem) (fd : Nat)

/-- The flag is down when the script says so next. -/
def worldOf (script : List Event) : World := ⟨script.head? ≠ some .stopped, .ok (), fs⟩

/-- The completion that an event stands for. -/
def completionOf : Event → Int × Bytes
  | .received chunk => (chunk.length, chunk)
  | .failed (some code) => (-code, [])
  | .failed none | .stopped => (0, [])

/-- The answer of `read_request`, where every suspension takes an event of the script. -/
def followed : Effect Body Result → List Event → Answer
  | .finish (.request (some request) _), _ => .request request
  | .finish (.request none _), _ => .nullopt
  | .finish (.threw code), _ => .threw code
  | .awaitOperation (.readRequest _ buffer), event :: script =>
      let (res, chunk) := completionOf event
      followed (received (worldOf fs script) fd buffer res chunk) script
  | _, _ => .waiting

theorem followed_caught (code : Option Nat) (buffer : Bytes) (script : List Event) :
    followed fs fd (caught code buffer) script =
      if code = some ETIMEDOUT ∨ code = some Coroutine.ECANCELED then .nullopt
      else .threw code := by
  unfold caught
  split <;> cases script <;> rfl

/-- Cut at its suspensions, `read_request` answers what it answers in one piece. -/
theorem readRequest_followed (script : List Event) (buffer : Bytes)
    (codes : ∀ code, .failed code ∈ script → ∃ n, code = some (n + 1)) :
    (Coroutine.readRequest script buffer).1 =
      followed fs fd (readLoop (worldOf fs script) fd buffer) script := by
  induction script generalizing buffer with
  | nil =>
      simp only [Coroutine.readRequest, readLoop, worldOf]
      cases tryParseRequest buffer <;> rfl
  | cons event script ih =>
      have later (buffer : Bytes) := ih buffer fun code member =>
        codes code (List.mem_cons_of_mem _ member)
      cases event with
      | stopped => rfl
      | received chunk =>
          simp only [Coroutine.readRequest, readLoop, worldOf]
          cases tryParseRequest buffer with
          | some parsed => rfl
          | none =>
              have whole : awaitResume chunk.length = .ok chunk.length := by
                simp [awaitResume]
              simp only [List.head?_cons, ne_eq, Option.some.injEq, reduceCtorEq,
                not_false_eq_true, decide_true, not_true_eq_false, if_false, followed,
                completionOf, received, whole]
              by_cases empty : chunk.length ≤ 0
              · simp only [empty, if_true]
                cases script <;> rfl
              · simp only [empty, if_false, List.take_length, later]
      | failed code =>
          obtain ⟨n, rfl⟩ := codes code List.mem_cons_self
          simp only [Coroutine.readRequest, readLoop, worldOf]
          cases tryParseRequest buffer with
          | some parsed => rfl
          | none =>
              have thrown : awaitResume (-((n + 1 : Nat) : Int)) = .error (n + 1) := by
                simp only [awaitResume, Int.neg_neg, Int.toNat_natCast]
                exact if_pos (by omega)
              simp only [List.head?_cons, ne_eq, Option.some.injEq, reduceCtorEq,
                not_false_eq_true, decide_true, not_true_eq_false, if_false, followed,
                completionOf, received, thrown, followed_caught]
              split <;> rfl

end Script

/-- Whatever a coroutine does, it goes on owning what it owns. -/
def Keeps (fd : Option Nat) : Effect Body Result → Prop
  | .awaitOperation body | .awaitTask _ body => body.owned = fd
  | .finish _ => True

theorem caught_keeps (code : Option Nat) (buffer : Bytes) : Keeps none (caught code buffer) := by
  unfold caught
  split <;> trivial

theorem readLoop_keeps (world : World) (fd : Nat) (buffer : Bytes) :
    Keeps none (readLoop world fd buffer) := by
  unfold readLoop
  split
  · trivial
  · split
    · trivial
    · split
      · exact rfl
      · exact caught_keeps _ buffer

theorem writeLoop_keeps (world : World) (fd : Nat) (payload : Bytes) (offset : Nat) :
    Keeps none (writeLoop world fd payload offset) := by
  unfold writeLoop
  split
  · split
    · exact rfl
    · trivial
  · trivial

theorem connectionLoop_keeps (world : World) (client : Nat) (buffer : Bytes) :
    Keeps (some client) (connectionLoop world client buffer) := by
  unfold connectionLoop
  split
  · exact rfl
  · trivial

theorem continued_keeps (docroot : Bytes) (world : World) (client : Nat) (pc : ConnectionPc)
    (result : Result) : Keeps (some client) (continued docroot world client pc result) := by
  unfold continued
  split
  · exact rfl
  · split
    · exact connectionLoop_keeps world client _
    · trivial
  · trivial

theorem resume_keeps (docroot : Bytes) (world : World) (body : Body) (signal : Signal Result) :
    Keeps body.owned (resume docroot world body signal) := by
  unfold resume
  split
  · exact connectionLoop_keeps world _ []
  · exact continued_keeps docroot world _ _ _
  · exact readLoop_keeps world _ _
  · unfold received
    split
    · exact caught_keeps _ _
    · split
      · trivial
      · exact readLoop_keeps world _ _
  · exact writeLoop_keeps world _ _ _
  · unfold sent
    split
    · trivial
    · split
      · trivial
      · exact writeLoop_keeps world _ _ _
  · trivial

end Body

/-- The coroutines of a worker. -/
def connections (docroot : Bytes) : Program Body Result World where
  resume := Body.resume docroot
  raised := Result.raised
  detached := fun fd => .handleConnection fd .entry
  owned := Body.owned
  owned_detached := fun _ => rfl
  owned_operation := by
    intro world body signal body' suspends
    have keeps := Body.resume_keeps docroot world body signal
    rwa [suspends] at keeps
  owned_task := by
    intro world body signal child body' calls
    have keeps := Body.resume_keeps docroot world body signal
    rwa [calls] at keeps

theorem resume_of_go {docroot : Bytes} {world : World} {body : Body} {signal : Signal Result}
    {effect : Effect Body Result}
    (goes : (connections docroot).go world body signal = some effect) :
    Body.resume docroot world body signal = effect :=
  Program.resume_of_go goes

/-- A connection that has ended was released, with its frame destroyed and its descriptor
    closed once, exactly if it was never suspended on an operation. One whose task has thrown
    does not end (`Worker.Dangling.stuck`). -/
theorem connection_released_iff (docroot : Bytes) (steps : List (WorkerStep World))
    (s : Worker Body Result)
    (ran : (worker (connections docroot)).run (worker (connections docroot)).init steps = some s)
    (r : Handle) (fd : Nat) (started : (r, fd) ∈ s.started) (finished : r ∈ s.finished) :
    s.Released r fd ↔ r ∉ s.suspended :=
  released_iff (kept_reachable ⟨steps, ran⟩) started finished

def quietWorld (running : Bool) : World := ⟨running, .ok (), Coroutine.noFiles⟩

/-- The server is stopping when the connection comes. -/
def refusedSteps : List (WorkerStep World) :=
  [.start 7, .take, .exec (quietWorld false)]

theorem connection_refused_released :
    ∃ s, (worker (connections [])).run (worker (connections [])).init refusedSteps = some s ∧
      s.Released 0 7 := by
  obtain ⟨s, ran⟩ := Option.isSome_iff_exists.mp
    (show ((worker (connections [])).run (worker (connections [])).init refusedSteps).isSome by
      decide)
  have ended : ((worker (connections [])).run (worker (connections [])).init refusedSteps).all
      fun s => (0, 7) ∈ s.started ∧ 0 ∈ s.finished ∧ 0 ∉ s.suspended := by
    decide
  rw [ran] at ended
  obtain ⟨started, finished, live⟩ := of_decide_eq_true ended
  exact ⟨s, ran, (connection_released_iff [] refusedSteps s ran 0 7 started finished).mpr live⟩

/-- The client connects, and closes the connection while it is being read. -/
def closedSteps : List (WorkerStep World) :=
  [.start 7, .take, .exec (quietWorld true), .exec (quietWorld true), .complete 0 0 [], .take,
    .exec (quietWorld true), .exec (quietWorld true)]

/-- The connection has ended, nothing refers to it, and its frame and descriptor are left. -/
theorem connection_leaks :
    ((worker (connections [])).run (worker (connections [])).init closedSteps).any fun s =>
      (0, 7) ∈ s.started ∧ 0 ∈ s.finished ∧ s.destroyed.count 0 = 0 ∧ s.closed = [] ∧
        s.isDone 0 ∧ s.running = none ∧ s.ready = [] ∧ s.pending = [] := by
  decide +kernel

end Corio.Uring
