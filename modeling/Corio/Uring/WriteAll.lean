import Corio.Uring.Connections

/-! # Whole responses

The sends of `write_all`, and what the kernel takes of them. The length that is left is
narrowed to `unsigned` on its way into the entry. A response goes out whole, or the
connection ends behind it, as long as the narrowing loses nothing.
-/

namespace Corio.Uring

open Coroutine (FileSystem)

/-- The length of the send that `write_all` submits at this offset, as it stands in the
    entry. -/
def sendLength (payload : Bytes) (offset : Nat) : Nat := sub64 payload.length offset % 2 ^ 32

/-- The results that a send of so many bytes can complete with. -/
def Conforms (length : Nat) (res : Int) : Prop :=
  if length = 0 then res = 0 else res < 0 ∨ 1 ≤ res ∧ res ≤ length

instance (length : Nat) (res : Int) : Decidable (Conforms length res) :=
  inferInstanceAs (Decidable (if length = 0 then res = 0 else res < 0 ∨ 1 ≤ res ∧ res ≤ length))

theorem sendLength_eq {payload : Bytes} {offset : Nat} (le : offset ≤ payload.length) :
    sendLength payload offset = (payload.length - offset) % 2 ^ 32 := by
  rw [sendLength, sub64, toSize, BitVec.toNat_ofInt]
  omega

/-- A call of `write_all`, with the bytes that the kernel took. -/
structure Call where
  effect : Effect Body Result
  sent : Bytes

/-- The send that the call is suspended on completes. -/
def Call.complete (c : Call) (world : World) (res : Int) : Option Call :=
  match c.effect with
  | .awaitOperation (.writeAll fd payload offset) =>
      if Conforms (sendLength payload offset) res then
        some ⟨Body.sent world fd payload offset res,
          c.sent ++ (payload.drop offset).take res.toNat⟩
      else none
  | _ => none

def writeAll (world : World) (fd : Nat) (payload : Bytes) : Machine Call (World × Int) where
  init := ⟨Body.writeLoop world fd payload 0, []⟩
  step c action := c.complete action.1 action.2

/-- If the call returns while the server is running, every byte was sent, in order and once. -/
def AllOrFailure (fd : Nat) (payload : Bytes) : Prop :=
  ∀ world results c,
    (writeAll world fd payload).run (writeAll world fd payload).init results = some c →
      world.running = true → (∀ result ∈ results, result.1.running = true) →
        c.effect = .finish .written → c.sent = payload

section Loop

variable {payload : Bytes} {offset : Nat} {res : Int}

theorem writeLoop_cases (world : World) (fd : Nat) (payload : Bytes) (offset : Nat) :
    offset < payload.length ∧
        Body.writeLoop world fd payload offset = .awaitOperation (.writeAll fd payload offset) ∨
      (∃ code, Body.writeLoop world fd payload offset = .finish (.threw code)) ∨
      (payload.length ≤ offset ∨ world.running = false) ∧
        Body.writeLoop world fd payload offset = .finish .written := by
  simp only [Body.writeLoop]
  split
  · rename_i inside
    cases world.submits with
    | ok _ => exact .inl ⟨inside.1, rfl⟩
    | error code => exact .inr (.inl ⟨code, rfl⟩)
  · rename_i outside
    refine .inr (.inr ⟨?_, rfl⟩)
    rcases not_and_or.mp outside with past | stopped
    · exact .inl (Nat.not_lt.mp past)
    · exact .inr (Bool.not_eq_true _ ▸ stopped)

/-- A send that was not narrowed throws, or the loop goes on behind the bytes that it took. -/
theorem sent_cases (world : World) (fd : Nat) (inside : offset < payload.length)
    (fits : payload.length < 2 ^ 32) (conforms : Conforms (sendLength payload offset) res) :
    (∃ code, Body.sent world fd payload offset res = .finish (.threw code)) ∧ res.toNat = 0 ∨
      Body.sent world fd payload offset res
          = Body.writeLoop world fd payload (offset + res.toNat) ∧
        offset + res.toNat ≤ payload.length := by
  rw [sendLength_eq inside.le, Nat.mod_eq_of_lt (by omega), Conforms, if_neg (by omega)] at conforms
  simp only [Body.sent, awaitResume]
  rcases conforms with negative | ⟨positive, le⟩
  · rw [if_pos negative]
    exact .inl ⟨⟨_, rfl⟩, by omega⟩
  · have notNegative : ¬ res < 0 := by omega
    have some_ : ¬ res.toNat ≤ 0 := by omega
    rw [if_neg notNegative]
    simp only [if_neg some_, true_and]
    exact .inr (by omega)

end Loop

/-- What a call has sent is what lies before its offset, or everything. -/
def Call.Whole (payload : Bytes) (c : Call) : Prop :=
  match c.effect with
  | .awaitOperation (.writeAll _ payload' offset) =>
      payload' = payload ∧ offset < payload.length ∧ c.sent = payload.take offset
  | .finish .written => c.sent = payload
  | _ => True

theorem whole_writeLoop {world : World} {fd : Nat} {payload : Bytes} {offset : Nat}
    (running : world.running = true) :
    Call.Whole payload ⟨Body.writeLoop world fd payload offset, payload.take offset⟩ := by
  rcases writeLoop_cases world fd payload offset with
    ⟨inside, suspends⟩ | ⟨code, threw⟩ | ⟨past, written⟩
  · rw [suspends]
    exact ⟨rfl, inside, rfl⟩
  · rw [threw]
    trivial
  · rw [written]
    rcases past with past | stopped
    · exact List.take_of_length_le past
    · exact absurd (running.symm.trans stopped) (by decide)

theorem whole_complete {payload : Bytes} {c c' : Call} {world : World} {res : Int}
    (fits : payload.length < 2 ^ 32) (running : world.running = true) (whole : c.Whole payload)
    (taken : c.complete world res = some c') : c'.Whole payload := by
  obtain ⟨effect, sent⟩ := c
  simp only [Call.complete] at taken
  split at taken
  · rename_i fd payload' offset
    obtain ⟨rfl, inside, rfl⟩ := whole
    obtain ⟨conforms, taken⟩ := Option.ite_none_right_eq_some.mp taken
    obtain rfl := Option.some.inj taken
    rcases sent_cases world fd inside fits conforms with
      ⟨⟨code, threw⟩, -⟩ | ⟨goesOn, -⟩
    · rw [threw]
      trivial
    · rw [goesOn, ← List.take_add]
      exact whole_writeLoop running
  · cases taken

/-- A call with this many bytes left beyond a multiple of 2^32 can end there. -/
theorem exists_truncated (fd : Nat) {payload : Bytes} (k offset : Nat)
    (left : 2 ^ 32 ≤ payload.length - offset) (beyond : (payload.length - offset) % 2 ^ 32 = k)
    (w : World) (running : w.running = true) (submits : w.submits = .ok ()) :
    ∃ results c, (writeAll w fd payload).run
        ⟨.awaitOperation (.writeAll fd payload offset), payload.take offset⟩ results = some c ∧
      (∀ result ∈ results, result.1.running = true) ∧ c.effect = .finish .written ∧
      c.sent.length < payload.length := by
  induction k generalizing offset with
  | zero =>
      have length : sendLength payload offset = 0 := by
        rw [sendLength_eq (by omega), beyond]
      refine
        ⟨[(w, 0)], ⟨.finish .written, payload.take offset⟩, ?_, by simpa using running, rfl, ?_⟩
      · simp [Machine.run_cons, writeAll, Call.complete, length, Conforms, Body.sent, awaitResume]
      · simp only [List.length_take]
        omega
  | succ k ih =>
      have length : sendLength payload offset = k + 1 := by
        rw [sendLength_eq (by omega), beyond]
      have inside : offset + 1 < payload.length := by omega
      obtain ⟨results, c, ran, allRunning, final⟩ := ih (offset + 1) (by omega) (by omega)
      refine ⟨(w, 1) :: results, c, ?_, ?_, final⟩
      · have taken : (writeAll w fd payload).step
            ⟨.awaitOperation (.writeAll fd payload offset), payload.take offset⟩ (w, 1)
            = some ⟨.awaitOperation (.writeAll fd payload (offset + 1)),
              payload.take (offset + 1)⟩ := by
          have one : (1 : Int) ≤ k + 1 := by omega
          simp [writeAll, Call.complete, length, Conforms, Body.sent, awaitResume, Body.writeLoop,
            inside, running, submits, List.take_add, one]
        rw [Machine.run_cons, taken]
        exact ran
      · rw [List.forall_mem_cons]
        exact ⟨running, allRunning⟩

theorem not_allOrFailure (fd : Nat) {payload : Bytes} (large : 2 ^ 32 ≤ payload.length) :
    ¬ AllOrFailure fd payload := by
  intro always
  obtain ⟨results, c, ran, running, written, short⟩ :=
    exists_truncated fd _ 0 large rfl (quietWorld true) rfl rfl
  have begun : (writeAll (quietWorld true) fd payload).init =
      ⟨.awaitOperation (.writeAll fd payload 0), payload.take 0⟩ := by
    have positive : 0 < payload.length := by omega
    simp [writeAll, Body.writeLoop, positive, quietWorld]
  have sent := always (quietWorld true) results c (begun ▸ ran) rfl running written
  rw [sent] at short
  exact absurd short (Nat.lt_irrefl _)

theorem allOrFailure_iff (fd : Nat) (payload : Bytes) :
    AllOrFailure fd payload ↔ payload.length < 2 ^ 32 := by
  constructor
  · intro always
    by_contra large
    exact not_allOrFailure fd (Nat.not_lt.mp large) always
  · intro fits world results c ran running allRunning written
    have step (c : Call) (action : World × Int) (c' : Call) (whole : c.Whole payload)
        (onward : action.1.running = true)
        (taken : (writeAll world fd payload).step c action = some c') : c'.Whole payload :=
      whole_complete fits onward whole taken
    have start : ((writeAll world fd payload).init).Whole payload := whole_writeLoop running
    have whole := (Machine.Guarded.of_actions allRunning _).preserves step start ran
    rw [Call.Whole, written] at whole
    exact whole

/-- Whether the innermost coroutine of a connection runs, and with which signal. -/
inductive Turn where
  | runs (signal : Signal Result)
  | suspended
  | ended
  deriving DecidableEq, Repr

/-- The coroutines of one connection. -/
structure Exchange where
  /-- `HttpServer::running_`. -/
  running : Bool
  /-- `handle_connection`. -/
  server : Body
  /-- The task it awaits. -/
  callee : Option Body
  turn : Turn
  /-- The payloads of all calls of `write_all`, which no step looks at. -/
  responses : List Bytes
  /-- The bytes the kernel took. -/
  wire : Bytes
  deriving DecidableEq, Repr

namespace Exchange

def payload : Body → List Bytes
  | .writeAll _ payload _ => [payload]
  | .handleConnection .. | .readRequest .. => []

/-- The innermost coroutine runs until it gives up control. -/
def exec (docroot : Bytes) (s : Exchange) (submits : Except (Option Nat) Unit) (fs : FileSystem) :
    Option Exchange :=
  match s.turn, s.callee with
  | .runs signal, none =>
      match (connections docroot).go ⟨s.running, submits, fs⟩ s.server signal with
      | some (.awaitTask callee server) =>
          some { s with server := server, callee := some callee, turn := .runs .begin,
                        responses := s.responses ++ payload callee }
      | some (.finish _) => some { s with turn := .ended }
      | some (.awaitOperation _) | none => none
  | .runs signal, some callee =>
      match (connections docroot).go ⟨s.running, submits, fs⟩ callee signal with
      | some (.awaitOperation callee) => some { s with callee := some callee, turn := .suspended }
      | some (.finish result) =>
          some { s with callee := none, turn := .runs ((connections docroot).awaitResume result) }
      | some (.awaitTask ..) | none => none
  | _, _ => none

/-- The operation it is suspended on completes. -/
def complete (s : Exchange) (res : Int) (chunk : Bytes) : Option Exchange :=
  match s.turn, s.callee with
  | .suspended, some (.writeAll _ payload offset) =>
      if Conforms (sendLength payload offset) res then
        some { s with turn := .runs (.completed res chunk),
                      wire := s.wire ++ (payload.drop offset).take res.toNat }
      else none
  | .suspended, some (.readRequest ..) => some { s with turn := .runs (.completed res chunk) }
  | _, _ => none

end Exchange

inductive ExchangeStep where
  | exec (submits : Except (Option Nat) Unit) (fs : FileSystem)
  | complete (res : Int) (chunk : Bytes)
  /-- `stop` clears `running_`. -/
  | stop

def exchange (docroot : Bytes) (client : Nat) : Machine Exchange ExchangeStep where
  init := ⟨true, .handleConnection client .entry, none, .runs .begin, [], []⟩
  step s action :=
    match action with
    | .exec submits fs => s.exec docroot submits fs
    | .complete res chunk => s.complete res chunk
    | .stop => some { s with running := false }

namespace Exchange

/-- The responses are on the wire one behind the other, all but the last one whole. -/
def NoneBehindTruncated (s : Exchange) : Prop :=
  s.responses.dropLast.flatten <+: s.wire ∧ s.wire <+: s.responses.flatten

instance (s : Exchange) : Decidable s.NoneBehindTruncated :=
  inferInstanceAs (Decidable (_ ∧ _))

/-- Everything that was to be sent is on the wire. -/
def Settled (s : Exchange) : Prop := s.wire = s.responses.flatten

/-- The last response is on the wire up to here. -/
def Sending (s : Exchange) (payload : Bytes) (offset : Nat) : Prop :=
  offset ≤ payload.length ∧
    ∃ earlier, s.responses = earlier ++ [payload] ∧ s.wire = earlier.flatten ++ payload.take offset

/-- How far the responses are, by what the connection is doing. -/
def Ordered (s : Exchange) : Prop :=
  match s.callee, s.turn with
  | some (.readRequest ..), _ => s.Settled
  | some (.writeAll _ payload offset), .runs .begin => offset = 0 ∧ s.Sending payload 0
  | some (.writeAll _ payload offset), .suspended =>
      offset < payload.length ∧ s.Sending payload offset
  | some (.writeAll _ payload offset), .runs (.completed res _) =>
      offset < payload.length ∧ Conforms (sendLength payload offset) res ∧
        s.Sending payload (offset + res.toNat)
  | some _, _ => False
  | none, .runs .begin => s.Settled
  | none, .runs (.returned (.request ..)) => s.Settled
  | none, .runs (.returned .written) => s.NoneBehindTruncated ∧ (s.running = true → s.Settled)
  | none, _ => s.NoneBehindTruncated

theorem Settled.none_behind {s : Exchange} (settled : s.Settled) : s.NoneBehindTruncated := by
  refine ⟨?_, ?_⟩
  · rw [settled]
    exact (List.dropLast_prefix s.responses).flatten
  · rw [settled]

theorem Sending.none_behind {s : Exchange} {payload : Bytes} {offset : Nat}
    (sending : s.Sending payload offset) : s.NoneBehindTruncated := by
  obtain ⟨-, earlier, responses, wire⟩ := sending
  rw [NoneBehindTruncated, responses, wire]
  simp only [List.dropLast_concat, List.flatten_append, List.flatten_cons, List.flatten_nil,
    List.append_nil]
  exact ⟨List.prefix_append _ _, (List.prefix_append_right_inj _).mpr (List.take_prefix _ _)⟩

theorem Sending.settled {s : Exchange} {payload : Bytes} {offset : Nat}
    (sending : s.Sending payload offset) (past : payload.length ≤ offset) : s.Settled := by
  obtain ⟨-, earlier, responses, wire⟩ := sending
  rw [Settled, responses, wire, List.take_of_length_le past]
  simp

theorem Ordered.none_behind {s : Exchange} (ordered : s.Ordered) : s.NoneBehindTruncated := by
  unfold Ordered at ordered
  split at ordered
  · exact ordered.none_behind
  · exact ordered.2.none_behind
  · exact ordered.2.none_behind
  · exact ordered.2.2.none_behind
  · cases ordered
  · exact ordered.none_behind
  · exact ordered.none_behind
  · exact ordered.1
  · exact ordered

section Steps

variable {docroot : Bytes} {world : World} {body callee server : Body} {signal : Signal Result}

/-- `read_request` goes on reading, or ends with its answer or with an exception. -/
def ReadsOn (fd : Nat) : Effect Body Result → Prop
  | .awaitOperation body => ∃ buffer, body = .readRequest fd buffer
  | .finish (.request ..) => True
  | .finish (.threw _) => True
  | _ => False

theorem readsOn_caught (fd : Nat) (code : Option Nat) (buffer : Bytes) :
    ReadsOn fd (Body.caught code buffer) := by
  unfold Body.caught
  split <;> trivial

theorem readsOn_readLoop (world : World) (fd : Nat) (buffer : Bytes) :
    ReadsOn fd (Body.readLoop world fd buffer) := by
  unfold Body.readLoop
  split
  · trivial
  · split
    · trivial
    · split
      · exact ⟨buffer, rfl⟩
      · exact readsOn_caught fd _ buffer

theorem readsOn_resume (docroot : Bytes) (world : World) (fd : Nat) (buffer : Bytes)
    (signal : Signal Result) :
    ReadsOn fd (Body.resume docroot world (.readRequest fd buffer) signal) := by
  cases signal with
  | begin => exact readsOn_readLoop world fd buffer
  | completed res chunk =>
      change ReadsOn fd (Body.received world fd buffer res chunk)
      unfold Body.received
      split
      · exact readsOn_caught fd _ buffer
      · split
        · trivial
        · exact readsOn_readLoop world fd _
  | returned | dangled => trivial

/-- `write_all` awaits no task. -/
theorem writeLoop_calls {fd offset : Nat} {payload : Bytes}
    (calls : Body.writeLoop world fd payload offset = .awaitTask callee server) : False := by
  rcases writeLoop_cases world fd payload offset with ⟨-, effect⟩ | ⟨code, effect⟩ | ⟨-, effect⟩
  all_goals
    rw [effect] at calls
    cases calls

theorem connectionLoop_calls {client : Nat} {buffer : Bytes}
    (calls : Body.connectionLoop world client buffer = .awaitTask callee server) :
    callee = .readRequest client buffer ∧ world.running = true := by
  unfold Body.connectionLoop at calls
  split at calls
  · rename_i running
    obtain ⟨rfl, -⟩ := Effect.awaitTask.inj calls
    exact ⟨rfl, running⟩
  · cases calls

/-- `handle_connection` reads at the beginning and behind a response, and writes behind a
    request. No other body awaits a task. -/
theorem resume_calls (calls : Body.resume docroot world body signal = .awaitTask callee server) :
    (∃ fd buffer, callee = .readRequest fd buffer) ∧
        (signal = .begin ∨ signal = .returned .written ∧ world.running = true) ∨
      (∃ fd wire, callee = .writeAll fd wire 0) ∧
        ∃ request buffer, signal = .returned (.request request buffer) := by
  cases body with
  | readRequest fd buffer =>
      have reads := readsOn_resume docroot world fd buffer signal
      rw [calls] at reads
      cases reads
  | writeAll fd payload offset =>
      cases signal with
      | begin => exact (writeLoop_calls calls).elim
      | completed res chunk =>
          change Body.sent world fd payload offset res = _ at calls
          unfold Body.sent at calls
          split at calls
          · cases calls
          · split at calls
            · cases calls
            · exact (writeLoop_calls calls).elim
      | returned | dangled => cases calls
  | handleConnection client pc =>
      cases signal with
      | begin => exact .inl ⟨⟨_, _, (connectionLoop_calls calls).1⟩, .inl rfl⟩
      | completed | dangled => cases calls
      | returned result =>
          change Body.continued docroot world client pc result = _ at calls
          unfold Body.continued at calls
          split at calls
          · obtain ⟨rfl, -⟩ := Effect.awaitTask.inj calls
            exact .inr ⟨⟨_, _, rfl⟩, _, _, rfl⟩
          · split at calls
            · obtain ⟨rfl, running⟩ := connectionLoop_calls calls
              exact .inl ⟨⟨_, _, rfl⟩, .inr ⟨rfl, running⟩⟩
            · cases calls
          · cases calls

/-- `handle_connection` runs, and starts the next response only if the last one is whole. -/
theorem Ordered.runServer {s s' : Exchange} {submits : Except (Option Nat) Unit} {fs : FileSystem}
    (ordered : s.Ordered) (idle : s.callee = none)
    (taken : s.exec docroot submits fs = some s') : s'.Ordered := by
  obtain ⟨running, server, callee, turn, responses, wire⟩ := s
  obtain rfl : callee = none := idle
  have none_ := ordered.none_behind
  cases turn with
  | suspended | ended => cases taken
  | runs signal =>
      simp only [exec] at taken
      split at taken
      · rename_i callee' server' goes
        obtain rfl := Option.some.inj taken
        rcases resume_calls (resume_of_go goes) with ⟨⟨fd, buffer, rfl⟩, when⟩ | ⟨⟨fd, payload, rfl⟩, when⟩
        · have settled : wire = responses.flatten := by
            rcases when with rfl | ⟨rfl, stillRunning⟩
            · exact ordered
            · exact ordered.2 stillRunning
          change wire = (responses ++ []).flatten
          rw [settled, List.append_nil]
        · obtain ⟨request, buffer, rfl⟩ := when
          have settled : wire = responses.flatten := ordered
          refine ⟨rfl, Nat.zero_le _, responses, rfl, ?_⟩
          rw [settled, List.take_zero, List.append_nil]
      · obtain rfl := Option.some.inj taken
        exact none_
      · cases taken
      · cases taken

/-- The write loop runs at an offset that everything before was sent up to. -/
theorem ordered_writeLoop {s : Exchange} {fd offset : Nat} {payload : Bytes} {world : World}
    (running : s.running = world.running) (sending : s.Sending payload offset) {s' : Exchange}
    (taken : (match some (Body.writeLoop world fd payload offset) with
      | some (.awaitOperation callee) => some { s with callee := some callee, turn := .suspended }
      | some (.finish result) =>
          some { s with callee := none, turn := .runs ((connections docroot).awaitResume result) }
      | some (.awaitTask ..) | none => none) = some s') : s'.Ordered := by
  rcases writeLoop_cases world fd payload offset with
    ⟨inside, effect⟩ | ⟨code, effect⟩ | ⟨past, effect⟩
  · rw [effect] at taken
    obtain rfl := Option.some.inj taken
    exact ⟨inside, sending⟩
  · rw [effect] at taken
    obtain rfl := Option.some.inj taken
    exact sending.none_behind
  · rw [effect] at taken
    obtain rfl := Option.some.inj taken
    refine ⟨sending.none_behind, fun stillRunning => ?_⟩
    rcases past with past | stopped
    · exact sending.settled past
    · exact absurd ((running ▸ stillRunning : world.running = true).symm.trans stopped) (by decide)

/-- An awaited task runs. -/
theorem Ordered.runCallee {s s' : Exchange} {submits : Except (Option Nat) Unit} {fs : FileSystem}
    {callee : Body} (ordered : s.Ordered) (awaits : s.callee = some callee)
    (fits : ∀ response ∈ s.responses, response.length < 2 ^ 32)
    (taken : s.exec docroot submits fs = some s') : s'.Ordered := by
  obtain ⟨running, server, callee', turn, responses, wire⟩ := s
  obtain rfl : callee' = some callee := awaits
  cases turn with
  | suspended | ended => cases taken
  | runs signal =>
      simp only [exec] at taken
      cases callee with
      | handleConnection client pc => cases ordered
      | readRequest fd buffer =>
          have settled : wire = responses.flatten := ordered
          have reads := readsOn_resume docroot ⟨running, submits, fs⟩ fd buffer signal
          split at taken
          · rename_i body goes
            rw [resume_of_go goes] at reads
            obtain ⟨buffer', rfl⟩ := reads
            obtain rfl := Option.some.inj taken
            exact settled
          · rename_i result goes
            rw [resume_of_go goes] at reads
            obtain rfl := Option.some.inj taken
            cases result with
            | request request buffer' => exact settled
            | threw code => exact Settled.none_behind settled
            | written | done => cases reads
          · cases taken
          · cases taken
      | writeAll fd payload offset =>
          cases signal with
          | begin =>
              obtain ⟨rfl, sending⟩ := ordered
              exact ordered_writeLoop rfl sending taken
          | returned | dangled => cases ordered
          | completed res chunk =>
              obtain ⟨inside, conforms, sending⟩ := ordered
              have fitsThis : payload.length < 2 ^ 32 := by
                obtain ⟨-, earlier, same, -⟩ := sending
                exact fits payload (same ▸ by simp)
              change (match some (Body.sent ⟨running, submits, fs⟩ fd payload offset res) with
                | some (.awaitOperation callee) => _
                | some (.finish result) => _
                | some (.awaitTask ..) | none => _) = _ at taken
              rcases sent_cases ⟨running, submits, fs⟩ fd inside fitsThis conforms with
                ⟨⟨code, threw⟩, -⟩ | ⟨goesOn, -⟩
              · rw [threw] at taken
                obtain rfl := Option.some.inj taken
                exact sending.none_behind
              · rw [goesOn] at taken
                exact ordered_writeLoop rfl sending taken

/-- The operation completes: a send takes what it was completed with. -/
theorem Ordered.complete {s s' : Exchange} {res : Int} {chunk : Bytes} (ordered : s.Ordered)
    (fits : ∀ response ∈ s.responses, response.length < 2 ^ 32)
    (taken : s.complete res chunk = some s') : s'.Ordered := by
  obtain ⟨running, server, callee, turn, responses, wire⟩ := s
  cases turn with
  | runs | ended => simp [Exchange.complete] at taken
  | suspended =>
      cases callee with
      | none => simp [Exchange.complete] at taken
      | some body =>
          cases body with
          | handleConnection client pc => cases ordered
          | readRequest fd buffer =>
              obtain rfl := Option.some.inj taken
              exact ordered
          | writeAll fd payload offset =>
              obtain ⟨inside, -, earlier, same, sent⟩ := ordered
              have same : responses = earlier ++ [payload] := same
              have sent : wire = earlier.flatten ++ payload.take offset := sent
              obtain ⟨conforms, taken⟩ := Option.ite_none_right_eq_some.mp taken
              obtain rfl := Option.some.inj taken
              have fitsThis : payload.length < 2 ^ 32 := fits payload (same ▸ by simp)
              have le : offset + res.toNat ≤ payload.length := by
                rcases sent_cases (quietWorld true) fd inside fitsThis conforms with
                  ⟨-, none_⟩ | ⟨-, le⟩
                · rw [none_]
                  exact inside.le
                · exact le
              refine ⟨inside, conforms, le, earlier, same, ?_⟩
              change wire ++ (payload.drop offset).take res.toNat = _
              rw [sent, List.append_assoc, ← List.take_add]

/-- When the server stops, less is promised. -/
theorem Ordered.stop {s : Exchange} (ordered : s.Ordered) :
    Ordered { s with running := false } := by
  obtain ⟨running, server, callee, turn, responses, wire⟩ := s
  cases callee with
  | some body =>
      cases body with
      | handleConnection | readRequest => exact ordered
      | writeAll fd payload offset =>
          cases turn with
          | suspended | ended => exact ordered
          | runs signal => cases signal <;> exact ordered
  | none =>
      cases turn with
      | suspended | ended => exact ordered
      | runs signal =>
          cases signal with
          | begin | completed | dangled => exact ordered
          | returned result =>
              cases result with
              | written => exact ⟨ordered.1, by simp⟩
              | request | done | threw => exact ordered

theorem ordered_step {client : Nat} {s s' : Exchange} {action : ExchangeStep}
    (ordered : s.Ordered) (fits : ∀ response ∈ s.responses, response.length < 2 ^ 32)
    (taken : (exchange docroot client).step s action = some s') : s'.Ordered := by
  cases action with
  | exec submits fs =>
      cases called : s.callee with
      | none => exact ordered.runServer called taken
      | some callee => exact ordered.runCallee called fits taken
  | complete res chunk => exact ordered.complete fits taken
  | stop =>
      obtain rfl := Option.some.inj taken
      exact ordered.stop

/-- No step takes a response back. -/
theorem responses_step {client : Nat} {s s' : Exchange} {action : ExchangeStep}
    (taken : (exchange docroot client).step s action = some s') : s.responses ⊆ s'.responses := by
  cases action with
  | exec submits fs =>
      simp only [exchange, exec] at taken
      split at taken
      · split at taken
        · obtain rfl := Option.some.inj taken
          exact List.subset_append_left _ _
        · obtain rfl := Option.some.inj taken
          exact List.Subset.refl _
        · cases taken
        · cases taken
      · split at taken
        · obtain rfl := Option.some.inj taken
          exact List.Subset.refl _
        · obtain rfl := Option.some.inj taken
          exact List.Subset.refl _
        · cases taken
        · cases taken
      · cases taken
  | complete res chunk =>
      simp only [exchange, Exchange.complete] at taken
      split at taken
      · obtain ⟨-, taken⟩ := Option.ite_none_right_eq_some.mp taken
        obtain rfl := Option.some.inj taken
        exact List.Subset.refl _
      · obtain rfl := Option.some.inj taken
        exact List.Subset.refl _
      · cases taken
  | stop =>
      obtain rfl := Option.some.inj taken
      exact List.Subset.refl _

theorem ordered_reachable {client : Nat} {s : Exchange}
    (reached : (exchange docroot client).Reachable s)
    (fits : ∀ response ∈ s.responses, response.length < 2 ^ 32) : s.Ordered := by
  revert fits
  refine reached.induct
    (I := fun s => (∀ response ∈ s.responses, response.length < 2 ^ 32) → s.Ordered)
    (fun _ => rfl) ?_
  intro s action s' ordered taken fits
  have before : ∀ response ∈ s.responses, response.length < 2 ^ 32 :=
    fun response member => fits response (responses_step taken member)
  exact ordered_step (ordered before) before taken

end Steps

end Exchange

/-- `write_all` is all-or-failure exactly for payloads below 2^32 bytes, and a connection
    whose responses stay below never sends one behind a truncated one. -/
theorem writeAll_delivers (docroot : Bytes) (client : Nat) :
    (∀ payload, AllOrFailure client payload ↔ payload.length < 2 ^ 32) ∧
      ∀ s, (exchange docroot client).Reachable s →
        (∀ response ∈ s.responses, response.length < 2 ^ 32) → s.NoneBehindTruncated :=
  ⟨allOrFailure_iff client, fun _ reached fits =>
    (Exchange.ordered_reachable reached fits).none_behind⟩

/-- One request is answered with the greeting, and half of that is sent. -/
def halfSteps : List ExchangeStep :=
  let chunk := bytes "GET /hello HTTP/1.1\r\n\r\n"
  [.exec (.ok ()) Coroutine.noFiles, .exec (.ok ()) Coroutine.noFiles, .complete chunk.length chunk,
    .exec (.ok ()) Coroutine.noFiles, .exec (.ok ()) Coroutine.noFiles,
    .exec (.ok ()) Coroutine.noFiles, .complete 80 []]

theorem writeAll_delivers_half :
    AllOrFailure 7 (bytes "Hello") ∧
      ∃ s, (exchange [] 7).run (exchange [] 7).init halfSteps = some s ∧
        s.wire.length = 80 ∧ s.NoneBehindTruncated := by
  have ran : ((exchange [] 7).run (exchange [] 7).init halfSteps).any fun s =>
      s.wire.length = 80 ∧ ∀ response ∈ s.responses, response.length < 2 ^ 32 := by
    decide +kernel
  obtain ⟨s, ran, final⟩ := (Option.any_eq_true _ _).mp ran
  obtain ⟨sent, fits⟩ := of_decide_eq_true final
  exact ⟨((writeAll_delivers [] 7).1 (bytes "Hello")).mpr (by decide), s, ran, sent,
    (writeAll_delivers [] 7).2 s ⟨halfSteps, ran⟩ fits⟩

/-- The length of the first send of 2^32 bytes is narrowed to nothing, and the send completes
    with nothing. -/
theorem writeAll_gives_up : ¬ AllOrFailure 7 (List.replicate (2 ^ 32) 0) :=
  not_allOrFailure 7 (List.length_replicate).ge

end Corio.Uring
