import Corio.Uring.Alone
import Corio.Uring.Service

/-! # The connections of a worker

A worker that serves any number of connections at once, with the bytes each of them
received and sent. What a connection sends depends on what it received alone: it is a
connection as it would be on a worker of its own.
-/

namespace Corio.Uring

open Coroutine (FileSystem HttpRequest Sized owed)

namespace Body

/-- The request that the coroutine builds a response to when it goes on with this. -/
def begins (fs : FileSystem) : Body → Signal Result → List (HttpRequest × FileSystem)
  | .handleConnection _ .reading, .returned (.request (some request) _) => [(request, fs)]
  | _, _ => []

/-- What a receive takes. -/
def takes (res : Int) (chunk : Bytes) : Body → Bytes
  | .readRequest .. => chunk.take res.toNat
  | .handleConnection .. | .writeAll .. => []

/-- What a send hands over. -/
def hands (res : Int) : Body → Bytes
  | .writeAll _ payload offset => (payload.drop offset).take res.toNat
  | .handleConnection .. | .readRequest .. => []

/-- Whether the operation can complete with this. -/
def Allows (res : Int) : Body → Prop
  | .writeAll _ payload offset => Conforms (sendLength payload offset) res
  | .handleConnection .. | .readRequest .. => True

instance (res : Int) (body : Body) : Decidable (body.Allows res) := by
  cases body <;> simp only [Allows] <;> infer_instance

end Body

/-- A worker, and the history of its connections by their first frame. -/
structure Sessions where
  worker : Worker Body Result
  /-- `HttpServer::running_`. -/
  running : Bool
  stream : Handle → Bytes
  wire : Handle → Bytes
  answered : Handle → List (HttpRequest × FileSystem)

namespace Sessions

/-- A line of the history of one connection. -/
def log {γ : Type} (table : Handle → List γ) (r : Handle) (more : List γ) : Handle → List γ :=
  Function.update table r (table r ++ more)

def exec (docroot : Bytes) (s : Sessions) (submits : Except (Option Nat) Unit)
    (fs : FileSystem) : Option Sessions :=
  match s.worker.running with
  | none => none
  | some (_, h) =>
      match s.worker.frames h with
      | none => none
      | some frame =>
          (s.worker.exec (connections docroot) ⟨s.running, submits, fs⟩).map fun next =>
            { s with worker := next,
                     answered := log s.answered (s.worker.root h)
                       (frame.body.begins fs frame.signal) }

def complete (s : Sessions) (i : Nat) (res : Int) (chunk : Bytes) : Option Sessions :=
  match s.worker.pending[i]? with
  | none => none
  | some h =>
      match s.worker.frames h with
      | none => none
      | some frame =>
          if frame.body.Allows res then
            (s.worker.complete i res chunk).map fun next =>
              { s with worker := next,
                       stream := log s.stream (s.worker.root h) (frame.body.takes res chunk),
                       wire := log s.wire (s.worker.root h) (frame.body.hands res) }
          else none

end Sessions

inductive SessionsStep where
  | start (fd : Nat)
  | take
  | exec (submits : Except (Option Nat) Unit) (fs : FileSystem)
  | complete (i : Nat) (res : Int) (chunk : Bytes)
  /-- `stop` clears `running_`. -/
  | stop

def sessions (docroot : Bytes) : Machine Sessions SessionsStep where
  init := ⟨(worker (connections docroot)).init, true, fun _ => [], fun _ => [], fun _ => []⟩
  step s action :=
    match action with
    | .start fd =>
        ((worker (connections docroot)).step s.worker (.start fd)).map fun next =>
          { s with worker := next }
    | .take => s.worker.take.map fun next => { s with worker := next }
    | .exec submits fs => s.exec docroot submits fs
    | .complete i res chunk => s.complete i res chunk
    | .stop => some { s with running := false }

/-- The coroutines of a connection, as a stack. -/
def Exchange.Alike (e : Exchange) (t : Stack Body Result) : Prop :=
  match e.turn with
  | .ended => t.bodies = []
  | .suspended => t = ⟨e.callee.toList ++ [e.server], none⟩
  | .runs signal => t = ⟨e.callee.toList ++ [e.server], some signal⟩

section Alike

variable {docroot : Bytes} {client : Nat} {v : Service} {t t' : Stack Body Result}

theorem connectionLoop_waits (world : World) (client : Nat) (buffer : Bytes) (body : Body) :
    Body.connectionLoop world client buffer ≠ .awaitOperation body := by
  unfold Body.connectionLoop
  split <;> nofun

/-- `handle_connection` awaits no operation itself. -/
theorem Follows.server_calls {stream : Bytes} {requests : List HttpRequest} {server : Body}
    {signal : Signal Result}
    (follows : Follows client stream requests server none (.runs signal)) (docroot : Bytes)
    (world : World) (body : Body) :
    (connections docroot).go world server signal ≠ some (.awaitOperation body) := by
  have continued (pc : ConnectionPc) (result : Result) :
      Body.continued docroot world client pc result ≠ .awaitOperation body := by
    unfold Body.continued
    split
    · nofun
    · split
      · exact connectionLoop_waits world client _ body
      · nofun
    · nofun
  intro goes
  have effect := resume_of_go goes
  cases follows with
  | entry => exact connectionLoop_waits world client [] body effect
  | read kept behind => exact continued .reading (.request (some _) _) effect
  | gaveUp kept behind other => exact continued .reading _ effect
  | wrote last kept behind => exact continued (.writing _ _) _ effect
  | dangles => cases goes

/-- The tasks that it awaits await none. -/
theorem Follows.callee_waits {stream : Bytes} {requests : List HttpRequest} {server callee : Body}
    {turn : Turn} (follows : Follows client stream requests server (some callee) turn)
    (docroot : Bytes) (world : World) (signal : Signal Result) (child body : Body) :
    Body.resume docroot world callee signal ≠ .awaitTask child body := by
  intro calls
  have reads (buffer : Bytes) :
      Body.resume docroot world (.readRequest client buffer) signal ≠ .awaitTask child body := by
    intro calls
    have does := readDoes_resume docroot world client buffer signal
    rw [calls] at does
    cases does
  cases follows with
  | reads | listens => exact reads _ calls
  | @writes earlier request buffer payload offset =>
      rcases writeAll_does docroot world client payload offset signal with ⟨_, effect⟩ | ⟨_, effect⟩
      · rw [effect] at calls
        cases calls
      · rw [effect] at calls
        cases calls

/-- On the stack the connection goes on as in its exchange. -/
theorem Exchange.Alike.exec {submits : Except (Option Nat) Unit} {fs : FileSystem}
    (alike : v.exchange.Alike t) (faithful : v.Faithful docroot client)
    (taken : t.exec (connections docroot) ⟨v.exchange.running, submits, fs⟩ = some t') :
    ∃ e, v.exchange.exec docroot submits fs = some e ∧ e.Alike t' ∧
      e.running = v.exchange.running ∧ e.wire = v.exchange.wire := by
  obtain ⟨⟨running, server, callee, turn, responses, wire⟩, stream, answered⟩ := v
  obtain ⟨follows, -⟩ := faithful
  cases turn with
  | ended =>
      have none_ : t.bodies = [] := alike
      simp [Stack.exec, none_] at taken
  | suspended =>
      obtain rfl : t = ⟨callee.toList ++ [server], none⟩ := alike
      cases callee <;> cases taken
  | runs signal =>
      obtain rfl : t = ⟨callee.toList ++ [server], some signal⟩ := alike
      cases callee with
      | none =>
          simp only [Stack.exec, Option.toList_none, List.nil_append] at taken
          simp only [Exchange.exec]
          split at taken
          · cases taken
          · rename_i body goes
            exact absurd goes (Follows.server_calls follows docroot _ body)
          · rename_i child body goes
            obtain rfl := Option.some.inj taken
            rw [goes]
            exact ⟨_, rfl, rfl, rfl, rfl⟩
          · rename_i result goes
            obtain rfl := Option.some.inj taken
            rw [goes]
            exact ⟨_, rfl, rfl, rfl, rfl⟩
      | some callee =>
          simp only [Stack.exec, Option.toList_some, List.singleton_append] at taken
          simp only [Exchange.exec]
          split at taken
          · cases taken
          · rename_i body goes
            obtain rfl := Option.some.inj taken
            rw [goes]
            exact ⟨_, rfl, rfl, rfl, rfl⟩
          · rename_i child body goes
            exact absurd (resume_of_go goes) (Follows.callee_waits follows docroot _ _ child body)
          · rename_i result goes
            obtain rfl := Option.some.inj taken
            rw [goes]
            exact ⟨_, rfl, rfl, rfl, rfl⟩

/-- A completion means the same to the stack and to the exchange. -/
theorem Exchange.Alike.complete {res : Int} {chunk : Bytes} {body : Body} {callers : List Body}
    (alike : v.exchange.Alike t) (faithful : v.Faithful docroot client)
    (top : t.bodies = body :: callers) (allows : body.Allows res)
    (taken : t.complete res chunk = some t') :
    ∃ e, v.exchange.complete res chunk = some e ∧ e.Alike t' ∧
      e.running = v.exchange.running ∧ e.wire = v.exchange.wire ++ body.hands res ∧
      Service.arrived v.exchange (.complete res chunk) = body.takes res chunk := by
  obtain ⟨⟨running, server, callee, turn, responses, wire⟩, stream, answered⟩ := v
  obtain ⟨follows, -⟩ := faithful
  simp only [Service.requests] at follows
  cases turn with
  | ended =>
      have none_ : t.bodies = [] := alike
      rw [none_] at top
      cases top
  | runs signal =>
      obtain rfl : t = ⟨callee.toList ++ [server], some signal⟩ := alike
      cases callee <;> cases taken
  | suspended =>
      obtain rfl : t = ⟨callee.toList ++ [server], none⟩ := alike
      cases follows with
      | listens =>
          obtain ⟨rfl, rfl⟩ := List.cons.inj top
          obtain rfl := Option.some.inj taken
          exact ⟨_, rfl, rfl, rfl, (List.append_nil _).symm, rfl⟩
      | writes =>
          obtain ⟨rfl, rfl⟩ := List.cons.inj top
          obtain rfl := Option.some.inj taken
          exact ⟨_, if_pos allows, rfl, rfl, rfl, rfl⟩

/-- The request that is begun is the same. -/
theorem Exchange.Alike.begins {fs : FileSystem} {submits : Except (Option Nat) Unit} {body : Body}
    {signal : Signal Result} {callers : List Body} (alike : v.exchange.Alike t)
    (faithful : v.Faithful docroot client) (top : t = ⟨body :: callers, some signal⟩) :
    Service.begun v.exchange (.exec submits fs) = body.begins fs signal := by
  subst top
  obtain ⟨⟨running, server, callee, turn, responses, wire⟩, stream, answered⟩ := v
  obtain ⟨follows, -⟩ := faithful
  simp only [Service.requests] at follows
  cases turn with
  | ended => cases alike
  | suspended =>
      have same := congrArg Stack.signal alike
      cases same
  | runs signal' =>
      obtain ⟨bodies, same⟩ := Stack.mk.inj alike
      obtain rfl := Option.some.inj same
      cases callee with
      | none =>
          obtain ⟨rfl, -⟩ := List.cons.inj bodies
          cases follows with
          | entry | read => rfl
          | @gaveUp left result | @wrote earlier request left result =>
              cases result with
              | request request left => cases request <;> rfl
              | written | done | threw => rfl
          | dangles =>
              cases body with
              | handleConnection client pc => cases pc <;> rfl
              | readRequest | writeAll => rfl
      | some callee =>
          obtain ⟨rfl, -⟩ := List.cons.inj bodies
          cases follows <;> rfl

end Alike

/-- What a connection of the worker is as a connection of its own. -/
structure Sessions.Lives (docroot : Bytes) (s : Sessions) (r : Handle) (fd : Nat) (v : Service)
    (t : Stack Body Result) : Prop where
  reached : (service docroot fd).Reachable v
  seen : Worker.Seen s.worker r t
  alike : v.exchange.Alike t
  running : v.exchange.running = s.running
  stream : v.stream = s.stream r
  wire : v.exchange.wire = s.wire r
  answered : v.answered = s.answered r

structure Sessions.Sound (docroot : Bytes) (s : Sessions) : Prop where
  kept : Worker.Kept (connections docroot) s.worker
  lives : ∀ r fd, (r, fd) ∈ s.worker.started → r < s.worker.next ∧ ∃ v t, s.Lives docroot r fd v t
  unborn : ∀ r, s.worker.next ≤ r → s.stream r = [] ∧ s.wire r = [] ∧ s.answered r = []

namespace Sessions

variable {docroot : Bytes} {s s' : Sessions} {r : Handle} {fd : Nat} {v : Service}
  {t : Stack Body Result}

@[simp] theorem log_self {γ : Type} (table : Handle → List γ) (r : Handle) (more : List γ) :
    log table r more r = table r ++ more := Function.update_self _ _ _

theorem log_other {γ : Type} (table : Handle → List γ) {r x : Handle} (other : r ≠ x)
    (more : List γ) : log table r more x = table x := Function.update_of_ne other.symm _ _

/-- A new connection. -/
theorem Lives.start (fd : Nat) (fresh : s.stream s.worker.next = [] ∧ s.wire s.worker.next = [] ∧
      s.answered s.worker.next = []) :
    ∃ v t, { s with worker := s.worker.start (connections docroot) fd }.Lives docroot
      s.worker.next fd v t := by
  obtain ⟨stream, wire, answered⟩ := fresh
  have seen := Worker.Seen.start (P := connections docroot) s.worker fd
  cases up : s.running with
  | true =>
      exact ⟨(service docroot fd).init, _, .init, seen, rfl, rfl, stream.symm, wire.symm,
        answered.symm⟩
  | false =>
      -- The server was stopped before the connection came.
      have stopped : (service docroot fd).Reachable
          { (service docroot fd).init with
            exchange := { (exchange docroot fd).init with running := false } } :=
        ⟨[.stop], rfl⟩
      exact ⟨_, _, stopped, seen, rfl, rfl, stream.symm, wire.symm, answered.symm⟩

/-- A step of the worker that concerns another connection. -/
theorem Lives.other (lives : s.Lives docroot r fd v t) (seen : Worker.Seen s'.worker r t)
    (running : s'.running = s.running) (stream : s'.stream r = s.stream r)
    (wire : s'.wire r = s.wire r) (answered : s'.answered r = s.answered r) :
    s'.Lives docroot r fd v t :=
  ⟨lives.reached, seen, lives.alike, lives.running.trans running.symm,
    lives.stream.trans stream.symm, lives.wire.trans wire.symm,
    lives.answered.trans answered.symm⟩

theorem Lives.stop (lives : s.Lives docroot r fd v t) :
    ∃ v, { s with running := false }.Lives docroot r fd v t :=
  ⟨_, lives.reached.step (a := .stop) rfl, lives.seen, lives.alike, rfl,
    (List.append_nil _).trans lives.stream, lives.wire, (List.append_nil _).trans lives.answered⟩

/-- The coroutine that runs belongs to this connection. -/
theorem Lives.exec {submits : Except (Option Nat) Unit} {fs : FileSystem} {item : ReadyItem}
    {h : Handle} {frame : Frame Body Result} {next : Worker Body Result}
    (lives : s.Lives docroot r fd v t) (kept : Worker.Kept (connections docroot) s.worker)
    (running : s.worker.running = some (item, h)) (found : s.worker.frames h = some frame)
    (isRoot : s.worker.root h = r)
    (taken : s.worker.exec (connections docroot) ⟨s.running, submits, fs⟩ = some next) :
    ∃ v t, { s with worker := next,
                    answered := log s.answered r (frame.body.begins fs frame.signal) }.Lives
      docroot r fd v t := by
  have faithful := Service.faithful_reachable lives.reached
  obtain ⟨callers, top, -⟩ := lives.seen.ofRunning kept running found isRoot
  obtain ⟨t', does, seen⟩ := lives.seen.exec kept running found isRoot taken
  rw [← lives.running] at does
  obtain ⟨e, goes, alike, still, wire⟩ := lives.alike.exec faithful does
  have step : (service docroot fd).step v (.exec submits fs) = some
      ⟨e, v.stream ++ [], v.answered ++ Service.begun v.exchange (.exec submits fs)⟩ :=
    Option.map_eq_some_iff.mpr ⟨e, goes, rfl⟩
  refine ⟨_, t', lives.reached.step step, seen, alike, still.trans lives.running,
    (List.append_nil _).trans lives.stream, wire.trans lives.wire, ?_⟩
  have begun : Service.begun v.exchange (.exec submits fs) = _ := lives.alike.begins faithful top
  simp only [log_self, begun, lives.answered]

/-- The operation that completes belongs to this connection. -/
theorem Lives.complete {i : Nat} {res : Int} {chunk : Bytes} {h : Handle}
    {frame : Frame Body Result} {next : Worker Body Result}
    (lives : s.Lives docroot r fd v t) (kept : Worker.Kept (connections docroot) s.worker)
    (at_ : s.worker.pending[i]? = some h) (found : s.worker.frames h = some frame)
    (isRoot : s.worker.root h = r) (allows : frame.body.Allows res)
    (taken : s.worker.complete i res chunk = some next) :
    ∃ v t, { s with worker := next,
                    stream := log s.stream r (frame.body.takes res chunk),
                    wire := log s.wire r (frame.body.hands res) }.Lives docroot r fd v t := by
  have faithful := Service.faithful_reachable lives.reached
  obtain ⟨callers, top⟩ := lives.seen.ofPending kept (List.mem_of_getElem? at_) found isRoot
  have goes := lives.seen.complete kept at_ taken
  rw [if_pos isRoot] at goes
  obtain ⟨t', does, seen⟩ := goes
  obtain ⟨e, goes, alike, still, wire, stream⟩ :=
    lives.alike.complete faithful (congrArg Stack.bodies top) allows does
  have step : (service docroot fd).step v (.complete res chunk) = some
      ⟨e, v.stream ++ Service.arrived v.exchange (.complete res chunk), v.answered ++ []⟩ :=
    Option.map_eq_some_iff.mpr ⟨e, goes, rfl⟩
  refine ⟨_, t', lives.reached.step step, seen, alike, still.trans lives.running, ?_, ?_,
    (List.append_nil _).trans lives.answered⟩
  · simp only [log_self, stream, lives.stream]
  · simp only [log_self, wire, lives.wire]

theorem Sound.start {fd' : Nat} (sound : s.Sound docroot) {next : Worker Body Result}
    (taken : (Uring.worker (connections docroot)).step s.worker (.start fd') = some next) :
    { s with worker := next }.Sound docroot := by
  have kept := kept_step _ _ _ sound.kept taken
  simp only [Uring.worker, Option.ite_none_right_eq_some, Option.some.injEq] at taken
  obtain ⟨-, rfl⟩ := taken
  refine ⟨kept, fun r fd started => ?_, fun r fresh => ?_⟩
  · rcases List.mem_append.mp started with before | new
    · obtain ⟨old, v, t, lives⟩ := sound.lives r fd before
      exact ⟨Nat.lt_succ_of_lt old, v, t,
        lives.other (lives.seen.startOther sound.kept fd' old) rfl rfl rfl rfl⟩
    · obtain ⟨rfl, rfl⟩ := Prod.mk.inj (List.mem_singleton.mp new)
      exact ⟨Nat.lt_succ_self _, Lives.start fd (sound.unborn _ (Nat.le_refl _))⟩
  · exact sound.unborn r (Nat.le_of_succ_le fresh)

theorem Sound.take (sound : s.Sound docroot) {next : Worker Body Result}
    (taken : s.worker.take = some next) : { s with worker := next }.Sound docroot := by
  have kept := sound.kept.take taken
  have same : next.next = s.worker.next ∧ next.started = s.worker.started := by
    unfold Worker.take at taken
    split at taken
    · obtain rfl := Option.some.inj taken
      exact ⟨rfl, rfl⟩
    · cases taken
  refine ⟨kept, fun r fd started => ?_, fun r fresh => sound.unborn r (same.1 ▸ fresh)⟩
  obtain ⟨old, v, t, lives⟩ := sound.lives r fd (same.2 ▸ started)
  exact ⟨Nat.lt_of_lt_of_le old same.1.ge, v, t,
    lives.other (lives.seen.take sound.kept taken) rfl rfl rfl rfl⟩

theorem Sound.exec {submits : Except (Option Nat) Unit} {fs : FileSystem}
    (sound : s.Sound docroot) (taken : s.exec docroot submits fs = some s') :
    s'.Sound docroot := by
  unfold Sessions.exec at taken
  split at taken
  · cases taken
  · rename_i item h running
    split at taken
    · cases taken
    · rename_i frame found
      obtain ⟨next, goes, rfl⟩ := Option.map_eq_some_iff.mp taken
      obtain ⟨grows, begun⟩ := Worker.exec_rest sound.kept goes
      obtain ⟨root, atRoot, -⟩ :=
        Worker.frame_of_root sound.kept.sound (Worker.running_token running)
      have old : s.worker.root h < s.worker.next := Worker.lt_next sound.kept.sound atRoot
      refine ⟨sound.kept.exec goes, fun r fd started => ?_, fun r fresh => ?_⟩
      · obtain ⟨older, v, t, lives⟩ := sound.lives r fd (begun ▸ started)
        refine ⟨Nat.lt_of_lt_of_le older grows, ?_⟩
        by_cases isRoot : s.worker.root h = r
        · exact isRoot ▸ (isRoot ▸ lives).exec sound.kept running found rfl goes
        · exact ⟨v, t, lives.other (lives.seen.execOther sound.kept running isRoot goes) rfl rfl rfl
            (log_other _ isRoot _)⟩
      · have fresh : s.worker.next ≤ r := Nat.le_trans grows fresh
        obtain ⟨stream, wire, answered⟩ := sound.unborn r fresh
        exact ⟨stream, wire,
          (log_other _ (Nat.ne_of_lt (Nat.lt_of_lt_of_le old fresh)) _).trans answered⟩

theorem Sound.complete {i : Nat} {res : Int} {chunk : Bytes} (sound : s.Sound docroot)
    (taken : s.complete i res chunk = some s') : s'.Sound docroot := by
  unfold Sessions.complete at taken
  split at taken
  · cases taken
  · rename_i h at_
    split at taken
    · cases taken
    · rename_i frame found
      obtain ⟨allows, taken⟩ := Option.ite_none_right_eq_some.mp taken
      obtain ⟨next, goes, rfl⟩ := Option.map_eq_some_iff.mp taken
      have moves : (Uring.worker (connections docroot)).step s.worker (.complete i res chunk) =
          some next := goes
      obtain ⟨grows, begun⟩ := Worker.started_step sound.kept moves
      have begun : next.started = s.worker.started := begun.resolve_left nofun
      obtain ⟨root, atRoot, -⟩ := Worker.frame_of_root sound.kept.sound
        (Worker.pending_token (List.mem_of_getElem? at_))
      have old : s.worker.root h < s.worker.next := Worker.lt_next sound.kept.sound atRoot
      refine ⟨sound.kept.complete goes, fun r fd started => ?_, fun r fresh => ?_⟩
      · obtain ⟨older, v, t, lives⟩ := sound.lives r fd (begun ▸ started)
        refine ⟨Nat.lt_of_lt_of_le older grows, ?_⟩
        by_cases isRoot : s.worker.root h = r
        · exact isRoot ▸ (isRoot ▸ lives).complete sound.kept at_ found rfl allows goes
        · have seen := lives.seen.complete sound.kept at_ goes
          rw [if_neg isRoot] at seen
          exact ⟨v, t, lives.other seen rfl (log_other _ isRoot _) (log_other _ isRoot _) rfl⟩
      · have fresh : s.worker.next ≤ r := Nat.le_trans grows fresh
        obtain ⟨stream, wire, answered⟩ := sound.unborn r fresh
        have other : s.worker.root h ≠ r := Nat.ne_of_lt (Nat.lt_of_lt_of_le old fresh)
        exact ⟨(log_other _ other _).trans stream, (log_other _ other _).trans wire, answered⟩

theorem sound_step {action : SessionsStep} (sound : s.Sound docroot)
    (taken : (sessions docroot).step s action = some s') : s'.Sound docroot := by
  cases action with
  | start fd =>
      obtain ⟨next, goes, rfl⟩ := Option.map_eq_some_iff.mp taken
      exact sound.start goes
  | take =>
      obtain ⟨next, goes, rfl⟩ := Option.map_eq_some_iff.mp taken
      exact sound.take goes
  | exec submits fs => exact sound.exec taken
  | complete i res chunk => exact sound.complete taken
  | stop =>
      obtain rfl := Option.some.inj taken
      refine ⟨sound.kept, fun r fd started => ?_, sound.unborn⟩
      obtain ⟨old, v, t, lives⟩ := sound.lives r fd started
      obtain ⟨v, lives⟩ := lives.stop
      exact ⟨old, v, t, lives⟩

theorem sound_reachable (reached : (sessions docroot).Reachable s) : s.Sound docroot :=
  reached.induct ⟨.init, nofun, fun _ _ => ⟨rfl, rfl, rfl⟩⟩
    fun _ _ _ sound taken => sound_step sound taken

/-- The connection waits for bytes. -/
def Listening (s : Sessions) (r : Handle) : Prop :=
  ∃ h ∈ s.worker.pending, s.worker.root h = r ∧
    ∃ frame fd buffer, s.worker.frames h = some frame ∧ frame.body = .readRequest fd buffer

/-- What a connection was answered, by what it received. -/
structure Serves (docroot : Bytes) (s : Sessions) (r : Handle) : Prop where
  inOrder : (s.answered r).map Prod.fst <+: owed (s.stream r)
  sent : s.wire r <+: ((s.answered r).map (Service.reply docroot)).flatten
  all : s.Listening r → (s.answered r).map Prod.fst = owed (s.stream r)
  sentAll : s.Listening r → s.wire r = ((s.answered r).map (Service.reply docroot)).flatten

/-- A connection that waits on the worker waits in its exchange. -/
theorem Lives.listening (lives : s.Lives docroot r fd v t)
    (kept : Worker.Kept (connections docroot) s.worker) (listening : s.Listening r) :
    v.Listening := by
  obtain ⟨h, member, isRoot, frame, fd', buffer, found, body⟩ := listening
  obtain ⟨callers, rfl⟩ := lives.seen.ofPending kept member found isRoot
  have alike := lives.alike
  have faithful := (Service.faithful_reachable lives.reached).follows
  obtain ⟨⟨running, server, callee, turn, responses, wire⟩, stream, answered⟩ := v
  simp only [Service.requests] at faithful
  cases turn with
  | ended => cases alike
  | runs signal => cases congrArg Stack.signal alike
  | suspended =>
      cases faithful with
      | @listens own kept' behind open_ => exact ⟨rfl, _, _, rfl⟩
      | writes last kept' behind =>
          have same := congrArg Stack.bodies alike
          rw [body] at same
          cases same

end Sessions

/-- On a worker that serves any number of connections, interleaved in any way, every
    connection is answered exactly what it asked for: the bytes sent on it are the beginning
    of the replies to the first requests it received. A connection that waits for bytes has
    had all of its replies. As in `Tasks`, each await gets the completion of its own operation,
    and an exception that crosses a `co_await` ends the run. -/
theorem sessions_serve (docroot : Bytes) (s : Sessions)
    (reached : (sessions docroot).Reachable s) (r : Handle) (fd : Nat)
    (started : (r, fd) ∈ s.worker.started) (sized : Sized (s.stream r))
    (fits : ∀ entry ∈ s.answered r, (Service.reply docroot entry).length < 2 ^ 32) :
    s.Serves docroot r := by
  have sound := Sessions.sound_reachable reached
  obtain ⟨-, v, t, lives⟩ := sound.lives r fd started
  have faithful := Service.faithful_reachable lives.reached
  have small : ∀ response ∈ v.exchange.responses, response.length < 2 ^ 32 := by
    rw [faithful.replies, lives.answered]
    exact List.forall_mem_map.mpr fits
  have answers := Service.answers_reachable lives.reached (lives.stream ▸ sized) small
  obtain ⟨inOrder, -, all, sent, sentAll⟩ := answers
  simp only [Service.requests, lives.answered, lives.stream, lives.wire] at inOrder all sent sentAll
  exact ⟨inOrder, sent, fun waits => all (.inl (lives.listening sound.kept waits)),
    fun waits => sentAll (lives.listening sound.kept waits)⟩

/-- Of two connections that are read from the second one asks for something. -/
def askedSteps : List SessionsStep :=
  let go : SessionsStep := .exec (.ok ()) Coroutine.noFiles
  let wire := Coroutine.WireRequest.stream [Coroutine.tricky]
  [.start 7, .start 8, .take, go, go, .take, go, go, .complete 1 wire.length wire, .take, go, go,
    go, .complete 1 80 []]

theorem sessions_serve_asked :
    ∃ s, (sessions []).run (sessions []).init askedSteps = some s ∧ (s.wire 1).length = 80 ∧
      s.wire 0 = [] ∧ s.Serves [] 1 := by
  have ran : ((sessions []).run (sessions []).init askedSteps).any fun s =>
      (1, 8) ∈ s.worker.started ∧ (s.wire 1).length = 80 ∧ s.wire 0 = [] ∧
        s.stream 1 = Coroutine.WireRequest.stream [Coroutine.tricky] ∧
        ∀ entry ∈ s.answered 1, (Service.reply [] entry).length < 2 ^ 32 := by
    decide +kernel
  obtain ⟨s, ran, final⟩ := (Option.any_eq_true _ _).mp ran
  obtain ⟨started, sent, apart, stream, fits⟩ := of_decide_eq_true final
  have sized : Sized (s.stream 1) := stream ▸ Coroutine.sized_stream _
  exact ⟨s, ran, sent, apart, sessions_serve [] s ⟨askedSteps, ran⟩ 1 8 started sized fits⟩

end Corio.Uring
