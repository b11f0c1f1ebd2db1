import Corio.Epoll.Watched

/-! # The turns of one connection

What an iteration of the loop does for one connection, and nothing of what it does for the
others. The handlers write behind what was written before, whatever that is.
-/

namespace Corio.Epoll

/-- The socket, with this on the wire before. -/
def Socket.onto (wire : Bytes) (socket : Socket) : Socket :=
  { socket with wire := wire ++ socket.wire }

/-- What `handleEvents` does before `handleConn`: read if there is something to read, and then
    write if there is room. -/
def handleTurn (fs : FileSystem) (d : HttpData) (revents : Revents) (socket : Socket) :
    Except Fault (HttpData × Socket) :=
  (if revents.epollin || revents.epollpri || revents.epollrdhup then handleRead fs d socket
    else .ok (d, socket)).map fun after =>
      if revents.epollout then handleWrite after.1 after.2 else after

section Onto

variable {fs : FileSystem} (wire : Bytes) (d : HttpData) (socket : Socket)

theorem writen_onto (buff : Bytes) :
    writen (socket.onto wire) buff = (writen socket buff).onto wire := by
  simp only [writen, Socket.onto, List.append_assoc]

theorem handleError_onto (errNum : Nat) (shortMsg : Bytes) :
    handleError (socket.onto wire) errNum shortMsg =
      (handleError socket errNum shortMsg).onto wire := by
  simp only [handleError, writen_onto]

theorem writenString_onto (sbuff : Bytes) :
    writenString (socket.onto wire) sbuff =
      ((writenString socket sbuff).1, (writenString socket sbuff).2.1,
        (writenString socket sbuff).2.2.onto wire) := by
  simp only [writenString, Socket.onto, List.append_assoc]
  split
  · rfl
  · split <;> rfl

theorem handleWrite_onto :
    handleWrite d (socket.onto wire) =
      ((handleWrite d socket).1, (handleWrite d socket).2.onto wire) := by
  unfold handleWrite
  split
  · simp only [writenString_onto]
  · rfl

theorem flush_onto :
    flush d (socket.onto wire) = ((flush d socket).1, (flush d socket).2.onto wire) := by
  unfold flush
  split
  · exact handleWrite_onto wire d socket
  · rfl

theorem afterRead_onto :
    afterRead d (socket.onto wire) =
      ((afterRead d socket).1, (afterRead d socket).2.1, (afterRead d socket).2.2.onto wire) := by
  unfold afterRead
  split
  · rfl
  · simp only [flush_onto]

theorem carryOut_onto (decided : HttpData × Verdict) :
    carryOut fs (socket.onto wire) decided =
      ((carryOut fs socket decided).1, (carryOut fs socket decided).2.onto wire) := by
  obtain ⟨d, verdict⟩ := decided
  cases verdict with
  | wait => rfl
  | refuse shortMsg => simp only [carryOut, refuse, handleError_onto]
  | analyse =>
      simp only [carryOut, analyse, analysisRequest_eq]
      cases replyTo fs d with
      | nothing | hello | page => rfl
      | notFound => simp only [handleError_onto]

theorem handleReadPass_onto :
    handleReadPass fs d (socket.onto wire) =
      (handleReadPass fs d socket).map fun after => (after.1, after.2.1, after.2.2.onto wire) := by
  cases judged : judge d socket.reads with
  | error fault =>
      have judged_ : judge d (socket.onto wire).reads = .error fault := judged
      simp only [handleReadPass, readOnce_judge, judged, judged_]
      rfl
  | ok decided =>
      have judged_ : judge d (socket.onto wire).reads = .ok decided := judged
      rw [handleReadPass_judged judged, handleReadPass_judged judged_]
      have left (rest : List ReadResult) : { socket.onto wire with reads := rest } =
          ({ socket with reads := rest } : Socket).onto wire := rfl
      simp only [left, Except.map, carryOut_onto, afterRead_onto]
      rfl

theorem handleReadFuel_onto (fuel : Nat) :
    handleReadFuel fs fuel d (socket.onto wire) =
      (handleReadFuel fs fuel d socket).map fun after => (after.1, after.2.onto wire) := by
  induction fuel generalizing d socket with
  | zero => rfl
  | succ fuel ih =>
      simp only [handleReadFuel, handleReadPass_onto]
      cases handleReadPass fs d socket with
      | error fault => rfl
      | ok after =>
          obtain ⟨again, d', socket'⟩ := after
          cases again with
          | false => rfl
          | true => exact ih d' socket'

theorem handleRead_onto :
    handleRead fs d (socket.onto wire) =
      (handleRead fs d socket).map fun after => (after.1, after.2.onto wire) :=
  handleReadFuel_onto wire d socket _

theorem handleTurn_onto (revents : Revents) :
    handleTurn fs d revents (socket.onto wire) =
      (handleTurn fs d revents socket).map fun after => (after.1, after.2.onto wire) := by
  have write (after : HttpData × Socket) :
      (if revents.epollout then handleWrite after.1 (after.2.onto wire)
        else (after.1, after.2.onto wire)) =
      ((if revents.epollout then handleWrite after.1 after.2 else after).1,
        (if revents.epollout then handleWrite after.1 after.2 else after).2.onto wire) := by
    split
    · exact handleWrite_onto wire after.1 after.2
    · rfl
  unfold handleTurn
  cases revents.epollin || revents.epollpri || revents.epollrdhup with
  | false => exact congrArg Except.ok (write (d, socket))
  | true =>
      simp only [if_true, handleRead_onto]
      cases handleRead fs d socket with
      | error fault => rfl
      | ok after => exact congrArg Except.ok (write after)

end Onto

/-- The model of the loop leaves out what is written. -/
theorem handleReady_turn (fs : FileSystem) (d : HttpData) (revents : Revents) (socket : Socket) :
    handleReady fs d revents socket = (handleTurn fs d revents socket).map fun after =>
      (after.1, (revents.epollin || revents.epollpri || revents.epollrdhup) &&
        readResets fs d socket) := by
  unfold handleReady handleTurn
  cases revents.epollin || revents.epollpri || revents.epollrdhup with
  | false => cases revents.epollout <;> rfl
  | true =>
      simp only [if_true]
      cases handleRead fs d socket with
      | error fault => cases revents.epollout <;> rfl
      | ok after => cases revents.epollout <;> rfl

/-- Where a connection is, for the loop. -/
inductive Phase where
  /-- Its `newEvent` was not called. -/
  | coming
  | idle
  /-- At `handleConn`. -/
  | busy
  | gone
  deriving DecidableEq, Repr

/-- A connection on its own, and what it has sent. -/
structure Solo where
  phase : Phase
  data : HttpData
  wire : Bytes
  deriving DecidableEq, Repr

inductive SoloStep where
  /-- `newEvent`. -/
  | add
  /-- `handleEvents` up to `handleConn`. -/
  | ready (revents : Revents) (fs : FileSystem) (reads : List ReadResult)
      (writes : List WriteResult)
  /-- `handleConn`. -/
  | conclude
  /-- `handleClose`, when the time of its node is up. -/
  | close

/-- `handleEvents` returns at once. -/
def Revents.hangsUp (revents : Revents) : Bool :=
  revents.epollhup && !revents.epollin || revents.epollerr

instance (d : HttpData) : Decidable (Poller.Closes d) := by
  unfold Poller.Closes
  infer_instance

def Solo.ready (s : Solo) (revents : Revents) (fs : FileSystem) (reads : List ReadResult)
    (writes : List WriteResult) : Option Solo :=
  let d := { s.data with events := {} }
  if revents.hangsUp then some { s with data := d }
  else
    match handleTurn fs d revents ⟨reads, writes, s.wire⟩ with
    | .error _ => none
    | .ok (d, socket) => some ⟨.busy, d, socket.wire⟩

/-- The life of one connection. -/
def solo : Machine Solo SoloStep where
  init := ⟨.coming, {}, []⟩
  step s turn :=
    match s.phase, turn with
    | .coming, .add =>
        some { s with phase := .idle, data := { s.data with events := DEFAULT_EVENT.events } }
    | .idle, .ready revents fs reads writes => s.ready revents fs reads writes
    | .busy, .conclude =>
        some { s with
          phase := if Poller.Closes s.data then .gone else .idle
          data := handleConn s.data }
    | .idle, .close => some { s with phase := .gone, data := handleClose s.data }
    | _, _ => none

theorem solo_ready {s s' : Solo} {revents : Revents} {fs : FileSystem} {reads : List ReadResult}
    {writes : List WriteResult}
    (taken : solo.step s (.ready revents fs reads writes) = some s') :
    s.phase = .idle ∧ s.ready revents fs reads writes = some s' := by
  cases phase : s.phase with
  | idle => exact ⟨rfl, by simpa only [solo, phase] using taken⟩
  | coming | busy | gone => simp [solo, phase] at taken

/-- Only `handleEvents` writes. -/
theorem solo_quiet {s s' : Solo} {turn : SoloStep} (taken : solo.step s turn = some s') :
    (∃ revents fs reads writes, turn = .ready revents fs reads writes) ∨ s'.wire = s.wire := by
  cases turn with
  | ready revents fs reads writes => exact .inl ⟨revents, fs, reads, writes, rfl⟩
  | add | conclude | close =>
      cases phase : s.phase <;> simp only [solo, phase, reduceCtorEq, Option.some.injEq] at taken
      subst taken
      exact .inr rfl

namespace Poller

/-- The connection that a turn of `handleExpiredEvent` closes. -/
def expires (s : Poller) (k now : Nat) : Option Nat :=
  s.timerNodeQueue[k]?.bind fun node =>
    if node.deleted || !node.isValid now then node.holds else none

/-- The connection whose turn a step is, and the turn. -/
def acting (s : Poller) (action : PollerStep) : Option (Nat × SoloStep) :=
  match s.pc, action with
  | .handling ((c, revents) :: _), .handle fs reads writes =>
      some (c, .ready revents fs reads writes)
  | .concluding c _, .conclude _ => some (c, .conclude)
  | .calling (c :: _), .call _ => some (c, .add)
  | .expiring, .expire k now => (s.expires k now).map fun c => (c, .close)
  | _, _ => none

/-- The loop is at `handleConn` of this connection. -/
def concludes (s : Poller) (c : Nat) : Bool :=
  match s.pc with
  | .concluding j _ => j == c
  | _ => false

def phaseOf (s : Poller) (c : Nat) : Phase :=
  if s.fd2http (s.fdOf c) = some c then if s.concludes c then .busy else .idle
  else if c < s.made ∧ c ∉ s.coming then .gone
  else .coming

/-- The loop knows the connection or is to be told of it. -/
def Present (s : Poller) (c : Nat) : Prop := s.Registered c ∨ c ∈ s.coming

variable {s s' : Poller} {c : Nat}

theorem concludes_iff : s.concludes c = true ↔ s.Concluding c := by
  unfold concludes Concluding
  cases s.pc with
  | concluding j ret => simp
  | polling | handling | calling | expiring => simp

/-- What a connection is to the loop tells its phase. -/
theorem phaseOf_congr (intact : s.Intact) (intact' : s'.Intact)
    (registered : s'.Registered c ↔ s.Registered c) (coming : c ∈ s'.coming ↔ c ∈ s.coming)
    (concluding : s'.Concluding c ↔ s.Concluding c) (made : c < s'.made ↔ c < s.made) :
    s'.phaseOf c = s.phaseOf c := by
  rw [intact.registered, intact'.registered] at registered
  rw [← concludes_iff, ← concludes_iff, Bool.coe_iff_coe] at concluding
  unfold phaseOf
  rw [concluding]
  exact if_congr registered rfl (if_congr (and_congr made (not_congr coming)) rfl rfl)

theorem phaseOf_idle (intact : s.Intact) (registered : s.Registered c)
    (idle : ¬ s.Concluding c) : s.phaseOf c = .idle := by
  rw [← concludes_iff] at idle
  rw [phaseOf, if_pos (intact.registered.mp registered), if_neg idle]

theorem phaseOf_busy (intact : s.Intact) (registered : s.Registered c)
    (busy : s.Concluding c) : s.phaseOf c = .busy := by
  rw [← concludes_iff] at busy
  rw [phaseOf, if_pos (intact.registered.mp registered), if_pos busy]

theorem phaseOf_gone (intact : s.Intact) (unregistered : ¬ s.Registered c) (made : c < s.made)
    (absent : c ∉ s.coming) : s.phaseOf c = .gone := by
  rw [phaseOf, if_neg (unregistered ∘ intact.registered.mpr), if_pos ⟨made, absent⟩]

theorem phaseOf_coming (intact : s.Intact) (coming : c ∈ s.coming) : s.phaseOf c = .coming := by
  have unregistered : s.fd2http (s.fdOf c) ≠ some c := by
    rw [(intact.absent c coming).1]
    exact nofun
  rw [phaseOf, if_neg unregistered, if_neg fun gone => gone.2 coming]

theorem Intact.alive_iff (intact : s.Intact) : s.Alive c ↔ s.Present c := by
  rw [Present, intact.registered, coming, List.mem_append]
  constructor
  · rintro (here | pending | called | ⟨node, member, holds⟩)
    · exact .inl here
    · exact .inr (.inr pending)
    · exact .inr (.inl called)
    · exact .inl (intact.held node member c holds)
  · rintro (here | called | pending)
    · exact .inl here
    · exact .inr (.inr (.inl called))
    · exact .inr (.inl pending)

theorem Intact.bounded_of_present (intact : s.Intact) (here : s.Present c) : c < s.made :=
  here.elim (fun ⟨fd, there⟩ => (intact.place fd c there).2) fun member =>
    (intact.absent c member).2

/-- A turn of one connection, which is nothing to the others. -/
structure Turned (s s' : Poller) (c : Nat) (turn : SoloStep) : Prop where
  here : s.Present c
  made : s'.made = s.made
  fd : (s'.heap c).fd = (s.heap c).fd
  others : ∀ j ≠ c, (s'.heap j).bare = (s.heap j).bare
  registered : ∀ j ≠ c, s'.Registered j ↔ s.Registered j
  coming : ∀ j ≠ c, j ∈ s'.coming ↔ j ∈ s.coming
  concluding : ∀ j ≠ c, s'.Concluding j ↔ s.Concluding j
  does : ∀ wire, ∃ wire', solo.step ⟨s.phaseOf c, (s.heap c).data, wire⟩ turn =
    some ⟨s'.phaseOf c, (s'.heap c).data, wire'⟩

theorem Turned.present {turn : SoloStep} (turned : Turned s s' c turn) {j : Nat} (other : j ≠ c) :
    s'.Present j ↔ s.Present j :=
  or_congr (turned.registered j other) (turned.coming j other)

theorem Turned.phases {turn : SoloStep} (turned : Turned s s' c turn) (intact : s.Intact)
    (intact' : s'.Intact) {j : Nat} (other : j ≠ c) : s'.phaseOf j = s.phaseOf j := by
  refine phaseOf_congr intact intact' (turned.registered j other) (turned.coming j other)
    (turned.concluding j other) ?_
  rw [turned.made]

/-- A step that is the turn of no connection. -/
structure Rested (s s' : Poller) : Prop where
  made : s'.made = s.made
  all : ∀ j, (s'.heap j).bare = (s.heap j).bare
  registered : ∀ j, s'.Registered j ↔ s.Registered j
  coming : s'.coming = s.coming
  concluding : ∀ j, s'.Concluding j ↔ s.Concluding j

theorem Rested.present (rested : Rested s s') (j : Nat) : s'.Present j ↔ s.Present j := by
  rw [Present, rested.registered, rested.coming, Present]

theorem Rested.phases (rested : Rested s s') (intact : s.Intact) (intact' : s'.Intact) (j : Nat) :
    s'.phaseOf j = s.phaseOf j :=
  phaseOf_congr intact intact' (rested.registered j) (by rw [rested.coming])
    (rested.concluding j) (by rw [rested.made])

structure Accepted (s s' : Poller) (fd : Nat) : Prop where
  free : ∀ j, s.Present j → s.fdOf j ≠ fd
  made : s'.made = s.made + 1
  fd : s'.fdOf s.made = fd
  fresh : (s'.heap s.made).data = {}
  others : ∀ j ≠ s.made, s'.heap j = s.heap j
  http : s'.fd2http = s.fd2http
  coming : s'.coming = s.coming ++ [s.made]
  pc : s'.pc = s.pc

theorem Intact.accepted (intact : s.Intact) {fd : Nat} (taken : s.accept fd = some s') :
    Accepted s s' fd := by
  obtain ⟨-, pending, pc, http, -⟩ := accept_cases intact alive_of_coming taken
  have coming : s'.coming = s.coming ++ [s.made] := by
    rw [Poller.coming, functors_of_pc pc, pending, Poller.coming, List.append_assoc]
  unfold accept at taken
  split at taken
  · cases taken
  · rename_i free
    obtain rfl := Option.some.inj taken
    constructor
    · intro j here same
      exact free ⟨j, intact.bounded_of_present here, same, intact.alive_iff.mpr here⟩
    · rfl
    · simp only [fdOf, set, Function.update_self]
    · simp only [set, Function.update_self]
    · intro j other
      exact Function.update_of_ne other _ _
    · exact http
    · exact coming
    · exact pc

theorem Accepted.present {fd : Nat} (accepted : Accepted s s' fd) (j : Nat) :
    s'.Present j ↔ s.Present j ∨ j = s.made := by
  rw [Present, registered_iff accepted.http, accepted.coming, List.mem_append, List.mem_singleton,
    Present, or_assoc]

/-- A connection that was not accepted is in the phase that it will be accepted in. -/
theorem Intact.phaseOf_unborn (intact : s.Intact) (unborn : s.made ≤ c) :
    s.phaseOf c = .coming := by
  have unregistered : s.fd2http (s.fdOf c) ≠ some c := fun there =>
    Nat.not_lt.mpr unborn (intact.place _ c there).2
  rw [phaseOf, if_neg unregistered, if_neg fun gone => Nat.not_lt.mpr unborn gone.1]

theorem Accepted.phases {fd : Nat} (accepted : Accepted s s' fd) (intact : s.Intact)
    (intact' : s'.Intact) (j : Nat) : s'.phaseOf j = s.phaseOf j := by
  by_cases new : j = s.made
  · have coming : j ∈ s'.coming := by simp [accepted.coming, new]
    rw [phaseOf_coming intact' coming, intact.phaseOf_unborn (Nat.le_of_eq new.symm)]
  · refine phaseOf_congr intact intact' (registered_iff accepted.http j) ?_ ?_ ?_
    · simp [accepted.coming, new]
    · simp only [Concluding, accepted.pc]
    · rw [accepted.made]
      omega

/-- `handleEvents` of the loop is that of the connection, whatever was written before. -/
theorem handleEvents_does {revents : Revents} {ret : List (Nat × Revents)} {fs : FileSystem}
    {reads : List ReadResult} {writes : List WriteResult}
    (handled : s.handleEvents c revents ret fs ⟨reads, writes, []⟩ = some s') (wire : Bytes) :
    ∃ wire', Solo.ready ⟨.idle, (s.heap c).data, wire⟩ revents fs reads writes =
      some ⟨if s'.concludes c then .busy else .idle, (s'.heap c).data, wire'⟩ := by
  unfold handleEvents at handled
  simp only at handled
  unfold Solo.ready Revents.hangsUp
  split at handled
  · rename_i hangs
    obtain rfl := Option.some.inj handled
    refine ⟨wire, (if_pos hangs).trans ?_⟩
    simp [concludes, goto, setData, set]
  · rename_i goes
    have behind := @handleTurn_onto fs wire { (s.heap c).data with events := {} }
      ⟨reads, writes, []⟩ revents
    rw [if_neg goes]
    rw [handleReady_turn] at handled
    cases done : handleTurn fs { (s.heap c).data with events := {} } revents
        ⟨reads, writes, []⟩ with
    | error fault => simp [done, Except.map] at handled
    | ok after =>
        simp only [done, Except.map, Option.some.injEq] at handled
        subst handled
        simp only [Socket.onto, List.append_nil, done, Except.map] at behind
        refine ⟨wire ++ after.2.wire, ?_⟩
        simp [behind, concludes, goto, setData, set]

theorem handle_turned (intact : s.Intact) (intact' : s'.Intact) {revents : Revents}
    {ret : List (Nat × Revents)} (pc : s.pc = .handling ((c, revents) :: ret)) {fs : FileSystem}
    {reads : List ReadResult} {writes : List WriteResult}
    (handled : s.handleEvents c revents ret fs ⟨reads, writes, []⟩ = some s') :
    Turned s s' c (.ready revents fs reads writes) := by
  obtain ⟨-, pending, http, -⟩ := handleEvents_cases intact handled
  obtain ⟨made, d, bare, -⟩ := handleEvents_bare handled
  obtain ⟨-, functors_, only⟩ := Watch.handle_behind handled
  have coming : s'.coming = s.coming := by
    rw [Poller.coming, Poller.coming, functors_, pending]
    simp [functors, pc]
  have registered := intact.registered_of_turn (c := c) (by simp [Poller.turns, pc])
  have before : ∀ j, ¬ s.Concluding j := not_concluding (by simp [pc])
  constructor
  · exact .inl registered
  · exact made
  · have own := bare c
    rw [Function.update_self] at own
    exact (Connection.bare_eq.mp own).1
  · intro j other
    rw [bare j, Function.update_of_ne other]
  · intro j _
    exact registered_iff http j
  · intro j _
    rw [coming]
  · intro j other
    exact iff_of_false (other ∘ only j) (before j)
  · intro wire
    have phase' : s'.phaseOf c = if s'.concludes c then .busy else .idle :=
      if_pos (intact'.registered.mp ((registered_iff http c).mpr registered))
    rw [phaseOf_idle intact registered (before c), phase']
    exact handleEvents_does handled wire

theorem conclude_turned (intact : s.Intact) {ret : List (Nat × Revents)}
    (pc : s.pc = .concluding c ret) (now : Nat)
    (intact' : ((s.conclude c now).goto (.handling ret)).Intact) :
    Turned s ((s.conclude c now).goto (.handling ret)) c .conclude := by
  have sound : Sound s (c :: ret.map Prod.fst) s.coming := by
    simpa only [Intact, Poller.turns, pc] using intact
  obtain ⟨-, pending, -⟩ := conclude_cases sound now
  obtain ⟨made, closes, stays⟩ := conclude_frame s c now
  have bare := conclude_bare s c now
  have coming : ((s.conclude c now).goto (.handling ret)).coming = s.coming := by
    simp only [Poller.coming, functors, goto, pc, pending]
  have registered := intact.registered_of_turn (c := c) (by simp [Poller.turns, pc])
  have behind : ∀ j, ¬ ((s.conclude c now).goto (.handling ret)).Concluding j :=
    not_concluding (by simp [goto])
  have own := bare c
  rw [Function.update_self] at own
  obtain ⟨fd, data, -, -⟩ := Connection.bare_eq.mp own
  constructor
  · exact .inl registered
  · exact made
  · exact fd
  · intro j other
    have same := bare j
    rwa [Function.update_of_ne other] at same
  · intro j other
    by_cases ends : Closes (s.heap c).data
    · show (s.conclude c now).Registered j ↔ _
      exact intact.registered_close (closes ends) registered other
    · show (s.conclude c now).Registered j ↔ _
      exact registered_iff (stays ends) j
  · intro j _
    rw [coming]
  · intro j other
    exact iff_of_false (behind j) fun here => other (only_concluding pc here)
  · intro wire
    refine ⟨wire, ?_⟩
    have data_ : (((s.conclude c now).goto (.handling ret)).heap c).data =
        handleConn (s.heap c).data := data
    rw [phaseOf_busy intact registered ⟨ret, pc⟩, data_]
    simp only [solo, Option.some.injEq, Solo.mk.injEq, and_true]
    by_cases ends : Closes (s.heap c).data
    · have absent : c ∉ ((s.conclude c now).goto (.handling ret)).coming :=
        coming ▸ intact.not_coming registered
      rw [if_pos ends, phaseOf_gone intact' (intact.not_registered_close (closes ends))
        (made ▸ intact.bounded_of_present (.inl registered)) absent]
    · have kept : (s.conclude c now).Registered c := (registered_iff (stays ends) c).mpr registered
      rw [if_neg ends, phaseOf_idle intact' kept (behind c)]

theorem call_turned (intact : s.Intact) {functors : List Nat}
    (pc : s.pc = .calling (c :: functors)) (now : Nat)
    (intact' : ((s.newEvent c now).goto (.calling functors)).Intact) :
    Turned s ((s.newEvent c now).goto (.calling functors)) c .add := by
  have sound : Sound s [] (c :: (functors ++ s.pendingFunctors)) := by
    simpa only [Intact, Poller.turns, Poller.coming, Poller.functors, pc, List.cons_append]
      using intact
  obtain ⟨-, pending, http, -⟩ := newEvent_cases sound now
  have bare := newEvent_bare s c now
  have before : s.coming = c :: (functors ++ s.pendingFunctors) := by
    simp only [Poller.coming, Poller.functors, pc, List.cons_append]
  have behind : ((s.newEvent c now).goto (.calling functors)).coming =
      functors ++ s.pendingFunctors := by
    simp only [Poller.coming, Poller.functors, goto, pending]
  have idle : ∀ j, ¬ s.Concluding j := not_concluding (by simp [pc])
  have idle' : ∀ j, ¬ ((s.newEvent c now).goto (.calling functors)).Concluding j :=
    not_concluding (by simp [goto])
  have own := bare c
  rw [Function.update_self] at own
  obtain ⟨fd, data, -, -⟩ := Connection.bare_eq.mp own
  have coming : c ∈ s.coming := before ▸ List.mem_cons_self
  constructor
  · exact .inr coming
  · exact newEvent_made s c now
  · exact fd
  · intro j other
    have same := bare j
    rwa [Function.update_of_ne other] at same
  · intro j other
    refine exists_congr fun fd => ?_
    exact (http fd j).trans (or_iff_right fun new => other new.2)
  · intro j other
    rw [before, behind, List.mem_cons, or_iff_right other]
  · intro j _
    exact iff_of_false (idle' j) (idle j)
  · intro wire
    refine ⟨wire, ?_⟩
    have registered : ((s.newEvent c now).goto (.calling functors)).Registered c :=
      ⟨_, (http _ c).mpr (.inl ⟨rfl, rfl⟩)⟩
    have data_ : (((s.newEvent c now).goto (.calling functors)).heap c).data =
        { (s.heap c).data with events := DEFAULT_EVENT.events } := data
    rw [phaseOf_coming intact coming, phaseOf_idle intact' registered (idle' c), data_]
    rfl

/-- An overdue connection is closed. -/
theorem close_turned (intact : s.Intact) (pc : s.pc = .expiring) {k : Nat} {node : TimerNode}
    (there : s.timerNodeQueue[k]? = some node) (holds : node.holds = some c)
    (intact' : ((s.pop k).close c).Intact) : Turned s ((s.pop k).close c) c .close := by
  have sound : Sound s [] s.coming := by simpa only [Intact, Poller.turns, pc] using intact
  obtain ⟨-, http, -⟩ := close_cases sound there holds
  have registered : s.Registered c := ⟨_, intact.held node (List.mem_of_getElem? there) c holds⟩
  constructor
  · exact .inl registered
  · rfl
  · simp only [close, epollDel, setData, set, Function.update_self, pop]
  · intro j other
    simp only [close, epollDel, setData, set, Function.update_of_ne other, pop]
  · intro j other
    exact intact.registered_close http registered other
  · intro j _
    exact Iff.rfl
  · intro j _
    exact Iff.rfl
  · intro wire
    refine ⟨wire, ?_⟩
    have gone : ((s.pop k).close c).phaseOf c = .gone :=
      phaseOf_gone intact' (intact.not_registered_close http)
        (intact.bounded_of_present (.inl registered)) (intact.not_coming registered)
    rw [phaseOf_idle intact registered (not_concluding (by simp [pc]) c), gone]
    simp only [solo, close, epollDel, setData, set, Function.update_self, pop]

/-- Only the place in the iteration changes, and where the functors wait. -/
theorem rested {pending : List Nat} {pc : IterationPc} (before : ∀ j, ¬ s.Concluding j)
    (behind : ∀ c ret, pc ≠ .concluding c ret)
    (coming : ({ s with pendingFunctors := pending }.goto pc).coming = s.coming) :
    Rested s ({ s with pendingFunctors := pending }.goto pc) where
  made := rfl
  all _ := rfl
  registered _ := Iff.rfl
  coming := coming
  concluding j := iff_of_false (not_concluding behind j) (before j)

theorem expire_turned (intact : s.Intact) (intact' : s'.Intact) (pc : s.pc = .expiring)
    {k now : Nat} (expired : s.expire k now = some s') :
    (∃ c, s.expires k now = some c ∧ Turned s s' c .close) ∨
      s.expires k now = none ∧ Rested s s' := by
  have before : ∀ j, ¬ s.Concluding j := not_concluding (by simp [pc])
  rcases expire_cases expired with ⟨rfl, ends⟩ | ⟨node, there, spent, rfl⟩
  · refine .inr ⟨?_, rested before nofun (by simp only [coming, functors, goto, pc])⟩
    rcases ends with empty | ⟨node, there, -, live, valid⟩
    · simp [expires, empty]
    · simp [expires, there, live, valid]
  · have due : (node.deleted || !node.isValid now) = true := by simpa using spent
    have found : s.expires k now = node.holds := by
      simp only [expires, there, Option.bind_some, if_pos due]
    rcases s.remove_cases k node with ⟨holds, same⟩ | ⟨c, holds, same⟩
    · rw [same]
      exact .inr ⟨found.trans holds, rfl, fun _ => rfl, fun _ => Iff.rfl, rfl, fun _ => Iff.rfl⟩
    · rw [same] at intact' ⊢
      exact .inl ⟨c, found.trans holds, close_turned intact pc there holds intact'⟩

/-- A step accepts a connection, is the turn of one, or is nothing to any of them. -/
theorem step_cases (intact : s.Intact) {action : PollerStep}
    (taken : poller.step s action = some s') :
    (∃ fd, action = .accept fd ∧ Accepted s s' fd) ∨
      (∃ c turn, s.acting action = some (c, turn) ∧ Turned s s' c turn) ∨
      (∀ fd, action ≠ .accept fd) ∧ s.acting action = none ∧ Rested s s' := by
  have intact' := (stepped intact taken).intact
  simp only [poller] at taken
  split at taken
  case h_1 pc _ fd => exact .inl ⟨fd, rfl, intact.accepted taken⟩
  case h_2 pc _ events atPoll =>
      obtain ⟨-, rfl⟩ := Option.ite_none_right_eq_some.mp taken |>.imp_right Option.some.inj
      refine .inr (.inr ⟨by simp, by simp only [acting, atPoll], ?_⟩)
      exact rested (not_concluding (by simp [atPoll])) (by simp)
        (by simp only [coming, functors, goto, atPoll])
  case h_3 pc _ c revents ret fs reads writes atHandle =>
      have turned := handle_turned intact intact' atHandle taken
      exact .inr (.inl ⟨c, _, by simp only [acting, atHandle], turned⟩)
  case h_4 pc _ c ret now atConclude =>
      obtain rfl := Option.some.inj taken
      have turned := conclude_turned intact atConclude now intact'
      exact .inr (.inl ⟨c, _, by simp only [acting, atConclude], turned⟩)
  case h_5 pc _ now atEnd =>
      obtain rfl := Option.some.inj taken
      refine .inr (.inr ⟨by simp, by simp only [acting, atEnd], ?_⟩)
      refine rested (not_concluding (by simp [atEnd])) (by simp) ?_
      simp only [coming, functors, atEnd, goto, List.nil_append, List.append_nil]
  case h_6 pc _ c functors now atCall =>
      obtain rfl := Option.some.inj taken
      have turned := call_turned intact atCall now intact'
      exact .inr (.inl ⟨c, _, by simp only [acting, atCall], turned⟩)
  case h_7 pc _ now atEnd =>
      obtain rfl := Option.some.inj taken
      refine .inr (.inr ⟨by simp, by simp only [acting, atEnd], ?_⟩)
      refine rested (not_concluding (by simp [atEnd])) (by simp) ?_
      simp only [coming, functors, atEnd, goto]
  case h_8 pc _ k now atExpire =>
      refine .inr ((expire_turned intact intact' atExpire taken).imp ?_ ?_)
      · rintro ⟨c, closes, turned⟩
        exact ⟨c, _, by simp only [acting, atExpire, closes, Option.map_some], turned⟩
      · rintro ⟨none_, rest⟩
        exact ⟨by simp, by simp only [acting, atExpire, none_, Option.map_none], rest⟩
  case h_9 => cases taken

end Poller

end Corio.Epoll
