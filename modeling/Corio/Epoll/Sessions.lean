import Corio.Epoll.Descriptors
import Corio.Epoll.RequestHead

/-! # The responses of each connection

The stream of a connection, among all that the loop does for others. A connection whose own
turns are orderly is sent its own responses in their order, whatever happens to the others.
-/

namespace Corio.Epoll

variable {fs : FileSystem}

/-- What `handleWrite` is called for. -/
def writeTurns (revents : Revents) (d : HttpData) (socket : Socket) : List Turn :=
  if revents.epollout = true ∧ Live d then [.write socket.writes] else []

/-- `handleEvents` up to `handleConn`, for a channel that is not hung up. -/
def eventTurns (fs : FileSystem) (d : HttpData) (revents : Revents) (socket : Socket) :
    List Turn :=
  if revents.epollin || revents.epollpri || revents.epollrdhup then
    readTurns fs (d.inBuffer.length + unread socket.reads + 2) d socket ++
      match handleRead fs d socket with
      | .ok (d, socket) => writeTurns revents d socket
      | .error _ => []
  else writeTurns revents d socket

namespace Solo

/-- A turn of the connection as turns of its stream. -/
def turns (fs : FileSystem) (s : Solo) : SoloStep → List Turn
  | .ready revents _ reads writes =>
      if revents.hangsUp then []
      else .event :: eventTurns fs { s.data with events := {} } revents ⟨reads, writes, s.wire⟩
  | .conclude => [.conn]
  | .add | .close => []

def allTurns (fs : FileSystem) : Solo → List SoloStep → List Turn
  | _, [] => []
  | s, step :: rest =>
      s.turns fs step ++
        match solo.step s step with
        | none => []
        | some s' => s'.allTurns fs rest

/-- With these files, and without a write that fails. -/
def Plain (fs : FileSystem) : SoloStep → Prop
  | .ready _ files _ writes => files = fs ∧ .failed ∉ writes
  | _ => True

/-- A connection and its stream. -/
structure Matches (s : Solo) (t : Stream) : Prop where
  wire : t.wire = s.wire
  between : t.reading = false
  coming : s.phase = .coming → s.data = {} ∧ t.d = {}
  idle : s.phase = .idle → Live s.data ∧ { t.d with events := {} } = { s.data with events := {} }
  busy : s.phase = .busy → t.d = s.data ∧ s.data.connectionState ≠ .disconnected

end Solo

/-- `handleWrite` does not look at what can be read. -/
theorem handleWrite_reads (d : HttpData) (socket : Socket) :
    (handleWrite d socket).1 = (handleWrite d ⟨[], socket.writes, socket.wire⟩).1 ∧
      (handleWrite d socket).2.wire = (handleWrite d ⟨[], socket.writes, socket.wire⟩).2.wire := by
  have same : (writenString socket d.outBuffer).1 =
        (writenString ⟨[], socket.writes, socket.wire⟩ d.outBuffer).1 ∧
      (writenString socket d.outBuffer).2.1 =
        (writenString ⟨[], socket.writes, socket.wire⟩ d.outBuffer).2.1 ∧
      (writenString socket d.outBuffer).2.2.wire =
        (writenString ⟨[], socket.writes, socket.wire⟩ d.outBuffer).2.2.wire := by
    unfold writenString
    simp only
    split
    · exact ⟨rfl, rfl, rfl⟩
    · split <;> exact ⟨rfl, rfl, rfl⟩
  unfold handleWrite
  split
  · simp only [same, and_self]
  · exact ⟨rfl, rfl⟩

theorem handleWrite_dead {d : HttpData} (dead : ¬ Live d) (socket : Socket) :
    handleWrite d socket = (d, socket) := by
  unfold handleWrite
  exact if_neg fun live => dead ⟨by simpa using live.1, live.2⟩

theorem writeTurns_run {revents : Revents} {s : Stream} {socket : Socket}
    (wire : s.wire = socket.wire) (between : s.reading = false)
    (isOpen : s.d.connectionState ≠ .disconnected) (clean : .failed ∉ socket.writes)
    {after : HttpData × Socket}
    (done : (if revents.epollout then handleWrite s.d socket else (s.d, socket)) = after) :
    ∃ responses, (stream fs).run s (writeTurns revents s.d socket) =
        some ⟨after.1, after.2.wire, responses, false⟩ ∧
      after.1.connectionState ≠ .disconnected := by
  obtain ⟨d, wire_, responses, reading⟩ := s
  obtain rfl : wire_ = socket.wire := wire
  obtain rfl : reading = false := between
  subst done
  unfold writeTurns
  by_cases room : revents.epollout = true
  · rw [if_pos room]
    by_cases live : Live d
    · obtain ⟨data, sent⟩ := handleWrite_reads d socket
      rw [if_pos ⟨room, live⟩, data, sent]
      refine ⟨responses, ?_, (handleWrite_frame d _).2 ▸ isOpen⟩
      simp [Machine.run_cons, stream, live, clean]
    · rw [if_neg fun both => live both.2, handleWrite_dead live]
      exact ⟨responses, rfl, isOpen⟩
  · rw [if_neg room, if_neg fun both => room both.1]
    exact ⟨responses, rfl, isOpen⟩

/-- What the channel does with its events is a run of the stream. -/
theorem eventTurns_run {revents : Revents} {s : Stream} {reads : List ReadResult}
    {writes : List WriteResult} (live : Live s.d) (between : s.reading = false)
    (clean : .failed ∉ writes) {after : HttpData × Socket}
    (done : handleTurn fs s.d revents ⟨reads, writes, s.wire⟩ = .ok after) :
    ∃ responses, (stream fs).run s (eventTurns fs s.d revents ⟨reads, writes, s.wire⟩) =
        some ⟨after.1, after.2.wire, responses, false⟩ ∧
      after.1.connectionState ≠ .disconnected := by
  unfold handleTurn at done
  unfold eventTurns
  by_cases readable : (revents.epollin || revents.epollpri || revents.epollrdhup) = true
  · rw [if_pos readable] at done ⊢
    cases read : handleRead fs s.d ⟨reads, writes, s.wire⟩ with
    | error fault =>
        rw [read] at done
        cases done
    | ok mid =>
        rw [read] at done
        obtain ⟨⟨responses, ran⟩, stillClean, isOpen⟩ := readTurns_run live clean read
        obtain ⟨final, wrote, ended⟩ := @writeTurns_run fs revents
          ⟨mid.1, mid.2.wire, responses, false⟩ mid.2 rfl rfl isOpen stillClean after
          (Except.ok.inj done)
        exact ⟨final, (Machine.run_append_some _).mpr ⟨_, ran, wrote⟩, ended⟩
  · rw [if_neg readable] at done ⊢
    exact writeTurns_run (s := s) rfl between live.2 clean (Except.ok.inj done)

namespace Solo

theorem live_of_idle {d d' : HttpData}
    (same : { d' with events := {} } = { d with events := {} }) : Live d' ↔ Live d := by
  obtain ⟨-, -, error, state, -⟩ := HttpData.mk.inj same
  rw [Live, Live, error, state]

/-- A connection that `handleConn` does not close goes on. -/
theorem live_handleConn {d : HttpData} (stays : ¬ Poller.Closes d) : Live (handleConn d) := by
  obtain ⟨connectionState, events, same⟩ := handleConn_same d
  have error : (handleConn d).error = d.error := by rw [same]
  by_cases connected : d.error = false ∧ d.connectionState = .connected
  · refine ⟨error.trans connected.1, ?_⟩
    rw [(Poller.handleConn_connected connected).1]
    nofun
  · have draining := Poller.draining_of_stays stays connected
    refine ⟨error.trans draining.1, ?_⟩
    rw [(Poller.handleConn_draining draining).1]
    nofun

theorem Matches.ready {s s' : Solo} {t : Stream} (matches_ : Matches s t) (idle : s.phase = .idle)
    {revents : Revents} {reads : List ReadResult} {writes : List WriteResult}
    (clean : .failed ∉ writes) (taken : s.ready revents fs reads writes = some s') :
    ∃ t', (stream fs).run t (s.turns fs (.ready revents fs reads writes)) = some t' ∧
      Matches s' t' := by
  obtain ⟨live, same⟩ := matches_.idle idle
  simp only [Solo.ready] at taken
  simp only [turns]
  by_cases hangs : revents.hangsUp = true
  · rw [if_pos hangs] at taken ⊢
    obtain rfl := Option.some.inj taken
    refine ⟨t, rfl, matches_.wire, matches_.between, ?_, fun _ => ⟨live, same⟩, ?_⟩
    · intro coming
      rw [idle] at coming
      cases coming
    · intro busy
      rw [idle] at busy
      cases busy
  · rw [if_neg hangs] at taken ⊢
    split at taken
    · cases taken
    · rename_i d socket done
      obtain rfl := Option.some.inj taken
      rw [← matches_.wire] at done ⊢
      have started : (stream fs).step t .event =
          some { t with d := { s.data with events := {} } } := by
        simp [stream, (live_of_idle same).mpr live, matches_.between, same]
      obtain ⟨responses, ran, isOpen⟩ := eventTurns_run
        (s := { t with d := { s.data with events := {} } }) live matches_.between clean done
      refine ⟨⟨d, socket.wire, responses, false⟩,
        (Machine.run_cons_some _).mpr ⟨_, started, ran⟩, rfl, rfl, by simp, by simp, ?_⟩
      exact fun _ => ⟨rfl, isOpen⟩

theorem Matches.step {s s' : Solo} {t : Stream} (matches_ : Matches s t) {turn : SoloStep}
    (plain : Plain fs turn) (taken : solo.step s turn = some s') :
    ∃ t', (stream fs).run t (s.turns fs turn) = some t' ∧ Matches s' t' := by
  cases turn with
  | add =>
      cases phase : s.phase <;> simp only [solo, phase, reduceCtorEq, Option.some.injEq] at taken
      obtain ⟨fresh, fresh'⟩ := matches_.coming phase
      subst taken
      refine ⟨t, rfl, matches_.wire, matches_.between, by simp, fun _ => ⟨?_, ?_⟩, by simp⟩
      · rw [fresh]
        exact ⟨rfl, by simp⟩
      · rw [fresh, fresh']
  | ready revents files reads writes =>
      obtain ⟨rfl, clean⟩ := plain
      obtain ⟨idle, ready⟩ := solo_ready taken
      exact matches_.ready idle clean ready
  | conclude =>
      cases phase : s.phase <;> simp only [solo, phase, reduceCtorEq, Option.some.injEq] at taken
      obtain ⟨same, isOpen⟩ := matches_.busy phase
      have stepped : (stream fs).step t .conn = some { t with d := handleConn s.data } := by
        simp [stream, same, isOpen, matches_.between]
      subst taken
      refine ⟨_, (Machine.run_cons_some _).mpr ⟨_, stepped, rfl⟩, matches_.wire, matches_.between,
        ?_, ?_, ?_⟩
      · split <;> simp
      · split
        · simp
        · rename_i stays
          exact fun _ => ⟨live_handleConn stays, rfl⟩
      · split <;> simp
  | close =>
      cases phase : s.phase <;> simp only [solo, phase, reduceCtorEq, Option.some.injEq] at taken
      subst taken
      exact ⟨t, rfl, matches_.wire, matches_.between, by simp, by simp, by simp⟩

theorem Matches.run {s s' : Solo} {t : Stream} (matches_ : Matches s t) {steps : List SoloStep}
    (plain : ∀ turn ∈ steps, Plain fs turn) (ran : solo.run s steps = some s') :
    ∃ t', (stream fs).run t (s.allTurns fs steps) = some t' ∧ Matches s' t' := by
  induction steps generalizing s t with
  | nil =>
      obtain rfl := Option.some.inj ran
      exact ⟨t, rfl, matches_⟩
  | cons turn rest ih =>
      obtain ⟨here, plain⟩ := List.forall_mem_cons.mp plain
      obtain ⟨mid, taken, later⟩ := solo.run_cons_some.mp ran
      obtain ⟨t₁, first, matches₁⟩ := matches_.step here taken
      obtain ⟨t₂, second, matches₂⟩ := ih matches₁ plain later
      simp only [allTurns, taken]
      exact ⟨t₂, (Machine.run_append_some _).mpr ⟨t₁, first, second⟩, matches₂⟩

end Solo

section Between

variable {d : HttpData} {socket : Socket}

theorem handleTurn_ready {revents : Revents} {after : HttpData × Socket} (ready : Ready d)
    (done : handleTurn fs d revents socket = .ok after) : Ready after.1 := by
  unfold handleTurn at done
  by_cases readable : (revents.epollin || revents.epollpri || revents.epollrdhup) = true
  · rw [if_pos readable] at done
    cases read : handleRead fs d socket with
    | error fault =>
        rw [read] at done
        cases done
    | ok mid =>
        rw [read] at done
        obtain rfl := Except.ok.inj done
        have between := handleReadFuel_ready ready read
        split
        · exact handleWrite_ready mid.2 between
        · exact between
  · rw [if_neg readable] at done
    obtain rfl := Except.ok.inj done
    split
    · exact handleWrite_ready socket ready
    · exact ready

theorem Solo.ready_step {s s' : Solo} {turn : SoloStep} (ready : Ready s.data)
    (taken : solo.step s turn = some s') : Ready s'.data := by
  cases turn with
  | ready revents fs reads writes =>
      have calm : Ready { s.data with events := {} } := ready.of_same rfl rfl rfl rfl
      obtain ⟨-, turned⟩ := solo_ready taken
      simp only [Solo.ready] at turned
      split at turned
      · obtain rfl := Option.some.inj turned
        exact calm
      · split at turned
        · cases turned
        · rename_i done
          obtain rfl := Option.some.inj turned
          exact handleTurn_ready calm done
  | conclude =>
      cases phase : s.phase <;> simp only [solo, phase, reduceCtorEq, Option.some.injEq] at taken
      subst taken
      exact handleConn_ready ready
  | add | close =>
      cases phase : s.phase <;> simp only [solo, phase, reduceCtorEq, Option.some.injEq] at taken
      subst taken
      exact ready.of_same rfl rfl rfl rfl

open Descriptors in
/-- Whenever a connection of the loop looks for a request line, nothing is left of the last
    request. -/
theorem sessions_await {steps : List PollerStep} {p : Descriptors}
    (ran : descriptors.run descriptors.init steps = some p) (c : Nat)
    (looks : (p.poller.heap c).data.state = .parseURI) : Awaits (p.poller.heap c).data := by
  have lives := view_run owned_init blank_init ran c
  rw [blank_init c (Nat.zero_le c)] at lives
  have ready : Ready (p.soloOf c).data :=
    Machine.run_preserves (fun _ _ _ ready taken => Solo.ready_step ready taken) ready_begin lives
  exact ready.awaits looks

end Between

end Corio.Epoll
