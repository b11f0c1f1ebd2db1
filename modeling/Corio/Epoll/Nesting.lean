import Corio.Epoll.Faults

/-! # `handleRead` inside `handleRead`

A call is followed step by step, with what counts: how many calls of itself it has made, how
many heads it has completed, and what there was to read when the innermost call began. A nested
call begins between two requests, so one that finishes a request has taken a byte.
-/

namespace Corio.Epoll.Nesting

open Faults

structure Counted where
  s : Handling
  /-- Calls of `handleRead` out of `handleRead`. -/
  nested : Nat
  /-- `parseHeaders` has returned `PARSE_HEADER_SUCCESS` so often. -/
  heads : Nat
  /-- What was in `inBuffer_` and still to be read when the innermost call began. -/
  begun : Nat

def unreadInput (s : Handling) : Nat := supply s.d s.socket

/-- The call in `handleRead` is made. -/
def Nests (s next : Handling) : Prop := s.place = .ending ∧ next.place = .reading

/-- `parseHeaders` has gone through. -/
def CompletesHead (s next : Handling) : Prop :=
  s.place = .testing ∧ s.d.state = .parseHeaders ∧ next.place = .testing

instance (s next : Handling) : Decidable (Nests s next) := by
  unfold Nests
  infer_instance

instance (s next : Handling) : Decidable (CompletesHead s next) := by
  unfold CompletesHead
  infer_instance

def count (c : Counted) (next : Handling) : Counted where
  s := next
  nested := if Nests c.s next then c.nested + 1 else c.nested
  heads := if CompletesHead c.s next then c.heads + 1 else c.heads
  begun := if Nests c.s next then unreadInput next else c.begun

/-- One call of `handleRead` from the outside, in the steps of `handling`. -/
def call (fs : FileSystem) (d : HttpData) (socket : Socket) : Machine Counted Unit where
  init := ⟨⟨.reading, d, socket⟩, 0, 0, supply d socket⟩
  step c _ := ((handling fs).step c.s .advance).map (count c)

/-- What a connection waits for between two calls. -/
def Waiting (d : HttpData) : Prop :=
  d.state = .parseURI ∨ d.state = .parseHeaders ∨ d.state = .recvBody ∧ d.method = .post

variable {fs : FileSystem} {d : HttpData} {socket : Socket} {s s' : Handling}

/-! ## What a block does -/

/-- Errors stay, and nothing to be read is added. -/
structure Onward (s s' : Handling) : Prop where
  error : s.d.error = true → s'.d.error = true
  unread : unreadInput s' ≤ unreadInput s

/-- The block behind `readn`. -/
theorem receive_onward (d : HttpData) (socket : Socket) :
    Onward ⟨.reading, d, socket⟩ (receive d socket) ∧
      (receive d socket).d.state = d.state ∧ (receive d socket).d.hState = d.hState ∧
      (receive d socket).d.method = d.method := by
  have bound := readn_unread socket.reads d.inBuffer 0
  have less : unread (readn socket.reads d.inBuffer 0).reads ≤
      d.inBuffer.length + unread socket.reads := by
    omega
  unfold receive
  dsimp only
  split_ifs
  · exact ⟨⟨id, (Nat.zero_add _).trans_le less⟩, rfl, rfl, rfl⟩
  · exact ⟨⟨fun _ => rfl, bound⟩, rfl, rfl, rfl⟩
  · exact ⟨⟨id, bound⟩, rfl, rfl, rfl⟩
  · exact ⟨⟨id, bound⟩, rfl, rfl, rfl⟩
  · exact ⟨⟨id, bound⟩, rfl, rfl, rfl⟩

theorem receive_place (d : HttpData) (socket : Socket) :
    (receive d socket).place = .testing ∨ (receive d socket).place = .ending := by
  unfold receive
  dsimp only
  split_ifs
  · exact .inr rfl
  · exact .inr rfl
  · exact .inr rfl
  · exact .inl rfl
  · exact .inl rfl

theorem testURI_onward (d : HttpData) (socket : Socket) :
    Onward ⟨.testing, d, socket⟩ (testURI d socket) ∧
      (testURI d socket).d.hState = d.hState ∧
      ((testURI d socket).place = .ending ∧ (testURI d socket).d.state = d.state ∨
        (testURI d socket).place = .testing ∧ (testURI d socket).d.state = .parseHeaders) := by
  have shorter := parseURI_le d
  obtain ⟨inBuffer, method, fileName, version, parsed⟩ := parseURI_frame d
  have fewer : inBuffer.length + unread socket.reads ≤ d.inBuffer.length + unread socket.reads := by
    rw [parsed] at shorter
    exact Nat.add_le_add_right shorter _
  unfold testURI
  generalize parseURI d = result at parsed
  obtain ⟨flag, mid⟩ := result
  subst parsed
  cases flag with
  | again => exact ⟨⟨id, fewer⟩, rfl, .inl ⟨rfl, rfl⟩⟩
  | error =>
      refine ⟨⟨fun _ => rfl, ?_⟩, rfl, .inl ⟨rfl, rfl⟩⟩
      exact (Nat.zero_add _).trans_le (Nat.le_add_left _ _)
  | success => exact ⟨⟨id, fewer⟩, rfl, .inr ⟨rfl, rfl⟩⟩

/-- A head that is complete has taken a byte, where nothing of it had been parsed before. -/
theorem testHeaders_onward (d : HttpData) (socket : Socket) :
    Onward ⟨.testing, d, socket⟩ (testHeaders d socket) ∧
      ((∃ fault, (testHeaders d socket).place = .thrown fault) ∨
        (testHeaders d socket).place = .ending ∧ (testHeaders d socket).d.state = d.state ∨
        (testHeaders d socket).place = .testing ∧
          ((testHeaders d socket).d.state = .recvBody ∧ (testHeaders d socket).d.method = .post ∨
            (testHeaders d socket).d.state = .analysis) ∧
          (d.hState = .start →
            unreadInput (testHeaders d socket) < unreadInput ⟨.testing, d, socket⟩)) := by
  unfold testHeaders
  cases parsed : parseHeaders d with
  | error fault => exact ⟨⟨id, Nat.le_refl _⟩, .inl ⟨fault, rfl⟩⟩
  | ok result =>
      obtain ⟨flag, mid⟩ := result
      have shorter := parseHeaders_le parsed
      have kept := parseHeaders_keeps parsed
      have state : mid.state = d.state := by rw [kept]
      have error : d.error = true → mid.error = true := by
        intro failed
        rw [kept]
        exact failed
      have fewer : mid.inBuffer.length + unread socket.reads ≤
          d.inBuffer.length + unread socket.reads := Nat.add_le_add_right shorter _
      cases flag with
      | again => exact ⟨⟨error, fewer⟩, .inr (.inl ⟨rfl, state⟩)⟩
      | error => exact ⟨⟨fun _ => rfl, fewer⟩, .inr (.inl ⟨rfl, state⟩)⟩
      | success =>
          refine ⟨⟨error, fewer⟩, .inr (.inr ⟨rfl, ?_, fun start => ?_⟩)⟩
          · dsimp only
            split
            · rename_i post
              exact .inl ⟨rfl, post⟩
            · exact .inr rfl
          · exact Nat.add_lt_add_right (parseHeaders_lt start parsed) _

theorem testBody_onward (d : HttpData) (socket : Socket) :
    Onward ⟨.testing, d, socket⟩ (testBody d socket) ∧
      (testBody d socket).d.method = d.method ∧
      ((∃ fault, (testBody d socket).place = .thrown fault) ∨
        (testBody d socket).place = .ending ∧ (testBody d socket).d.state = d.state ∨
        (testBody d socket).place = .testing ∧ (testBody d socket).d.state = .analysis) := by
  rcases testBody_cases d socket with
    ⟨-, same⟩ | ⟨value, -, ⟨-, same⟩ | ⟨n, -, ⟨-, same⟩ | ⟨-, same⟩⟩⟩ <;> rw [same]
  · exact ⟨⟨fun _ => rfl, Nat.le_refl _⟩, rfl, .inr (.inl ⟨rfl, rfl⟩)⟩
  · exact ⟨⟨id, Nat.le_refl _⟩, rfl, .inl ⟨_, rfl⟩⟩
  · exact ⟨⟨id, Nat.le_refl _⟩, rfl, .inr (.inl ⟨rfl, rfl⟩)⟩
  · exact ⟨⟨id, Nat.le_refl _⟩, rfl, .inr (.inr ⟨rfl, rfl⟩)⟩

/-- A request that is answered is no `POST`. -/
theorem analyse_onward (fs : FileSystem) (d : HttpData) (socket : Socket) :
    Onward ⟨.testing, d, socket⟩ (arrive .ending (analyse fs d socket)) ∧
      ((analyse fs d socket).1.error = true ∧ (analyse fs d socket).1.state = d.state ∨
        (analyse fs d socket).1.state = .finish ∧ d.method ≠ .post) := by
  have post : d.method = .post → replyTo fs d = .nothing := replyTo_nothing_iff.mpr
  simp only [analyse, analysisRequest_eq]
  cases replied : replyTo fs d with
  | nothing => exact ⟨⟨fun _ => rfl, Nat.le_refl _⟩, .inl ⟨rfl, rfl⟩⟩
  | hello =>
      exact ⟨⟨id, Nat.le_refl _⟩, .inr ⟨rfl, fun same => by simp [post same] at replied⟩⟩
  | page response =>
      exact ⟨⟨id, Nat.le_refl _⟩, .inr ⟨rfl, fun same => by simp [post same] at replied⟩⟩
  | notFound cleared => exact ⟨⟨fun _ => rfl, Nat.le_refl _⟩, .inl ⟨rfl, rfl⟩⟩

/-- A nested call begins between two requests; without one the connection waits for what it has
    waited for, or for a new request. -/
theorem conclude_onward (d : HttpData) (socket : Socket) :
    Onward ⟨.ending, d, socket⟩ (conclude d socket) ∧
      ((conclude d socket).place = .reading ∧ d.error = false ∧ d.state = .finish ∧
          Fresh (conclude d socket).d ∨
        (conclude d socket).place = .outside ∧
          ((conclude d socket).d.error = true ∨ Fresh (conclude d socket).d ∨
            (conclude d socket).d.state = d.state ∧ d.state ≠ .finish ∧
              (conclude d socket).d.method = d.method)) := by
  obtain ⟨inBuffer, state, method, reads⟩ := flush_keeps d socket
  cases error : d.error with
  | true =>
      simp only [conclude, afterRead, error, if_true]
      exact ⟨⟨id, Nat.le_refl _⟩, .inr ⟨rfl, .inl error⟩⟩
  | false =>
      simp only [conclude, afterRead, error, Bool.false_eq_true, if_false]
      generalize flush d socket = written at inBuffer state method reads
      obtain ⟨mid, rest⟩ := written
      have unread_ : mid.inBuffer.length + unread rest.reads ≤
          d.inBuffer.length + unread socket.reads := by
        rw [inBuffer, reads]
      have errorless : d.error = true → mid.error = true := by simp [error]
      by_cases finished : ¬ mid.error ∧ mid.state = .finish
      · have fresh : Fresh (reset mid) := ⟨rfl, rfl⟩
        simp only [finishPass, if_pos finished]
        split
        · exact ⟨⟨errorless, unread_⟩, .inl ⟨rfl, trivial, state ▸ finished.2, fresh⟩⟩
        · exact ⟨⟨errorless, unread_⟩, .inr ⟨rfl, .inr (.inl fresh)⟩⟩
      · have waits : mid.error = true ∨ mid.state ≠ .finish := by
          by_contra neither
          simp only [not_or, not_not, Bool.not_eq_true] at neither
          exact finished ⟨by simp [neither.1], neither.2⟩
        simp only [finishPass, if_neg finished]
        split <;>
        · refine ⟨⟨errorless, unread_⟩, .inr ⟨rfl, ?_⟩⟩
          rcases waits with failed | unfinished
          · exact .inl failed
          · exact .inr (.inr ⟨state, fun same => unfinished (state.trans same), method⟩)

/-- What a step of a call can be. -/
inductive Move (s s' : Handling) : Prop where
  | received (place : s.place = .reading) (there : s'.place = .testing ∨ s'.place = .ending)
      (state : s'.d.state = s.d.state) (hState : s'.d.hState = s.d.hState)
      (method : s'.d.method = s.d.method)
  | named (place : s.place = .testing) (state : s.d.state = .parseURI)
      (there : s'.place = .testing) (state' : s'.d.state = .parseHeaders)
      (hState : s'.d.hState = s.d.hState)
  | headed (place : s.place = .testing) (state : s.d.state = .parseHeaders)
      (there : s'.place = .testing)
      (state' : s'.d.state = .recvBody ∧ s'.d.method = .post ∨ s'.d.state = .analysis)
      (takes : s.d.hState = .start → unreadInput s' < unreadInput s)
  | bodied (place : s.place = .testing) (state : s.d.state = .recvBody)
      (there : s'.place = .testing) (state' : s'.d.state = .analysis)
      (method : s'.d.method = s.d.method)
  | answered (place : s.place = .testing) (state : s.d.state = .analysis)
      (there : s'.place = .ending) (state' : s'.d.state = .finish) (method : s.d.method ≠ .post)
  | broken (place : s.place = .testing) (there : s'.place = .ending)
      (state : s'.d.state = s.d.state) (method : s.d.state = .recvBody → s'.d.method = s.d.method)
      (error : s.d.state = .analysis → s'.d.error = true)
  | thrown (place : s.place = .testing) {fault : Fault} (there : s'.place = .thrown fault)
  | nested (place : s.place = .ending) (error : s.d.error = false) (state : s.d.state = .finish)
      (there : s'.place = .reading) (fresh : Fresh s'.d)
  | returned (place : s.place = .ending) (there : s'.place = .outside)
      (held : s'.d.error = true ∨ Fresh s'.d ∨
        s'.d.state = s.d.state ∧ s.d.state ≠ .finish ∧ s'.d.method = s.d.method)

theorem test_move (fs : FileSystem) (d : HttpData) (socket : Socket) :
    Onward ⟨.testing, d, socket⟩ (test fs d socket) ∧
      Move ⟨.testing, d, socket⟩ (test fs d socket) := by
  unfold test
  cases state : d.state with
  | parseURI =>
      obtain ⟨onward, hState, ⟨place, same⟩ | ⟨place, state'⟩⟩ := testURI_onward d socket
      · exact ⟨onward, .broken rfl place same (by simp [state]) (by simp [state])⟩
      · exact ⟨onward, .named rfl state place state' hState⟩
  | parseHeaders =>
      obtain ⟨onward, ⟨fault, place⟩ | ⟨place, same⟩ | ⟨place, state', takes⟩⟩ :=
        testHeaders_onward d socket
      · exact ⟨onward, .thrown rfl place⟩
      · exact ⟨onward, .broken rfl place same (by simp [state]) (by simp [state])⟩
      · exact ⟨onward, .headed rfl state place state' takes⟩
  | recvBody =>
      obtain ⟨onward, method, ⟨fault, place⟩ | ⟨place, same⟩ | ⟨place, state'⟩⟩ :=
        testBody_onward d socket
      · exact ⟨onward, .thrown rfl place⟩
      · exact ⟨onward, .broken rfl place same (fun _ => method) (by simp [state])⟩
      · exact ⟨onward, .bodied rfl state place state' method⟩
  | analysis =>
      obtain ⟨onward, ⟨error, same⟩ | ⟨state', method⟩⟩ := analyse_onward fs d socket
      · exact ⟨onward, .broken rfl rfl same (by simp [state]) fun _ => error⟩
      · exact ⟨onward, .answered rfl state rfl state' method⟩
  | finish =>
      exact ⟨⟨id, Nat.le_refl _⟩, .broken rfl rfl rfl (fun _ => rfl) (by simp [state])⟩

theorem advance_move (taken : advance fs s = some s') : Onward s s' ∧ Move s s' := by
  obtain ⟨place, d, socket⟩ := s
  cases place with simp only [advance, Option.some.injEq, reduceCtorEq] at taken
  | reading =>
      obtain ⟨onward, state, hState, method⟩ := receive_onward d socket
      have place := receive_place d socket
      exact taken ▸ ⟨onward, .received rfl place state hState method⟩
  | testing => exact taken ▸ test_move fs d socket
  | ending =>
      obtain ⟨onward, ⟨place, error, state, fresh⟩ | ⟨place, held⟩⟩ := conclude_onward d socket
      · exact taken ▸ ⟨onward, .nested rfl error state place fresh⟩
      · exact taken ▸ ⟨onward, .returned rfl place held⟩

/-! ## Between two calls -/

/-- The connection is given up, or waits for part of a request. -/
def Held (s : Handling) : Prop :=
  s.d.error = true ∨
    match s.place with
    | .outside | .reading => Waiting s.d
    | .testing => Waiting s.d ∨ s.d.state = .analysis
    | .ending => Waiting s.d ∨ s.d.state = .finish
    | .thrown _ => True

theorem held_between (place : s.place = .outside ∨ s.place = .reading) (waiting : Waiting s.d) :
    Held s := by
  refine .inr ?_
  rcases place with place | place <;> rw [place] <;> exact waiting

theorem held_testing (place : s.place = .testing) (waiting : Waiting s.d ∨ s.d.state = .analysis) :
    Held s := by
  refine .inr ?_
  rw [place]
  exact waiting

theorem held_ending (place : s.place = .ending) (waiting : Waiting s.d ∨ s.d.state = .finish) :
    Held s := by
  refine .inr ?_
  rw [place]
  exact waiting

theorem held_fresh (fresh : Fresh s.d) (place : s.place = .outside ∨ s.place = .reading) :
    Held s :=
  held_between place (.inl fresh.state)

/-- A block that breaks has left the connection waiting, or given it up. -/
theorem held_broken (held : Waiting s.d ∨ s.d.state = .analysis) (there : s'.place = .ending)
    (state : s'.d.state = s.d.state) (method : s.d.state = .recvBody → s'.d.method = s.d.method)
    (error : s.d.state = .analysis → s'.d.error = true) : Held s' := by
  rcases held with (uri | headers | ⟨body, post⟩) | analysis
  · exact held_ending there (.inl (.inl (state.trans uri)))
  · exact held_ending there (.inl (.inr (.inl (state.trans headers))))
  · exact held_ending there (.inl (.inr (.inr ⟨state.trans body, (method body).trans post⟩)))
  · exact .inl (error analysis)

theorem held_advance (held : Held s) (taken : advance fs s = some s') : Held s' := by
  obtain ⟨onward, move⟩ := advance_move taken
  rcases held with error | held
  · exact .inl (onward.error error)
  cases move with
  | received place there state hState method =>
      rw [place] at held
      have still : Waiting s'.d := by
        simpa only [Waiting, state, method] using held
      rcases there with there | there
      · exact held_testing there (.inl still)
      · exact held_ending there (.inl still)
  | named place state there state' hState =>
      exact held_testing there (.inl (.inr (.inl state')))
  | headed place state there state' takes =>
      exact held_testing there (state'.imp_left fun body => .inr (.inr body))
  | bodied place state there state' method => exact held_testing there (.inr state')
  | answered place state there state' method => exact held_ending there (.inr state')
  | broken place there state method error =>
      rw [place] at held
      exact held_broken held there state method error
  | thrown place there =>
      refine .inr ?_
      rw [there]
      trivial
  | nested place error state there fresh => exact held_fresh fresh (.inr there)
  | returned place there ended =>
      rw [place] at held
      rcases ended with error | fresh | ⟨state, unfinished, method⟩
      · exact .inl error
      · exact held_fresh fresh (.inl there)
      · rcases held with waiting | finished
        · refine held_between (.inl there) ?_
          simpa only [Waiting, state, method] using waiting
        · exact absurd finished unfinished

theorem held_read (held : Held s) (place : s.place = .outside) (reads : List ReadResult)
    (writes : List WriteResult) (wire : Bytes) : Held ⟨.reading, s.d, ⟨reads, writes, wire⟩⟩ := by
  simp only [Held, place] at held
  exact held

theorem held_write (held : Held s) (place : s.place = .outside) (socket : Socket) :
    Held (arrive .outside (handleWrite s.d socket)) := by
  simp only [Held, place] at held
  rcases held with error | waiting
  · refine .inl ?_
    simp only [arrive, handleWrite, error, not_true_eq_false, false_and, if_false]
  · obtain ⟨outBuffer, events, error, same⟩ := handleWrite_same s.d socket
    refine held_between (.inl rfl) ?_
    rw [arrive, same]
    exact waiting

theorem held_step (held : Held s) (action : Action)
    (taken : (handling fs).step s action = some s') : Held s' := by
  cases action with
  | advance =>
      rw [step_advance] at taken
      exact held_advance held taken
  | event | close =>
      obtain ⟨-, same⟩ := Option.ite_none_right_eq_some.mp taken
      obtain rfl := Option.some.inj same
      exact held
  | conn =>
      obtain ⟨-, same⟩ := Option.ite_none_right_eq_some.mp taken
      obtain rfl := Option.some.inj same
      obtain ⟨connectionState, events, kept⟩ := handleConn_same s.d
      rw [kept]
      exact held
  | read reads writes =>
      obtain ⟨place, same⟩ := Option.ite_none_right_eq_some.mp taken
      obtain rfl := Option.some.inj same
      exact held_read held place reads writes s.socket.wire
  | write writes =>
      obtain ⟨place, same⟩ := Option.ite_none_right_eq_some.mp taken
      obtain rfl := Option.some.inj same
      exact held_write held place _

theorem reachable_held (reached : (handling fs).Reachable s) : Held s :=
  reached.induct (held_fresh ⟨rfl, rfl⟩ (.inl rfl)) fun _ action _ held taken =>
    held_step held action taken

/-! ## The calls of a call -/

section Calls

variable {c c' : Counted} {total : Nat}

/-- The innermost call has taken a byte. -/
def Shortened (c : Counted) : Prop := 0 < c.nested → unreadInput c.s < c.begun

/-- A head is complete that no nested call stands for. -/
def Ahead (c : Counted) : Prop := c.nested < c.heads ∨ c.s.d.error = true

/-- What the innermost call has come to. -/
def Level (c : Counted) : Prop :=
  match c.s.place, c.s.d.state with
  | .reading, _ => 0 < c.nested → Fresh c.s.d
  | .testing, .parseURI | .testing, .parseHeaders => 0 < c.nested → c.s.d.hState = .start
  | .testing, .recvBody | .testing, .analysis =>
      (c.s.d.method ≠ .post → Ahead c) ∧ Shortened c
  | .testing, .finish => c.nested = 0
  | .ending, .finish => Ahead c ∧ Shortened c
  | _, _ => True

/-- The counts of a call that had this much to read. -/
structure Counting (total : Nat) (c : Counted) : Prop where
  held : Held c.s
  level : Level c
  heads : c.nested ≤ c.heads
  unread : unreadInput c.s ≤ c.begun
  begun : c.begun ≤ total
  nested : c.nested + c.begun ≤ total + 1

theorem count_nests (nests : Nests c.s s') :
    count c s' = ⟨s', c.nested + 1, c.heads, unreadInput s'⟩ := by
  have headless : ¬ CompletesHead c.s s' := by
    intro head
    cases nests.1.symm.trans head.1
  simp only [count, if_pos nests, if_neg headless]

theorem count_head (head : CompletesHead c.s s') :
    count c s' = ⟨s', c.nested, c.heads + 1, c.begun⟩ := by
  have flat : ¬ Nests c.s s' := by
    intro nests
    cases nests.1.symm.trans head.1
  simp only [count, if_neg flat, if_pos head]

theorem count_quiet (flat : ¬ Nests c.s s') (headless : ¬ CompletesHead c.s s') :
    count c s' = ⟨s', c.nested, c.heads, c.begun⟩ := by
  simp only [count, if_neg flat, if_neg headless]

theorem Shortened.onward (shortened : Shortened c) (onward : Onward c.s s') :
    Shortened ⟨s', c.nested, c.heads, c.begun⟩ :=
  fun within => onward.unread.trans_lt (shortened within)

theorem Ahead.onward (ahead : Ahead c) (onward : Onward c.s s') :
    Ahead ⟨s', c.nested, c.heads, c.begun⟩ :=
  ahead.imp_right onward.error

/-- Nothing is counted in this step. -/
theorem Counting.quiet (counting : Counting total c) (onward : Onward c.s s') (held : Held s')
    (level : Level ⟨s', c.nested, c.heads, c.begun⟩) (flat : ¬ Nests c.s s')
    (headless : ¬ CompletesHead c.s s') : Counting total (count c s') := by
  rw [count_quiet flat headless]
  exact ⟨held, level, counting.heads, onward.unread.trans counting.unread, counting.begun,
    counting.nested⟩

theorem level_received (counting : Counting total c) (onward : Onward c.s s')
    (place : c.s.place = .reading) (there : s'.place = .testing ∨ s'.place = .ending)
    (state : s'.d.state = c.s.d.state) (hState : s'.d.hState = c.s.d.hState)
    (method : s'.d.method = c.s.d.method) : Level ⟨s', c.nested, c.heads, c.begun⟩ := by
  have level : 0 < c.nested → Fresh c.s.d := by simpa only [Level, place] using counting.level
  have outermost : c.s.d.state ≠ .parseURI → c.nested = 0 := by
    intro other
    by_contra within
    exact other (level (Nat.pos_of_ne_zero within)).state
  have outer : c.s.d.state ≠ .parseURI → Shortened ⟨s', c.nested, c.heads, c.begun⟩ := by
    intro other within
    exact absurd (outermost other) (Nat.ne_of_gt within)
  have ahead : c.s.d.state ≠ .parseURI → c.s.d.state ≠ .parseHeaders →
      (c.s.d.state = .recvBody → c.s.d.method ≠ .post) →
      Ahead ⟨s', c.nested, c.heads, c.begun⟩ := by
    intro other unheaded noPost
    have held := counting.held
    simp only [Held, Waiting, place] at held
    rcases held with error | uri | headers | ⟨body, post⟩
    · exact .inr (onward.error error)
    · exact absurd uri other
    · exact absurd headers unheaded
    · exact absurd post (noPost body)
  rcases there with there | there
  · cases same : c.s.d.state with simp only [Level, there, state, same]
    | parseURI | parseHeaders =>
        intro within
        exact hState.trans (level within).hState
    | recvBody | analysis =>
        refine ⟨fun noPost => ahead ?_ ?_ fun _ => method ▸ noPost, outer ?_⟩ <;> simp [same]
    | finish => exact outermost (by simp [same])
  · cases same : c.s.d.state with simp only [Level, there, state, same]
    | finish => refine ⟨ahead ?_ ?_ ?_, outer ?_⟩ <;> simp [same]

/-- A block that breaks has not come to `STATE_FINISH`. -/
theorem level_broken (counting : Counting total c) (onward : Onward c.s s')
    (place : c.s.place = .testing) (there : s'.place = .ending)
    (state : s'.d.state = c.s.d.state) : Level ⟨s', c.nested, c.heads, c.begun⟩ := by
  cases same : c.s.d.state with simp only [Level, there, state, same]
  | finish =>
      have outermost : c.nested = 0 := by simpa only [Level, place, same] using counting.level
      refine ⟨?_, fun within => absurd outermost (Nat.ne_of_gt within)⟩
      have held := counting.held
      simp only [Held, Waiting, place, same, reduceCtorEq, false_and, or_self, or_false] at held
      exact .inr (onward.error held)

theorem level_answered (counting : Counting total c) (onward : Onward c.s s')
    (place : c.s.place = .testing) (state : c.s.d.state = .analysis)
    (there : s'.place = .ending) (state' : s'.d.state = .finish) (method : c.s.d.method ≠ .post) :
    Level ⟨s', c.nested, c.heads, c.begun⟩ := by
  have level := counting.level
  simp only [Level, place, state] at level
  simp only [Level, there, state']
  exact ⟨(level.1 method).onward onward, level.2.onward onward⟩

theorem level_bodied (counting : Counting total c) (onward : Onward c.s s')
    (place : c.s.place = .testing) (state : c.s.d.state = .recvBody)
    (there : s'.place = .testing) (state' : s'.d.state = .analysis)
    (method : s'.d.method = c.s.d.method) : Level ⟨s', c.nested, c.heads, c.begun⟩ := by
  have level := counting.level
  simp only [Level, place, state] at level
  simp only [Level, there, state']
  exact ⟨fun noPost => (level.1 (method ▸ noPost)).onward onward, level.2.onward onward⟩

/-- A head that is complete stands for the nested call that may follow. -/
theorem counting_headed (counting : Counting total c) (onward : Onward c.s s') (held : Held s')
    (place : c.s.place = .testing) (state : c.s.d.state = .parseHeaders)
    (there : s'.place = .testing)
    (state' : s'.d.state = .recvBody ∧ s'.d.method = .post ∨ s'.d.state = .analysis)
    (takes : c.s.d.hState = .start → unreadInput s' < unreadInput c.s) :
    Counting total (count c s') := by
  have level : 0 < c.nested → c.s.d.hState = .start := by
    simpa only [Level, place, state] using counting.level
  have ahead : Ahead ⟨s', c.nested, c.heads + 1, c.begun⟩ := .inl (Nat.lt_succ_of_le counting.heads)
  have shortened : Shortened ⟨s', c.nested, c.heads + 1, c.begun⟩ := fun within =>
    (takes (level within)).trans_le counting.unread
  rw [count_head ⟨place, state, there⟩]
  refine ⟨held, ?_, Nat.le_succ_of_le counting.heads, onward.unread.trans counting.unread,
    counting.begun, counting.nested⟩
  rcases state' with ⟨body, -⟩ | analysis
  · simp only [Level, there, body]
    exact ⟨fun _ => ahead, shortened⟩
  · simp only [Level, there, analysis]
    exact ⟨fun _ => ahead, shortened⟩

/-- The nested call has a head to its name, and less to read than the one it is in. -/
theorem counting_nested (counting : Counting total c) (onward : Onward c.s s') (held : Held s')
    (place : c.s.place = .ending) (error : c.s.d.error = false) (state : c.s.d.state = .finish)
    (there : s'.place = .reading) (fresh : Fresh s'.d) : Counting total (count c s') := by
  have level := counting.level
  simp only [Level, place, state, Ahead, error, Bool.false_eq_true, or_false] at level
  obtain ⟨ahead, shortened⟩ := level
  have less : unreadInput s' ≤ c.begun := onward.unread.trans counting.unread
  rw [count_nests ⟨place, there⟩]
  refine ⟨held, ?_, ahead, Nat.le_refl _, less.trans counting.begun, ?_⟩
  · simp only [Level, there]
    exact fun _ => fresh
  · have bound := counting.nested
    have begun := counting.begun
    show c.nested + 1 + unreadInput s' ≤ total + 1
    rcases Nat.eq_zero_or_pos c.nested with outermost | within
    · omega
    · have shorter := onward.unread.trans_lt (shortened within)
      omega

theorem counting_advance (counting : Counting total c) (taken : advance fs c.s = some s') :
    Counting total (count c s') := by
  have held := held_advance counting.held taken
  obtain ⟨onward, move⟩ := advance_move taken
  cases move with
  | received place there state hState method =>
      have level := level_received counting onward place there state hState method
      exact counting.quiet onward held level (by simp [Nests, place])
        (by simp [CompletesHead, place])
  | named place state there state' hState =>
      have level : 0 < c.nested → c.s.d.hState = .start := by
        simpa only [Level, place, state] using counting.level
      refine counting.quiet onward held ?_ (by simp [Nests, place]) (by simp [CompletesHead, state])
      simp only [Level, there, state']
      exact fun within => hState.trans (level within)
  | headed place state there state' takes =>
      exact counting_headed counting onward held place state there state' takes
  | bodied place state there state' method =>
      have level := level_bodied counting onward place state there state' method
      exact counting.quiet onward held level (by simp [Nests, place])
        (by simp [CompletesHead, state])
  | answered place state there state' method =>
      have level := level_answered counting onward place state there state' method
      exact counting.quiet onward held level (by simp [Nests, place])
        (by simp [CompletesHead, state])
  | broken place there state =>
      have level := level_broken counting onward place there state
      exact counting.quiet onward held level (by simp [Nests, place])
        (by simp [CompletesHead, there])
  | thrown place there =>
      refine counting.quiet onward held ?_ (by simp [Nests, place]) (by simp [CompletesHead, there])
      simp only [Level, there]
  | nested place error state there fresh =>
      exact counting_nested counting onward held place error state there fresh
  | returned place there =>
      refine counting.quiet onward held ?_ (by simp [Nests, there]) (by simp [CompletesHead, there])
      simp only [Level, there]

theorem counting_init (held : Held ⟨.reading, d, socket⟩) :
    Counting (supply d socket) (call fs d socket).init := by
  refine ⟨held, fun within => absurd within (Nat.lt_irrefl 0), Nat.le_refl _, Nat.le_refl _,
    Nat.le_refl _, ?_⟩
  exact (Nat.zero_add _).trans_le (Nat.le_succ _)

theorem counting_reachable (held : Held ⟨.reading, d, socket⟩)
    (reached : (call fs d socket).Reachable c) : Counting (supply d socket) c := by
  refine reached.induct (counting_init held) fun c _ c' counting taken => ?_
  obtain ⟨s', advanced, rfl⟩ := Option.map_eq_some_iff.mp taken
  rw [step_advance] at advanced
  exact counting_advance counting advanced

/-- What is counted does not matter to the steps. -/
theorem call_follows (d : HttpData) (socket : Socket) {n : Nat}
    (ran : (handling fs).run c.s (List.replicate n .advance) = some s') :
    ∃ c', (call fs d socket).run c (List.replicate n ()) = some c' ∧ c'.s = s' := by
  induction n generalizing c with
  | zero => exact ⟨c, rfl, Option.some.inj ran⟩
  | succ n ih =>
      rw [List.replicate_succ, Machine.run_cons_some] at ran
      obtain ⟨next, taken, later⟩ := ran
      obtain ⟨c', follows, same⟩ := ih (c := count c next) later
      refine ⟨c', ?_, same⟩
      rw [List.replicate_succ, Machine.run_cons_some]
      exact ⟨count c next, congrArg (Option.map (count c)) taken, follows⟩

end Calls

/-- Whatever has happened on the connection before, a call comes to what `handleRead` computes.
    It calls itself at most once for every head that it completes, since a nested call that
    finishes a request leaves less to read than it has begun with. -/
theorem nested_calls_end (fs : FileSystem) (s : Handling) (reached : (handling fs).Reachable s)
    (outside : s.place = .outside) (reads : List ReadResult) (writes : List WriteResult) :
    (∃ n c, (call fs s.d ⟨reads, writes, s.socket.wire⟩).run
          (call fs s.d ⟨reads, writes, s.socket.wire⟩).init (List.replicate n ()) = some c ∧
        Ended (handleRead fs s.d ⟨reads, writes, s.socket.wire⟩) c.s ∧ Settled c.s) ∧
      ∀ c, (call fs s.d ⟨reads, writes, s.socket.wire⟩).Reachable c →
        c.nested ≤ c.heads ∧ c.nested ≤ supply s.d ⟨reads, writes, s.socket.wire⟩ + 1 ∧
          (0 < c.nested → c.s.place = .ending → c.s.d.state = .finish →
            unreadInput c.s < c.begun) := by
  have held := held_read (reachable_held reached) outside reads writes s.socket.wire
  constructor
  · obtain ⟨s', ⟨n, ran⟩, ended⟩ := handleRead_advances fs s.d ⟨reads, writes, s.socket.wire⟩
    obtain ⟨c, follows, rfl⟩ := call_follows s.d ⟨reads, writes, s.socket.wire⟩
      (c := (call fs s.d ⟨reads, writes, s.socket.wire⟩).init) ran
    exact ⟨n, c, follows, ended, ended.settled⟩
  · intro c reachable
    have counting := counting_reachable held reachable
    refine ⟨counting.heads, (Nat.le_add_right _ _).trans counting.nested, ?_⟩
    intro within place state
    have level := counting.level
    simp only [Level, place, state] at level
    exact level.2 within

/-- Two requests that arrive at once. `parseHeaders` runs into what stands between them. -/
def pipelined : Bytes :=
  let getHello := bytes "GET /hello HTTP/1.1\r\nHost: a\r\n\r\n"
  getHello ++ bytes "\r\n" ++ getHello

theorem nested_calls_end_pipelined :
    (∃ n c, (call noFiles {} ⟨pieceReads pipelined, [], []⟩).run
          (call noFiles {} ⟨pieceReads pipelined, [], []⟩).init (List.replicate n ()) = some c ∧
        Ended (handleRead noFiles {} ⟨pieceReads pipelined, [], []⟩) c.s ∧ Settled c.s) ∧
      ((call noFiles {} ⟨pieceReads pipelined, [], []⟩).run
          (call noFiles {} ⟨pieceReads pipelined, [], []⟩).init (List.replicate 10 ())).map
        (fun c => (c.s.place, c.nested, c.heads)) = some (.outside, 1, 2) := by
  refine ⟨?_, by decide +kernel⟩
  exact (nested_calls_end noFiles _ Machine.Reachable.init rfl (pieceReads pipelined) []).1

end Corio.Epoll.Nesting
