import Corio.Epoll.Conversation
import Corio.Epoll.Descriptors

/-! # A client is answered, and in time

While a client waits, what the server does brings the response on the wire, as long as epoll
reports what the connection is registered for and there is room when it says so.
-/

namespace Corio.Epoll

variable {fs : FileSystem} {s s' : Conversation}

namespace Conversation

/-- Of the server, what epoll reports of a peer that reads. -/
def Useful (s : Conversation) : Talk → Prop
  | .event _ writable _ writes =>
      (writable = true → s.server.data.events.epollout = true) ∧
        (s.server.data.outBuffer ≠ [] →
          0 < (writeLoop writes s.server.data.outBuffer.length 0).writeSum)
  | .add | .conclude => True
  | .send _ | .receive | .close => False

instance (s : Conversation) : DecidablePred s.Useful
  | .event _ writable _ writes =>
      inferInstanceAs (Decidable ((writable = true → s.server.data.events.epollout = true) ∧
        (s.server.data.outBuffer ≠ [] →
          0 < (writeLoop writes s.server.data.outBuffer.length 0).writeSum)))
  | .add | .conclude => .isTrue trivial
  | .send _ | .receive | .close => .isFalse id

/-- The client waits for the response to this request. -/
structure Waits (s : Conversation) (h : RequestHead) : Prop where
  last : s.sent.getLast? = some h
  open_ : s.received.length < s.sent.length

/-- How many bytes are to be moved, the request counting as one. -/
def due (fs : FileSystem) (h : RequestHead) (s : Conversation) : Nat :=
  if s.coming = [] then s.server.data.outBuffer.length else (responseTo fs h).length + 1

/-- How many steps the server takes before it moves any. -/
def ahead (s : Conversation) : Nat :=
  match s.server.phase with
  | .coming => 1
  | .idle => if s.server.data.events.epollout = true then 2 else 0
  | .busy => if s.server.data.events.epollout = true then 3 else 1
  | .gone => 0

def weight (fs : FileSystem) (h : RequestHead) (s : Conversation) : Nat :=
  4 * s.due fs h + s.ahead

end Conversation

open Conversation

namespace Talking

variable {h : RequestHead}

/-- While the client waits, its request is on the way or it is being answered. -/
theorem waits_cases (talking : Talking fs s) (waits : s.Waits h) :
    s.coming = h.text ∧ s.server.data.outBuffer = [] ∨
      s.coming = [] ∧ ∃ earlier part, s.sent = earlier ++ [h] ∧
        s.received.length = earlier.length ∧ s.server.wire = responsesTo fs earlier ++ part ∧
        responseTo fs h = part ++ s.server.data.outBuffer ∧
        s.taken = (responsesTo fs earlier).length := by
  cases talking.stage with
  | rests all => exact absurd waits.open_ (by omega)
  | asks earlier h' sent before coming wire nothing behind =>
      have last := waits.last
      rw [sent, List.getLast?_concat] at last
      exact .inl ⟨coming.trans (congrArg _ (Option.some.inj last)), nothing⟩
  | answers earlier h' part sent before coming wire whole behind =>
      have last := waits.last
      rw [sent, List.getLast?_concat] at last
      obtain rfl := Option.some.inj last
      exact .inr ⟨coming, earlier, part, sent, before, wire, whole, behind⟩

/-- A step in the right direction, for a client that goes on waiting. -/
structure Onward (fs : FileSystem) (h : RequestHead) (s s' : Conversation) : Prop where
  waits : s'.Waits h
  isOpen : s'.server.phase ≠ .gone
  nearer : s'.weight fs h < s.weight fs h

/-- The server has a step that leaves the bytes alone. -/
theorem Onward.quietly {server : Solo} (waits : s.Waits h) (isOpen : server.phase ≠ .gone)
    (same : server.data.outBuffer = s.server.data.outBuffer)
    (ahead : { s with server := server }.ahead < s.ahead) :
    Onward fs h s { s with server := server } where
  waits := ⟨waits.last, waits.open_⟩
  isOpen := isOpen
  nearer := by
    simp only [weight, due, same]
    omega

theorem add_onward {server : Solo} (waits : s.Waits h)
    (taken : solo.step s.server .add = some server) :
    Onward fs h s { s with server := server } := by
  cases phase : s.server.phase with
  | coming =>
      simp only [solo, phase, Option.some.injEq] at taken
      subst taken
      exact .quietly waits (by simp) rfl (by simp [ahead, phase, DEFAULT_EVENT])
  | idle | busy | gone => simp [solo, phase] at taken

theorem conclude_onward {server : Solo} (talking : Talking fs s) (waits : s.Waits h)
    (taken : solo.step s.server .conclude = some server) :
    Onward fs h s { s with server := server } := by
  cases phase : s.server.phase with
  | busy =>
      simp only [solo, phase, Option.some.injEq] at taken
      subst taken
      obtain ⟨quiet, wants⟩ := talking.serves.busy phase
      have stays : ¬ Poller.Closes s.server.data :=
        fun closes => closes.1 ⟨quiet.noError, quiet.connected⟩
      obtain ⟨connectionState, events, same⟩ := handleConn_same s.server.data
      obtain ⟨-, room, -⟩ := handleConn_quiet quiet wants
      refine .quietly waits (by simp [stays]) (by rw [same]) ?_
      simp only [ahead, phase, if_neg stays, room]
      split <;> decide
  | coming | idle | gone => simp [solo, phase] at taken

/-- What an event brings about for a client that waits. -/
theorem event_onward {server : Solo} {readable writable : Bool} {reads : List ReadResult}
    {writes : List WriteResult} (talking : Talking fs s) (waits : s.Waits h)
    (allowed : s.Allows (.event readable writable reads writes))
    (useful : s.Useful (.event readable writable reads writes))
    (taken : solo.step s.server
      (.ready { epollin := readable, epollout := writable } fs reads writes) = some server) :
    Onward fs h s { s with
      server := server, coming := s.left (.event readable writable reads writes) } := by
  obtain ⟨some_, asked, clean⟩ := allowed
  obtain ⟨registered, moves⟩ := useful
  obtain ⟨idle, ready⟩ := solo_ready taken
  obtain ⟨quiet, -, -⟩ := talking.serves.idle idle
  have hangs : ({ epollin := readable, epollout := writable } : Revents).hangsUp = false := rfl
  have still : Conversation.Waits { s with
      server := server, coming := s.left (.event readable writable reads writes) } h :=
    ⟨waits.last, waits.open_⟩
  have member : h ∈ s.sent := List.mem_of_getLast? waits.last
  have answerable := talking.answerable h member
  simp only [Solo.ready, hangs, Bool.false_eq_true, if_false] at ready
  cases readable with
  | true =>
      obtain ⟨coming, brings⟩ := asked rfl
      rcases talking.waits_cases waits with ⟨text, nothing⟩ | ⟨nothing, -⟩
      · obtain ⟨d, socket, turn, -, -, part, whole, -⟩ := @handleTurn_answers fs _
          ⟨reads, writes, s.server.wire⟩ h writable quiet.calm nothing rfl answerable
          (text ▸ brings) clean
        rw [turn] at ready
        obtain rfl := Option.some.inj ready
        refine ⟨still, by simp, ?_⟩
        have lengths := congrArg List.length whole
        rw [List.length_append] at lengths
        simp only [weight, due, ahead, left, if_neg coming, if_true]
        split <;> omega
      · exact absurd nothing coming
  | false =>
      obtain rfl : writable = true := by simpa using some_
      have room := registered rfl
      obtain ⟨d, socket, turn, -, -, quietly, part, whole, sum, -⟩ := @handleTurn_writes fs _
        ⟨reads, writes, s.server.wire⟩ quiet.calm rfl clean talking.small
      rw [turn] at ready
      obtain rfl := Option.some.inj ready
      have cut : s.server.data.outBuffer = part ++ d.outBuffer := whole
      refine ⟨still, by simp, ?_⟩
      by_cases nothing : s.server.data.outBuffer = []
      · have out := (List.append_eq_nil_iff.mp (cut.symm.trans nothing)).2
        simp [weight, due, ahead, left, idle, room, quietly nothing, nothing, out]
      · have coming : s.coming = [] := by
          rcases talking.waits_cases waits with ⟨-, none_⟩ | ⟨coming, -⟩
          · exact absurd none_ nothing
          · exact coming
        have moved : 0 < part.length := (moves nothing).trans_eq sum.symm
        have lengths := congrArg List.length cut
        rw [List.length_append] at lengths
        simp only [weight, due, ahead, left, coming, idle, room, if_true]
        split <;> omega

theorem onward {action : Talk} (talking : Talking fs s) (waits : s.Waits h)
    (useful : s.Useful action) (taken : (conversation fs).step s action = some s') :
    Onward fs h s s' := by
  cases action with
  | send | receive | close => exact useful.elim
  | add =>
      obtain ⟨-, server, stepped, rfl⟩ := server_step taken rfl
      exact add_onward waits stepped
  | event =>
      obtain ⟨allowed, server, stepped, rfl⟩ := server_step taken rfl
      exact talking.event_onward waits allowed useful stepped
  | conclude =>
      obtain ⟨-, server, stepped, rfl⟩ := server_step taken rfl
      exact talking.conclude_onward waits stepped

end Talking

namespace Talking

variable {h : RequestHead}

end Talking

/-- The server does what its own turns are. -/
theorem solo_run {talk : List Talk} (ran : (conversation fs).run s talk = some s') :
    solo.run s.server (talk.filterMap (Talk.turn fs)) = some s'.server := by
  induction talk generalizing s with
  | nil =>
      obtain rfl := Option.some.inj ran
      rfl
  | cons action rest ih =>
      obtain ⟨mid, taken, ran⟩ := (Machine.run_cons_some _).mp ran
      have later := ih ran
      cases acts : action.turn fs with
      | none =>
          have same : mid.server = s.server := by
            cases action with
            | send =>
                obtain ⟨-, same⟩ := Option.ite_none_right_eq_some.mp taken
                obtain rfl := Option.some.inj same
                rfl
            | receive =>
                obtain ⟨h, -, taken⟩ := Option.bind_eq_some_iff.mp taken
                obtain ⟨read, -, rfl⟩ := Option.map_eq_some_iff.mp taken
                rfl
            | add | event | conclude | close => cases acts
          rwa [List.filterMap_cons_none acts, ← same]
      | some turn =>
          obtain ⟨-, server, stepped, rfl⟩ := server_step taken acts
          rw [List.filterMap_cons_some acts]
          exact (Machine.run_cons_some _).mpr ⟨server, stepped, later⟩

/-- On a loop that serves others as well, the connection whose turns are those of a conversation
    is its server. -/
theorem Conversation.onLoop (steps : List PollerStep) (p : Descriptors)
    (ran : descriptors.run descriptors.init steps = some p) (c : Nat) (talk : List Talk)
    (s : Conversation) (talked : (conversation fs).run (conversation fs).init talk = some s)
    (own : talk.filterMap (Talk.turn fs) = Descriptors.view c descriptors.init steps) :
    p.soloOf c = s.server := by
  have alone := solo_run talked
  have among := Descriptors.view_run Descriptors.owned_init Descriptors.blank_init ran c
  rw [Descriptors.blank_init c (Nat.zero_le c), ← own] at among
  exact Option.some.inj (among.symm.trans alone)

end Corio.Epoll
