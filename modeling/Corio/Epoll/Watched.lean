import Corio.Epoll.Interest

/-! # Output left is watched

A connection in the interest list is watched for what its channel asked for last. This is
room to write whenever there is output left, but for a peer that has stopped sending:
`handleConn` leaves the mask of its connection alone, which asks for something to read.
-/

namespace Corio.Epoll

/-- A connection without its timer. -/
def Connection.bare (x : Connection) : Connection := { x with timer := none }

theorem Connection.bare_eq {x y : Connection} :
    x.bare = y.bare ↔
      x.fd = y.fd ∧ x.data = y.data ∧ x.oneshot = y.oneshot ∧ x.lastEvents = y.lastEvents := by
  simp only [bare, Connection.mk.injEq, and_true]

namespace Poller

variable {s s' : Poller} {c j : Nat}

theorem seperateTimer_bare (s : Poller) (c j : Nat) :
    ((s.seperateTimer c).heap j).bare = (s.heap j).bare := by
  unfold seperateTimer
  split
  · rfl
  · by_cases same : j = c
    · subst same
      simp only [set, Function.update_self, Connection.bare]
    · simp only [set, Function.update_of_ne same]
      rfl

theorem addTimer_bare (s : Poller) (c timeout now j : Nat) :
    ((s.addTimer c timeout now).heap j).bare = (s.heap j).bare := by
  by_cases same : j = c
  · subst same
    simp only [addTimer, set, Function.update_self, Connection.bare]
  · simp only [addTimer, set, Function.update_of_ne same]

theorem seperateTimer_made (s : Poller) (c : Nat) : (s.seperateTimer c).made = s.made := by
  unfold seperateTimer
  split <;> rfl

/-- The connection behind `handleConn`. -/
def concluded (x : Connection) : Connection :=
  { x with
    data := handleConn x.data
    lastEvents :=
      if x.data.error = false ∧ x.data.connectionState = .connected then
        ⟨(handleConn x.data).events, x.oneshot⟩
      else x.lastEvents }

theorem conclude_bare (s : Poller) (c now j : Nat) :
    ((s.conclude c now).heap j).bare =
      (Function.update s.heap c (concluded (s.heap c)) j).bare := by
  have before := s.seperateTimer_bare c
  simp only [conclude]
  generalize s.seperateTimer c = t at before
  by_cases same : j = c
  · subst same
    rw [Function.update_self]
    have kept : (concluded (t.heap j)).bare = (concluded (s.heap j)).bare := by
      obtain ⟨fd, data, oneshot, last⟩ := Connection.bare_eq.mp (before j)
      simp only [concluded, Connection.bare, fd, data, oneshot, last]
    rw [← kept]
    by_cases connected : (t.heap j).data.error = false ∧
        (t.heap j).data.connectionState = .connected
    · rw [if_pos connected, epollMod, if_pos (connTimeout_pos _)]
      obtain ⟨fd, data, oneshot, -⟩ := Connection.bare_eq.mp
        (addTimer_bare (t.setData j (handleConn (t.heap j).data) (t.heap j).oneshot) j
          (connTimeout (t.heap j).data) now j)
      simp only [setData, set, Function.update_self] at fd data oneshot
      simp only [updateLastEvents, set, setData, Function.update_self, Connection.bare_eq]
      refine ⟨fd, data, oneshot, ?_⟩
      rw [data, oneshot]
      simp only [concluded, if_pos connected]
    · rw [if_neg connected]
      split
      · simp only [setData, set, Function.update_self, concluded, if_neg connected]
      · simp only [epollDel, setData, set, Function.update_self, concluded, if_neg connected]
  · rw [Function.update_of_ne same, ← before j]
    split
    · rw [epollMod, if_pos (connTimeout_pos _)]
      simp only [updateLastEvents, addTimer, set, setData, Function.update_of_ne same]
    · split
      · simp only [setData, set, Function.update_of_ne same]
      · simp only [epollDel, setData, set, Function.update_of_ne same]

/-- `handleConn` takes the connection out. -/
def Closes (d : HttpData) : Prop :=
  ¬ (d.error = false ∧ d.connectionState = .connected) ∧ ¬ Draining d

theorem draining_of_stays {d : HttpData} (stays : ¬ Closes d)
    (notConnected : ¬ (d.error = false ∧ d.connectionState = .connected)) : Draining d := by
  by_contra notDraining
  exact stays ⟨notConnected, notDraining⟩

theorem conclude_frame (s : Poller) (c now : Nat) :
    (s.conclude c now).made = s.made ∧
      (Closes (s.heap c).data → ∀ fd j, (s.conclude c now).fd2http fd = some j ↔
        s.fd2http fd = some j ∧ fd ≠ s.fdOf c) ∧
      (¬ Closes (s.heap c).data → (s.conclude c now).fd2http = s.fd2http) := by
  obtain ⟨http, fds, -, -, data⟩ := s.seperateTimer_frame c
  have made := s.seperateTimer_made c
  simp only [conclude, Closes]
  rw [← http, ← fds, ← data, ← made]
  generalize s.seperateTimer c = t
  have set : (t.setData c (handleConn (t.heap c).data) (t.heap c).oneshot).fdOf = t.fdOf :=
    fdOf_set rfl
  by_cases connected : (t.heap c).data.error = false ∧ (t.heap c).data.connectionState = .connected
  · rw [if_pos connected, epollMod, if_pos (connTimeout_pos _)]
    exact ⟨rfl, fun closes => absurd connected closes.1, fun _ => rfl⟩
  · rw [if_neg connected]
    by_cases draining : Draining (t.heap c).data
    · rw [if_pos draining]
      exact ⟨rfl, fun closes => absurd draining closes.2, fun _ => rfl⟩
    · rw [if_neg draining]
      refine ⟨rfl, fun _ fd j => ?_, fun stays => absurd ⟨connected, draining⟩ stays⟩
      rw [epollDel_fd2http, set]
      exact Iff.rfl

/-- The connection behind `newEvent`. -/
def added (x : Connection) : Connection :=
  { x with
    data := { x.data with events := DEFAULT_EVENT.events }
    oneshot := true
    lastEvents := DEFAULT_EVENT }

theorem newEvent_bare (s : Poller) (c now j : Nat) :
    ((s.newEvent c now).heap j).bare = (Function.update s.heap c (added (s.heap c)) j).bare := by
  rw [newEvent, epollAdd_eq (by decide)]
  by_cases same : j = c
  · subst same
    simp only [updateLastEvents, addTimer, register, setData, set, Function.update_self, added]
    rfl
  · simp only [updateLastEvents, addTimer, register, setData, set, Function.update_of_ne same]

theorem newEvent_made (s : Poller) (c now : Nat) : (s.newEvent c now).made = s.made := by
  rw [newEvent, epollAdd_eq (by decide)]
  rfl

theorem handleConn_closes {d : HttpData} (closes : Closes d) : handleConn d = handleClose d := by
  obtain ⟨notConnected, notDraining⟩ := closes
  unfold handleConn
  rw [if_neg (by simpa using notConnected), if_neg (by simpa [Draining] using notDraining)]

theorem handleConn_connected {d : HttpData}
    (connected : d.error = false ∧ d.connectionState = .connected) :
    (handleConn d).connectionState = .connected ∧
      ((handleConn d).events.epollin = true → (handleConn d).events.epollout = false) ∧
      (Pending (handleConn d) → Pending d) ∧
      (d.events.epollout = true → (handleConn d).events.epollout = true) := by
  unfold handleConn
  rw [if_pos (by simpa using connected)]
  split_ifs with some_ both
  · exact ⟨connected.2, by simp, id, by simp⟩
  · refine ⟨connected.2, fun readable => ?_, id, id⟩
    rw [← Bool.not_eq_true]
    exact fun writable => both ⟨readable, writable⟩
  · have none_ : d.events = {} := not_not.mp some_
    exact ⟨connected.2, by simp [none_], id, id⟩

theorem not_connected {d : HttpData} (draining : Draining d) :
    ¬ (d.error = false ∧ d.connectionState = .connected) := by
  rintro ⟨-, connected⟩
  rw [draining.2.1] at connected
  cases connected

theorem handleConn_draining {d : HttpData} (draining : Draining d) :
    (handleConn d).connectionState = .disconnecting ∧ (Pending (handleConn d) ↔ Pending d) := by
  unfold handleConn
  rw [if_neg (by simpa using not_connected draining), if_pos (by simpa [Draining] using draining)]
  exact ⟨draining.2.1, Iff.rfl⟩

/-- What `handleEvents` leaves of the connections. -/
theorem handleEvents_bare {revents : Revents} {ret : List (Nat × Revents)} {fs : FileSystem}
    {socket : Socket} (handled : s.handleEvents c revents ret fs socket = some s') :
    s'.made = s.made ∧ ∃ d : HttpData,
      (∀ j, (s'.heap j).bare =
        (Function.update s.heap c { s.heap c with data := d, oneshot := false } j).bare) ∧
      (s'.pc = .handling ret ∧ d = { (s.heap c).data with events := {} } ∨
        s'.pc = .concluding c ret ∧ (revents.epollhup && !revents.epollin) = false ∧
          revents.epollerr = false ∧ ∃ resets,
            handleReady fs { (s.heap c).data with events := {} } revents socket =
              .ok (d, resets)) := by
  unfold handleEvents at handled
  simp only at handled
  split at handled
  · obtain rfl := Option.some.inj handled
    exact ⟨rfl, _, fun j => rfl, .inl ⟨rfl, rfl⟩⟩
  · rename_i going
    rw [Bool.not_eq_true, Bool.or_eq_false_iff] at going
    split at handled
    · cases handled
    · rename_i d resets done
      obtain rfl := Option.some.inj handled
      have before := s.seperateTimer_bare c
      cases resets with
      | false => exact ⟨rfl, d, fun j => rfl, .inr ⟨rfl, going.1, going.2, false, done⟩⟩
      | true =>
          refine ⟨s.seperateTimer_made c, d, fun j => ?_, .inr ⟨rfl, going.1, going.2, true, done⟩⟩
          obtain ⟨fd, -, -, last⟩ := Connection.bare_eq.mp (before c)
          by_cases same : j = c
          · subst same
            simp only [goto, setData, set, if_true, Function.update_self, Connection.bare_eq, fd,
              last, and_self]
          · simp only [goto, setData, set, if_true, Function.update_of_ne same, before j]

/-- The events that are still to be handled. -/
def queued (s : Poller) : List (Nat × Revents) :=
  match s.pc with
  | .handling ret | .concluding _ ret => ret
  | _ => []

/-- Registered connections have descriptors of their own. -/
theorem Intact.fdOf_ne (intact : s.Intact) (here : s.Registered j)
    (there : s.Registered c) (other : j ≠ c) : s.fdOf j ≠ s.fdOf c := by
  intro same
  have found := intact.registered.mp here
  rw [same, intact.registered.mp there] at found
  exact other (Option.some.inj found).symm

/-- Behind `epoll_del` of one connection the others are registered. -/
theorem Intact.registered_close (intact : s.Intact)
    (http : ∀ fd j, s'.fd2http fd = some j ↔ s.fd2http fd = some j ∧ fd ≠ s.fdOf c)
    (there : s.Registered c) (other : j ≠ c) : s'.Registered j ↔ s.Registered j := by
  constructor
  · rintro ⟨fd, here⟩
    exact ⟨fd, ((http fd j).mp here).1⟩
  · intro here
    have apart := intact.fdOf_ne here there other
    exact ⟨s.fdOf j, (http _ j).mpr ⟨intact.registered.mp here, apart⟩⟩

/-- And it is not. -/
theorem Intact.not_registered_close (intact : s.Intact)
    (http : ∀ fd j, s'.fd2http fd = some j ↔ s.fd2http fd = some j ∧ fd ≠ s.fdOf c) :
    ¬ s'.Registered c := by
  rintro ⟨fd, here⟩
  obtain ⟨found, other⟩ := (http fd c).mp here
  exact other (intact.place fd c found).1.symm

theorem Intact.not_coming (intact : s.Intact) (here : s.Registered c) :
    c ∉ s.coming := by
  intro member
  have found := intact.registered.mp here
  rw [(intact.absent c member).1] at found
  cases found

theorem turn_of_queued {e : Nat × Revents} (member : e ∈ s.queued) : e.1 ∈ s.turns := by
  unfold queued at member
  unfold turns
  cases pc : s.pc with
  | handling ret =>
      rw [pc] at member
      exact List.mem_map_of_mem member
  | concluding c ret =>
      rw [pc] at member
      exact List.mem_cons_of_mem _ (List.mem_map_of_mem member)
  | polling | calling | expiring =>
      rw [pc] at member
      cases member

theorem Intact.registered_of_turn (intact : s.Intact) (turn : c ∈ s.turns) :
    s.Registered c := ⟨_, intact.turn c turn⟩

theorem registered_iff (http : s'.fd2http = s.fd2http) (j : Nat) :
    s'.Registered j ↔ s.Registered j := by
  rw [Registered, Registered, http]

end Poller

open Poller

namespace Watch

/-- A connection and its entry in the interest list. -/
structure Linked (x : Connection) (entry : Option Mask) : Prop where
  masked : entry = some x.lastEvents ∨ entry = some x.lastEvents.disarm
  oneWay : x.lastEvents.events.epollin = true → x.lastEvents.events.epollout = false
  oneshot : x.lastEvents.oneshot = true → x.lastEvents.events.epollout = false
  isOpen : x.data.connectionState ≠ .disconnected
  halfClosed : x.data.connectionState = .disconnecting → x.lastEvents.events.epollout = false

/-- The timer does not matter. -/
theorem Linked.of_bare {x y : Connection} {entry : Option Mask} (linked : Linked x entry)
    (same : y.bare = x.bare) : Linked y entry := by
  obtain ⟨-, data, -, last⟩ := Connection.bare_eq.mp same
  obtain ⟨masked, oneWay, oneshot, isOpen, halfClosed⟩ := linked
  constructor
  · rwa [last]
  · rwa [last]
  · rwa [last]
  · rwa [data]
  · rwa [data, last]

/-- What a connection is watched for behind `epoll_mod`. -/
theorem Linked.modified {x : Connection} {entry : Option Mask} (linked : Linked x entry)
    (oneshot : x.oneshot = false)
    (connected : x.data.error = false ∧ x.data.connectionState = .connected) :
    Linked (concluded x)
      (if x.lastEvents = ⟨(handleConn x.data).events, x.oneshot⟩ then entry
       else some ⟨(handleConn x.data).events, x.oneshot⟩) := by
  obtain ⟨isOpen, oneWay, -, -⟩ := handleConn_connected connected
  have last : (concluded x).lastEvents = ⟨(handleConn x.data).events, x.oneshot⟩ := by
    rw [concluded, if_pos connected]
  have data : (concluded x).data = handleConn x.data := rfl
  constructor
  · rw [last]
    split
    · rename_i same
      rw [← same]
      exact linked.masked
    · exact .inl rfl
  · rw [last]
    exact oneWay
  · rw [last, oneshot]
    exact nofun
  · rw [data, isOpen]
    decide
  · rw [data, isOpen]
    exact nofun

/-- `handleConn` leaves the mask of a draining connection alone. -/
theorem Linked.drained {x : Connection} {entry : Option Mask} (linked : Linked x entry)
    (draining : Draining x.data) : Linked (concluded x) entry := by
  obtain ⟨half, -⟩ := handleConn_draining draining
  have last : (concluded x).lastEvents = x.lastEvents := by
    rw [concluded, if_neg (not_connected draining)]
  have data : (concluded x).data = handleConn x.data := rfl
  constructor
  · rw [last]
    exact linked.masked
  · rw [last]
    exact linked.oneWay
  · rw [last]
    exact linked.oneshot
  · rw [data, half]
    decide
  · rw [last]
    exact fun _ => linked.halfClosed draining.2.1

/-- How the interest list follows the loop. Under the condition `settled`, output left is
    watched. -/
structure Sight (settled : Prop) (w : Watch) : Prop where
  intact : w.poller.Intact
  known : ∀ c < w.poller.made, (w.poller.heap c).data.connectionState ≠ .disconnected →
    w.poller.Registered c ∨ c ∈ w.poller.coming
  blank : ∀ c ∈ w.poller.coming, (w.poller.heap c).data = {}
  linked : ∀ c, w.poller.Registered c →
    Linked (w.poller.heap c) (w.interest (w.poller.fdOf c))
  queued : ∀ e ∈ w.poller.queued, Reports (w.poller.heap e.1).lastEvents e.2
  asks : ∀ c, w.poller.Concluding c →
    Asks (w.poller.heap c).data ∧ (w.poller.heap c).oneshot = false
  seen : settled → ∀ c, w.poller.Registered c → ¬ w.poller.Concluding c →
    Pending (w.poller.heap c).data → (w.poller.heap c).lastEvents.events.epollout = true

variable {w w' : Watch} {c : Nat} {settled settled' : Prop}

/-- A step that changes one connection. -/
structure Changes (w w' : Watch) (c : Nat) : Prop where
  intact : w'.poller.Intact
  others : ∀ j ≠ c, (w'.poller.heap j).bare = (w.poller.heap j).bare
  made : ∀ j < w'.poller.made, j ≠ c → j < w.poller.made
  registered : ∀ j ≠ c, w'.poller.Registered j ↔ w.poller.Registered j
  coming : ∀ j ≠ c, j ∈ w'.poller.coming ↔ j ∈ w.poller.coming
  interest : ∀ j ≠ c, w.poller.Registered j →
    w'.interest (w.poller.fdOf j) = w.interest (w.poller.fdOf j)
  queued : ∀ e ∈ w'.poller.queued, e ∈ w.poller.queued ∧ e.1 ≠ c
  concluding : ∀ j ≠ c, w'.poller.Concluding j ↔ w.poller.Concluding j

/-- What is left to show is about that connection. -/
theorem Sight.change (sight : Sight settled w) (changes : Changes w w' c)
    (still : settled' → settled)
    (known : (w'.poller.heap c).data.connectionState ≠ .disconnected →
      w'.poller.Registered c ∨ c ∈ w'.poller.coming)
    (blank : c ∈ w'.poller.coming → (w'.poller.heap c).data = {})
    (linked : w'.poller.Registered c →
      Linked (w'.poller.heap c) (w'.interest (w'.poller.fdOf c)))
    (asks : w'.poller.Concluding c →
      Asks (w'.poller.heap c).data ∧ (w'.poller.heap c).oneshot = false)
    (seen : settled' → w'.poller.Registered c → ¬ w'.poller.Concluding c →
      Pending (w'.poller.heap c).data → (w'.poller.heap c).lastEvents.events.epollout = true) :
    Sight settled' w' where
  intact := changes.intact
  known := by
    intro j bound isOpen
    by_cases same : j = c
    · subst same
      exact known isOpen
    · obtain ⟨-, data, -, -⟩ := Connection.bare_eq.mp (changes.others j same)
      rw [data] at isOpen
      rw [changes.registered j same, changes.coming j same]
      exact sight.known j (changes.made j bound same) isOpen
  blank := by
    intro j member
    by_cases same : j = c
    · subst same
      exact blank member
    · obtain ⟨-, data, -, -⟩ := Connection.bare_eq.mp (changes.others j same)
      rw [data]
      exact sight.blank j ((changes.coming j same).mp member)
  linked := by
    intro j registered
    by_cases same : j = c
    · subst same
      exact linked registered
    · have before := (changes.registered j same).mp registered
      have fds : w'.poller.fdOf j = w.poller.fdOf j :=
        (Connection.bare_eq.mp (changes.others j same)).1
      rw [fds, changes.interest j same before]
      exact (sight.linked j before).of_bare (changes.others j same)
  queued := by
    intro e member
    obtain ⟨before, other⟩ := changes.queued e member
    obtain ⟨-, -, -, last⟩ := Connection.bare_eq.mp (changes.others e.1 other)
    rw [last]
    exact sight.queued e before
  asks := by
    intro j concluding
    by_cases same : j = c
    · subst same
      exact asks concluding
    · obtain ⟨-, data, oneshot, -⟩ := Connection.bare_eq.mp (changes.others j same)
      rw [data, oneshot]
      exact sight.asks j ((changes.concluding j same).mp concluding)
  seen := by
    intro holds j registered idle pending
    by_cases same : j = c
    · subst same
      exact seen holds registered idle pending
    · obtain ⟨-, data, -, last⟩ := Connection.bare_eq.mp (changes.others j same)
      rw [data] at pending
      rw [last]
      refine sight.seen (still holds) j ((changes.registered j same).mp registered) ?_ pending
      exact fun concluding => idle ((changes.concluding j same).mpr concluding)

section Steps

/-- What `handleEvents` leaves to be done. -/
theorem handle_behind {revents : Revents} {ret : List (Nat × Revents)} {fs : FileSystem}
    {socket : Socket} {s s' : Poller}
    (handled : s.handleEvents c revents ret fs socket = some s') :
    s'.queued = ret ∧ s'.functors = [] ∧ ∀ j, s'.Concluding j → j = c := by
  obtain ⟨-, d, -, outcome⟩ := handleEvents_bare handled
  rcases outcome with ⟨pc, -⟩ | ⟨pc, -⟩
  · refine ⟨by simp [Poller.queued, pc], by simp [functors, pc], fun j here => ?_⟩
    exact absurd here (not_concluding (by simp [pc]) j)
  · refine ⟨by simp [Poller.queued, pc], by simp [functors, pc], fun j here => ?_⟩
    exact only_concluding pc here

/-- Up to `handleConn`. -/
theorem handle_changes (sight : Sight settled w) {revents : Revents} {ret : List (Nat × Revents)}
    (pc : w.poller.pc = .handling ((c, revents) :: ret)) {fs : FileSystem}
    {reads : List ReadResult} {writes : List WriteResult} {s' : Poller}
    (handled : w.poller.handleEvents c revents ret fs ⟨reads, writes, []⟩ = some s') :
    Changes w ⟨s', w.interest⟩ c := by
  have intact := sight.intact
  have before : ∀ j, ¬ w.poller.Concluding j := not_concluding (by simp [pc])
  obtain ⟨-, pending, http, -⟩ := handleEvents_cases intact handled
  obtain ⟨made, d, bare, -⟩ := handleEvents_bare handled
  obtain ⟨queued, functors_, only⟩ := handle_behind handled
  have once := intact.once
  simp only [turns, pc, List.map_cons, List.nodup_cons] at once
  exact
    { intact := (handle_stepped intact pc handled).intact
      others := fun j other => by rw [bare j, Function.update_of_ne other]
      made := fun j bound _ => made ▸ bound
      registered := fun j _ => registered_iff http j
      coming := fun j _ => by
        rw [Poller.coming, Poller.coming, functors_, pending]
        simp [functors, pc]
      interest := fun _ _ _ => rfl
      queued := fun e member => by
        rw [queued] at member
        refine ⟨by simp [Poller.queued, pc, member], ?_⟩
        rintro rfl
        exact once.1 (List.mem_map_of_mem member)
      concluding := fun j other =>
        iff_of_false (fun after => other (only j after)) (before j) }

theorem handle_sight (sight : Sight settled w) {revents : Revents} {ret : List (Nat × Revents)}
    (pc : w.poller.pc = .handling ((c, revents) :: ret)) {fs : FileSystem}
    {reads : List ReadResult} {writes : List WriteResult} {s' : Poller}
    (handled : w.poller.handleEvents c revents ret fs ⟨reads, writes, []⟩ = some s') :
    Sight settled ⟨s', w.interest⟩ := by
  have changes := handle_changes sight pc handled
  have registered : w.poller.Registered c :=
    sight.intact.registered_of_turn (by simp [turns, pc])
  have reports : Reports (w.poller.heap c).lastEvents revents :=
    sight.queued (c, revents) (by simp [Poller.queued, pc])
  have linked := sight.linked c registered
  have before : ¬ w.poller.Concluding c := not_concluding (by simp [pc]) c
  obtain ⟨-, -, http, -⟩ := handleEvents_cases sight.intact handled
  obtain ⟨-, d, bare, outcome⟩ := handleEvents_bare handled
  have own := bare c
  rw [Function.update_self] at own
  obtain ⟨fd, data, oneshot, last⟩ : (s'.heap c).fd = w.poller.fdOf c ∧ (s'.heap c).data = d ∧
      (s'.heap c).oneshot = false ∧ (s'.heap c).lastEvents = (w.poller.heap c).lastEvents :=
    Connection.bare_eq.mp own
  have registered' : s'.Registered c := (registered_iff http c).mpr registered
  have shape : d.connectionState ≠ .disconnected ∧
      (d.connectionState = .disconnecting →
        (w.poller.heap c).lastEvents.events.epollout = false) ∧
      (s'.Concluding c → Asks d) := by
    rcases outcome with ⟨pc', rfl⟩ | ⟨pc', heard, fine, resets, done⟩
    · exact ⟨linked.isOpen, linked.halfClosed,
        fun here => absurd here (not_concluding (by simp [pc']) c)⟩
    · have begun : ({ (w.poller.heap c).data with events := {} } : HttpData).connectionState ≠
          .disconnected := linked.isOpen
      obtain ⟨isOpen, asks, same⟩ := handleReady_asks reports heard fine begun done
      refine ⟨isOpen, fun half => ?_, fun _ => asks⟩
      cases readable : revents.epollin with
      | true => exact linked.oneWay (reports.2.1 readable)
      | false => exact linked.halfClosed ((same readable).symm.trans half)
  refine sight.change changes id (fun _ => .inl registered')
    (fun member => absurd member (changes.intact.not_coming registered')) (fun _ => ?_)
    (fun concluding => ⟨data ▸ shape.2.2 concluding, oneshot⟩) ?_
  · have fds : s'.fdOf c = w.poller.fdOf c := fd
    rw [fds]
    constructor
    · rw [last]
      exact linked.masked
    · rw [last]
      exact linked.oneWay
    · rw [last]
      exact linked.oneshot
    · rw [data]
      exact shape.1
    · rw [data, last]
      exact shape.2.1
  · intro holds _ idle left
    simp only [data, last] at left ⊢
    rcases outcome with ⟨pc', rfl⟩ | ⟨pc', -⟩
    · exact sight.seen holds c registered before left
    · exact absurd ⟨ret, pc'⟩ idle

theorem conclude_coming (intact : w.poller.Intact) {ret : List (Nat × Revents)}
    (pc : w.poller.pc = .concluding c ret) (now : Nat) :
    ((w.poller.conclude c now).goto (.handling ret)).coming = w.poller.coming := by
  have sound : Sound w.poller (c :: ret.map Prod.fst) w.poller.coming := by
    simpa only [Poller.Intact, Poller.turns, pc] using intact
  obtain ⟨-, pending, -⟩ := conclude_cases sound now
  rw [Poller.coming, Poller.coming]
  simp only [functors, goto, pc, pending]

/-- `handleConn` of this connection. -/
theorem conclude_changes (sight : Sight settled w) {ret : List (Nat × Revents)}
    (pc : w.poller.pc = .concluding c ret) (now : Nat) :
    Changes w ⟨(w.poller.conclude c now).goto (.handling ret),
      w.interestAfter (.conclude now)⟩ c := by
  have intact := sight.intact
  have turn : c ∈ w.poller.turns := by simp [turns, pc]
  have registered : w.poller.Registered c := intact.registered_of_turn turn
  obtain ⟨made, closes, stays⟩ := w.poller.conclude_frame c now
  have once := intact.once
  simp only [turns, pc, List.nodup_cons] at once
  exact
    { intact := (conclude_stepped intact pc now).intact
      others := fun j other => by
        change ((w.poller.conclude c now).heap j).bare = _
        rw [conclude_bare, Function.update_of_ne other]
      made := fun j bound _ => made ▸ bound
      registered := fun j other => by
        by_cases closing : Closes (w.poller.heap c).data
        · exact intact.registered_close (closes closing) registered other
        · exact registered_iff (stays closing) j
      coming := fun j _ => by rw [conclude_coming intact pc now]
      interest := fun j other here => by
        have apart := intact.fdOf_ne here registered other
        simp only [interestAfter, epollCtl, pc]
        split_ifs
        · rfl
        · exact Function.update_of_ne apart _ _
        · rfl
        · exact Function.update_of_ne apart _ _
      queued := fun e member => by
        have inside : e ∈ ret := member
        refine ⟨by simpa [Poller.queued, pc] using inside, ?_⟩
        rintro rfl
        exact once.1 (List.mem_map_of_mem inside)
      concluding := fun j other =>
        iff_of_false (not_concluding (by simp [goto]) j) fun here =>
          other (only_concluding pc here) }

/-- The entry of a connection behind `handleConn`. -/
theorem interestAfter_conclude {ret : List (Nat × Revents)}
    (pc : w.poller.pc = .concluding c ret) (now : Nat) :
    w.interestAfter (.conclude now) (w.poller.fdOf c) =
      if (w.poller.heap c).data.error = false ∧
          (w.poller.heap c).data.connectionState = .connected then
        if (w.poller.heap c).lastEvents =
            ⟨(handleConn (w.poller.heap c).data).events, (w.poller.heap c).oneshot⟩ then
          w.interest (w.poller.fdOf c)
        else some ⟨(handleConn (w.poller.heap c).data).events, (w.poller.heap c).oneshot⟩
      else if Draining (w.poller.heap c).data then w.interest (w.poller.fdOf c)
      else none := by
  simp only [interestAfter, epollCtl, pc]
  split_ifs
  · rfl
  · exact Function.update_self _ _ _
  · rfl
  · exact Function.update_self _ _ _

theorem conclude_sight (sight : Sight settled w) {ret : List (Nat × Revents)}
    (pc : w.poller.pc = .concluding c ret) (now : Nat) :
    Sight (settled ∧ w.Settled (.conclude now))
      ⟨(w.poller.conclude c now).goto (.handling ret), w.interestAfter (.conclude now)⟩ := by
  have changes := conclude_changes sight pc now
  have intact := sight.intact
  have turn : c ∈ w.poller.turns := by simp [turns, pc]
  have registered : w.poller.Registered c := intact.registered_of_turn turn
  have linked := sight.linked c registered
  obtain ⟨asks, oneshot⟩ := sight.asks c ⟨ret, pc⟩
  obtain ⟨-, closes, stays⟩ := w.poller.conclude_frame c now
  have own := w.poller.conclude_bare c now c
  rw [Function.update_self] at own
  obtain ⟨fd, data, -, last⟩ := Connection.bare_eq.mp own
  have settles : w.Settled (.conclude now) ↔
      ¬ (Draining (w.poller.heap c).data ∧ Pending (w.poller.heap c).data) := by
    simp only [Settled, pc]
  have idle : ¬ ((w.poller.conclude c now).goto (.handling ret)).Concluding c :=
    not_concluding (by simp [goto]) c
  have notComing : c ∉ ((w.poller.conclude c now).goto (.handling ret)).coming := by
    rw [conclude_coming intact pc now]
    exact intact.not_coming registered
  by_cases closing : Closes (w.poller.heap c).data
  · have gone : ¬ ((w.poller.conclude c now).goto (.handling ret)).Registered c :=
      intact.not_registered_close (closes closing)
    have closed : ((w.poller.conclude c now).heap c).data.connectionState = .disconnected := by
      rw [data]
      exact congrArg HttpData.connectionState (handleConn_closes closing)
    exact sight.change changes And.left (fun isOpen => absurd closed isOpen)
      (fun member => absurd member notComing) (fun here => absurd here gone)
      (fun here => absurd here idle) fun _ here => absurd here gone
  · have still : ((w.poller.conclude c now).goto (.handling ret)).Registered c :=
      (registered_iff (stays closing) c).mpr registered
    refine sight.change changes And.left (fun _ => .inl still)
      (fun member => absurd member notComing) (fun _ => ?_) (fun here => absurd here idle) ?_
    · have fds : ((w.poller.conclude c now).goto (.handling ret)).fdOf c = w.poller.fdOf c := fd
      rw [fds]
      refine Linked.of_bare ?_ own
      change Linked _ (w.interestAfter (.conclude now) (w.poller.fdOf c))
      rw [interestAfter_conclude pc]
      by_cases connected : (w.poller.heap c).data.error = false ∧
          (w.poller.heap c).data.connectionState = .connected
      · rw [if_pos connected]
        exact linked.modified oneshot connected
      · have draining := draining_of_stays closing connected
        rw [if_neg connected, if_pos draining]
        exact linked.drained draining
    · intro holds _ _ left
      change Pending ((w.poller.conclude c now).heap c).data at left
      change ((w.poller.conclude c now).heap c).lastEvents.events.epollout = true
      rw [data] at left
      by_cases connected : (w.poller.heap c).data.error = false ∧
          (w.poller.heap c).data.connectionState = .connected
      · obtain ⟨-, -, before, writes⟩ := handleConn_connected connected
        rw [last, concluded, if_pos connected]
        exact writes (asks (before left))
      · have draining := draining_of_stays closing connected
        exact absurd ⟨draining, (handleConn_draining draining).2.mp left⟩ (settles.mp holds.2)

/-- The connections that are still to be added. -/
theorem Sight.calling (sight : Sight settled w) {functors : List Nat}
    (pc : w.poller.pc = .calling (c :: functors)) :
    Sound w.poller [] (c :: (functors ++ w.poller.pendingFunctors)) := by
  simpa only [Poller.Intact, turns, Poller.coming, Poller.functors, pc, List.cons_append]
    using sight.intact

theorem interestAfter_call {functors : List Nat} (pc : w.poller.pc = .calling (c :: functors))
    (now : Nat) : w.interestAfter (.call now) =
      Function.update w.interest (w.poller.fdOf c) (some DEFAULT_EVENT) := by
  simp only [interestAfter, epollCtl, pc]

/-- A connection is added. -/
theorem call_changes (sight : Sight settled w) {functors : List Nat}
    (pc : w.poller.pc = .calling (c :: functors)) (now : Nat) :
    Changes w ⟨(w.poller.newEvent c now).goto (.calling functors),
      w.interestAfter (.call now)⟩ c := by
  have intact := sight.intact
  have sound := sight.calling pc
  have absent := (sound.absent c List.mem_cons_self).1
  obtain ⟨-, pending, http, -⟩ := newEvent_cases sound now
  exact
    { intact := (call_stepped intact pc now).intact
      others := fun j other => by
        change ((w.poller.newEvent c now).heap j).bare = _
        rw [newEvent_bare, Function.update_of_ne other]
      made := fun j bound _ => w.poller.newEvent_made c now ▸ bound
      registered := fun j other => by
        refine exists_congr fun fd => (http fd j).trans ?_
        simp [other]
      coming := fun j other => by
        rw [Poller.coming, Poller.coming]
        simp [Poller.functors, goto, pc, pending, other]
      interest := fun j other here => by
        rw [interestAfter_call pc now]
        refine Function.update_of_ne ?_ _ _
        intro same
        have found := intact.registered.mp here
        rw [same, absent] at found
        cases found
      queued := fun _ member => absurd member List.not_mem_nil
      concluding := fun j _ => iff_of_false (not_concluding (by simp [goto]) j)
        (not_concluding (by simp [pc]) j) }

theorem call_sight (sight : Sight settled w) {functors : List Nat}
    (pc : w.poller.pc = .calling (c :: functors)) (now : Nat) :
    Sight settled ⟨(w.poller.newEvent c now).goto (.calling functors),
      w.interestAfter (.call now)⟩ := by
  have changes := call_changes sight pc now
  have blank : (w.poller.heap c).data = {} :=
    sight.blank c (by simp [Poller.coming, Poller.functors, pc])
  obtain ⟨-, -, http, -⟩ := newEvent_cases (sight.calling pc) now
  have own := w.poller.newEvent_bare c now c
  rw [Function.update_self] at own
  obtain ⟨fd, data, -, -⟩ := Connection.bare_eq.mp own
  have registered : ((w.poller.newEvent c now).goto (.calling functors)).Registered c :=
    ⟨w.poller.fdOf c, (http _ c).mpr (.inl ⟨rfl, rfl⟩)⟩
  have idle : ¬ ((w.poller.newEvent c now).goto (.calling functors)).Concluding c :=
    not_concluding (by simp [goto]) c
  have empty : (added (w.poller.heap c)).data = { events := DEFAULT_EVENT.events } := by
    rw [added, blank]
  refine sight.change changes id (fun _ => .inl registered)
    (fun member => absurd member (changes.intact.not_coming registered)) (fun _ => ?_)
    (fun here => absurd here idle) fun _ _ _ left => ?_
  · have fds : ((w.poller.newEvent c now).goto (.calling functors)).fdOf c = w.poller.fdOf c := fd
    rw [fds]
    refine Linked.of_bare ?_ own
    change Linked _ (w.interestAfter (.call now) (w.poller.fdOf c))
    rw [interestAfter_call pc now, Function.update_self]
    constructor
    · exact .inl rfl
    · exact fun _ => rfl
    · exact fun _ => rfl
    · rw [empty]
      decide
    · rw [empty]
      intro half
      cases half
  · change Pending ((w.poller.newEvent c now).heap c).data at left
    rw [data, empty] at left
    exact absurd rfl left.2

/-- A connection is accepted. -/
theorem accept_sight (sight : Sight settled w) {fd : Nat} {s' : Poller}
    (accepted : w.poller.accept fd = some s') : Sight settled ⟨s', w.interest⟩ := by
  have intact := sight.intact
  obtain ⟨sound, pending, pc, http, -⟩ := accept_cases intact alive_of_coming accepted
  have coming : s'.coming = w.poller.coming ++ [w.poller.made] := by
    rw [Poller.coming, functors_of_pc pc, pending, Poller.coming, List.append_assoc]
  have fresh : ¬ s'.Registered w.poller.made := by
    rintro ⟨fd', there⟩
    rw [http] at there
    exact Nat.lt_irrefl _ (intact.place fd' _ there).2
  have heap : s'.made = w.poller.made + 1 ∧ (s'.heap w.poller.made).data = {} ∧
      ∀ j ≠ w.poller.made, s'.heap j = w.poller.heap j := by
    unfold accept at accepted
    split at accepted
    · cases accepted
    · obtain rfl := Option.some.inj accepted
      refine ⟨rfl, ?_, fun j other => Function.update_of_ne other _ _⟩
      simp only [Poller.set, Function.update_self]
  have same : ∀ j, s'.Concluding j ↔ w.poller.Concluding j := fun j => by
    rw [Concluding, Concluding, pc]
  have queued : s'.queued = w.poller.queued := by
    rw [Poller.queued, Poller.queued, pc]
  have changes : Changes w ⟨s', w.interest⟩ w.poller.made :=
    { intact := (accept_stepped intact accepted).intact
      others := fun j other => by rw [heap.2.2 j other]
      made := fun j bound other => by
        change j < s'.made at bound
        rw [heap.1] at bound
        omega
      registered := fun j _ => registered_iff http j
      coming := fun j other => by simp [coming, other]
      interest := fun _ _ _ => rfl
      queued := fun e member => by
        change e ∈ s'.queued at member
        rw [queued] at member
        refine ⟨member, ?_⟩
        rintro made
        have turn := turn_of_queued member
        exact Nat.lt_irrefl _ (made ▸ (intact.place _ _ (intact.turn _ turn)).2)
      concluding := fun j _ => same j }
  refine sight.change changes id (fun _ => .inr ?_) (fun _ => heap.2.1)
    (fun here => absurd here fresh) (fun concluding => ?_) fun _ here => absurd here fresh
  · simp [coming]
  · obtain ⟨ret, here⟩ := (same _).mp concluding
    have turn : w.poller.made ∈ w.poller.turns := by simp [turns, here]
    exact absurd (intact.place _ _ (intact.turn _ turn)).2 (Nat.lt_irrefl _)

/-- A step that changes no connection and no entry. -/
theorem Sight.quiet (sight : Sight settled w) {s' : Poller} (intact : s'.Intact)
    (heap : s'.heap = w.poller.heap) (made : s'.made = w.poller.made)
    (http : s'.fd2http = w.poller.fd2http) (coming : s'.coming = w.poller.coming)
    (queued : s'.queued = []) (before : ∀ j, ¬ w.poller.Concluding j)
    (after : ∀ j, ¬ s'.Concluding j) : Sight settled ⟨s', w.interest⟩ where
  intact := intact
  known := by
    intro j bound isOpen
    change j < s'.made at bound
    change (s'.heap j).data.connectionState ≠ _ at isOpen
    rw [made] at bound
    rw [heap] at isOpen
    change s'.Registered j ∨ j ∈ s'.coming
    rw [registered_iff http j, coming]
    exact sight.known j bound isOpen
  blank := by
    intro j member
    change j ∈ s'.coming at member
    change (s'.heap j).data = {}
    rw [coming] at member
    rw [heap]
    exact sight.blank j member
  linked := by
    intro j here
    change Linked (s'.heap j) (w.interest (s'.heap j).fd)
    rw [heap]
    exact sight.linked j ((registered_iff http j).mp here)
  queued := by
    intro e member
    change e ∈ s'.queued at member
    rw [queued] at member
    cases member
  asks := fun j concluding => absurd concluding (after j)
  seen := by
    intro holds j here _ left
    change Pending (s'.heap j).data at left
    change (s'.heap j).lastEvents.events.epollout = true
    rw [heap] at left ⊢
    exact sight.seen holds j ((registered_iff http j).mp here) (before j) left

/-- A step that moves on to the functors or away from them. -/
theorem Sight.moved (sight : Sight settled w) {now : Nat} {pending : List Nat} {pc : IterationPc}
    (intact : ({ w.poller with pendingFunctors := pending }.goto pc).Intact)
    (silent : w.poller.epollCtl (.call now) = none)
    (before : ∀ c ret, w.poller.pc ≠ .concluding c ret)
    (after : ∀ c ret, pc ≠ .concluding c ret)
    (queued : ({ w.poller with pendingFunctors := pending }.goto pc).queued = [])
    (coming : ({ w.poller with pendingFunctors := pending }.goto pc).coming = w.poller.coming) :
    Sight settled ⟨{ w.poller with pendingFunctors := pending }.goto pc,
      w.interestAfter (.call now)⟩ := by
  have same : w.interestAfter (.call now) = w.interest := by
    simp only [interestAfter, silent]
  rw [same]
  exact sight.quiet intact rfl rfl rfl coming queued (not_concluding before)
    (not_concluding after)

theorem Linked.disarmed {x : Connection} {entry : Option Mask} (linked : Linked x entry) :
    Linked x (entry.map Mask.disarm) := by
  refine { linked with masked := .inr ?_ }
  rcases linked.masked with rfl | rfl
  · rfl
  · rw [Option.map_some, Mask.disarm_disarm]

theorem coming_of_polling {s : Poller} (pc : s.pc = .polling) (ret : List (Nat × Revents)) :
    (s.goto (.handling ret)).coming = s.coming := by
  simp only [Poller.coming, functors, goto, pc]

/-- `epoll_wait` returns. -/
theorem poll_sight (sight : Sight settled w) (pc : w.poller.pc = .polling)
    {events : List (Nat × Revents)} (once : (events.map Prod.fst).Nodup)
    (admits : w.Admits (.poll events)) :
    Sight settled ⟨w.poller.goto (.handling (w.poller.getEventsRequest events)),
      w.interestAfter (.poll events)⟩ where
  intact := (poll_stepped sight.intact pc once).intact
  known := by
    intro j bound isOpen
    change w.poller.Registered j ∨ j ∈ (w.poller.goto _).coming
    rw [coming_of_polling pc]
    exact sight.known j bound isOpen
  blank := by
    intro j member
    change j ∈ (w.poller.goto _).coming at member
    rw [coming_of_polling pc] at member
    exact sight.blank j member
  linked := by
    intro j here
    have linked := sight.linked j here
    change Linked (w.poller.heap j) (w.interestAfter (.poll events) (w.poller.fdOf j))
    simp only [interestAfter]
    split
    · exact linked.disarmed
    · exact linked
  queued := by
    intro e member
    change e ∈ w.poller.getEventsRequest events at member
    obtain ⟨⟨fd, revents⟩, reported, there⟩ := List.mem_filterMap.mp member
    obtain ⟨c, chan, rfl⟩ := Option.map_eq_some_iff.mp there
    have intact := sight.intact
    rw [intact.same] at chan
    obtain ⟨rfl, -⟩ := intact.place fd c chan
    obtain ⟨mask, entry, reports⟩ := admits _ reported
    change Reports (w.poller.heap c).lastEvents revents
    rw [Option.mem_def] at entry
    rcases (sight.linked c ⟨_, chan⟩).masked with masked | masked
    · obtain rfl := Option.some.inj (entry.symm.trans masked)
      exact reports
    · obtain rfl := Option.some.inj (entry.symm.trans masked)
      exact reports.armed
  asks := fun j here => absurd here (not_concluding (by simp [goto]) j)
  seen := by
    intro holds j here _ left
    exact sight.seen holds j here (not_concluding (by simp [pc]) j) left

/-- A turn of `handleExpiredEvent`, and what it tells the kernel. -/
theorem expire_ctl (pc : w.poller.pc = .expiring) {k now : Nat}
    {s' : Poller} (expired : w.poller.expire k now = some s') :
    w.interestAfter (.expire k now) = w.interest ∧
        (s' = w.poller.goto .polling ∨ s' = w.poller.pop k) ∨
      ∃ node c, w.poller.timerNodeQueue[k]? = some node ∧ node.holds = some c ∧
        s' = (w.poller.pop k).close c ∧
        w.interestAfter (.expire k now) =
          Function.update w.interest (w.poller.fdOf c) none := by
  rcases expire_cases expired with ⟨rfl, empty | ⟨node, there, -, live, valid⟩⟩ |
    ⟨node, there, spent, rfl⟩
  · refine .inl ⟨?_, .inl rfl⟩
    simp only [interestAfter, epollCtl, pc, empty, List.getElem?_nil]
  · refine .inl ⟨?_, .inl rfl⟩
    simp only [interestAfter, epollCtl, pc, there, live, valid, Bool.not_false, Bool.and_true,
      if_true]
  · have dropped : ¬ (!node.deleted && node.isValid now) = true := by
      rcases spent with deleted | invalid
      · simp [deleted]
      · simp [invalid]
    rcases w.poller.remove_cases k node with ⟨holds, same⟩ | ⟨c, holds, same⟩
    · refine .inl ⟨?_, .inr same⟩
      simp only [interestAfter, epollCtl, pc, there, if_neg dropped, holds, Option.map_none]
    · refine .inr ⟨node, c, there, holds, same, ?_⟩
      simp only [interestAfter, epollCtl, pc, there, if_neg dropped, holds, Option.map_some]

/-- An overdue connection is closed. -/
theorem close_changes (sight : Sight settled w) (pc : w.poller.pc = .expiring) {k : Nat}
    {node : TimerNode} (there : w.poller.timerNodeQueue[k]? = some node)
    (holds : node.holds = some c) (intact : ((w.poller.pop k).close c).Intact) :
    Changes w ⟨(w.poller.pop k).close c, Function.update w.interest (w.poller.fdOf c) none⟩ c := by
  have before := sight.intact
  have sound : Sound w.poller [] w.poller.coming := by
    simpa only [Poller.Intact, turns, pc] using before
  have registered : w.poller.Registered c :=
    ⟨_, before.held node (List.mem_of_getElem? there) c holds⟩
  obtain ⟨-, http, -⟩ := close_cases sound there holds
  have queued : ((w.poller.pop k).close c).queued = [] := by
    simp only [Poller.queued, Poller.close, epollDel, setData, Poller.set, Poller.pop, pc]
  exact
    { intact := intact
      others := fun j other => by
        simp only [Poller.close, epollDel, setData, Poller.set, Function.update_of_ne other,
          Poller.pop]
      made := fun j bound _ => bound
      registered := fun j other => before.registered_close http registered other
      coming := fun _ _ => Iff.rfl
      interest := fun j other here =>
        Function.update_of_ne (before.fdOf_ne here registered other) _ _
      queued := fun e member => by
        change e ∈ ((w.poller.pop k).close c).queued at member
        rw [queued] at member
        cases member
      concluding := fun j _ => Iff.rfl }

theorem close_sight (sight : Sight settled w) (pc : w.poller.pc = .expiring) {k : Nat}
    {node : TimerNode} (there : w.poller.timerNodeQueue[k]? = some node)
    (holds : node.holds = some c) (intact : ((w.poller.pop k).close c).Intact) :
    Sight settled
      ⟨(w.poller.pop k).close c, Function.update w.interest (w.poller.fdOf c) none⟩ := by
  have changes := close_changes sight pc there holds intact
  have sound : Sound w.poller [] w.poller.coming := by
    simpa only [Poller.Intact, turns, pc] using sight.intact
  obtain ⟨-, http, -⟩ := close_cases sound there holds
  have registered : w.poller.Registered c :=
    ⟨_, sight.intact.held node (List.mem_of_getElem? there) c holds⟩
  have gone : ¬ ((w.poller.pop k).close c).Registered c := sight.intact.not_registered_close http
  have closed : (((w.poller.pop k).close c).heap c).data.connectionState = .disconnected := by
    simp only [Poller.close, epollDel, setData, Poller.set, Function.update_self, handleClose]
  have idle : ¬ w.poller.Concluding c := not_concluding (by simp [pc]) c
  refine sight.change changes id (fun isOpen => absurd closed isOpen) (fun member => ?_)
    (fun here => absurd here gone) (fun concluding => absurd concluding idle)
    fun _ here => absurd here gone
  exact absurd member (sight.intact.not_coming registered)

/-- An overdue connection is closed, or nothing is. -/
theorem expire_sight (sight : Sight settled w) (pc : w.poller.pc = .expiring) {k now : Nat}
    {s' : Poller} (expired : w.poller.expire k now = some s') :
    Sight settled ⟨s', w.interestAfter (.expire k now)⟩ := by
  have intact := (expire_stepped sight.intact pc expired).intact
  have before : ∀ j, ¬ w.poller.Concluding j := not_concluding (by simp [pc])
  rcases expire_ctl pc expired with ⟨same, rfl | rfl⟩ | ⟨node, c, there, holds, rfl, entry⟩
  · rw [same]
    refine sight.quiet intact rfl rfl rfl ?_ rfl before (not_concluding (by simp [goto]))
    simp only [Poller.coming, functors, goto, pc]
  · rw [same]
    refine sight.quiet intact rfl rfl rfl rfl ?_ before before
    simp only [Poller.queued, Poller.pop, pc]
  · rw [entry]
    exact close_sight sight pc there holds intact

/-- Every step of the loop keeps the interest list in line with it. -/
theorem stepped_sight (sight : Sight settled w) {action : PollerStep} {s' : Poller}
    (admits : w.Admits action) (taken : Epoll.poller.step w.poller action = some s') :
    Sight (settled ∧ w.Settled action) ⟨s', w.interestAfter action⟩ := by
  have after := (stepped sight.intact taken).intact
  have weaken {v : Watch} (kept : Sight settled v) : Sight (settled ∧ w.Settled action) v :=
    { kept with seen := fun holds => kept.seen holds.1 }
  simp only [Epoll.poller] at taken
  split at taken
  case h_1 pc _ fd =>
      refine weaken ?_
      have same : w.interestAfter (.accept fd) = w.interest := by
        simp [interestAfter, epollCtl]
      rw [same]
      exact accept_sight sight taken
  case h_2 pc _ events atPoll =>
      split at taken
      · rename_i once
        obtain rfl := Option.some.inj taken
        exact weaken (poll_sight sight atPoll once admits)
      · cases taken
  case h_3 pc _ c revents ret fs reads writes atHandle =>
      refine weaken ?_
      have same : w.interestAfter (.handle fs reads writes) = w.interest := by
        simp [interestAfter, epollCtl, atHandle]
      rw [same]
      exact handle_sight sight atHandle taken
  case h_4 pc _ c ret now atConclude =>
      obtain rfl := Option.some.inj taken
      exact conclude_sight sight atConclude now
  case h_5 pc _ now atEnd =>
      obtain rfl := Option.some.inj taken
      have silent : w.poller.epollCtl (.call now) = none := by simp [epollCtl, atEnd]
      refine weaken (sight.moved after silent (by simp [atEnd]) (by simp) rfl ?_)
      simp only [Poller.coming, functors, goto, atEnd, List.nil_append, List.append_nil]
  case h_6 pc _ c functors now atCall =>
      obtain rfl := Option.some.inj taken
      exact weaken (call_sight sight atCall now)
  case h_7 pc _ now atEnd =>
      obtain rfl := Option.some.inj taken
      have silent : w.poller.epollCtl (.call now) = none := by simp [epollCtl, atEnd]
      refine weaken (sight.moved after silent (by simp [atEnd]) (by simp) rfl ?_)
      simp only [Poller.coming, functors, goto, atEnd]
  case h_8 pc _ k now atExpire => exact weaken (expire_sight sight atExpire taken)
  case h_9 => cases taken

theorem watch_sight (sight : Sight settled w) {action : PollerStep}
    (taken : watch.step w action = some w') : Sight (settled ∧ w.Settled action) w' := by
  simp only [watch] at taken
  split at taken
  · rename_i admits
    obtain ⟨s', moved, rfl⟩ := Option.map_eq_some_iff.mp taken
    exact stepped_sight sight admits moved
  · cases taken

end Steps

theorem sight_init : Sight settled watch.init where
  intact := intact_init
  known _ bound := nomatch bound
  blank _ member := nomatch member
  linked _ here := nomatch here.choose_spec
  queued _ member := nomatch member
  asks _ concluding := nomatch concluding.choose_spec
  seen _ _ here := nomatch here.choose_spec

/-- Output left is watched for if it is among what its channel asked for. -/
theorem Sight.pendingWatched (sight : Sight True w) (between : w.Between) : w.PendingWatched := by
  intro c bound isOpen left
  rcases sight.known c bound isOpen with here | member
  · have linked := sight.linked c here
    have writes := sight.seen trivial c here (between c) left
    have armed : (w.poller.heap c).lastEvents.disarm = (w.poller.heap c).lastEvents := by
      cases oneshot : (w.poller.heap c).lastEvents.oneshot with
      | true => exact absurd writes (by simp [linked.oneshot oneshot])
      | false => simp [Mask.disarm, oneshot]
    refine ⟨(w.poller.heap c).lastEvents, ?_, writes⟩
    rcases linked.masked with entry | entry
    · exact entry
    · rwa [armed] at entry
  · rw [sight.blank c member] at left
    exact absurd rfl left.2

/-- `handleConn` of a draining connection with output left. -/
theorem Sight.unwatched (sight : Sight settled w) {action : PollerStep}
    (missed : ¬ w.Settled action) (taken : watch.step w action = some w') :
    w'.Between ∧ ¬ w'.PendingWatched := by
  unfold Settled at missed
  split at missed
  · rename_i c ret now pc
    obtain ⟨draining, left⟩ := not_not.mp missed
    have registered : w.poller.Registered c :=
      sight.intact.registered_of_turn (by simp [turns, pc])
    have linked := sight.linked c registered
    have next : w' = ⟨(w.poller.conclude c now).goto (.handling ret),
        w.interestAfter (.conclude now)⟩ := by
      simp only [watch, Admits, if_true, Epoll.poller, pc] at taken
      exact (Option.some.inj taken).symm
    subst next
    refine ⟨not_concluding (by simp [goto]), fun watched => ?_⟩
    have own := w.poller.conclude_bare c now c
    rw [Function.update_self] at own
    obtain ⟨fd, data, -, -⟩ := Connection.bare_eq.mp own
    obtain ⟨half, pending⟩ := handleConn_draining draining
    have bound : c < (w.poller.conclude c now).made := by
      rw [(w.poller.conclude_frame c now).1]
      exact (sight.intact.place _ c (sight.intact.registered.mp registered)).2
    have isOpen : ((w.poller.conclude c now).heap c).data.connectionState ≠ .disconnected := by
      rw [data, concluded, half]
      decide
    have stays : Pending ((w.poller.conclude c now).heap c).data := by
      rw [data]
      exact pending.mpr left
    obtain ⟨mask, entry, writes⟩ := watched c bound isOpen stays
    have fds : (w.poller.conclude c now).fdOf c = w.poller.fdOf c := fd
    change mask ∈ w.interestAfter (.conclude now) ((w.poller.conclude c now).fdOf c) at entry
    rw [fds, interestAfter_conclude pc, if_neg (not_connected draining), if_pos draining,
      Option.mem_def] at entry
    have silent := linked.halfClosed draining.2.1
    rcases linked.masked with masked | masked
    · obtain rfl := Option.some.inj (entry.symm.trans masked)
      exact absurd (silent.symm.trans writes) (by decide)
    · obtain rfl := Option.some.inj (entry.symm.trans masked)
      unfold Mask.disarm at writes
      split at writes
      · cases writes
      · exact absurd (silent.symm.trans writes) (by decide)
  · exact absurd trivial missed

/-- In every run, output left is watched after each event if and only if `handleConn` never
    finds output left on a connection whose peer has stopped sending. -/
theorem pending_watched (steps : List PollerStep) (w : Watch)
    (ran : watch.run watch.init steps = some w) :
    (∀ v ∈ watch.visited watch.init steps, v.Between → v.PendingWatched) ↔
      watch.Guarded Settled watch.init steps := by
  constructor
  · intro watched
    refine Machine.guarded_of_shown (I := Sight False)
      (P := fun v => v.Between ∧ ¬ v.PendingWatched) ?_ ?_ sight_init ran ?_
    · intro v action v' sight taken
      exact { watch_sight sight taken with seen := nofun }
    · intro v action v' sight missed taken
      exact sight.unwatched missed taken
    · rintro v member ⟨between, unwatched⟩
      exact unwatched (watched v member between)
  · intro guarded v member between
    have sight : Sight True v := by
      refine guarded.visits (I := Sight True) ?_ sight_init v member
      intro u action u' sight settles taken
      have kept := watch_sight sight taken
      exact { kept with seen := fun _ => kept.seen ⟨trivial, settles⟩ }
    exact sight.pendingWatched between

/-- A connection is added, and of the reply to its request ten bytes are taken. -/
def asking (reads : List ReadResult) : List PollerStep :=
  arrival ++ [.poll [(7, { epollin := true })], .handle noFiles reads [.accepted 10, .again],
    .conclude 1]

theorem pending_watched_asking : ∃ w, watch.run watch.init (asking [.data getHello]) = some w ∧
    w.Between ∧ Pending (w.poller.heap 0).data ∧
    ∀ v ∈ watch.visited watch.init (asking [.data getHello]), v.Between → v.PendingWatched := by
  have ran : (watch.run watch.init (asking [.data getHello])).any
      (fun w => w.poller.pc = .handling [] ∧ Pending (w.poller.heap 0).data) := by
    decide +kernel
  obtain ⟨w, ran, final⟩ := (Option.any_eq_true _ _).mp ran
  obtain ⟨pc, left⟩ := of_decide_eq_true final
  have settled : watch.Guarded Settled watch.init (asking [.data getHello]) := by decide +kernel
  exact ⟨w, ran, not_concluding (by simp [pc]), left,
    (pending_watched _ w ran).mpr settled⟩

/-- The peer sends no more behind its request. -/
theorem pending_watched_fails : ¬ ∀ (steps : List PollerStep) (w : Watch),
    watch.run watch.init steps = some w → w.Between → w.PendingWatched := by
  intro claim
  have ran : (watch.run watch.init (asking [.data getHello, .data []])).any
      (fun w => w.poller.pc = .handling [] ∧ Pending (w.poller.heap 0).data ∧
        (w.poller.heap 0).data.connectionState = .disconnecting ∧ w.poller.made = 1 ∧
        w.poller.fdOf 0 = 7 ∧ w.interest 7 = some ⟨{}, true⟩) := by
    decide +kernel
  obtain ⟨w, ran, final⟩ := (Option.any_eq_true _ _).mp ran
  obtain ⟨pc, left, half, made, fd, entry⟩ := of_decide_eq_true final
  have between : w.Between := not_concluding (by simp [pc])
  obtain ⟨mask, watched, writes⟩ := claim _ w ran between 0 (made ▸ Nat.one_pos)
    (by rw [half]; decide) left
  rw [fd, entry] at watched
  obtain rfl := Option.some.inj watched
  cases writes

end Watch

end Corio.Epoll
