import Corio.Epoll.Interest

/-! # The channel that accepts connections

`Server::handNewConn` behind `Channel::handleEvents`, an `accept` a step, with the backlog of the
listening socket and the kernel's side of epoll. New connections queue up meanwhile.
-/

namespace Corio.Epoll

/-- What `accept` returns. -/
inductive AcceptResult where
  | descriptor (fd : Nat)
  | EAGAIN
  | EINTR
  | ECONNABORTED
  /-- Another error, and whether a connection is gone by it. -/
  | error (gone : Bool)
  deriving DecidableEq, Repr

def Server.MAXFDS : Nat := 100000

/-- `EPOLLIN | EPOLLET`. -/
def acceptMask : Mask := ⟨{ epollin := true, epollet := true }, false⟩

/-- Where the thread of the loop is. -/
inductive AcceptPlace where
  /-- Outside of `handleEvents` of the channel. -/
  | polling
  /-- At `accept`. -/
  | accepting
  /-- At `setSocketNonBlocking`, with a descriptor for this loop. -/
  | unblocking (fd loop : Nat)
  /-- At `handThisConn`. -/
  | concluding
  deriving DecidableEq, Repr

structure Acceptor where
  place : AcceptPlace
  /-- How many connections wait in the kernel. -/
  backlog : Nat
  /-- `epoll_wait` has not reported yet that one has come. -/
  edge : Bool
  events : Mask
  lastEvents : Mask
  /-- What the kernel watches the listening descriptor for. -/
  interest : Mask
  /-- The channel is in `fd2chan_`. -/
  inTable : Bool
  /-- `next_` of the pool. -/
  next : Nat
  /-- The descriptors that `accept` returned. -/
  returned : List Nat
  closed : List Nat
  /-- Those that an `HttpData` was made of, and its loop. -/
  handed : List (Nat × Nat)
  /-- The results of the call of `handNewConn` that is going on. -/
  results : List AcceptResult
  /-- Those of the calls before it. -/
  calls : List (List AcceptResult)
  deriving DecidableEq, Repr

inductive AcceptStep where
  /-- A connection is queued by the kernel. -/
  | arrive
  /-- `epoll_wait` reports the listening descriptor, and `handleEvents` begins. -/
  | report (revents : Revents)
  | accept (result : AcceptResult)
  | setSocketNonBlocking (done : Bool)
  /-- `handThisConn`, where `epoll_ctl` succeeds or not if it is called. -/
  | conclude (modified : Bool)
  deriving DecidableEq, Repr

namespace Acceptor

def goto (s : Acceptor) (place : AcceptPlace) : Acceptor := { s with place := place }

/-- `handNewConn` returns. -/
def returns (s : Acceptor) : Acceptor :=
  { s with place := .concluding, results := [], calls := s.calls ++ [s.results] }

/-- The end of `handNewConn`. -/
def finish (s : Acceptor) : Acceptor := { s with events := acceptMask }.returns

/-- The kernel's side of `accept`. -/
def take (s : Acceptor) : AcceptResult → Option Acceptor
  | .descriptor fd =>
      if 0 < s.backlog then some { s with backlog := s.backlog - 1, returned := s.returned ++ [fd] }
      else none
  | .EAGAIN => if s.backlog = 0 then some s else none
  | .EINTR | .error false => some s
  | .ECONNABORTED | .error true =>
      if 0 < s.backlog then some { s with backlog := s.backlog - 1 } else none

/-- One turn of the loop in `handNewConn`, up to `setSocketNonBlocking`. -/
def accept (s : Acceptor) (numThreads : Nat) (result : AcceptResult) : Option Acceptor :=
  (s.take result).map fun s =>
    let s := { s with results := s.results ++ [result] }
    match result with
    | .descriptor fd =>
        if fd > 0 then
          let loop := s.next
          let s := { s with next := (s.next + 1) % numThreads }
          if fd ≥ Server.MAXFDS then { s with closed := s.closed ++ [fd] }
          else s.goto (.unblocking fd loop)
        else s.finish
    | _ => s.finish

/-- `Channel::handleEvents`, up to the first handler. There is one for reading and one behind. -/
def handleEvents (s : Acceptor) (revents : Revents) : Acceptor :=
  let s := { s with events := ⟨{}, false⟩ }
  if revents.epollhup && !revents.epollin then s
  else if revents.epollerr then s
  else if revents.epollin || revents.epollpri || revents.epollrdhup then s.goto .accepting
  else s.goto .concluding

/-- `Epoll::epoll_mod` without a timeout. -/
def epollMod (s : Acceptor) (modified : Bool) : Acceptor :=
  let s' := { s with lastEvents := s.events }
  if s.lastEvents = s.events then s'
  else if modified then
    { s' with interest := s.events
              edge := s.edge || s.events.events.epollin && decide (0 < s.backlog) }
  else { s' with inTable := false }

def arrive (s : Acceptor) : Acceptor := { s with backlog := s.backlog + 1, edge := true }

/-- Edge-triggered, so a connection is reported once. -/
def report (s : Acceptor) (revents : Revents) : Option Acceptor :=
  if s.inTable ∧ Reports s.interest revents ∧ (revents.epollin → s.edge) then
    some ({ s with edge := s.edge && !revents.epollin }.handleEvents revents)
  else none

/-- What follows `setSocketNonBlocking`. -/
def unblocked (s : Acceptor) (fd loop : Nat) (done : Bool) : Acceptor :=
  if done then { s with handed := s.handed ++ [(fd, loop)] }.goto .accepting else s.returns

end Acceptor

/-- The acceptor of a server with this many threads, from `Server::start` on. -/
def acceptor (numThreads : Nat) : Machine Acceptor AcceptStep where
  init :=
    { place := .polling, backlog := 0, edge := false, events := acceptMask
      lastEvents := acceptMask, interest := acceptMask, inTable := true, next := 0
      returned := [], closed := [], handed := [], results := [], calls := [] }
  step s action :=
    match s.place, action with
    | _, .arrive => some s.arrive
    | .polling, .report revents => s.report revents
    | .accepting, .accept result => s.accept numThreads result
    | .unblocking fd loop, .setSocketNonBlocking done => some (s.unblocked fd loop done)
    | .concluding, .conclude modified => some ((s.epollMod modified).goto .polling)
    | _, _ => none

/-- The descriptor that the result is. -/
def AcceptResult.fds : AcceptResult → List Nat
  | .descriptor fd => [fd]
  | _ => []

/-- Nothing goes wrong with a descriptor. -/
def AcceptStep.Calm : AcceptStep → Prop
  | .setSocketNonBlocking done => done = true
  | .accept (.descriptor fd) => fd ≠ 0
  | _ => True

/-- A result that ends the loop is `EAGAIN`. -/
def AcceptStep.Drains : AcceptStep → Prop
  | .accept (.descriptor fd) => fd ≠ 0
  | .accept result => result = .EAGAIN
  | _ => True

/-- No connection is reported together with an error. -/
def AcceptStep.Heard : AcceptStep → Prop
  | .report revents => revents.epollin = true → revents.epollerr = false
  | _ => True

namespace Acceptor

variable {s s' : Acceptor} {numThreads : Nat} {lost : List Nat}

/-! ## Descriptors and masks -/

/-- Every descriptor that `accept` returned was closed or handed to one loop, and the listening
    one is watched for connections. -/
def Listens (s : Acceptor) : Prop :=
  (s.closed ++ s.handed.map Prod.fst).Perm s.returned ∧ s.interest = acceptMask

/-- The descriptor that `handNewConn` has in hand. -/
def inHand (s : Acceptor) : List Nat :=
  match s.place with
  | .unblocking fd _ => [fd]
  | _ => []

/-- The listening descriptor is watched, and `handThisConn` will not change that. -/
structure Watching (s : Acceptor) : Prop where
  interest : s.interest = acceptMask
  lastEvents : s.lastEvents = acceptMask
  inTable : s.inTable = true
  events : s.place = .concluding → s.events = acceptMask

/-- What holds after every step, with the descriptors that were forgotten. -/
structure Accounted (s : Acceptor) (lost : List Nat) : Prop where
  fds : (s.closed ++ s.handed.map Prod.fst ++ (s.inHand ++ lost)).Perm s.returned
  watching : lost = [] → s.Watching

theorem Accounted.listens_iff (accounted : Accounted s lost) (place : s.place = .polling) :
    s.Listens ↔ lost = [] := by
  have fds := accounted.fds
  simp only [inHand, place, List.nil_append] at fds
  constructor
  · intro listens
    have size := (listens.1.trans fds.symm).length_eq
    simp only [List.length_append] at size
    exact List.eq_nil_of_length_eq_zero (by omega)
  · rintro rfl
    rw [List.append_nil] at fds
    exact ⟨fds, (accounted.watching rfl).interest⟩

/-- `handleEvents` goes to the loop, or returns at once where nothing is to be read. It skips the
    loop only for an event that the descriptor is not watched for. -/
theorem handleEvents_cases (s : Acceptor) (revents : Revents) :
    s.handleEvents revents = { s with events := ⟨{}, false⟩ } ∧
        (revents.epollin = true → revents.epollerr = true) ∨
      s.handleEvents revents = { s with events := ⟨{}, false⟩, place := .accepting } ∨
      s.handleEvents revents = { s with events := ⟨{}, false⟩, place := .concluding } ∧
        ¬ Reports acceptMask revents := by
  unfold handleEvents
  simp only
  split_ifs with hup err readable
  · refine .inl ⟨rfl, fun input => ?_⟩
    rw [input] at hup
    simp at hup
  · exact .inl ⟨rfl, fun _ => err⟩
  · exact .inr (.inl rfl)
  · refine .inr (.inr ⟨rfl, ?_⟩)
    rintro ⟨some_, -, out, -, -⟩
    refine some_ ?_
    have noOut : revents.epollout ≠ true := fun on => absurd (out on) (by decide)
    cases revents
    simp_all

theorem take_eq {result : AcceptResult} (taken : s.take result = some s') :
    s' = { s with backlog := s'.backlog, returned := s.returned ++ result.fds } := by
  unfold take at taken
  cases result with
  | descriptor fd =>
      obtain ⟨-, same⟩ := Option.ite_none_right_eq_some.mp taken
      rw [← Option.some.inj same]
      rfl
  | EAGAIN =>
      obtain ⟨-, same⟩ := Option.ite_none_right_eq_some.mp taken
      simp only [← Option.some.inj same, AcceptResult.fds, List.append_nil]
  | EINTR => simp only [← Option.some.inj taken, AcceptResult.fds, List.append_nil]
  | ECONNABORTED =>
      obtain ⟨-, same⟩ := Option.ite_none_right_eq_some.mp taken
      simp only [← Option.some.inj same, AcceptResult.fds, List.append_nil]
  | error gone =>
      cases gone with
      | false => simp only [← Option.some.inj taken, AcceptResult.fds, List.append_nil]
      | true =>
          obtain ⟨-, same⟩ := Option.ite_none_right_eq_some.mp taken
          simp only [← Option.some.inj same, AcceptResult.fds, List.append_nil]

/-- One turn of the loop closes a descriptor, goes on with one, or is the last. -/
theorem accept_cases {result : AcceptResult} (accepted : s.accept numThreads result = some s') :
    ∃ mid, s.take result = some mid ∧
      ((∃ fd, result = .descriptor fd ∧ 0 < fd ∧ s' = { mid with
          results := s.results ++ [result], next := (s.next + 1) % numThreads
          closed := s.closed ++ [fd] }) ∨
        (∃ fd, result = .descriptor fd ∧ 0 < fd ∧ s' = { mid with
          results := s.results ++ [result], next := (s.next + 1) % numThreads
          place := .unblocking fd s.next }) ∨
        (∀ fd, result = .descriptor fd → fd = 0) ∧
          s' = { mid with results := s.results ++ [result] }.finish) := by
  obtain ⟨mid, taken, same⟩ := Option.map_eq_some_iff.mp accepted
  have old := take_eq taken
  have results : mid.results = s.results := by rw [old]
  have next : mid.next = s.next := by rw [old]
  have closed : mid.closed = s.closed := by rw [old]
  refine ⟨mid, taken, ?_⟩
  rw [← same, ← results, ← next, ← closed]
  cases result with
  | descriptor fd =>
      by_cases positive : fd > 0
      · simp only [if_pos positive]
        by_cases large : fd ≥ Server.MAXFDS
        · rw [if_pos large]
          exact .inl ⟨fd, rfl, positive, rfl⟩
        · rw [if_neg large]
          exact .inr (.inl ⟨fd, rfl, positive, rfl⟩)
      · refine .inr (.inr ⟨?_, if_neg positive⟩)
        rintro other ⟨⟩
        omega
  | EAGAIN | EINTR | ECONNABORTED | error gone => exact .inr (.inr ⟨nofun, rfl⟩)

theorem Accounted.report {revents : Revents} (accounted : Accounted s lost)
    (place : s.place = .polling) (reported : s.report revents = some s') : Accounted s' lost := by
  obtain ⟨⟨-, reports, -⟩, same⟩ := Option.ite_none_right_eq_some.mp reported
  have fds := accounted.fds
  have hand : s.inHand = [] := by simp only [inHand, place]
  rw [hand] at fds
  rw [← Option.some.inj same]
  rcases handleEvents_cases { s with edge := s.edge && !revents.epollin } revents with
    ⟨same, -⟩ | same | ⟨same, unread⟩
  · rw [same]
    refine ⟨?_, fun calm => { accounted.watching calm with events := fun concluding => ?_ }⟩
    · simpa only [inHand, place] using fds
    · cases place.symm.trans concluding
  · rw [same]
    refine ⟨fds, fun calm => { accounted.watching calm with events := fun concluding => ?_ }⟩
    cases concluding
  · rw [same]
    refine ⟨fds, fun calm => ?_⟩
    exact absurd ((accounted.watching calm).interest ▸ reports) unread

theorem Accounted.accept {result : AcceptResult} (accounted : Accounted s lost)
    (place : s.place = .accepting) (accepted : s.accept numThreads result = some s') :
    ∃ lost', Accounted s' lost' ∧
      (lost' = [] ↔ lost = [] ∧ (AcceptStep.accept result).Calm) := by
  have fds := accounted.fds
  have hand : s.inHand = [] := by simp only [inHand, place]
  rw [hand, List.nil_append] at fds
  obtain ⟨mid, took, turn⟩ := accept_cases accepted
  rw [take_eq took] at turn
  -- The descriptors of this result, wherever they go to.
  have grown : (s.closed ++ s.handed.map Prod.fst ++ (result.fds ++ lost)).Perm
      (s.returned ++ result.fds) := by
    refine (List.perm_append_comm.append_left _).trans ?_
    rw [← List.append_assoc]
    exact fds.append_right result.fds
  rcases turn with ⟨fd, rfl, positive, rfl⟩ | ⟨fd, rfl, positive, rfl⟩ | ⟨zero, rfl⟩
  · have calm := (and_iff_left (a := lost = []) (Nat.pos_iff_ne_zero.mp positive)).symm
    refine ⟨lost, ⟨?_, fun calm => { accounted.watching calm with
      events := fun concluding => ?_ }⟩, calm⟩
    · refine List.perm_iff_count.mpr fun other => ?_
      have counted := List.perm_iff_count.mp grown other
      simp only [AcceptResult.fds, List.count_append, inHand, place, List.nil_append] at counted ⊢
      omega
    · cases place.symm.trans concluding
  · have calm := (and_iff_left (a := lost = []) (Nat.pos_iff_ne_zero.mp positive)).symm
    refine ⟨lost, ⟨grown, fun calm => { accounted.watching calm with
      events := fun concluding => ?_ }⟩, calm⟩
    cases concluding
  · refine ⟨result.fds ++ lost, ⟨grown, fun calm => ?_⟩, ?_⟩
    · exact { accounted.watching (List.append_eq_nil_iff.mp calm).2 with events := fun _ => rfl }
    · cases result with
      | descriptor fd => simp [AcceptResult.fds, AcceptStep.Calm, zero fd rfl]
      | EAGAIN | EINTR | ECONNABORTED | error gone => simp [AcceptResult.fds, AcceptStep.Calm]

theorem Accounted.unblocked {fd loop : Nat} (accounted : Accounted s lost)
    (place : s.place = .unblocking fd loop) (done : Bool) :
    ∃ lost', Accounted (s.unblocked fd loop done) lost' ∧
      (lost' = [] ↔ lost = [] ∧ (AcceptStep.setSocketNonBlocking done).Calm) := by
  have fds := accounted.fds
  have hand : s.inHand = [fd] := by simp only [inHand, place]
  rw [hand] at fds
  cases done with
  | true =>
      refine ⟨lost, ⟨?_, fun calm => { accounted.watching calm with
        events := fun concluding => ?_ }⟩, (and_iff_left rfl).symm⟩
      · simpa [Acceptor.unblocked, goto, inHand] using fds
      · cases concluding
  | false =>
      refine ⟨fd :: lost, ⟨fds, fun calm => ?_⟩, by simp [AcceptStep.Calm]⟩
      exact absurd calm (List.cons_ne_nil fd lost)

theorem Accounted.conclude (accounted : Accounted s lost) (place : s.place = .concluding)
    (modified : Bool) : Accounted ((s.epollMod modified).goto .polling) lost := by
  have fds := accounted.fds
  have hand : s.inHand = [] := by simp only [inHand, place]
  rw [hand] at fds
  have equal (calm : lost = []) : s.lastEvents = s.events :=
    (accounted.watching calm).lastEvents.trans ((accounted.watching calm).events place).symm
  unfold epollMod
  simp only
  split_ifs with unchanged
  · refine ⟨fds, fun calm => { accounted.watching calm with
      lastEvents := (accounted.watching calm).events place
      events := fun concluding => ?_ }⟩
    cases concluding
  · exact ⟨fds, fun calm => absurd (equal calm) unchanged⟩
  · exact ⟨fds, fun calm => absurd (equal calm) unchanged⟩

theorem Accounted.step (accounted : Accounted s lost) {action : AcceptStep}
    (taken : (acceptor numThreads).step s action = some s') :
    ∃ lost', Accounted s' lost' ∧ (lost' = [] ↔ lost = [] ∧ action.Calm) := by
  simp only [acceptor] at taken
  split at taken
  case h_1 =>
      obtain rfl := Option.some.inj taken
      exact ⟨lost, ⟨accounted.fds, fun calm => { accounted.watching calm with }⟩,
        (and_iff_left trivial).symm⟩
  case h_2 _ _ revents place =>
      exact ⟨lost, accounted.report place taken, (and_iff_left trivial).symm⟩
  case h_3 _ _ result place => exact accounted.accept place taken
  case h_4 _ _ fd loop done place =>
      obtain rfl := Option.some.inj taken
      exact accounted.unblocked place done
  case h_5 _ _ modified place =>
      obtain rfl := Option.some.inj taken
      exact ⟨lost, accounted.conclude place modified, (and_iff_left trivial).symm⟩
  case h_6 => cases taken

theorem Accounted.run {steps : List AcceptStep} (accounted : Accounted s lost)
    (ran : (acceptor numThreads).run s steps = some s') :
    ∃ lost', Accounted s' lost' ∧ (lost' = [] ↔ lost = [] ∧ ∀ step ∈ steps, step.Calm) := by
  induction steps generalizing s lost with
  | nil =>
      obtain rfl := Option.some.inj ran
      exact ⟨lost, accounted, by simp⟩
  | cons step rest ih =>
      obtain ⟨next, taken, ran⟩ := Machine.run_cons_some _ |>.mp ran
      obtain ⟨lost', accounted, here⟩ := accounted.step taken
      obtain ⟨lost'', accounted, later⟩ := ih accounted ran
      refine ⟨lost'', accounted, ?_⟩
      rw [later, here, List.forall_mem_cons, and_assoc]

theorem accounted_init (numThreads : Nat) : Accounted (acceptor numThreads).init [] :=
  ⟨.refl _, fun _ => ⟨rfl, rfl, rfl, fun concluding => by cases concluding⟩⟩

/-- Between two events no descriptor is leaked and the server listens, exactly if nothing went
    wrong with a descriptor so far. -/
theorem listens_iff_calm (steps : List AcceptStep) (s : Acceptor)
    (ran : (acceptor numThreads).run (acceptor numThreads).init steps = some s)
    (place : s.place = .polling) : s.Listens ↔ ∀ step ∈ steps, step.Calm := by
  obtain ⟨lost, accounted, calm⟩ := (accounted_init numThreads).run ran
  rw [accounted.listens_iff place, calm]
  exact and_iff_right rfl

/-- Two connections come, and the second one's descriptor is too large. -/
def crowded : List AcceptStep :=
  [.arrive, .arrive, .report { epollin := true }, .accept (.descriptor 7),
    .setSocketNonBlocking true, .accept (.descriptor Server.MAXFDS), .accept .EAGAIN,
    .conclude true]

theorem listens_crowded : ∃ s, (acceptor 4).run (acceptor 4).init crowded = some s ∧
    s.returned = [7, Server.MAXFDS] ∧ s.Listens := by
  have ran : ((acceptor 4).run (acceptor 4).init crowded).any
      fun s => s.returned = [7, Server.MAXFDS] ∧ s.place = .polling := by decide
  obtain ⟨s, ran, seen⟩ := (Option.any_eq_true _ _).mp ran
  obtain ⟨returned, place⟩ := of_decide_eq_true seen
  refine ⟨s, ran, returned, (listens_iff_calm crowded s ran place).mpr ?_⟩
  intro step member
  simp only [crowded, List.mem_cons, List.not_mem_nil, or_false] at member
  rcases member with rfl | rfl | rfl | rfl | rfl | rfl | rfl | rfl <;>
    simp [AcceptStep.Calm, Server.MAXFDS]

/-- `setSocketNonBlocking` fails once. The descriptor is leaked, and the server is deaf. -/
theorem deafened : ∃ s, (acceptor 4).run (acceptor 4).init
    [.arrive, .report { epollin := true }, .accept (.descriptor 7), .setSocketNonBlocking false,
      .conclude true] = some s ∧ s.place = .polling ∧ ¬ s.Listens := by
  refine ⟨_, rfl, rfl, fun listens => ?_⟩
  exact absurd listens.2 (by decide)

/-! ## The backlog -/

/-- Every call of `handNewConn` that returned had seen `EAGAIN`. -/
def Drained (s : Acceptor) : Prop := ∀ call ∈ s.calls, .EAGAIN ∈ call

/-- The call that is going on has seen descriptors only, and the others are judged rightly. -/
structure Judged (s : Acceptor) (drained : Prop) : Prop where
  results : .EAGAIN ∉ s.results
  calls : s.Drained ↔ drained

theorem drained_append {calls : List (List AcceptResult)} {call : List AcceptResult}
    {drained : Prop} (judged : (∀ call ∈ calls, .EAGAIN ∈ call) ↔ drained) :
    (∀ other ∈ calls ++ [call], .EAGAIN ∈ other) ↔ drained ∧ .EAGAIN ∈ call := by
  rw [← judged]
  simp only [List.mem_append, List.mem_singleton, or_imp, forall_and, forall_eq]

theorem Judged.accept {drained : Prop} {result : AcceptResult} (judged : Judged s drained)
    (accepted : s.accept numThreads result = some s') :
    Judged s' (drained ∧ (AcceptStep.accept result).Drains) := by
  obtain ⟨mid, took, turn⟩ := accept_cases accepted
  rw [take_eq took] at turn
  have seen {fd : Nat} : .EAGAIN ∉ s.results ++ [.descriptor fd] := by
    simpa using judged.results
  rcases turn with ⟨fd, rfl, positive, rfl⟩ | ⟨fd, rfl, positive, rfl⟩ | ⟨zero, rfl⟩
  · exact ⟨seen, judged.calls.trans (and_iff_left (Nat.pos_iff_ne_zero.mp positive)).symm⟩
  · exact ⟨seen, judged.calls.trans (and_iff_left (Nat.pos_iff_ne_zero.mp positive)).symm⟩
  · refine ⟨List.not_mem_nil, (drained_append judged.calls).trans (and_congr_right fun _ => ?_)⟩
    have old := judged.results
    cases result with
    | descriptor fd => simp [AcceptStep.Drains, zero fd rfl, old]
    | EAGAIN | EINTR | ECONNABORTED | error gone => simp [AcceptStep.Drains, old]

theorem handleEvents_history (s : Acceptor) (revents : Revents) :
    (s.handleEvents revents).results = s.results ∧ (s.handleEvents revents).calls = s.calls := by
  rcases handleEvents_cases s revents with ⟨same, -⟩ | same | ⟨same, -⟩ <;>
    rw [same] <;> exact ⟨rfl, rfl⟩

theorem epollMod_history (s : Acceptor) (modified : Bool) :
    (s.epollMod modified).results = s.results ∧ (s.epollMod modified).calls = s.calls := by
  unfold epollMod
  simp only
  split_ifs <;> exact ⟨rfl, rfl⟩

theorem Judged.step {drained : Prop} (judged : Judged s drained) {action : AcceptStep}
    (unblocks : action ≠ .setSocketNonBlocking false)
    (taken : (acceptor numThreads).step s action = some s') :
    Judged s' (drained ∧ action.Drains) := by
  have kept (same : s'.results = s.results ∧ s'.calls = s.calls) (drains : action.Drains) :
      Judged s' (drained ∧ action.Drains) := by
    refine ⟨same.1 ▸ judged.results, ?_⟩
    rw [Drained, same.2]
    exact judged.calls.trans (and_iff_left drains).symm
  simp only [acceptor] at taken
  split at taken
  case h_1 =>
      obtain rfl := Option.some.inj taken
      exact kept ⟨rfl, rfl⟩ trivial
  case h_2 _ _ revents place =>
      obtain ⟨-, same⟩ := Option.ite_none_right_eq_some.mp taken
      obtain rfl := Option.some.inj same
      exact kept (handleEvents_history _ revents) trivial
  case h_3 _ _ result place => exact judged.accept taken
  case h_4 _ _ fd loop done place =>
      obtain rfl := Option.some.inj taken
      cases done with
      | true => exact kept ⟨rfl, rfl⟩ trivial
      | false => exact absurd rfl unblocks
  case h_5 _ _ modified place =>
      obtain rfl := Option.some.inj taken
      exact kept (epollMod_history s modified) trivial
  case h_6 => cases taken

theorem Judged.run {drained : Prop} {steps : List AcceptStep} (judged : Judged s drained)
    (unblocks : ∀ step ∈ steps, step ≠ .setSocketNonBlocking false)
    (ran : (acceptor numThreads).run s steps = some s') :
    Judged s' (drained ∧ ∀ step ∈ steps, step.Drains) := by
  induction steps generalizing s drained with
  | nil =>
      obtain rfl := Option.some.inj ran
      simpa using judged
  | cons step rest ih =>
      obtain ⟨next, taken, ran⟩ := Machine.run_cons_some _ |>.mp ran
      obtain ⟨here, later⟩ := List.forall_mem_cons.mp unblocks
      have behind := ih (judged.step here taken) later ran
      rwa [and_assoc, ← List.forall_mem_cons (p := AcceptStep.Drains)] at behind

/-- Nothing went wrong, and a connection that waits outside of `handNewConn` will be reported. -/
structure Alert (s : Acceptor) : Prop where
  accounted : Accounted s []
  edge : s.place = .polling ∨ s.place = .concluding → 0 < s.backlog → s.edge = true

theorem Alert.report (alert : Alert s) (place : s.place = .polling) (waiting : 0 < s.backlog) :
    (s.report { epollin := true }).isSome := by
  have reported : s.inTable = true ∧ Reports s.interest { epollin := true } ∧
      (({ epollin := true } : Revents).epollin = true → s.edge = true) := by
    refine ⟨(alert.accounted.watching rfl).inTable, ?_, fun _ => alert.edge (.inl place) waiting⟩
    rw [(alert.accounted.watching rfl).interest]
    decide
  rw [Acceptor.report, if_pos reported]
  rfl

theorem calm_of_drains {action : AcceptStep} (unblocks : action ≠ .setSocketNonBlocking false)
    (drains : action.Drains) : action.Calm := by
  cases action with
  | setSocketNonBlocking done =>
      cases done with
      | true => rfl
      | false => exact absurd rfl unblocks
  | accept result =>
      cases result with
      | descriptor fd => exact drains
      | EAGAIN | EINTR | ECONNABORTED | error gone => trivial
  | arrive | report revents | conclude modified => trivial

/-- The loop ends with an empty backlog. -/
theorem accept_empty {result : AcceptResult} (drains : (AcceptStep.accept result).Drains)
    (accepted : s.accept numThreads result = some s') (place : s.place = .accepting)
    (ended : s'.place = .polling ∨ s'.place = .concluding) : s'.backlog = 0 := by
  obtain ⟨mid, took, turn⟩ := accept_cases accepted
  have same := take_eq took
  rcases turn with ⟨fd, rfl, positive, rfl⟩ | ⟨fd, rfl, positive, rfl⟩ | ⟨zero, rfl⟩
  · rw [same] at ended
    rcases ended with polling | concluding
    · cases place.symm.trans polling
    · cases place.symm.trans concluding
  · rcases ended with polling | concluding
    · cases polling
    · cases concluding
  · cases result with
    | descriptor fd => exact absurd (zero fd rfl) drains
    | EAGAIN =>
        obtain ⟨empty, again⟩ := Option.ite_none_right_eq_some.mp took
        obtain rfl := Option.some.inj again
        exact empty
    | EINTR | ECONNABORTED | error gone => cases drains

theorem epollMod_edge (s : Acceptor) (modified : Bool) :
    (s.epollMod modified).backlog = s.backlog ∧
      (s.edge = true → (s.epollMod modified).edge = true) := by
  unfold epollMod
  simp only
  split_ifs
  · exact ⟨rfl, id⟩
  · exact ⟨rfl, fun edge => by simp [edge]⟩
  · exact ⟨rfl, id⟩

theorem Alert.step (alert : Alert s) {action : AcceptStep}
    (unblocks : action ≠ .setSocketNonBlocking false) (drains : action.Drains)
    (heard : action.Heard) (taken : (acceptor numThreads).step s action = some s') : Alert s' := by
  obtain ⟨lost, accounted, calm⟩ := alert.accounted.step taken
  obtain rfl := calm.mpr ⟨rfl, calm_of_drains unblocks drains⟩
  refine ⟨accounted, ?_⟩
  simp only [acceptor] at taken
  split at taken
  case h_1 =>
      obtain rfl := Option.some.inj taken
      exact fun _ _ => rfl
  case h_2 _ _ revents place =>
      obtain ⟨⟨-, reports, -⟩, same⟩ := Option.ite_none_right_eq_some.mp taken
      obtain rfl := Option.some.inj same
      rcases handleEvents_cases { s with edge := s.edge && !revents.epollin } revents with
        ⟨same, failed⟩ | same | ⟨-, unread⟩
      · rw [same]
        intro _ waiting
        have quiet : revents.epollin = false := by
          rw [Bool.eq_false_iff]
          exact fun input => absurd (failed input) (by rw [heard input]; decide)
        simpa only [quiet, Bool.not_false, Bool.and_true] using alert.edge (.inl place) waiting
      · rw [same]
        rintro (polling | concluding)
        · cases polling
        · cases concluding
      · exact absurd ((alert.accounted.watching rfl).interest ▸ reports) unread
  case h_3 _ _ result place =>
      intro ended waiting
      have empty := accept_empty drains taken place ended
      omega
  case h_4 _ _ fd loop done place =>
      obtain rfl := Option.some.inj taken
      cases done with
      | true =>
          rintro (polling | concluding)
          · cases polling
          · cases concluding
      | false => exact absurd rfl unblocks
  case h_5 _ _ modified place =>
      obtain rfl := Option.some.inj taken
      intro _ waiting
      obtain ⟨backlog, edge⟩ := epollMod_edge s modified
      exact edge (alert.edge (.inr place) (backlog ▸ waiting))
  case h_6 => cases taken

/-- Every call of `handNewConn` returns after `EAGAIN`, exactly if no other result ends one. Then
    no connection waits for another one to come. -/
theorem drained_iff (steps : List AcceptStep) (s : Acceptor)
    (ran : (acceptor numThreads).run (acceptor numThreads).init steps = some s)
    (unblocks : ∀ step ∈ steps, step ≠ .setSocketNonBlocking false) :
    (s.Drained ↔ ∀ step ∈ steps, step.Drains) ∧
      ((∀ step ∈ steps, step.Drains ∧ step.Heard) → s.place = .polling → 0 < s.backlog →
        (s.report { epollin := true }).isSome) := by
  constructor
  · have begun : Judged (acceptor numThreads).init True :=
      ⟨List.not_mem_nil, iff_of_true (fun call member => absurd member List.not_mem_nil) trivial⟩
    exact (begun.run unblocks ran).calls.trans (and_iff_right trivial)
  · intro fine place waiting
    have begun : Alert (acceptor numThreads).init :=
      ⟨accounted_init numThreads, fun _ waiting => absurd waiting (Nat.lt_irrefl 0)⟩
    have guarded := Machine.Guarded.of_actions (M := acceptor numThreads)
      (C := fun step => step ≠ .setSocketNonBlocking false ∧ step.Drains ∧ step.Heard)
      (fun step member => ⟨unblocks step member, fine step member⟩) (acceptor numThreads).init
    have alert := Machine.Guarded.preserves
      (fun _ _ _ alert fine taken => Alert.step alert fine.1 fine.2.1 fine.2.2 taken)
      begun guarded ran
    exact alert.report place waiting

theorem drained_crowded : ∃ s, (acceptor 4).run (acceptor 4).init crowded = some s ∧ s.Drained := by
  obtain ⟨s, ran⟩ := Option.isSome_iff_exists.mp
    (show ((acceptor 4).run (acceptor 4).init crowded).isSome by decide)
  refine ⟨s, ran, (drained_iff crowded s ran ?_).1.mpr ?_⟩
  · decide
  · intro step member
    simp only [crowded, List.mem_cons, List.not_mem_nil, or_false] at member
    rcases member with rfl | rfl | rfl | rfl | rfl | rfl | rfl | rfl <;>
      simp [AcceptStep.Drains, Server.MAXFDS]

/-- A signal interrupts `accept`. The connection in the backlog waits, and is not reported. -/
theorem interrupted : ∃ s, (acceptor 4).run (acceptor 4).init
    [.arrive, .report { epollin := true }, .accept .EINTR, .conclude true] = some s ∧
      s.place = .polling ∧ s.backlog = 1 ∧ s.edge = false ∧ ¬ s.Drained := by
  refine ⟨_, rfl, rfl, rfl, rfl, fun drained => ?_⟩
  exact absurd (drained [.EINTR] (by decide)) (by decide)

end Acceptor

end Corio.Epoll
