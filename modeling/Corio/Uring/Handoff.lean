import Corio.Uring.Shutdown

/-! # Handing connections to workers

`accept_loop` on the acceptor's scheduler, the closures it posts, and the queues of the
schedulers, interleaved at each access to a queue or a flag. Each machine step is a step of
`httpServer`, or none of its business.
-/

namespace Corio.Uring

/-- Where a thread is between two tests of `running_`. -/
inductive DrainPc where
  /-- In `drain_posts`, at the lock. -/
  | swappingPosts
  | callingPosts
  /-- In `drain_ready`, at the lock. -/
  | swappingReady
  | resumingReady
  /-- Behind both of them, at the ring. -/
  | harvesting
  deriving DecidableEq, Repr

/-- A coroutine in a ready queue. -/
inductive Resumable where
  | acceptLoop
  | handleConnection (fd : Nat)
  deriving DecidableEq, Repr

/-- The queues of a scheduler. A posted closure is given by the descriptor it captures;
    the worker it captures is the one it is posted to. -/
structure Scheduler where
  drain : DrainPc
  posts : List Nat
  /-- `local` in `drain_posts`. -/
  calling : List Nat
  ready : List Resumable
  /-- `local` in `drain_ready`, from the item that runs. -/
  resuming : List Resumable
  deriving DecidableEq, Repr

/-- Where `accept_loop` is. -/
inductive AcceptPc (workers : Nat) where
  | unstarted
  /-- At the test of `running_`. -/
  | testing
  /-- Suspended in `async_accept`. -/
  | accepting
  /-- Completed with this result, and not resumed yet. -/
  | accepted (res : Int)
  /-- At `worker->post`. -/
  | posting (worker : Fin workers) (fd : Nat)
  | catching
  | ended
  deriving DecidableEq, Repr

structure Handoff (workers : Nat) where
  server : HttpServer workers
  scheduler : Sched workers → Scheduler
  /-- `accept_loop` is in the acceptor's queue. -/
  launched : Bool
  accept : AcceptPc workers
  nextWorker : Nat
  /-- Descriptors that `async_accept` returned, with the schedulers they were meant for. -/
  obtained : List (Sched workers × Nat)
  /-- Descriptors whose `handle_connection` was resumed, with the schedulers that did it. -/
  begun : List (Sched workers × Nat)

namespace Handoff

variable {workers : Nat}

def setScheduler (s : Handoff workers) (who : Sched workers) (q : Scheduler) : Handoff workers :=
  { s with scheduler := Function.update s.scheduler who q }

/-- What `accept_loop` does where it is resumed, up to its next access. `submitted` says
    whether the submission in `await_suspend` succeeds. -/
def acceptStep [NeZero workers] (s : Handoff workers) (who : Sched workers)
    (rest : List Resumable) (submitted : Bool) : Option (Handoff workers) :=
  let left := s.setScheduler who { s.scheduler who with resuming := rest }
  match s.accept with
  | .unstarted => some { s with accept := .testing }
  | .testing =>
      if s.server.serving then
        if submitted then some { left with accept := .accepting }
        else some { s with accept := .catching }
      else some { left with accept := .ended }
  | .accepted res =>
      if res < 0 then some { s with accept := .catching }
      else
        let worker := Fin.ofNat workers (s.nextWorker % 2 ^ 64)
        some { s with accept := .posting worker res.toNat, nextWorker := s.nextWorker + 1,
                      obtained := s.obtained ++ [(some worker, res.toNat)] }
  | .posting worker fd =>
      let q := s.scheduler (some worker)
      some { s.setScheduler (some worker) { q with posts := q.posts ++ [fd] } with
             accept := .testing }
  | .catching =>
      if s.server.serving then some { s with accept := .testing }
      else some { left with accept := .ended }
  | .accepting | .ended => none

/-- A thread moves on in `HttpServer` terms. -/
def runServer (s : Handoff workers) (who : Sched workers) : Option (Handoff workers) :=
  (s.server.runStep who).map fun server => { s with server := server }

/-- The next access of a thread between two tests of `running_`. -/
def drainStep [NeZero workers] (s : Handoff workers) (who : Sched workers) (submitted : Bool) :
    Option (Handoff workers) :=
  let q := s.scheduler who
  match q.drain with
  | .swappingPosts =>
      some (s.setScheduler who { q with drain := .callingPosts, posts := [], calling := q.posts })
  | .callingPosts =>
      match q.calling with
      | [] => some (s.setScheduler who { q with drain := .swappingReady })
      | fd :: rest =>
          some (s.setScheduler who
            { q with calling := rest, ready := q.ready ++ [.handleConnection fd] })
  | .swappingReady =>
      some (s.setScheduler who { q with drain := .resumingReady, ready := [], resuming := q.ready })
  | .resumingReady =>
      match q.resuming with
      | [] =>
          if s.server.thread who = .looping then
            some (s.setScheduler who { q with drain := .harvesting })
          else s.runServer who
      | .handleConnection fd :: rest =>
          some { s.setScheduler who { q with resuming := rest } with
                 begun := s.begun ++ [(who, fd)] }
      | .acceptLoop :: rest => s.acceptStep who rest submitted
  | .harvesting => s.runServer who

def runStep [NeZero workers] (s : Handoff workers) (who : Sched workers) (submitted : Bool) :
    Option (Handoff workers) :=
  match s.server.thread who with
  | .unborn | .exited => none
  | .entering => s.runServer who
  | .testing =>
      s.setScheduler who { s.scheduler who with drain := .swappingPosts } |>.runServer who
  | .looping | .draining => s.drainStep who submitted

/-- `start` hands `accept_loop` to the acceptor when all threads are created. -/
def callerStep (s : Handoff workers) : Option (Handoff workers) :=
  if s.server.caller = .started ∧ s.launched = false then
    let q := s.scheduler none
    some { s.setScheduler none { q with ready := q.ready ++ [.acceptLoop] } with launched := true }
  else s.server.callerStep.map fun server => { s with server := server }

/-- `handle_cqe` for the accept operation. -/
def completeStep (s : Handoff workers) (res : Int) : Option (Handoff workers) :=
  let q := s.scheduler none
  if s.server.thread none = .looping ∧ q.drain = .harvesting ∧ s.accept = .accepting then
    some { s.setScheduler none { q with ready := q.ready ++ [.acceptLoop] } with
           accept := .accepted res }
  else none

end Handoff

inductive HandoffStep (workers : Nat) where
  | caller
  | run (who : Sched workers) (submitted : Bool)
  | complete (res : Int)
  deriving DecidableEq, Repr

def handoff (workers : Nat) [NeZero workers] :
    Machine (Handoff workers) (HandoffStep workers) where
  init := ⟨(httpServer workers).init, fun _ => ⟨.swappingPosts, [], [], [], []⟩, false, .unstarted,
    0, [], []⟩
  step s action :=
    match action with
    | .caller => s.callerStep
    | .run who submitted => s.runStep who submitted
    | .complete res => s.completeStep res

variable {workers : Nat}

namespace HttpServer

/-- The threads that were joined have come to their end. -/
def Joined (s : HttpServer workers) : Prop :=
  match s.caller with
  | .joinWorkers i =>
      s.thread none = .exited ∧
        ∀ worker : Fin workers, worker < i → s.thread (some worker) = .exited
  | .joined => ∀ who, s.thread who = .exited
  | _ => True

theorem exited_step {s s' : HttpServer workers} {who : Sched workers} (other : Sched workers)
    (taken : s.runStep who = some s') (exited : s.thread other = .exited) :
    s'.thread other = .exited := by
  have apart : other ≠ who := by
    rintro rfl
    simp [runStep, exited] at taken
  exact ((runStep_spec taken).others other apart).1.trans exited

theorem joined_step (s : HttpServer workers) (action : ServerStep workers)
    (s' : HttpServer workers) (joined : s.Joined)
    (taken : (httpServer workers).step s action = some s') : s'.Joined := by
  cases action with
  | run who =>
      have stays := fun other => exited_step other taken
      unfold Joined at joined ⊢
      rw [(runStep_spec taken).caller]
      split at joined
      · exact ⟨stays none joined.1, fun worker below => stays _ (joined.2 worker below)⟩
      · exact fun other => stays other (joined other)
      · trivial
  | caller =>
      simp only [httpServer, callerStep] at taken
      split at taken
      case h_6 caller =>
        simp only [Option.ite_none_right_eq_some, Option.some.injEq] at taken
        obtain ⟨exited, rfl⟩ := taken
        exact ⟨exited, fun worker below => absurd below (Nat.not_lt_zero _)⟩
      case h_7 i caller =>
        simp only [Joined, caller] at joined
        split at taken
        case isTrue below =>
          simp only [Option.ite_none_right_eq_some, Option.some.injEq] at taken
          obtain ⟨exited, rfl⟩ := taken
          refine ⟨joined.1, fun worker inside => ?_⟩
          rcases Nat.lt_succ_iff_lt_or_eq.mp inside with earlier | rfl
          · exact joined.2 worker earlier
          · exact exited
        case isFalse last =>
          obtain rfl := Option.some.inj taken
          rintro (_ | worker)
          · exact joined.1
          · exact joined.2 worker (by omega)
      case h_8 => cases taken
      case h_4 => exact Option.some.inj taken ▸ trivial
      all_goals split at taken <;> exact Option.some.inj taken ▸ trivial

theorem joined_reached {s : HttpServer workers} (reached : (httpServer workers).Reachable s) :
    s.Joined :=
  reached.induct trivial joined_step

/-- Threads that the caller has not created yet are not there. -/
def Fresh (s : HttpServer workers) : Prop := ∀ who, ¬ s.Born who → s.thread who = .unborn

/-- All the calling thread does to the others is to create them. -/
theorem Fresh.callerStep {s s' : HttpServer workers} (fresh : s.Fresh)
    (taken : s.callerStep = some s') :
    s'.Fresh ∧ ∀ who, s'.thread who = s.thread who ∨
      s.thread who = .unborn ∧ s'.thread who = .entering := by
  simp only [HttpServer.callerStep] at taken
  split at taken
  case h_1 caller =>
    have none : ∀ who, s.thread who = .unborn := fun who => fresh who (by simp [Born, caller])
    split at taken <;> obtain rfl := Option.some.inj taken
    · exact ⟨fun who _ => none who, fun who => .inl rfl⟩
    · exact ⟨fun who _ => none who, fun who => .inl rfl⟩
  case h_2 i caller =>
    split at taken
    case isTrue below =>
      obtain rfl := Option.some.inj taken
      have here : s.thread (some ⟨i, below⟩) = .unborn := fresh _ (by simp [Born, caller])
      refine ⟨fun who young => ?_, fun who => ?_⟩
      · have apart : who ≠ some ⟨i, below⟩ := by
          rintro rfl
          exact young (Nat.lt_succ_self i)
        refine (Function.update_of_ne apart _ _).trans (fresh who fun born => young ?_)
        cases who with
        | none => simp [Born, caller] at born
        | some worker =>
            simp only [Born, caller] at born
            exact Nat.lt_succ_of_lt born
      · by_cases same : who = some ⟨i, below⟩
        · exact .inr ⟨same ▸ here, by simp [same, goto, setThread]⟩
        · exact .inl (Function.update_of_ne same _ _)
    case isFalse last =>
      obtain rfl := Option.some.inj taken
      have here : s.thread none = .unborn := fresh _ (by simp [Born, caller])
      refine ⟨fun who young => absurd trivial young, fun who => ?_⟩
      by_cases same : who = none
      · exact .inr ⟨same ▸ here, by simp [same, goto, setThread]⟩
      · exact .inl (Function.update_of_ne same _ _)
  case h_4 =>
    exact Option.some.inj taken ▸ ⟨fun who young => absurd trivial young, fun who => .inl rfl⟩
  case h_3 | h_5 | h_6 =>
    split at taken
    all_goals first
      | exact Option.some.inj taken ▸ ⟨fun who young => absurd trivial young, fun who => .inl rfl⟩
      | cases taken
  case h_7 =>
    split at taken
    · simp only [Option.ite_none_right_eq_some, Option.some.injEq] at taken
      exact taken.2 ▸ ⟨fun who young => absurd trivial young, fun who => .inl rfl⟩
    · exact Option.some.inj taken ▸ ⟨fun who young => absurd trivial young, fun who => .inl rfl⟩
  case h_8 => cases taken

theorem fresh_step (s : HttpServer workers) (action : ServerStep workers)
    (s' : HttpServer workers) (fresh : s.Fresh)
    (taken : (httpServer workers).step s action = some s') : s'.Fresh := by
  cases action with
  | caller => exact (fresh.callerStep taken).1
  | run who =>
      have spec := runStep_spec taken
      intro other young
      have before : s.thread other = .unborn := fresh other (by
        simpa only [Born, spec.caller] using young)
      by_cases same : other = who
      · exact absurd (same ▸ before) spec.born
      · exact (spec.others other same).1.trans before

theorem fresh_reached {s : HttpServer workers} (reached : (httpServer workers).Reachable s) :
    s.Fresh :=
  reached.induct (fun _ _ => rfl) fresh_step

end HttpServer

/-- Nothing is left in this queue of a scheduler between two rounds but posts. -/
structure Scheduler.Tidy (q : Scheduler) : Prop where
  calling : q.calling = []
  resuming : q.resuming = []
  ready : ∀ fd, .handleConnection fd ∉ q.ready

/-- What a scheduler holds within a round. -/
def Scheduler.InRound (q : Scheduler) : Prop :=
  match q.drain with
  | .swappingPosts | .harvesting => q.Tidy
  | .callingPosts => q.resuming = []
  | .swappingReady => q.calling = [] ∧ q.resuming = []
  | .resumingReady => q.calling = [] ∧ ∀ fd, .handleConnection fd ∉ q.ready

/-- The thread is between two tests of `running_`. -/
def RunPc.InLoop (thread : RunPc) : Prop := thread = .looping ∨ thread = .draining

def Scheduler.Phase (q : Scheduler) (thread : RunPc) : Prop :=
  (thread.InLoop → q.InRound) ∧ (¬ thread.InLoop → q.Tidy)

/-- Posts and other items than connections may come in at any time. -/
theorem Scheduler.Phase.joined {q : Scheduler} {thread : RunPc} (phase : q.Phase thread)
    {posts : List Nat} {ready : List Resumable}
    (same : ∀ fd, .handleConnection fd ∈ ready → .handleConnection fd ∈ q.ready) :
    ({ q with posts := posts, ready := ready } : Scheduler).Phase thread := by
  have tidy : q.Tidy → ({ q with posts := posts, ready := ready } : Scheduler).Tidy := fun tidy =>
    ⟨tidy.calling, tidy.resuming, fun fd member => tidy.ready fd (same fd member)⟩
  refine ⟨fun inside => ?_, fun outside => tidy (phase.2 outside)⟩
  have round := phase.1 inside
  obtain ⟨drain, _, _, _, _⟩ := q
  cases drain with
  | swappingPosts | harvesting => exact tidy round
  | callingPosts | swappingReady => exact round
  | resumingReady => exact ⟨round.1, fun fd member => round.2 fd (same fd member)⟩

/-- How often a scheduler holds a descriptor. -/
def Scheduler.held (q : Scheduler) (fd : Nat) : Nat :=
  q.posts.count fd + q.calling.count fd + q.ready.count (.handleConnection fd) +
    q.resuming.count (.handleConnection fd)

namespace AcceptPc

/-- `accept_loop` is running. -/
def Active : AcceptPc workers → Prop
  | .testing | .posting _ _ | .catching => True
  | _ => False

/-- How often `accept_loop` is at the post of this descriptor. -/
def held (accept : AcceptPc workers) (who : Sched workers) (fd : Nat) : Nat :=
  match accept with
  | .posting worker client => if some worker = who ∧ client = fd then 1 else 0
  | _ => 0

end AcceptPc

namespace Handoff

structure Sound (s : Handoff workers) : Prop where
  reached : (httpServer workers).Reachable s.server
  counted : ∀ who fd, s.obtained.count (who, fd) =
    s.begun.count (who, fd) + (s.scheduler who).held fd + s.accept.held who fd
  phase : ∀ who, (s.scheduler who).Phase (s.server.thread who)
  placed : ∀ worker, .acceptLoop ∉ (s.scheduler (some worker)).ready ∧
    .acceptLoop ∉ (s.scheduler (some worker)).resuming
  running : s.accept.Active → (s.server.thread none).InLoop ∧
    (s.scheduler none).drain = .resumingReady ∧ (s.scheduler none).resuming.head? = some .acceptLoop

variable {s s' : Handoff workers}

/-- A step on the queues of one scheduler that keeps the descriptors. -/
theorem Sound.setScheduler (sound : s.Sound) {who : Sched workers} {q : Scheduler}
    (held : ∀ fd, q.held fd = (s.scheduler who).held fd) (phase : q.Phase (s.server.thread who))
    (placed : who ≠ none → .acceptLoop ∉ q.ready ∧ .acceptLoop ∉ q.resuming)
    (running : who = none → s.accept.Active → (s.server.thread none).InLoop ∧
      q.drain = .resumingReady ∧ q.resuming.head? = some .acceptLoop) :
    (s.setScheduler who q).Sound := by
  refine ⟨sound.reached, fun other fd => ?_, fun other => ?_, fun worker => ?_, fun active => ?_⟩
  · have counted := sound.counted other fd
    by_cases same : other = who
    · subst same
      simpa only [Handoff.setScheduler, Function.update_self, held] using counted
    · simpa only [Handoff.setScheduler, Function.update_of_ne same] using counted
  · by_cases same : other = who
    · subst same
      simpa only [Handoff.setScheduler, Function.update_self] using phase
    · simpa only [Handoff.setScheduler, Function.update_of_ne same] using sound.phase other
  · by_cases same : some worker = who
    · subst same
      simpa only [Handoff.setScheduler, Function.update_self] using placed (Option.some_ne_none _)
    · simpa only [Handoff.setScheduler, Function.update_of_ne same] using sound.placed worker
  · by_cases same : none = who
    · subst same
      simpa only [Handoff.setScheduler, Function.update_self] using running rfl active
    · simpa only [Handoff.setScheduler, Function.update_of_ne same] using sound.running active

/-- A step of `accept_loop` to a point where it is at no post, and neither was. -/
theorem Sound.setAccept (sound : s.Sound) {accept : AcceptPc workers}
    (same : ∀ who fd, accept.held who fd = s.accept.held who fd)
    (running : accept.Active → (s.server.thread none).InLoop ∧
      (s.scheduler none).drain = .resumingReady ∧
      (s.scheduler none).resuming.head? = some .acceptLoop) :
    ({ s with accept := accept } : Handoff workers).Sound :=
  ⟨sound.reached, fun who fd => (same who fd).symm ▸ sound.counted who fd, sound.phase,
    sound.placed, running⟩

/-- A step in `run` that leaves the queues alone. -/
theorem Sound.runServer (sound : s.Sound) {who : Sched workers} (taken : s.runServer who = some s')
    (phase : ∀ next, s.server.runStep who = some next →
      (s.scheduler who).Phase (next.thread who))
    (idle : who = none → ¬ s.accept.Active) : s'.Sound := by
  simp only [Handoff.runServer, Option.map_eq_some_iff] at taken
  obtain ⟨server, moved, rfl⟩ := taken
  have spec := HttpServer.runStep_spec moved
  refine ⟨sound.reached.step (a := .run who) moved, sound.counted, fun other => ?_, sound.placed,
    fun active => ?_⟩
  · by_cases same : other = who
    · exact same ▸ phase server moved
    · rw [(spec.others other same).1]
      exact sound.phase other
  · have apart : none ≠ who := fun same => idle same.symm active
    simpa only [(spec.others none apart).1] using sound.running active

/-- `accept_loop` is not running anywhere but at the head of the acceptor's queue. -/
theorem Sound.idle (sound : s.Sound) {who : Sched workers} {P : Prop}
    (elsewhere : ¬ ((s.server.thread who).InLoop ∧ (s.scheduler who).drain = .resumingReady ∧
      (s.scheduler who).resuming.head? = some .acceptLoop)) :
    who = none → s.accept.Active → P :=
  fun same active => absurd (same ▸ sound.running active) elsewhere

/-- A thread leaves its round for the test of `running_`, or for good. -/
theorem leaves_loop {server next : HttpServer workers} {who : Sched workers}
    (inside : (server.thread who).InLoop) (moved : server.runStep who = some next) :
    ¬ (next.thread who).InLoop := by
  rcases inside with pc | pc <;>
  · simp only [HttpServer.runStep, pc, Option.some.injEq] at moved
    simp [← moved, HttpServer.setThread, RunPc.InLoop]

theorem Sound.begin (sound : s.Sound) {who : Sched workers} {fd : Nat} {rest : List Resumable}
    (inside : (s.server.thread who).InLoop) (drain : (s.scheduler who).drain = .resumingReady)
    (next : (s.scheduler who).resuming = .handleConnection fd :: rest) :
    ({ s.setScheduler who { s.scheduler who with resuming := rest } with
       begun := s.begun ++ [(who, fd)] } : Handoff workers).Sound := by
  have round := (sound.phase who).1 inside
  simp only [Scheduler.InRound, drain] at round
  refine ⟨sound.reached, fun other fd' => ?_, fun other => ?_, fun worker => ?_, fun active => ?_⟩
  · have counted := sound.counted other fd'
    by_cases same : other = who
    · subst same
      simp only [Handoff.setScheduler, Function.update_self, Scheduler.held, next,
        List.count_append, List.count_cons, List.count_nil] at counted ⊢
      simp at counted ⊢
      omega
    · have apart : ¬ who = other := fun same' => same same'.symm
      simpa [Handoff.setScheduler, Function.update_of_ne same, List.count_cons, apart] using counted
  · by_cases same : other = who
    · subst same
      simp only [Handoff.setScheduler, Function.update_self]
      exact ⟨fun _ => by simpa only [Scheduler.InRound, drain] using round, absurd inside⟩
    · simpa only [Handoff.setScheduler, Function.update_of_ne same] using sound.phase other
  · have placed := sound.placed worker
    by_cases same : some worker = who
    · subst same
      simp only [Handoff.setScheduler, Function.update_self]
      simpa [next] using placed
    · simpa only [Handoff.setScheduler, Function.update_of_ne same] using placed
  · have running := sound.running active
    have apart : none ≠ who := by
      rintro rfl
      simp [next] at running
    simpa only [Handoff.setScheduler, Function.update_of_ne apart] using running

/-- The acceptor is put into the ready queue of the main scheduler. -/
theorem Sound.readyAcceptor (sound : s.Sound) :
    (s.setScheduler none { s.scheduler none with
      ready := (s.scheduler none).ready ++ [.acceptLoop] }).Sound :=
  sound.setScheduler (fun fd => by simp [Scheduler.held]) ((sound.phase none).joined (by simp))
    (absurd rfl) fun _ => sound.running

theorem Sound.callerStep (sound : s.Sound) (taken : s.callerStep = some s') : s'.Sound := by
  simp only [Handoff.callerStep] at taken
  split at taken
  · obtain rfl := Option.some.inj taken
    have launch := sound.readyAcceptor
    exact ⟨launch.reached, launch.counted, launch.phase, launch.placed, launch.running⟩
  · simp only [Option.map_eq_some_iff] at taken
    obtain ⟨server, moved, rfl⟩ := taken
    obtain ⟨-, threads⟩ := (HttpServer.fresh_reached sound.reached).callerStep moved
    refine ⟨sound.reached.step (a := .caller) moved, sound.counted, fun who => ?_, sound.placed,
      fun active => ?_⟩
    · have phase := sound.phase who
      rcases threads who with same | ⟨unborn, entering⟩
      · exact same ▸ phase
      · have tidy := phase.2 (by simp [unborn, RunPc.InLoop])
        exact ⟨fun inside => by simp [entering, RunPc.InLoop] at inside, fun _ => tidy⟩
    · have running := sound.running active
      rcases threads none with same | ⟨unborn, -⟩
      · exact same ▸ running
      · simp [unborn, RunPc.InLoop] at running

theorem Sound.completeStep (sound : s.Sound) {res : Int} (taken : s.completeStep res = some s') :
    s'.Sound := by
  simp only [Handoff.completeStep, Option.ite_none_right_eq_some, Option.some.injEq] at taken
  obtain ⟨⟨-, drain, accept⟩, rfl⟩ := taken
  exact sound.readyAcceptor.setAccept
    (by simp [Handoff.setScheduler, accept, AcceptPc.held]) False.elim

variable [NeZero workers]

theorem Sound.acceptStep (sound : s.Sound) {who : Sched workers} {submitted : Bool}
    {rest : List Resumable} (inside : (s.server.thread who).InLoop)
    (drain : (s.scheduler who).drain = .resumingReady)
    (next : (s.scheduler who).resuming = .acceptLoop :: rest)
    (taken : s.acceptStep who rest submitted = some s') : s'.Sound := by
  obtain rfl : who = none := by
    cases who with
    | none => rfl
    | some worker => exact absurd (sound.placed worker).2 (by simp [next])
  have round := (sound.phase none).1 inside
  simp only [Scheduler.InRound, drain] at round
  have here : (s.server.thread none).InLoop ∧ (s.scheduler none).drain = .resumingReady ∧
      (s.scheduler none).resuming.head? = some .acceptLoop := ⟨inside, drain, by simp [next]⟩
  have left : ∀ accept : AcceptPc workers, ¬ accept.Active →
      (∀ who fd, accept.held who fd = s.accept.held who fd) →
      ({ s.setScheduler none { s.scheduler none with resuming := rest } with accept := accept } :
        Handoff workers).Sound := by
    intro accept suspended same
    refine (sound.setAccept same fun active => absurd active suspended).setScheduler (fun fd => ?_)
      ⟨fun _ => ?_, absurd inside⟩ (absurd rfl) (fun _ active => absurd active suspended)
    · simp [Scheduler.held, next]
    · simpa only [Scheduler.InRound, drain] using round
  simp only [Handoff.acceptStep] at taken
  split at taken
  case h_1 accept =>
    exact Option.some.inj taken ▸ sound.setAccept (by simp [accept, AcceptPc.held]) fun _ => here
  case h_2 accept =>
    split at taken
    · split at taken
      · exact Option.some.inj taken ▸ left _ not_false (by simp [accept, AcceptPc.held])
      · exact Option.some.inj taken ▸
          sound.setAccept (by simp [accept, AcceptPc.held]) fun _ => here
    · exact Option.some.inj taken ▸ left _ not_false (by simp [accept, AcceptPc.held])
  case h_3 res accept =>
    split at taken
    · exact Option.some.inj taken ▸ sound.setAccept (by simp [accept, AcceptPc.held]) fun _ => here
    · obtain rfl := Option.some.inj taken
      refine ⟨sound.reached, fun who fd => ?_, sound.phase, sound.placed, fun _ => here⟩
      have counted := sound.counted who fd
      simp only [accept, AcceptPc.held] at counted
      simp only [List.count_append, counted, AcceptPc.held, List.count_cons, List.count_nil]
      simp
  case h_4 worker fd accept =>
    obtain rfl := Option.some.inj taken
    refine ⟨sound.reached, fun other client => ?_, fun other => ?_, fun other => ?_, fun _ => ?_⟩
    · have counted := sound.counted other client
      simp only [accept, AcceptPc.held] at counted ⊢
      by_cases same : other = some worker
      · subst same
        simp only [counted, Handoff.setScheduler, Function.update_self, Scheduler.held,
          List.count_append, List.count_cons, List.count_nil]
        simp
        omega
      · have apart : ¬ some worker = other := fun same' => same same'.symm
        simpa [Handoff.setScheduler, Function.update_of_ne same, apart] using counted
    · by_cases same : other = some worker
      · subst same
        simpa only [Handoff.setScheduler, Function.update_self] using
          (sound.phase (some worker)).joined fun _ => id
      · simpa only [Handoff.setScheduler, Function.update_of_ne same] using sound.phase other
    · by_cases same : some other = some worker
      · obtain rfl := Option.some.inj same
        simpa only [Handoff.setScheduler, Function.update_self] using sound.placed other
      · simpa only [Handoff.setScheduler, Function.update_of_ne same] using sound.placed other
    · exact here
  case h_5 accept =>
    split at taken
    · exact Option.some.inj taken ▸ sound.setAccept (by simp [accept, AcceptPc.held]) fun _ => here
    · exact Option.some.inj taken ▸ left _ not_false (by simp [accept, AcceptPc.held])
  case h_6 | h_7 => cases taken

theorem Sound.drainStep (sound : s.Sound) {who : Sched workers} {submitted : Bool}
    (inside : (s.server.thread who).InLoop) (taken : s.drainStep who submitted = some s') :
    s'.Sound := by
  have round := (sound.phase who).1 inside
  have placed : who ≠ none → .acceptLoop ∉ (s.scheduler who).ready ∧
      .acceptLoop ∉ (s.scheduler who).resuming := by
    cases who with
    | none => exact fun apart => absurd rfl apart
    | some worker => exact fun _ => sound.placed worker
  simp only [Handoff.drainStep] at taken
  simp only [Scheduler.InRound] at round
  split at taken
  case h_1 drain =>
    obtain rfl := Option.some.inj taken
    simp only [drain] at round
    refine sound.setScheduler (fun fd => ?_) ⟨fun _ => round.resuming, absurd inside⟩ placed
      (sound.idle (by simp [drain]))
    simp [Scheduler.held, round.calling]
  case h_2 drain =>
    simp only [drain] at round
    split at taken
    case h_1 called =>
      obtain rfl := Option.some.inj taken
      exact sound.setScheduler (fun _ => rfl) ⟨fun _ => ⟨called, round⟩, absurd inside⟩ placed
        (sound.idle (by simp [drain]))
    case h_2 fd rest called =>
      obtain rfl := Option.some.inj taken
      refine sound.setScheduler (fun other => ?_) ⟨fun _ => ?_, absurd inside⟩ ?_
        (sound.idle (by simp [drain]))
      · simp only [Scheduler.held, called, List.count_append, List.count_cons, List.count_nil]
        simp
        omega
      · simpa only [Scheduler.InRound, drain] using round
      · simpa using placed
  case h_3 drain =>
    obtain rfl := Option.some.inj taken
    simp only [drain] at round
    refine sound.setScheduler (fun fd => ?_) ⟨fun _ => ⟨round.1, by simp⟩, absurd inside⟩ ?_
      (sound.idle (by simp [drain]))
    · simp [Scheduler.held, round.2]
    · exact fun apart => ⟨by simp, (placed apart).1⟩
  case h_4 drain =>
    simp only [drain] at round
    split at taken
    case h_1 done =>
      have tidy : (s.scheduler who).Tidy := ⟨round.1, done, round.2⟩
      split at taken
      · obtain rfl := Option.some.inj taken
        refine sound.setScheduler (fun _ => rfl) ⟨fun _ => ?_, absurd inside⟩ placed
          (sound.idle (by simp [done]))
        exact ⟨tidy.calling, tidy.resuming, tidy.ready⟩
      · refine sound.runServer taken (fun next moved => ?_) (sound.idle (by simp [done]))
        exact ⟨fun again => absurd again (leaves_loop inside moved), fun _ => tidy⟩
    case h_2 fd rest next =>
      exact Option.some.inj taken ▸ sound.begin inside drain next
    case h_3 rest next => exact sound.acceptStep inside drain next taken
  case h_5 drain =>
    refine sound.runServer taken (fun next moved => ?_) (sound.idle (by simp [drain]))
    simp only [drain] at round
    exact ⟨fun again => absurd again (leaves_loop inside moved), fun _ => round⟩

theorem Sound.runStep (sound : s.Sound) {who : Sched workers} {submitted : Bool}
    (taken : s.runStep who submitted = some s') : s'.Sound := by
  have phase := sound.phase who
  have outside : ∀ {thread : RunPc}, s.server.thread who = thread → ¬ thread.InLoop →
      (s.scheduler who).Tidy ∧ ∀ {P : Prop}, who = none → s.accept.Active → P :=
    fun pc away => ⟨phase.2 (pc ▸ away), sound.idle fun here => away (pc ▸ here.1)⟩
  simp only [Handoff.runStep] at taken
  split at taken
  case h_1 | h_2 => cases taken
  case h_3 pc =>
    obtain ⟨tidy, idle⟩ := outside pc (by simp [RunPc.InLoop])
    refine sound.runServer taken (fun next moved => ⟨fun inside => ?_, fun _ => tidy⟩) idle
    simp only [HttpServer.runStep, pc, Option.some.injEq] at moved
    simp [← moved, HttpServer.setThread, RunPc.InLoop] at inside
  case h_4 pc =>
    obtain ⟨tidy, idle⟩ := outside pc (by simp [RunPc.InLoop])
    have fresh : ({ s.scheduler who with drain := .swappingPosts } : Scheduler).Tidy :=
      ⟨tidy.calling, tidy.resuming, tidy.ready⟩
    have ready := sound.setScheduler (q := { s.scheduler who with drain := .swappingPosts })
      (fun _ => rfl) ⟨fun inside => by simp [pc, RunPc.InLoop] at inside, fun _ => fresh⟩ ?_ idle
    · refine ready.runServer taken (fun next moved => ?_) idle
      simp only [Handoff.setScheduler, Function.update_self]
      exact ⟨fun _ => fresh, fun _ => fresh⟩
    · cases who with
      | none => exact fun apart => absurd rfl apart
      | some worker => exact fun _ => sound.placed worker
  case h_5 pc => exact sound.drainStep (.inl pc) taken
  case h_6 pc => exact sound.drainStep (.inr pc) taken

theorem Sound.init : (handoff workers).init.Sound := by
  have tidy : ((handoff workers).init.scheduler none).Tidy := ⟨rfl, rfl, by simp [handoff]⟩
  exact ⟨.init, fun who fd => by simp [handoff, Scheduler.held, AcceptPc.held],
    fun who => ⟨fun _ => tidy, fun _ => tidy⟩, fun _ => by simp [handoff], False.elim⟩

theorem Sound.step (s : Handoff workers) (action : HandoffStep workers) (s' : Handoff workers)
    (sound : s.Sound) (taken : (handoff workers).step s action = some s') : s'.Sound := by
  cases action with
  | caller => exact sound.callerStep taken
  | run who submitted => exact sound.runStep taken
  | complete res => exact sound.completeStep taken

end Handoff

end Corio.Uring
