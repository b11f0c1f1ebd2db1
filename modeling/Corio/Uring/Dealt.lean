import Corio.Uring.Handoff
import Corio.Foundation.RoundRobin

/-! # In what order connections are begun

`accept_loop` deals connections to the workers in turn, and a worker begins those it is dealt
in the order in which they were accepted. What it has waits for two of its own rounds at most,
whatever the other threads do.
-/

namespace Corio.Uring

variable {workers : Nat}

/-- The descriptor of a coroutine for a connection. -/
def Resumable.fd? : Resumable → Option Nat
  | .acceptLoop => none
  | .handleConnection fd => some fd

/-- The descriptors that a scheduler holds, the next one to be begun in front. -/
def Scheduler.line (q : Scheduler) : List Nat :=
  q.resuming.filterMap Resumable.fd? ++ q.ready.filterMap Resumable.fd? ++ q.calling ++ q.posts

/-- What `accept_loop` is about to post to a scheduler. -/
def AcceptPc.inHand (accept : AcceptPc workers) (who : Sched workers) : List Nat :=
  match accept with
  | .posting worker fd => if some worker = who then [fd] else []
  | _ => []

/-- One step of a thread in `run`, on its place and its queues, with the descriptors that are
    begun. The steps of `accept_loop` are left out. -/
inductive RunMove : RunPc → Scheduler → RunPc → Scheduler → List Nat → Prop where
  | enter {q : Scheduler} : RunMove .entering q .testing q []
  | test {q : Scheduler} {next : RunPc} (inside : next.InLoop) :
      RunMove .testing q next { q with drain := .swappingPosts } []
  | swapPosts {pc : RunPc} {q : Scheduler} (inside : pc.InLoop) (drain : q.drain = .swappingPosts) :
      RunMove pc q pc { q with drain := .callingPosts, posts := [], calling := q.posts } []
  | call {pc : RunPc} {q : Scheduler} {fd : Nat} {rest : List Nat} (inside : pc.InLoop)
      (drain : q.drain = .callingPosts) (calling : q.calling = fd :: rest) :
      RunMove pc q pc { q with calling := rest, ready := q.ready ++ [.handleConnection fd] } []
  | called {pc : RunPc} {q : Scheduler} (inside : pc.InLoop) (drain : q.drain = .callingPosts)
      (calling : q.calling = []) : RunMove pc q pc { q with drain := .swappingReady } []
  | swapReady {pc : RunPc} {q : Scheduler} (inside : pc.InLoop) (drain : q.drain = .swappingReady) :
      RunMove pc q pc { q with drain := .resumingReady, ready := [], resuming := q.ready } []
  | begin {pc : RunPc} {q : Scheduler} {fd : Nat} {rest : List Resumable} (inside : pc.InLoop)
      (drain : q.drain = .resumingReady) (resuming : q.resuming = .handleConnection fd :: rest) :
      RunMove pc q pc { q with resuming := rest } [fd]
  | resumed {q : Scheduler} (drain : q.drain = .resumingReady) (resuming : q.resuming = []) :
      RunMove .looping q .looping { q with drain := .harvesting } []
  | harvest {q : Scheduler} (drain : q.drain = .harvesting) : RunMove .looping q .testing q []
  | leave {q : Scheduler} (drain : q.drain = .resumingReady ∧ q.resuming = [] ∨
      q.drain = .harvesting) : RunMove .draining q .exited q []

theorem RunMove.line {pc pc' : RunPc} {q q' : Scheduler} {fds : List Nat}
    (move : RunMove pc q pc' q' fds) (phase : q.Phase pc) : q.line = fds ++ q'.line := by
  have round := phase.1
  unfold Scheduler.InRound at round
  cases move with
  | enter | test | called | resumed | harvest | leave => rfl
  | swapPosts inside drain =>
      simp only [drain] at round
      simp [Scheduler.line, (round inside).calling]
  | call _ _ calling => simp [Scheduler.line, calling, Resumable.fd?]
  | swapReady inside drain =>
      simp only [drain] at round
      simp [Scheduler.line, (round inside).2]
  | begin _ _ resuming => simp [Scheduler.line, resuming, Resumable.fd?]

namespace Handoff

variable {s s' : Handoff workers} {who : Sched workers} {fd : Nat} {worker : Fin workers}
variable {rest : List Resumable} {submitted : Bool}

/-- The descriptors among these that are meant for a scheduler, or were begun by it. -/
def of (who : Sched workers) (fds : List (Sched workers × Nat)) : List Nat :=
  fds.filterMap fun (other, fd) => if other = who then some fd else none

@[simp] theorem of_append (first second : List (Sched workers × Nat)) :
    of who (first ++ second) = of who first ++ of who second := List.filterMap_append

@[simp] theorem of_single (other : Sched workers) (fd : Nat) :
    of who [(other, fd)] = if other = who then [fd] else [] := by
  by_cases same : other = who <;> simp [of, same]

theorem length_of (who : Sched workers) (fds : List (Sched workers × Nat)) :
    (of who fds).length = (fds.map Prod.fst).count who := by
  induction fds with
  | nil => rfl
  | cons first rest ih =>
      obtain ⟨other, fd⟩ := first
      by_cases same : other = who
      · subst same
        simp [of, ← ih]
      · simpa [of, same, List.count_cons] using ih

/-- What a thread's step in `run` does, with all that it leaves as it is. -/
structure Moved (s s' : Handoff workers) (who : Sched workers) : Prop where
  move : ∃ fds, RunMove (s.server.thread who) (s.scheduler who) (s'.server.thread who)
    (s'.scheduler who) fds ∧ s'.begun = s.begun ++ fds.map (who, ·)
  thread : ∀ other, other ≠ who → s'.server.thread other = s.server.thread other
  scheduler : ∀ other, other ≠ who → s'.scheduler other = s.scheduler other
  accept : s'.accept = s.accept
  nextWorker : s'.nextWorker = s.nextWorker
  obtained : s'.obtained = s.obtained

/-- A step between the queues of one scheduler. -/
theorem moved_setScheduler {q : Scheduler}
    (move : RunMove (s.server.thread who) (s.scheduler who) (s.server.thread who) q []) :
    Moved s (s.setScheduler who q) who := by
  refine ⟨⟨[], ?_, by simp [setScheduler]⟩, fun _ _ => rfl, fun other apart => ?_, rfl, rfl, rfl⟩
  · simpa only [setScheduler, Function.update_self] using move
  · exact Function.update_of_ne apart _ _

theorem moved_runServer (taken : s.runServer who = some s')
    (move : ∀ next, s.server.runStep who = some next →
      RunMove (s.server.thread who) (s.scheduler who) (next.thread who) (s.scheduler who) []) :
    Moved s s' who := by
  simp only [runServer, Option.map_eq_some_iff] at taken
  obtain ⟨server, stepped, rfl⟩ := taken
  have spec := HttpServer.runStep_spec stepped
  exact ⟨⟨[], move server stepped, by simp⟩, fun other apart => (spec.others other apart).1,
    fun _ _ => rfl, rfl, rfl, rfl⟩

variable [NeZero workers]

/-- Every step of a thread in `run` is one of these, or `accept_loop` is resumed. -/
theorem drainStep_moved (inside : (s.server.thread who).InLoop)
    (taken : s.drainStep who submitted = some s') :
    Moved s s' who ∨ ∃ rest, (s.scheduler who).resuming = .acceptLoop :: rest ∧
      s.acceptStep who rest submitted = some s' := by
  have leaves : ∀ next, s.server.runStep who = some next →
      s.server.thread who = .looping ∧ next.thread who = .testing ∨
        s.server.thread who = .draining ∧ next.thread who = .exited := by
    intro next stepped
    rcases inside with pc | pc <;>
    · simp only [HttpServer.runStep, pc, Option.some.injEq] at stepped
      simp [← stepped, HttpServer.setThread, pc]
  simp only [drainStep] at taken
  split at taken
  case h_1 drain =>
      exact .inl (Option.some.inj taken ▸ moved_setScheduler (.swapPosts inside drain))
  case h_2 drain =>
      left
      split at taken <;> obtain rfl := Option.some.inj taken
      case h_1 calling => exact moved_setScheduler (.called inside drain calling)
      case h_2 fd rest calling => exact moved_setScheduler (.call inside drain calling)
  case h_3 drain =>
      exact .inl (Option.some.inj taken ▸ moved_setScheduler (.swapReady inside drain))
  case h_4 drain =>
      split at taken
      case h_1 resuming =>
          left
          split at taken
          case isTrue looping =>
              obtain rfl := Option.some.inj taken
              exact moved_setScheduler (looping ▸ .resumed drain resuming)
          case isFalse over_ =>
              refine moved_runServer taken fun next stepped => ?_
              obtain ⟨looping, -⟩ | ⟨draining, exited⟩ := leaves next stepped
              · exact absurd looping over_
              · rw [draining, exited]
                exact .leave (.inl ⟨drain, resuming⟩)
      case h_2 fd rest resuming =>
          obtain rfl := Option.some.inj taken
          refine .inl ⟨⟨[fd], ?_, rfl⟩, fun _ _ => rfl, fun other apart => ?_, rfl, rfl, rfl⟩
          · simpa only [setScheduler, Function.update_self] using
              RunMove.begin inside drain resuming
          · exact Function.update_of_ne apart _ _
      case h_3 rest resuming => exact .inr ⟨rest, resuming, taken⟩
  case h_5 drain =>
      refine .inl (moved_runServer taken fun next stepped => ?_)
      obtain ⟨looping, testing⟩ | ⟨draining, exited⟩ := leaves next stepped
      · rw [looping, testing]
        exact .harvest drain
      · rw [draining, exited]
        exact .leave (.inr drain)

theorem runStep_moved (taken : s.runStep who submitted = some s') :
    Moved s s' who ∨ (s.server.thread who).InLoop ∧
      ∃ rest, (s.scheduler who).resuming = .acceptLoop :: rest ∧
        s.acceptStep who rest submitted = some s' := by
  simp only [runStep] at taken
  split at taken
  case h_1 | h_2 => cases taken
  case h_3 pc =>
      refine .inl (moved_runServer taken fun next stepped => ?_)
      simp only [HttpServer.runStep, pc, Option.some.injEq] at stepped
      simpa [← stepped, HttpServer.setThread, pc] using RunMove.enter
  case h_4 pc =>
      left
      simp only [runServer, Option.map_eq_some_iff] at taken
      obtain ⟨server, stepped, rfl⟩ := taken
      have spec := HttpServer.runStep_spec stepped
      simp only [HttpServer.runStep, setScheduler, pc, Option.some.injEq] at stepped
      have inside : (server.thread who).InLoop := by
        simp only [← stepped, HttpServer.setThread, Function.update_self, RunPc.InLoop]
        exact ite_eq_or_eq ..
      refine ⟨⟨[], ?_, by simp [setScheduler]⟩, fun other apart => (spec.others other apart).1,
        fun other apart => Function.update_of_ne apart _ _, rfl, rfl, rfl⟩
      simpa only [setScheduler, Function.update_self, pc] using RunMove.test inside
  case h_5 pc => exact (drainStep_moved (.inl pc) taken).imp_right fun accepts => ⟨.inl pc, accepts⟩
  case h_6 pc => exact (drainStep_moved (.inr pc) taken).imp_right fun accepts => ⟨.inr pc, accepts⟩

/-- What a step of `accept_loop` does, beyond its own place in the code. -/
inductive AcceptTurn (s s' : Handoff workers) : Prop where
  /-- It goes on or suspends, at no post. -/
  | goes (idle : ∀ who, s.accept.inHand who = []) (idle' : ∀ who, s'.accept.inHand who = [])
      (obtained : s'.obtained = s.obtained) (nextWorker : s'.nextWorker = s.nextWorker)
      (line : ∀ who, (s'.scheduler who).line = (s.scheduler who).line)
      (frame : ∀ worker, s'.scheduler (some worker) = s.scheduler (some worker))
  | accepts (fd : Nat) (idle : ∀ who, s.accept.inHand who = [])
      (scheduler : s'.scheduler = s.scheduler) (nextWorker : s'.nextWorker = s.nextWorker + 1)
      (obtained : s'.obtained =
        s.obtained ++ [(some (Fin.ofNat workers (s.nextWorker % 2 ^ 64)), fd)])
      (holds : s'.accept = .posting (Fin.ofNat workers (s.nextWorker % 2 ^ 64)) fd)
  | posts (worker : Fin workers) (fd : Nat) (holds : s.accept = .posting worker fd)
      (idle' : ∀ who, s'.accept.inHand who = []) (obtained : s'.obtained = s.obtained)
      (nextWorker : s'.nextWorker = s.nextWorker)
      (scheduler : s'.scheduler = Function.update s.scheduler (some worker)
        { s.scheduler (some worker) with posts := (s.scheduler (some worker)).posts ++ [fd] })

theorem acceptStep_turn (resuming : (s.scheduler none).resuming = .acceptLoop :: rest)
    (taken : s.acceptStep none rest submitted = some s') :
    AcceptTurn s s' ∧ s'.begun = s.begun ∧ s'.server = s.server := by
  have idle (accept : AcceptPc workers) (away : ∀ worker fd, accept ≠ .posting worker fd)
      (who : Sched workers) : accept.inHand who = [] := by
    unfold AcceptPc.inHand
    split
    case h_1 worker fd => exact absurd rfl (away worker fd)
    case h_2 => rfl
  have line (who : Sched workers) :
      ((s.setScheduler none { s.scheduler none with resuming := rest }).scheduler who).line =
        (s.scheduler who).line := by
    by_cases same : who = none
    · subst same
      simp [setScheduler, Scheduler.line, resuming, List.filterMap_cons, Resumable.fd?]
    · simp only [setScheduler, Function.update_of_ne same]
  simp only [acceptStep] at taken
  split at taken
  case h_1 accept =>
      obtain rfl := Option.some.inj taken
      have here := idle s.accept (by simp [accept])
      exact ⟨.goes here (idle _ (by simp)) rfl rfl (fun _ => rfl) fun _ => rfl, rfl, rfl⟩
  case h_2 accept =>
      have here := idle s.accept (by simp [accept])
      split at taken
      · split at taken <;> obtain rfl := Option.some.inj taken
        · exact ⟨.goes here (idle _ (by simp)) rfl rfl line fun _ => rfl, rfl, rfl⟩
        · exact ⟨.goes here (idle _ (by simp)) rfl rfl (fun _ => rfl) fun _ => rfl, rfl, rfl⟩
      · obtain rfl := Option.some.inj taken
        exact ⟨.goes here (idle _ (by simp)) rfl rfl line fun _ => rfl, rfl, rfl⟩
  case h_3 res accept =>
      have here := idle s.accept (by simp [accept])
      split at taken <;> obtain rfl := Option.some.inj taken
      · exact ⟨.goes here (idle _ (by simp)) rfl rfl (fun _ => rfl) fun _ => rfl, rfl, rfl⟩
      · exact ⟨.accepts res.toNat here rfl rfl rfl rfl, rfl, rfl⟩
  case h_4 worker fd accept =>
      obtain rfl := Option.some.inj taken
      exact ⟨.posts worker fd accept (idle _ (by simp)) rfl rfl rfl, rfl, rfl⟩
  case h_5 accept =>
      have here := idle s.accept (by simp [accept])
      split at taken <;> obtain rfl := Option.some.inj taken
      · exact ⟨.goes here (idle _ (by simp)) rfl rfl (fun _ => rfl) fun _ => rfl, rfl, rfl⟩
      · exact ⟨.goes here (idle _ (by simp)) rfl rfl line fun _ => rfl, rfl, rfl⟩
  case h_6 | h_7 => cases taken

/-- What is meant for a scheduler was begun, stands in its line or is at its post, in this order,
    and the turns go round. -/
structure InOrder (s : Handoff workers) : Prop where
  sound : s.Sound
  ordered : ∀ who, of who s.obtained =
    of who s.begun ++ ((s.scheduler who).line ++ s.accept.inHand who)
  dealt : s.obtained.map Prod.fst =
    (List.range s.nextWorker).map fun k => some (Fin.ofNat workers (k % 2 ^ 64))

/-- A step that obtains nothing. -/
theorem InOrder.keeps (inOrder : s.InOrder) (sound : s'.Sound) (obtained : s'.obtained = s.obtained)
    (nextWorker : s'.nextWorker = s.nextWorker)
    (ordered : ∀ who, of who s'.begun ++ ((s'.scheduler who).line ++ s'.accept.inHand who) =
      of who s.begun ++ ((s.scheduler who).line ++ s.accept.inHand who)) : s'.InOrder where
  sound := sound
  ordered who := by rw [obtained, ordered, inOrder.ordered]
  dealt := by rw [obtained, nextWorker, inOrder.dealt]

theorem InOrder.moved (inOrder : s.InOrder) (sound : s'.Sound) (moved : Moved s s' who) :
    s'.InOrder := by
  obtain ⟨fds, move, begun⟩ := moved.move
  refine inOrder.keeps sound moved.obtained moved.nextWorker fun other => ?_
  rw [begun, moved.accept]
  by_cases same : other = who
  · subst same
    rw [move.line (inOrder.sound.phase other)]
    have own : of other (fds.map (other, ·)) = fds := by simp [of, List.filterMap_map]
    simp [own]
  · have none_ : of other (fds.map (who, ·)) = [] := by
      simp [of, List.filterMap_map, Ne.symm same]
    rw [moved.scheduler other same]
    simp [none_]

theorem InOrder.accepted (inOrder : s.InOrder) (sound : s'.Sound) (turn : AcceptTurn s s')
    (begun : s'.begun = s.begun) : s'.InOrder := by
  cases turn with
  | goes idle idle' obtained nextWorker line frame =>
      refine inOrder.keeps sound obtained nextWorker fun who => ?_
      rw [begun, line, idle, idle']
  | accepts fd idle scheduler nextWorker obtained holds =>
      refine ⟨sound, fun who => ?_, ?_⟩
      · rw [obtained, begun, scheduler, of_append, inOrder.ordered, idle, holds]
        simp [AcceptPc.inHand]
      · rw [obtained, nextWorker, List.map_append, inOrder.dealt, List.range_succ, List.map_append]
        rfl
  | posts worker fd holds idle' obtained nextWorker scheduler =>
      refine inOrder.keeps sound obtained nextWorker fun who => ?_
      rw [begun, idle', scheduler, holds]
      by_cases same : who = some worker
      · subst same
        simp [AcceptPc.inHand, Scheduler.line]
      · simp [AcceptPc.inHand, Function.update_of_ne same, Ne.symm same]

/-- `accept_loop` is put into the queue of its scheduler. -/
theorem InOrder.readied (inOrder : s.InOrder) (sound : s'.Sound)
    (obtained : s'.obtained = s.obtained) (begun : s'.begun = s.begun)
    (nextWorker : s'.nextWorker = s.nextWorker)
    (inHand : ∀ who, s'.accept.inHand who = s.accept.inHand who)
    (scheduler : s'.scheduler = Function.update s.scheduler none
      { s.scheduler none with ready := (s.scheduler none).ready ++ [.acceptLoop] }) :
    s'.InOrder := by
  refine inOrder.keeps sound obtained nextWorker fun who => ?_
  rw [begun, inHand, scheduler]
  by_cases same : who = none
  · subst same
    simp [Scheduler.line, Resumable.fd?]
  · rw [Function.update_of_ne same]

theorem InOrder.init : (handoff workers).init.InOrder where
  sound := Sound.init
  ordered _ := rfl
  dealt := rfl

theorem InOrder.step (s : Handoff workers) (action : HandoffStep workers) (s' : Handoff workers)
    (inOrder : s.InOrder) (taken : (handoff workers).step s action = some s') : s'.InOrder := by
  have sound := Sound.step s action s' inOrder.sound taken
  cases action with
  | caller =>
      simp only [handoff, callerStep] at taken
      split at taken
      · obtain rfl := Option.some.inj taken
        exact inOrder.readied sound rfl rfl rfl (fun _ => rfl) rfl
      · simp only [Option.map_eq_some_iff] at taken
        obtain ⟨server, -, rfl⟩ := taken
        exact inOrder.keeps sound rfl rfl fun _ => rfl
  | run who submitted =>
      rcases runStep_moved taken with moved | ⟨-, rest, resuming, accepts⟩
      · exact inOrder.moved sound moved
      · cases who with
        | some worker => exact absurd (inOrder.sound.placed worker).2 (by simp [resuming])
        | none =>
            obtain ⟨turn, begun, -⟩ := acceptStep_turn resuming accepts
            exact inOrder.accepted sound turn begun
  | complete res =>
      simp only [handoff, completeStep, Option.ite_none_right_eq_some, Option.some.injEq] at taken
      obtain ⟨⟨-, -, accept⟩, rfl⟩ := taken
      refine inOrder.readied sound rfl rfl rfl (fun who => ?_) rfl
      simp only [AcceptPc.inHand, accept]

theorem inOrder_reachable (reached : (handoff workers).Reachable s) : s.InOrder :=
  reached.induct InOrder.init InOrder.step

/-- While the counter has not wrapped around, the turns are those of round robin. -/
theorem InOrder.length_obtained (inOrder : s.InOrder) (small : s.obtained.length ≤ 2 ^ 64)
    (worker : Fin workers) : (of (some worker) s.obtained).length =
      (RoundRobin.turns workers s.obtained.length).count worker.val := by
  have length : s.nextWorker = s.obtained.length := by
    simpa using (congrArg List.length inOrder.dealt).symm
  have turns : (List.range s.nextWorker).map (fun k => some (Fin.ofNat workers (k % 2 ^ 64))) =
      ((List.range s.nextWorker).map (Fin.ofNat workers)).map some := by
    rw [List.map_map]
    refine List.map_congr_left fun k below => ?_
    rw [Nat.mod_eq_of_lt (by grind)]
    rfl
  have values : RoundRobin.turns workers s.nextWorker =
      ((List.range s.nextWorker).map (Fin.ofNat workers)).map Fin.val := by
    rw [List.map_map]
    rfl
  rw [length_of, inOrder.dealt, ← length, turns, values,
    List.count_map_of_injective _ _ (Option.some_injective _),
    List.count_map_of_injective _ _ Fin.val_injective]

/-- Connections are dealt out in turn, no worker has got two more of them than another before the
    counter wraps around, and each begins its own in the order in which they were accepted. -/
theorem dealt_inOrder (reached : (handoff workers).Reachable s) :
    (s.obtained.map Prod.fst = (List.range s.obtained.length).map fun k =>
      some (Fin.ofNat workers (k % 2 ^ 64))) ∧
    (s.obtained.length ≤ 2 ^ 64 → ∀ worker other : Fin workers,
      (of (some worker) s.obtained).length ≤ (of (some other) s.obtained).length + 1) ∧
    ∀ who, of who s.obtained =
      of who s.begun ++ ((s.scheduler who).line ++ s.accept.inHand who) := by
  have inOrder := inOrder_reachable reached
  have length : s.nextWorker = s.obtained.length := by
    simpa using (congrArg List.length inOrder.dealt).symm
  refine ⟨length ▸ inOrder.dealt, fun small worker other => ?_, inOrder.ordered⟩
  rw [inOrder.length_obtained small, inOrder.length_obtained small]
  exact RoundRobin.turns_balanced worker.isLt other.isLt _

/-- A connection is accepted, from the completion up to the next harvest. -/
def acceptRound (fd : Nat) : List (HandoffStep 2) :=
  .complete fd :: List.replicate 9 (.run none true)

/-- Two workers, and three connections. -/
def threeAccepted : List (HandoffStep 2) :=
  List.replicate 5 .caller ++ List.replicate 8 (.run none true) ++ acceptRound 7 ++
    acceptRound 8 ++ acceptRound 9

theorem dealt_inOrder_three : ∃ s, (handoff 2).run (handoff 2).init threeAccepted = some s ∧
    s.obtained = [(some 0, 7), (some 1, 8), (some 0, 9)] ∧
    (of (some 1) s.obtained).length ≤ (of (some 0) s.obtained).length + 1 ∧
    ∀ who, of who s.obtained =
      of who s.begun ++ ((s.scheduler who).line ++ s.accept.inHand who) := by
  have ran : ((handoff 2).run (handoff 2).init threeAccepted).any fun s =>
      s.obtained = [(some 0, 7), (some 1, 8), (some 0, 9)] := by decide +kernel
  obtain ⟨s, ran, final⟩ := (Option.any_eq_true _ _).mp ran
  have obtained := of_decide_eq_true final
  obtain ⟨-, balanced, inOrder⟩ := dealt_inOrder ⟨threeAccepted, ran⟩
  exact ⟨s, ran, obtained, balanced (by simp [obtained]) 1 0, inOrder⟩

end Handoff

end Corio.Uring
