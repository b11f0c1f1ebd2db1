import Corio.Uring.Handoff

/-! # Which connections are begun

A worker looks at its posts for the last time behind its loop. A closure posted later is
never called, and its descriptor is in nobody's hands.
-/

namespace Corio.Uring.Handoff

variable {workers : Nat} {s s' : Handoff workers} {who : Sched workers}

/-- Every descriptor that was obtained was begun once, by the worker it was meant for. -/
def Accounted (s : Handoff workers) : Prop := s.begun.Perm s.obtained

/-- The thread is behind its last look at its posts. -/
def Over (s : Handoff workers) (who : Sched workers) : Prop :=
  s.server.thread who = .exited ∨
    s.server.thread who = .draining ∧ (s.scheduler who).drain ≠ .swappingPosts

/-- `accept_loop` posts to no worker that has looked at its posts for the last time. -/
def PostsInTime (s : Handoff workers) : HandoffStep workers → Prop
  | .run none _ => ∀ worker fd, s.accept = .posting worker fd → ¬ s.Over (some worker)
  | _ => True

/-- A step that nobody notices in the places where posts are looked at. -/
structure Unnoticed (s s' : Handoff workers) : Prop where
  thread : s'.server.thread = s.server.thread
  drain : ∀ who, (s'.scheduler who).drain = (s.scheduler who).drain
  posts : ∀ who, (s'.scheduler who).posts = (s.scheduler who).posts

/-- What a step does to the posts of a scheduler, but for the post itself. -/
structure Looked (s s' : Handoff workers) (who : Sched workers) : Prop where
  past : s.Over who → s'.Over who ∧ (s'.scheduler who).posts = (s.scheduler who).posts
  last : ¬ s.Over who → s'.Over who → (s'.scheduler who).posts = []

theorem Unnoticed.over_iff (same : Unnoticed s s') : s'.Over who ↔ s.Over who := by
  simp only [Over, same.thread, same.drain]

theorem Unnoticed.looked (same : Unnoticed s s') : Looked s s' who where
  past := fun past => ⟨same.over_iff.mpr past, same.posts who⟩
  last := fun early past => absurd (same.over_iff.mp past) early

theorem unnoticed_setScheduler {q : Scheduler} (drain : q.drain = (s.scheduler who).drain)
    (posts : q.posts = (s.scheduler who).posts) : Unnoticed s (s.setScheduler who q) := by
  refine ⟨rfl, fun other => ?_, fun other => ?_⟩ <;>
  · by_cases same : other = who
    · subst same
      simpa only [setScheduler, Function.update_self]
    · simp only [setScheduler, Function.update_of_ne same]

/-- What a step changes in the places where posts are looked at. -/
theorem looked_setScheduler {q : Scheduler} {other : Sched workers}
    (here : Looked s (s.setScheduler who q) who) : Looked s (s.setScheduler who q) other := by
  by_cases same : other = who
  · exact same ▸ here
  · have frame : ((s.setScheduler who q).scheduler other) = s.scheduler other :=
      Function.update_of_ne same _ _
    have iff : (s.setScheduler who q).Over other ↔ s.Over other := by
      simp only [Over, frame]
      rfl
    exact ⟨fun past => ⟨iff.mpr past, by rw [frame]⟩, fun early past => absurd (iff.mp past) early⟩

theorem Looked.trans {mid : Handoff workers} (first : Looked s mid who)
    (second : Looked mid s' who) : Looked s s' who where
  past := fun past =>
    have ⟨overMid, same⟩ := first.past past
    ⟨(second.past overMid).1, (second.past overMid).2.trans same⟩
  last := by
    intro early past
    by_cases overMid : mid.Over who
    · exact (second.past overMid).2.trans (first.last early overMid)
    · exact second.last overMid past

/-- A step behind the look at the posts. -/
theorem looked_behind {q : Scheduler} (posts : q.posts = (s.scheduler who).posts)
    (before : (s.scheduler who).drain ≠ .swappingPosts) (behind : q.drain ≠ .swappingPosts)
    (other : Sched workers) : Looked s (s.setScheduler who q) other := by
  refine looked_setScheduler ⟨fun past => ⟨?_, ?_⟩, fun early past => absurd ?_ early⟩
  · rcases past with exited | ⟨draining, -⟩
    · exact .inl exited
    · exact .inr ⟨draining, by simpa only [setScheduler, Function.update_self] using behind⟩
  · simpa only [setScheduler, Function.update_self] using posts
  · rcases past with exited | ⟨draining, -⟩
    · exact .inl exited
    · exact .inr ⟨draining, before⟩

/-- A thread that moves on in `run` and is not at its last look. -/
theorem looked_runServer (taken : s.runServer who = some s') (other : Sched workers)
    (behind : s.server.thread who = .draining → (s.scheduler who).drain ≠ .swappingPosts)
    (ready : s.server.thread who = .testing → (s.scheduler who).drain = .swappingPosts) :
    Looked s s' other := by
  simp only [runServer, Option.map_eq_some_iff] at taken
  obtain ⟨server, moved, rfl⟩ := taken
  have spec := HttpServer.runStep_spec moved
  by_cases same : other = who
  · subst same
    simp only [HttpServer.runStep] at moved
    split at moved
    case h_1 | h_6 => cases moved
    case h_2 pc =>
      obtain rfl := Option.some.inj moved
      refine ⟨fun past => ?_, fun _ past => ?_⟩
      · simp [Over, pc] at past
      · simp [Over, HttpServer.setThread] at past
    case h_3 pc =>
      obtain rfl := Option.some.inj moved
      refine ⟨fun past => ?_, fun _ past => ?_⟩
      · simp [Over, pc] at past
      · simp [Over, HttpServer.setThread, ready pc] at past
        split at past <;> cases past
    case h_4 pc =>
      obtain rfl := Option.some.inj moved
      refine ⟨fun past => ?_, fun _ past => ?_⟩
      · simp [Over, pc] at past
      · simp [Over, HttpServer.setThread] at past
    case h_5 pc =>
      obtain rfl := Option.some.inj moved
      refine ⟨fun past => ⟨.inl (by simp [HttpServer.setThread]), rfl⟩, fun early => ?_⟩
      exact absurd (.inr ⟨pc, behind pc⟩) early
  · have iff : ({ s with server := server } : Handoff workers).Over other ↔ s.Over other := by
      simp only [Over, (spec.others other same).1]
    exact ⟨fun past => ⟨iff.mpr past, rfl⟩, fun early past => absurd (iff.mp past) early⟩

/-- No scheduler is behind its last look with posts left. -/
def NonePending (s : Handoff workers) : Prop := ∀ who, s.Over who → (s.scheduler who).posts = []

/-- At the end the descriptors in posts are the only ones missing. -/
theorem Sound.accounted_iff (sound : s.Sound) (joined : s.server.caller = .joined) :
    s.Accounted ↔ s.NonePending := by
  have exited : ∀ who, s.server.thread who = .exited := by
    have := HttpServer.joined_reached sound.reached
    simpa only [HttpServer.Joined, joined] using this
  have idle : ∀ who fd, s.accept.held who fd = 0 := by
    intro who fd
    cases accept : s.accept with
    | posting worker client =>
        have running := sound.running (by simp only [accept, AcceptPc.Active])
        simp [exited, RunPc.InLoop] at running
    | _ => rfl
  have held : ∀ who fd, (s.scheduler who).held fd = (s.scheduler who).posts.count fd := by
    intro who fd
    have tidy := (sound.phase who).2 (by simp [exited, RunPc.InLoop])
    simp [Scheduler.held, tidy.calling, tidy.resuming, List.count_eq_zero.mpr (tidy.ready fd)]
  have counted : ∀ who fd, s.obtained.count (who, fd) =
      s.begun.count (who, fd) + (s.scheduler who).posts.count fd := by
    intro who fd
    rw [sound.counted, idle, held, Nat.add_zero]
  constructor
  · intro accounted who _
    refine List.eq_nil_iff_forall_not_mem.mpr fun fd member => ?_
    have same := List.perm_iff_count.mp accounted (who, fd)
    have := List.count_pos_iff.mpr member
    have := counted who fd
    omega
  · intro none
    refine List.perm_iff_count.mpr ?_
    rintro ⟨who, fd⟩
    rw [counted, none who (.inl (exited who)), List.count_nil, Nat.add_zero]

variable [NeZero workers]

/-- A step of `accept_loop` is a post or goes unnoticed. -/
theorem acceptStep_cases {submitted : Bool} {rest : List Resumable}
    (taken : s.acceptStep who rest submitted = some s') :
    (∃ worker fd, s.accept = .posting worker fd) ∨ Unnoticed s s' := by
  have left : Unnoticed s (s.setScheduler who { s.scheduler who with resuming := rest }) :=
    unnoticed_setScheduler rfl rfl
  simp only [acceptStep] at taken
  split at taken
  case h_1 => exact .inr (Option.some.inj taken ▸ ⟨rfl, fun _ => rfl, fun _ => rfl⟩)
  case h_2 =>
    right
    split at taken
    · split at taken
      · exact Option.some.inj taken ▸ ⟨left.thread, left.drain, left.posts⟩
      · exact Option.some.inj taken ▸ ⟨rfl, fun _ => rfl, fun _ => rfl⟩
    · exact Option.some.inj taken ▸ ⟨left.thread, left.drain, left.posts⟩
  case h_3 =>
    right
    split at taken <;> exact Option.some.inj taken ▸ ⟨rfl, fun _ => rfl, fun _ => rfl⟩
  case h_4 worker fd accept => exact .inl ⟨worker, fd, accept⟩
  case h_5 =>
    right
    split at taken
    · exact Option.some.inj taken ▸ ⟨rfl, fun _ => rfl, fun _ => rfl⟩
    · exact Option.some.inj taken ▸ ⟨left.thread, left.drain, left.posts⟩
  case h_6 | h_7 => cases taken

theorem drainStep_cases {submitted : Bool} (inside : (s.server.thread who).InLoop)
    (taken : s.drainStep who submitted = some s') :
    (.acceptLoop ∈ (s.scheduler who).resuming ∧ ∃ worker fd, s.accept = .posting worker fd) ∨
      ∀ other, Looked s s' other := by
  have untested : s.server.thread who ≠ .testing := by
    rcases inside with pc | pc <;> simp [pc]
  simp only [drainStep] at taken
  split at taken
  case h_1 drain =>
    obtain rfl := Option.some.inj taken
    refine .inr fun other => looked_setScheduler ⟨fun past => ?_, fun _ _ => ?_⟩
    · rcases inside with pc | pc <;> simp [Over, pc, drain] at past
    · simp only [setScheduler, Function.update_self]
  case h_2 drain =>
    right
    split at taken <;> obtain rfl := Option.some.inj taken <;>
      exact looked_behind rfl (by simp [drain]) (by simp [drain])
  case h_3 drain =>
    exact .inr (Option.some.inj taken ▸ looked_behind rfl (by simp [drain]) (by simp))
  case h_4 drain =>
    split at taken
    case h_1 =>
      right
      split at taken
      · exact Option.some.inj taken ▸ looked_behind rfl (by simp [drain]) (by simp)
      · intro other
        exact looked_runServer taken other (by simp [drain]) fun pc => absurd pc untested
    case h_2 fd rest next =>
      obtain rfl := Option.some.inj taken
      refine .inr fun other => ?_
      have same : Unnoticed s (s.setScheduler who { s.scheduler who with resuming := rest }) :=
        unnoticed_setScheduler rfl rfl
      exact ⟨same.looked.past, same.looked.last⟩
    case h_3 rest next =>
      exact (acceptStep_cases taken).imp (fun posts => ⟨by simp [next], posts⟩)
        fun same other => same.looked
  case h_5 drain =>
    exact .inr fun other =>
      looked_runServer taken other (by simp [drain]) fun pc => absurd pc untested

/-- A step in `run` is a post, or looks at the posts as `Looked` says. -/
theorem runStep_cases {submitted : Bool} (taken : s.runStep who submitted = some s') :
    (.acceptLoop ∈ (s.scheduler who).resuming ∧ ∃ worker fd, s.accept = .posting worker fd) ∨
      ∀ other, Looked s s' other := by
  simp only [runStep] at taken
  split at taken
  case h_1 | h_2 => cases taken
  case h_3 pc =>
    exact .inr fun other => looked_runServer taken other (by simp [pc]) (by simp [pc])
  case h_4 pc =>
    refine .inr fun other => .trans (looked_setScheduler ⟨fun past => ?_, fun _ past => ?_⟩)
      (looked_runServer taken other (by simp [setScheduler, pc]) (by simp [setScheduler]))
    · simp [Over, pc] at past
    · simp [Over, setScheduler, pc] at past
  case h_5 pc => exact drainStep_cases (.inl pc) taken
  case h_6 pc => exact drainStep_cases (.inr pc) taken

/-- While `accept_loop` is at a post, the acceptor's next step is the post. -/
theorem Sound.post (sound : s.Sound) {worker : Fin workers} {fd : Nat}
    (accept : s.accept = .posting worker fd) {submitted : Bool}
    (taken : s.runStep none submitted = some s') :
    s'.server = s.server ∧ s'.scheduler = Function.update s.scheduler (some worker)
      { s.scheduler (some worker) with posts := (s.scheduler (some worker)).posts ++ [fd] } := by
  obtain ⟨inside, drain, head⟩ := sound.running (by simp only [accept, AcceptPc.Active])
  obtain ⟨rest, next⟩ := List.head?_eq_some_iff.mp head
  have same : s.runStep none submitted = s.acceptStep none rest submitted := by
    rcases inside with pc | pc <;>
      simp only [Handoff.runStep, pc, Handoff.drainStep, drain, next]
  simp only [same, Handoff.acceptStep, accept, Option.some.injEq] at taken
  exact taken ▸ ⟨rfl, rfl⟩

/-- What a step does to the posts of the schedulers. -/
theorem Sound.step_cases (sound : s.Sound) {action : HandoffStep workers}
    (taken : (handoff workers).step s action = some s') :
    (∃ worker fd submitted, action = .run none submitted ∧ s.accept = .posting worker fd) ∨
      ∀ other, Looked s s' other := by
  cases action with
  | run who submitted =>
      rcases runStep_cases taken with ⟨member, worker, fd, accept⟩ | looked
      · cases who with
        | none => exact .inl ⟨worker, fd, submitted, rfl, accept⟩
        | some other => exact absurd member (sound.placed other).2
      · exact .inr looked
  | caller =>
      refine .inr fun other => ?_
      simp only [handoff, Handoff.callerStep] at taken
      split at taken
      · obtain rfl := Option.some.inj taken
        have same : Unnoticed s (s.setScheduler none
            { s.scheduler none with ready := (s.scheduler none).ready ++ [.acceptLoop] }) :=
          unnoticed_setScheduler rfl rfl
        exact ⟨same.looked.past, same.looked.last⟩
      · simp only [Option.map_eq_some_iff] at taken
        obtain ⟨server, moved, rfl⟩ := taken
        have iff : ({ s with server := server } : Handoff workers).Over other ↔ s.Over other := by
          rcases ((HttpServer.fresh_reached sound.reached).callerStep moved).2 other with
            same | ⟨unborn, entering⟩
          · simp only [Over, same]
          · simp [Over, unborn, entering]
        exact ⟨fun past => ⟨iff.mpr past, rfl⟩, fun early past => absurd (iff.mp past) early⟩
  | complete res =>
      simp only [handoff, Handoff.completeStep, Option.ite_none_right_eq_some,
        Option.some.injEq] at taken
      obtain ⟨-, rfl⟩ := taken
      have same : Unnoticed s (s.setScheduler none
          { s.scheduler none with ready := (s.scheduler none).ready ++ [.acceptLoop] }) :=
        unnoticed_setScheduler rfl rfl
      exact .inr fun other => ⟨same.looked.past, same.looked.last⟩

/-- A post in time is seen. -/
theorem nonePending_step (sound : s.Sound) (kept : s.NonePending)
    {action : HandoffStep workers} (inTime : s.PostsInTime action)
    (taken : (handoff workers).step s action = some s') : s'.NonePending := by
  intro who past
  rcases sound.step_cases taken with ⟨worker, fd, submitted, rfl, accept⟩ | looked
  · obtain ⟨server, scheduler⟩ := sound.post accept taken
    have early := inTime worker fd accept
    by_cases same : who = some worker
    · subst same
      exact absurd (by simpa [Over, server, scheduler] using past) early
    · have frame : s'.scheduler who = s.scheduler who := by
        rw [scheduler, Function.update_of_ne same]
      rw [frame]
      exact kept who (by simpa only [Over, server, frame] using past)
  · by_cases before : s.Over who
    · exact ((looked who).past before).2.trans (kept who before)
    · exact (looked who).last before past

/-- A post that comes too late stays. -/
theorem pending_step (sound : s.Sound) (late : ∃ who, s.Over who ∧ (s.scheduler who).posts ≠ [])
    {action : HandoffStep workers} (taken : (handoff workers).step s action = some s') :
    ∃ who, s'.Over who ∧ (s'.scheduler who).posts ≠ [] := by
  obtain ⟨who, past, left⟩ := late
  refine ⟨who, ?_⟩
  rcases sound.step_cases taken with ⟨worker, fd, submitted, rfl, accept⟩ | looked
  · obtain ⟨server, scheduler⟩ := sound.post accept taken
    by_cases same : who = some worker
    · subst same
      exact ⟨by simpa [Over, server, scheduler] using past, by simp [scheduler]⟩
    · have frame : s'.scheduler who = s.scheduler who := by
        rw [scheduler, Function.update_of_ne same]
      exact ⟨by simpa only [Over, server, frame] using past, frame ▸ left⟩
  · obtain ⟨stays, same⟩ := (looked who).past past
    exact ⟨stays, same ▸ left⟩

/-- When `wait` has returned, all descriptors are accounted for exactly if each post came
    before its worker looked at its posts for the last time. -/
theorem accounted_iff_inTime (steps : List (HandoffStep workers)) (s : Handoff workers)
    (ran : (handoff workers).run (handoff workers).init steps = some s)
    (joined : s.server.caller = .joined) :
    (handoff workers).Guarded PostsInTime (handoff workers).init steps ↔ s.Accounted := by
  have sound := Machine.run_preserves Sound.step Sound.init ran
  rw [sound.accounted_iff joined]
  constructor
  · intro guarded
    refine (Machine.Guarded.preserves (I := fun s => s.Sound ∧ s.NonePending) ?_
      ⟨Sound.init, ?_⟩ guarded ran).2
    · intro s action s' kept inTime taken
      exact ⟨Sound.step s action s' kept.1 taken, nonePending_step kept.1 kept.2 inTime taken⟩
    · exact fun _ _ => rfl
  · intro none
    refine (Machine.guarded_or Sound.step (C := PostsInTime)
      (P := fun s => ∃ who, s.Over who ∧ (s.scheduler who).posts ≠ []) ?_ ?_
      Sound.init ran).resolve_right ?_
    · intro s action s' kept taken
      exact ⟨Sound.step s action s' kept.1 taken, pending_step kept.1 kept.2 taken⟩
    · intro s action s' sound missed taken
      cases action with
      | caller | complete => exact absurd trivial missed
      | run who submitted =>
          cases who with
          | some worker => exact absurd trivial missed
          | none =>
              simp only [PostsInTime, not_forall, not_not] at missed
              obtain ⟨worker, fd, accept, past⟩ := missed
              obtain ⟨server, scheduler⟩ := sound.post accept taken
              exact ⟨some worker, by simpa [Over, server, scheduler] using past,
                by simp [scheduler]⟩
    · rintro ⟨who, past, left⟩
      exact left (none who past)

instance (s : Handoff workers) (who : Sched workers) : Decidable (s.Over who) :=
  inferInstanceAs (Decidable (_ ∨ _ ∧ _))

instance (s : Handoff workers) : DecidablePred s.PostsInTime
  | .caller | .complete _ | .run (some _) _ => .isTrue trivial
  | .run none _ =>
      match accept : s.accept with
      | .posting worker fd =>
          decidable_of_iff (¬ s.Over (some worker)) (by simp [PostsInTime, accept])
      | .unstarted | .testing | .accepting | .accepted _ | .catching | .ended =>
          .isTrue (by simp [PostsInTime, accept])

/-- One worker; the acceptor has accepted descriptor 7 and is about to post it. -/
def acceptedSteps : List (HandoffStep 1) :=
  [.caller, .caller, .caller, .caller, .run (some (Fin.last 0)) true, .run none true,
    .run none true, .run none true, .run none true, .run none true, .run none true, .run none true,
    .run none true, .complete 7, .run none true, .run none true, .run none true, .run none true,
    .run none true, .run none true]

/-- `stop`, from its first access to its last. -/
def stopSteps : List (HandoffStep 1) := [.caller, .caller, .caller, .caller]

/-- `wait`, when all threads have come to their end. -/
def waitSteps : List (HandoffStep 1) := [.caller, .caller, .caller]

/-- The worker's last round, with nothing to do. -/
def lastRound : List (HandoffStep 1) := List.replicate 5 (.run (some (Fin.last 0)) true)

/-- The acceptor posts, and both threads end after `stop`. -/
def calmSteps : List (HandoffStep 1) :=
  acceptedSteps ++ [.run none true] ++ List.replicate 8 (.run (some (Fin.last 0)) true) ++
    stopSteps ++ List.replicate 8 (.run none true) ++ lastRound ++ waitSteps

theorem accounted_calm : ∃ s, (handoff 1).run (handoff 1).init calmSteps = some s ∧
    s.obtained = [(some 0, 7)] ∧ s.Accounted := by
  have ran : ((handoff 1).run (handoff 1).init calmSteps).any fun s =>
      s.server.caller = .joined ∧ s.obtained = [(some 0, 7)] := by decide
  obtain ⟨s, ran, final⟩ := (Option.any_eq_true _ _).mp ran
  obtain ⟨joined, obtained⟩ := of_decide_eq_true final
  exact ⟨s, ran, obtained, (accounted_iff_inTime calmSteps s ran joined).mp (by decide)⟩

/-- The worker ends after `stop`, and then the acceptor posts. -/
def lateSteps : List (HandoffStep 1) :=
  acceptedSteps ++ stopSteps ++ lastRound ++ List.replicate 9 (.run none true) ++ waitSteps

/-- Descriptor 7 is left in a closure that nobody calls. -/
theorem latePost_leaks : ¬ ∀ steps s, (handoff 1).run (handoff 1).init steps = some s →
    s.server.caller = .joined → s.Accounted := by
  intro claim
  have ran : ((handoff 1).run (handoff 1).init lateSteps).any fun s =>
      s.server.caller = .joined ∧ s.obtained = [(some 0, 7)] ∧ s.begun = [] := by decide
  obtain ⟨s, ran, final⟩ := (Option.any_eq_true _ _).mp ran
  obtain ⟨joined, obtained, begun⟩ := of_decide_eq_true final
  simpa [Accounted, obtained, begun] using claim lateSteps s ran joined

end Corio.Uring.Handoff
