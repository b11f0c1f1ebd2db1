import Corio.Uring.Dealt

/-! # How long a connection waits

A worker goes round: posts are called, ready coroutines are resumed, completions are harvested.
What it holds moves on by every step that it takes, but for a few at the ends of a round.
-/

namespace Corio.Uring

variable {workers : Nat}

/-- How many coroutines are between the call of their post and their resumption. -/
def Scheduler.called (q : Scheduler) : Nat := q.resuming.length + q.ready.length

/-- How many ends of a part of a round are to come before the first `k` that a scheduler holds
    are begun. -/
def Scheduler.ends (q : Scheduler) (thread : RunPc) (k : Nat) : Nat :=
  if k ≤ q.resuming.length then 0
  else if k ≤ q.called + q.calling.length then
    match q.drain with
    | .swappingPosts => 3
    | .callingPosts => 2
    | .swappingReady => 1
    | .resumingReady | .harvesting => 0
  else
    match thread, q.drain with
    | .unborn, _ | .entering, _ => 5
    | .testing, _ => 4
    | .looping, .swappingPosts | .draining, .swappingPosts => 3
    | .looping, .callingPosts | .draining, .callingPosts => 8
    | .looping, .swappingReady | .draining, .swappingReady => 7
    | .looping, .resumingReady | .draining, .resumingReady | .draining, .harvesting => 6
    | .looping, .harvesting => 5
    | .exited, _ => 0

theorem Scheduler.ends_le (q : Scheduler) (thread : RunPc) (k : Nat) : q.ends thread k ≤ 8 := by
  unfold ends
  split_ifs
  · exact Nat.zero_le _
  · cases q.drain <;> decide
  · cases thread <;> cases q.drain <;> decide

/-- A queue of a worker's holds connections only. -/
theorem length_conns {queue : List Resumable} (own : .acceptLoop ∉ queue) :
    (queue.filterMap Resumable.fd?).length = queue.length := by
  induction queue with
  | nil => rfl
  | cons item rest ih =>
      obtain ⟨here, others⟩ := not_or.mp (List.mem_cons.not.mp own)
      cases item with
      | acceptLoop => exact absurd rfl here
      | handleConnection fd => exact congrArg Nat.succ (ih others)

theorem no_conns {queue : List Resumable} (own : .acceptLoop ∉ queue)
    (none_ : ∀ fd, .handleConnection fd ∉ queue) : queue = [] := by
  refine List.eq_nil_iff_forall_not_mem.mpr fun item member => ?_
  cases item with
  | acceptLoop => exact own member
  | handleConnection fd => exact none_ fd member

/-- Each step of a worker moves a connection on or comes to an end of a part of the round. -/
theorem RunMove.onward {pc pc' : RunPc} {q q' : Scheduler} {fds : List Nat} {k : Nat}
    (move : RunMove pc q pc' q' fds) (phase : q.Phase pc)
    (own : .acceptLoop ∉ q.ready ∧ .acceptLoop ∉ q.resuming)
    (held : k ≤ q.line.length) (later : fds.length < k) :
    q'.ends pc' (k - fds.length) + 1 + q.called ≤
      q.ends pc k + q'.called + 2 * fds.length := by
  have empty (tidy : q.Tidy) : q.resuming = [] ∧ q.ready = [] ∧ q.calling = [] :=
    ⟨tidy.resuming, no_conns own.1 tidy.ready, tidy.calling⟩
  simp only [Scheduler.line, List.length_append, length_conns own.1, length_conns own.2] at held
  have round := phase.1
  unfold Scheduler.InRound at round
  cases move with
  | enter =>
      obtain ⟨resuming, ready, calling⟩ := empty (phase.2 (by simp [RunPc.InLoop]))
      simp only [Scheduler.ends, Scheduler.called, resuming, ready, calling, List.length_nil]
        at later ⊢
      split_ifs <;> omega
  | test inside =>
      obtain ⟨resuming, ready, calling⟩ := empty (phase.2 (by simp [RunPc.InLoop]))
      rcases inside with rfl | rfl <;>
      · simp only [Scheduler.ends, Scheduler.called, resuming, ready, calling, List.length_nil]
          at later ⊢
        split_ifs <;> omega
  | swapPosts inside drain =>
      simp only [drain] at round
      obtain ⟨resuming, ready, calling⟩ := empty (round inside)
      rcases inside with rfl | rfl <;>
      · simp only [Scheduler.ends, Scheduler.called, resuming, ready, calling, drain,
          List.length_nil] at later held ⊢
        split_ifs <;> omega
  | call inside drain calling =>
      simp only [drain] at round
      rcases inside with rfl | rfl <;>
      · simp only [Scheduler.ends, Scheduler.called, calling, drain, List.length_append,
          List.length_cons, List.length_nil] at later ⊢
        split_ifs <;> omega
  | called inside drain calling =>
      simp only [drain] at round
      have resuming := round inside
      rcases inside with rfl | rfl <;>
      · simp only [Scheduler.ends, Scheduler.called, calling, resuming, drain, List.length_nil]
          at later ⊢
        split_ifs <;> omega
  | swapReady inside drain =>
      simp only [drain] at round
      obtain ⟨calling, resuming⟩ := round inside
      rcases inside with rfl | rfl <;>
      · simp only [Scheduler.ends, Scheduler.called, calling, resuming, drain, List.length_nil]
          at later ⊢
        split_ifs <;> omega
  | begin inside drain resuming =>
      simp only [drain] at round
      obtain ⟨calling, others⟩ := round inside
      have ready := no_conns own.1 others
      rcases inside with rfl | rfl <;>
      · simp only [Scheduler.ends, Scheduler.called, calling, ready, resuming, drain,
          List.length_cons, List.length_nil] at later ⊢
        split_ifs <;> omega
  | resumed drain resuming =>
      simp only [drain] at round
      obtain ⟨calling, others⟩ := round (.inl rfl)
      have ready := no_conns own.1 others
      simp only [Scheduler.ends, Scheduler.called, calling, ready, resuming, drain,
        List.length_nil] at later ⊢
      split_ifs <;> omega
  | harvest drain =>
      simp only [drain] at round
      obtain ⟨resuming, ready, calling⟩ := empty (round (.inl rfl))
      simp only [Scheduler.ends, Scheduler.called, resuming, ready, calling, drain,
        List.length_nil] at later ⊢
      split_ifs <;> omega
  | leave drain =>
      have nothing : q.resuming = [] ∧ q.ready = [] ∧ q.calling = [] := by
        rcases drain with ⟨drain, resuming⟩ | drain <;> simp only [drain] at round
        · exact ⟨resuming, no_conns own.1 (round (.inr rfl)).2, (round (.inr rfl)).1⟩
        · exact empty (round (.inr rfl))
      obtain ⟨resuming, ready, calling⟩ := nothing
      rcases drain with ⟨drain, -⟩ | drain <;>
      · simp only [Scheduler.ends, Scheduler.called, resuming, ready, calling, drain,
          List.length_nil] at later ⊢
        split_ifs <;> omega

namespace Handoff

variable {s s' : Handoff workers} {worker : Fin workers}

/-- A step of another thread. -/
structure Elsewhere (s s' : Handoff workers) (worker : Fin workers) : Prop where
  thread : s'.server.thread (some worker) = s.server.thread (some worker) ∨
    s.server.thread (some worker) = .unborn ∧ s'.server.thread (some worker) = .entering
  scheduler : ∃ posts, s'.scheduler (some worker) =
    { s.scheduler (some worker) with posts := (s.scheduler (some worker)).posts ++ posts }
  begun : of (some worker) s'.begun = of (some worker) s.begun
  obtained : s.obtained <+: s'.obtained

/-- The step is one of this worker's thread. -/
def IsOwn (worker : Fin workers) : HandoffStep workers → Prop
  | .run who _ => who = some worker
  | _ => False

instance (worker : Fin workers) : DecidablePred (IsOwn worker)
  | .run who _ => inferInstanceAs (Decidable (who = some worker))
  | .caller | .complete _ => .isFalse not_false

theorem no_post (same : s'.scheduler (some worker) = s.scheduler (some worker)) :
    ∃ posts, s'.scheduler (some worker) =
      { s.scheduler (some worker) with posts := (s.scheduler (some worker)).posts ++ posts } :=
  ⟨[], by rw [same, List.append_nil]⟩

/-- How far a worker has come with the connections that are meant for it. -/
def done (s : Handoff workers) (worker : Fin workers) : Nat :=
  2 * (of (some worker) s.begun).length + (s.scheduler (some worker)).called

theorem Elsewhere.line (elsewhere : Elsewhere s s' worker) :
    (s.scheduler (some worker)).line <+: (s'.scheduler (some worker)).line := by
  obtain ⟨posts, scheduler⟩ := elsewhere.scheduler
  rw [scheduler]
  simp only [Scheduler.line, ← List.append_assoc]
  exact List.prefix_append _ _

theorem Elsewhere.ends (elsewhere : Elsewhere s s' worker) (k : Nat) :
    (s'.scheduler (some worker)).ends (s'.server.thread (some worker)) k =
      (s.scheduler (some worker)).ends (s.server.thread (some worker)) k := by
  obtain ⟨posts, scheduler⟩ := elsewhere.scheduler
  rw [scheduler]
  rcases elsewhere.thread with same | ⟨unborn, entering⟩
  · rw [same]
    rfl
  · rw [unborn, entering]
    rfl

theorem Elsewhere.done (elsewhere : Elsewhere s s' worker) : s'.done worker = s.done worker := by
  obtain ⟨posts, scheduler⟩ := elsewhere.scheduler
  rw [Handoff.done, Handoff.done, elsewhere.begun, scheduler]
  rfl

variable [NeZero workers]

theorem Sound.elsewhere (sound : s.Sound) {action : HandoffStep workers}
    (other : ¬ IsOwn worker action) (taken : (handoff workers).step s action = some s') :
    Elsewhere s s' worker := by
  cases action with
  | caller =>
      simp only [handoff, Handoff.callerStep] at taken
      split at taken
      · obtain rfl := Option.some.inj taken
        exact ⟨.inl rfl, no_post (by simp [Handoff.setScheduler]), rfl, List.prefix_refl _⟩
      · simp only [Option.map_eq_some_iff] at taken
        obtain ⟨server, moved, rfl⟩ := taken
        exact ⟨((HttpServer.fresh_reached sound.reached).callerStep moved).2 (some worker),
          no_post rfl, rfl, List.prefix_refl _⟩
  | complete res =>
      simp only [handoff, Handoff.completeStep, Option.ite_none_right_eq_some,
        Option.some.injEq] at taken
      obtain ⟨-, rfl⟩ := taken
      exact ⟨.inl rfl, no_post (by simp [Handoff.setScheduler]), rfl, List.prefix_refl _⟩
  | run who submitted =>
      have apart : some worker ≠ who := Ne.symm other
      rcases runStep_moved taken with moved | ⟨-, rest, resuming, accepts⟩
      · obtain ⟨fds, -, begun⟩ := moved.move
        refine ⟨.inl (moved.thread _ apart), no_post (moved.scheduler _ apart), ?_,
          moved.obtained ▸ List.prefix_refl _⟩
        simp [begun, of, List.filterMap_map, Ne.symm apart]
      · cases who with
        | some at_ => exact absurd (sound.placed at_).2 (by simp [resuming])
        | none =>
            obtain ⟨turn, begun, server⟩ := acceptStep_turn resuming accepts
            refine ⟨.inl (by rw [server]), ?_, by rw [begun], ?_⟩
            · cases turn with
              | goes _ _ _ _ _ frame => exact no_post (frame worker)
              | accepts _ _ scheduler => exact no_post (congrFun scheduler _)
              | posts at_ fd _ _ _ _ scheduler =>
                  by_cases same : some worker = some at_
                  · obtain rfl := Option.some.inj same
                    exact ⟨[fd], by rw [scheduler, Function.update_self]⟩
                  · exact no_post (by rw [scheduler, Function.update_of_ne same])
            · cases turn with
              | goes _ _ obtained | posts _ _ _ _ obtained => exact obtained ▸ List.prefix_refl _
              | accepts _ _ _ _ obtained => exact obtained ▸ List.prefix_append _ _

/-- A step of the worker itself. -/
theorem InOrder.own_step (inOrder : s.InOrder) {submitted : Bool}
    (taken : (handoff workers).step s (.run (some worker) submitted) = some s') :
    s'.obtained = s.obtained ∧ ∃ fds, of (some worker) s'.begun = of (some worker) s.begun ++ fds ∧
      (s.scheduler (some worker)).line = fds ++ (s'.scheduler (some worker)).line ∧
      ∀ k, fds.length < k → k ≤ (s.scheduler (some worker)).line.length →
        (s'.scheduler (some worker)).ends (s'.server.thread (some worker)) (k - fds.length) + 1 +
            s.done worker ≤
          (s.scheduler (some worker)).ends (s.server.thread (some worker)) k + s'.done worker := by
  have placed := inOrder.sound.placed worker
  have phase := inOrder.sound.phase (some worker)
  rcases runStep_moved taken with moved | ⟨-, rest, resuming, -⟩
  · obtain ⟨fds, move, begun⟩ := moved.move
    have own : of (some worker) s'.begun = of (some worker) s.begun ++ fds := by
      simp [begun, of, List.filterMap_map]
    refine ⟨moved.obtained, fds, own, move.line phase, fun k later held => ?_⟩
    have onward := move.onward phase placed held later
    simp only [done, own, List.length_append]
    omega
  · exact absurd placed.2 (by simp [resuming])

theorem InOrder.done_le (inOrder : s.InOrder) (worker : Fin workers) :
    s.done worker ≤ 2 * (of (some worker) s.obtained).length := by
  have placed := inOrder.sound.placed worker
  have called := length_conns placed.1
  have resumed := length_conns placed.2
  rw [inOrder.ordered, Handoff.done, Scheduler.called]
  simp only [Scheduler.line, List.length_append, called, resumed]
  omega

/-- What a run begins for a worker, and how many steps of its own that takes. -/
theorem InOrder.own_steps (inOrder : s.InOrder) (worker : Fin workers)
    {steps : List (HandoffStep workers)} (ran : (handoff workers).run s steps = some s') :
    s.obtained <+: s'.obtained ∧
      (of (some worker) s.begun).length ≤ (of (some worker) s'.begun).length ∧
      ∀ k ≤ (s.scheduler (some worker)).line.length,
        (of (some worker) s'.begun).length < (of (some worker) s.begun).length + k →
        steps.countP (IsOwn worker) + s.done worker ≤
          (s.scheduler (some worker)).ends (s.server.thread (some worker)) k + s'.done worker := by
  induction steps generalizing s with
  | nil =>
      obtain rfl := Option.some.inj ran
      exact ⟨List.prefix_refl _, Nat.le_refl _, fun k _ _ => by simp⟩
  | cons action rest ih =>
      obtain ⟨mid, taken, later⟩ := Machine.run_cons_some _ |>.mp ran
      obtain ⟨obtained, begun, steps⟩ := ih (InOrder.step s action mid inOrder taken) later
      by_cases own : IsOwn worker action
      · cases action with
        | caller | complete => cases own
        | run who submitted =>
            have mine : who = some worker := own
            subst mine
            obtain ⟨same, fds, begins, line, onward⟩ := inOrder.own_step taken
            rw [begins, List.length_append] at begun steps
            refine ⟨same ▸ obtained, by omega, fun k held waits => ?_⟩
            have size := congrArg List.length line
            rw [List.length_append] at size
            have here := onward k (by omega) held
            have there := steps (k - fds.length) (by omega) (by omega)
            rw [List.countP_cons_of_pos (by simpa using own)]
            omega
      · have elsewhere := inOrder.sound.elsewhere own taken
        rw [elsewhere.begun] at begun steps
        refine ⟨elsewhere.obtained.trans obtained, begun, fun k held waits => ?_⟩
        have there := steps k (held.trans elsewhere.line.length_le) waits
        rw [elsewhere.ends, elsewhere.done] at there
        rw [List.countP_cons_of_neg (by simpa using own)]
        exact there

/-- A worker that takes steps enough has begun all that it held, in order, whatever the other
    threads do in between. -/
theorem begun_inTime (reached : (handoff workers).Reachable s)
    (steps : List (HandoffStep workers)) (s' : Handoff workers)
    (ran : (handoff workers).run s steps = some s') (worker : Fin workers)
    (often : 8 + 2 * ((of (some worker) s'.obtained).length - (of (some worker) s.begun).length) <
      steps.countP (IsOwn worker)) :
    of (some worker) s.begun ++ (s.scheduler (some worker)).line <+:
      of (some worker) s'.begun := by
  have inOrder := inOrder_reachable reached
  have inOrder' := Machine.run_preserves InOrder.step inOrder ran
  obtain ⟨obtained, begun, waits⟩ := inOrder.own_steps worker ran
  have first : of (some worker) s.begun ++ (s.scheduler (some worker)).line <+:
      of (some worker) s'.obtained := by
    refine .trans ?_ (obtained.filterMap _)
    rw [← of, inOrder.ordered, ← List.append_assoc]
    exact List.prefix_append _ _
  have second : of (some worker) s'.begun <+: of (some worker) s'.obtained := by
    rw [inOrder'.ordered]
    exact List.prefix_append _ _
  refine List.prefix_of_prefix_length_le first second ?_
  rw [List.length_append]
  by_contra short
  have late := waits _ (Nat.le_refl _) (Nat.lt_of_not_le short)
  have ends := (s.scheduler (some worker)).ends_le (s.server.thread (some worker))
    (s.scheduler (some worker)).line.length
  have done := inOrder'.done_le worker
  have before : 2 * (of (some worker) s.begun).length ≤ s.done worker := Nat.le_add_right _ _
  omega

theorem begun_inTime_two : ∃ s s', (handoff 2).run (handoff 2).init threeAccepted = some s ∧
    (handoff 2).run s (List.replicate 13 (.run (some 0) true)) = some s' ∧
    (s.scheduler (some 0)).line = [7, 9] ∧
    of (some 0) s.begun ++ (s.scheduler (some 0)).line <+: of (some 0) s'.begun := by
  have ran : ((handoff 2).run (handoff 2).init threeAccepted).any fun s =>
      (s.scheduler (some 0)).line = [7, 9] ∧ s.begun = [] ∧
        ((handoff 2).run s (List.replicate 13 (.run (some 0) true))).any fun s' =>
          (of (some 0) s'.obtained).length = 2 := by decide +kernel
  obtain ⟨s, ran, final⟩ := (Option.any_eq_true _ _).mp ran
  obtain ⟨line, begun, serves⟩ := of_decide_eq_true final
  obtain ⟨s', served, obtained⟩ := (Option.any_eq_true _ _).mp serves
  refine ⟨s, s', ran, served, line, begun_inTime ⟨threeAccepted, ran⟩ _ s' served 0 ?_⟩
  rw [of_decide_eq_true obtained, begun]
  decide

end Handoff

end Corio.Uring
