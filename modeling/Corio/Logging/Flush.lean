import Corio.Logging.Conserved

/-! # What `stop` flushes

After `running_ = false` the background thread takes buffers once more if it is between
the test of the flag and its swap, and not at all elsewhere. So what `stop` promised is
flushed exactly if one of the two made it unnecessary to take more.
-/

namespace Corio.Logging

namespace AsyncLogging

/-- The contents of the buffers that are not taken yet. -/
def held (s : AsyncLogging) : Bytes := (s.waiting.map s.heap).flatten

/-- The lines appended after `stop` was called. -/
def late (s : AsyncLogging) : List Line := s.appended.drop s.promised

/-- The background thread is going to take the buffers whatever the flag says. -/
def Sweeping (s : AsyncLogging) : Prop := s.thread = .locking ∨ s.thread = .waiting

/-- Nothing that was appended before `stop` is left behind. -/
def Swept (s : AsyncLogging) : Prop := s.Sweeping ∨ s.held.length ≤ (bytes s.late).length

/-- The flag goes down only when the promised lines are on their way. -/
def InTime (s : AsyncLogging) : LogStep → Prop
  | .owner => s.owner = .stopping → s.Swept
  | _ => True

/-- All lines appended before `stop` are flushed. -/
def Flushed (s : AsyncLogging) : Prop := bytes (s.appended.take s.promised) <+: s.output.flushed

/-- `running_ = false` has been executed in `stop`. -/
def Down (s : AsyncLogging) : Prop :=
  s.owner = .notifying ∨ s.owner = .joining ∨ s.owner = .stopped

structure Phase (s : AsyncLogging) : Prop where
  conserved : s.Conserved
  down : s.Down → s.running = false
  stopped : s.owner = .stopped → s.thread = .finished
  flushed : s.thread = .finished → s.output.flushed = s.output.given
  counted : s.promised ≤ s.appended.length

variable {s s' : AsyncLogging}

/-- What the background thread leaves alone. -/
def outside (s : AsyncLogging) : OwnerPc × Bool × List Line × Nat :=
  (s.owner, s.running, s.appended, s.promised)

theorem outside_swap (s : AsyncLogging) : s.swap.outside = s.outside := by
  unfold swap
  split
  · rfl
  · simp only
    split <;> rfl

theorem outside_refill1 (s : AsyncLogging) : s.refill1.outside = s.outside := by
  unfold refill1 recycle
  split
  · cases s.buffersToWrite.getLast? <;> rfl
  · rfl

theorem outside_refill2 (s : AsyncLogging) : s.refill2.outside = s.outside := by
  unfold refill2 recycle
  split
  · cases s.buffersToWrite.getLast? <;> rfl
  · rfl

theorem outside_threadStep (taken : s.threadStep = some s') : s'.outside = s.outside := by
  cases pc : s.thread with
  | unborn | finished => simp [threadStep, pc] at taken
  | entering | taken =>
      simp only [threadStep, pc] at taken
      split at taken <;> exact Option.some.inj taken ▸ rfl
  | testing | flushing | finishing =>
      simp only [threadStep, pc] at taken
      exact Option.some.inj taken ▸ rfl
  | locking =>
      simp only [threadStep, pc] at taken
      split at taken
      · split at taken
        · exact Option.some.inj taken ▸ rfl
        · exact Option.some.inj taken ▸ outside_swap s
      · exact Option.some.inj taken ▸ rfl
  | waiting =>
      simp only [threadStep, pc] at taken
      exact Option.some.inj taken ▸ outside_swap s
  | writing i =>
      simp only [threadStep, pc] at taken
      split at taken <;> exact Option.some.inj taken ▸ rfl
  | recycling =>
      simp only [threadStep, pc] at taken
      exact Option.some.inj taken ▸ (outside_refill2 _).trans (outside_refill1 _)

/-- A step of the background thread takes all waiting buffers, or none of them. -/
theorem Conserved.held_threadStep (conserved : s.Conserved) (begun : s.thread ≠ .entering)
    (taken : s.threadStep = some s') :
    s.Sweeping ∧ (s'.Sweeping ∨ s'.held = []) ∨
      ¬ s.Sweeping ∧ s'.held = s.held ∧ (s'.Sweeping → s.running = true) := by
  have owned := conserved.owned
  have swapped : s.Idle → s.swap.held = [] := fun idle => by
    obtain ⟨current, spare1, spare2, next, rest, there, has1, has2, -, same⟩ := owned.swap_eq idle
    simp only [same, held, waiting, Option.toList_some, List.nil_append, List.map_cons,
      List.map_nil, owned.spare spare1 (by simp [has1]), List.flatten_cons, List.flatten_nil]
  cases pc : s.thread with
  | unborn | finished => simp [AsyncLogging.threadStep, pc] at taken
  | entering => exact absurd pc begun
  | locking =>
      have idle : s.Idle := by simp only [Idle, pc]
      simp only [AsyncLogging.threadStep, pc, if_pos (owned.asserted idle)] at taken
      split at taken
      · obtain rfl := Option.some.inj taken
        exact .inl ⟨.inl pc, .inl (.inr rfl)⟩
      · obtain rfl := Option.some.inj taken
        exact .inl ⟨.inl pc, .inr (swapped idle)⟩
  | waiting =>
      simp only [AsyncLogging.threadStep, pc] at taken
      obtain rfl := Option.some.inj taken
      exact .inl ⟨.inr pc, .inr (swapped (by simp only [Idle, pc]))⟩
  | testing =>
      simp only [AsyncLogging.threadStep, pc] at taken
      obtain rfl := Option.some.inj taken
      refine .inr ⟨by simp [Sweeping, pc], rfl, fun sweeping => ?_⟩
      by_contra down
      simp [Sweeping, goto, down] at sweeping
  | taken =>
      simp only [AsyncLogging.threadStep, pc] at taken
      split at taken
      all_goals
        obtain rfl := Option.some.inj taken
        exact .inr ⟨by simp [Sweeping, pc], rfl, by simp [Sweeping, goto, fail, pc]⟩
  | flushing | finishing =>
      simp only [AsyncLogging.threadStep, pc] at taken
      obtain rfl := Option.some.inj taken
      exact .inr ⟨by simp [Sweeping, pc], rfl, by simp [Sweeping, goto]⟩
  | writing i =>
      simp only [AsyncLogging.threadStep, pc] at taken
      split at taken
      all_goals
        obtain rfl := Option.some.inj taken
        exact .inr ⟨by simp [Sweeping, pc], rfl, by simp [Sweeping, goto]⟩
  | recycling =>
      obtain ⟨spare1, spare2, heap, same, -, -, frame, -⟩ := owned.recycled pc
      obtain rfl := Option.some.inj (taken.symm.trans same)
      refine .inr ⟨by simp [Sweeping, pc], ?_, by simp [Sweeping]⟩
      refine congrArg List.flatten (List.map_congr_left fun p member => frame p fun again => ?_)
      refine List.disjoint_of_nodup_append owned.distinct ?_ again
      simp only [waiting, List.mem_append] at member ⊢
      tauto

theorem Owned.append_fixed (owned : s.Owned) (line : Line) :
    (s.append line).thread = s.thread ∧ (s.append line).output = s.output ∧
      (s.append line).outside = (s.owner, s.running, s.appended ++ [line], s.promised) := by
  obtain ⟨current, -, same | ⟨p, next, -, same⟩⟩ := owned.append_cases line
  all_goals
    rw [same]
    exact ⟨rfl, rfl, rfl⟩

theorem Owned.held_append (owned : s.Owned) (line : Line) :
    (s.append line).held = s.held ++ line.val := by
  have distinct := (owned.append line).distinct
  obtain ⟨current, there, same | ⟨p, next, -, same⟩⟩ := owned.append_cases line
  · have outside : current ∉ s.buffers := by
      rw [same] at distinct
      simp [pointers, there] at distinct
      tauto
    simp [same, held, waiting, there, map_update outside]
  · have outside : p ∉ s.buffers ∧ p ≠ current := by
      rw [same] at distinct
      simp [pointers] at distinct
      tauto
    simp [same, held, waiting, there, map_update outside.1, Function.update_of_ne outside.2.symm]

/-- The background thread only finishes with a flush. -/
theorem Conserved.flushed_threadStep (conserved : s.Conserved) (taken : s.threadStep = some s')
    (finished : s'.thread = .finished) : s'.output.flushed = s'.output.given := by
  have owned := conserved.owned
  have swapped : s.Idle → s.swap.thread ≠ .finished := fun idle => by
    obtain ⟨_, _, _, _, _, -, -, -, -, same⟩ := owned.swap_eq idle
    simp [same]
  cases pc : s.thread with
  | unborn | finished => simp [AsyncLogging.threadStep, pc] at taken
  | entering | taken | writing =>
      simp only [AsyncLogging.threadStep, pc] at taken
      split at taken <;> obtain rfl := Option.some.inj taken <;>
        simp [goto, fail, pc] at finished
  | testing =>
      simp only [AsyncLogging.threadStep, pc] at taken
      obtain rfl := Option.some.inj taken
      simp only [goto] at finished
      split at finished <;> cases finished
  | locking =>
      have idle : s.Idle := by simp only [Idle, pc]
      simp only [AsyncLogging.threadStep, pc, if_pos (owned.asserted idle)] at taken
      split at taken <;> obtain rfl := Option.some.inj taken
      · cases finished
      · exact absurd finished (swapped idle)
  | waiting =>
      simp only [AsyncLogging.threadStep, pc] at taken
      obtain rfl := Option.some.inj taken
      exact absurd finished (swapped (by simp only [Idle, pc]))
  | recycling | flushing =>
      simp only [AsyncLogging.threadStep, pc] at taken
      obtain rfl := Option.some.inj taken
      cases finished
  | finishing =>
      simp only [AsyncLogging.threadStep, pc] at taken
      exact Option.some.inj taken ▸ rfl

theorem Phase.append (phase : s.Phase) (line : Line) : (s.append line).Phase := by
  obtain ⟨thread, output, fixed⟩ := phase.conserved.owned.append_fixed line
  simp only [outside, Prod.mk.injEq] at fixed
  obtain ⟨owner, running, appended, promised⟩ := fixed
  refine ⟨phase.conserved.append line, ?_, ?_, ?_, ?_⟩
  · simpa only [Down, owner, running] using phase.down
  · simpa only [owner, thread] using phase.stopped
  · simpa only [thread, output] using phase.flushed
  · have := phase.counted
    simp only [promised, appended, List.length_append]
    omega

theorem Phase.threadStep (phase : s.Phase) (taken : s.threadStep = some s') : s'.Phase := by
  have fixed := outside_threadStep taken
  simp only [outside, Prod.mk.injEq] at fixed
  obtain ⟨owner, running, appended, promised⟩ := fixed
  refine ⟨phase.conserved.threadStep taken, ?_, ?_, ?_, ?_⟩
  · simpa only [Down, owner, running] using phase.down
  · intro stopped
    have finished := phase.stopped (owner ▸ stopped)
    simp [AsyncLogging.threadStep, finished] at taken
  · exact phase.conserved.flushed_threadStep taken
  · simpa only [promised, appended] using phase.counted

theorem Phase.ownerStep (phase : s.Phase) (taken : s.ownerStep = some s') : s'.Phase := by
  have conserved := phase.conserved.ownerStep taken
  cases pc : s.owner with
  | constructed =>
      simp only [AsyncLogging.ownerStep, pc, Option.some.injEq] at taken
      subst taken
      exact ⟨conserved, by simp [Down, goto], OwnerPc.noConfusion, ThreadPc.noConfusion,
        phase.counted⟩
  | latched =>
      simp only [AsyncLogging.ownerStep, pc] at taken
      split at taken
      · cases taken
      · obtain rfl := Option.some.inj taken
        exact ⟨conserved, by simp [Down], OwnerPc.noConfusion, phase.flushed, phase.counted⟩
  | started =>
      simp only [AsyncLogging.ownerStep, pc, Option.some.injEq] at taken
      subst taken
      exact ⟨conserved, by simp [Down], OwnerPc.noConfusion, phase.flushed, le_rfl⟩
  | stopping =>
      simp only [AsyncLogging.ownerStep, pc, Option.some.injEq] at taken
      subst taken
      exact ⟨conserved, fun _ => rfl, OwnerPc.noConfusion, phase.flushed, phase.counted⟩
  | notifying =>
      simp only [AsyncLogging.ownerStep, pc, Option.some.injEq] at taken
      subst taken
      exact ⟨conserved, fun _ => phase.down (.inl pc), OwnerPc.noConfusion, phase.flushed,
        phase.counted⟩
  | joining =>
      simp only [AsyncLogging.ownerStep, pc, Option.ite_none_right_eq_some, Option.some.injEq]
        at taken
      obtain ⟨finished, rfl⟩ := taken
      exact ⟨conserved, fun _ => phase.down (.inr (.inl pc)), fun _ => finished, phase.flushed,
        phase.counted⟩
  | stopped => simp only [AsyncLogging.ownerStep, pc, reduceCtorEq] at taken

theorem Phase.step (s : AsyncLogging) (action : LogStep) (s' : AsyncLogging) (phase : s.Phase)
    (taken : asyncLogging.step s action = some s') : s'.Phase := by
  simp only [asyncLogging, phase.conserved.owned.ok, Bool.false_eq_true, if_false] at taken
  cases action with
  | append line => exact Option.some.inj taken ▸ phase.append line
  | thread => exact phase.threadStep taken
  | owner => exact phase.ownerStep taken

theorem Phase.init : asyncLogging.init.Phase :=
  ⟨Conserved.init, by simp [Down, asyncLogging], OwnerPc.noConfusion, ThreadPc.noConfusion, le_rfl⟩

/-- Once the flag is down it is settled whether the promised lines are swept. -/
theorem swept_step (phase : s.Phase) (down : s.Down) {action : LogStep}
    (taken : asyncLogging.step s action = some s') : s'.Down ∧ (s'.Swept ↔ s.Swept) := by
  have owned := phase.conserved.owned
  simp only [asyncLogging, owned.ok, Bool.false_eq_true, if_false] at taken
  cases action with
  | append line =>
      obtain rfl := Option.some.inj taken
      obtain ⟨thread, -, fixed⟩ := owned.append_fixed line
      simp only [outside, Prod.mk.injEq] at fixed
      obtain ⟨owner, -, appended, promised⟩ := fixed
      refine ⟨by simpa only [Down, owner] using down, ?_⟩
      have later : (s.append line).late = s.late ++ [line] := by
        simp only [late, appended, promised, List.drop_append_of_le_length phase.counted]
      simp only [Swept, Sweeping, thread, owned.held_append, later, bytes_append,
        List.length_append]
      simp [bytes]
  | thread =>
      have fixed := outside_threadStep taken
      simp only [outside, Prod.mk.injEq] at fixed
      obtain ⟨owner, -, appended, promised⟩ := fixed
      refine ⟨by simpa only [Down, owner] using down, ?_⟩
      have begun : s.thread ≠ .entering := fun entering => by
        simp [Down, (owned.entering entering).1] at down
      rcases phase.conserved.held_threadStep begun taken with ⟨sweeping, next⟩ | ⟨past, same, next⟩
      · refine iff_of_true (next.imp_right fun empty => ?_) (.inl sweeping)
        simp only [empty, List.length_nil, Nat.zero_le]
      · have past' : ¬ s'.Sweeping := fun sweeping => by
          rw [phase.down down] at next
          cases next sweeping
        simp only [Swept, past, past', false_or, same, late, appended, promised]
  | owner =>
      rcases down with pc | pc | pc
      · simp only [AsyncLogging.ownerStep, pc, Option.some.injEq] at taken
        exact taken ▸ ⟨.inr (.inl rfl), Iff.rfl⟩
      · simp only [AsyncLogging.ownerStep, pc, Option.ite_none_right_eq_some, Option.some.injEq]
          at taken
        exact taken.2 ▸ ⟨.inr (.inr rfl), Iff.rfl⟩
      · simp only [AsyncLogging.ownerStep, pc, reduceCtorEq] at taken

/-- The step that clears the flag. -/
theorem down_step (phase : s.Phase) (up : ¬ s.Down) {action : LogStep}
    (taken : asyncLogging.step s action = some s') (down : s'.Down) :
    action = .owner ∧ s.owner = .stopping ∧ (s'.Swept ↔ s.Swept) := by
  have owned := phase.conserved.owned
  simp only [asyncLogging, owned.ok, Bool.false_eq_true, if_false] at taken
  cases action with
  | append line =>
      obtain rfl := Option.some.inj taken
      obtain ⟨-, -, fixed⟩ := owned.append_fixed line
      simp only [outside, Prod.mk.injEq] at fixed
      exact absurd (by simpa only [Down, fixed.1] using down) up
  | thread =>
      have fixed := outside_threadStep taken
      simp only [outside, Prod.mk.injEq] at fixed
      exact absurd (by simpa only [Down, fixed.1] using down) up
  | owner =>
      refine ⟨rfl, ?_⟩
      cases pc : s.owner with
      | stopping =>
          simp only [AsyncLogging.ownerStep, pc, Option.some.injEq] at taken
          exact taken ▸ ⟨rfl, Iff.rfl⟩
      | constructed | started =>
          simp only [AsyncLogging.ownerStep, pc, Option.some.injEq] at taken
          subst taken
          simp [Down, goto] at down
      | latched =>
          simp only [AsyncLogging.ownerStep, pc] at taken
          split at taken
          · cases taken
          · obtain rfl := Option.some.inj taken
            simp [Down] at down
      | notifying | joining | stopped => simp [Down, pc] at up

/-- When `stop` has returned, the file ends where the buffers left behind begin. -/
theorem Phase.flushed_iff (phase : s.Phase) (stopped : s.owner = .stopped)
    (few : ∀ turn ∈ s.turns, turn.length ≤ 25) : s.Flushed ↔ s.Swept := by
  have finished := phase.stopped stopped
  have past : ¬ s.Sweeping := by simp [Sweeping, finished]
  have whole : s.output.given ++ s.held = bytes (s.appended.take s.promised) ++ bytes s.late := by
    rw [late, ← bytes_append, List.take_append_drop, ← phase.conserved.complete few]
    simp only [visible, held, waiting, unwritten, inFlight, finished, List.nil_append]
  have lengths := congrArg List.length whole
  simp only [List.length_append] at lengths
  simp only [Flushed, Swept, past, false_or, phase.flushed finished]
  constructor
  · intro inside
    have := inside.length_le
    omega
  · intro few
    exact List.prefix_of_prefix_length_le (List.prefix_append _ _)
      (whole ▸ List.prefix_append s.output.given s.held) (by omega)

/-- What `stop` promises is flushed exactly if the flag goes down in time. -/
theorem flushed_iff_inTime (steps : List LogStep) (s : AsyncLogging)
    (ran : asyncLogging.run asyncLogging.init steps = some s) (stopped : s.owner = .stopped)
    (few : ∀ turn ∈ s.turns, turn.length ≤ 25) :
    asyncLogging.Guarded InTime asyncLogging.init steps ↔ s.Flushed := by
  have phase := Machine.run_preserves Phase.step Phase.init ran
  have down : s.Down := .inr (.inr stopped)
  rw [phase.flushed_iff stopped few]
  constructor
  · intro guarded
    refine (Machine.Guarded.preserves (I := fun s => s.Phase ∧ (s.Down → s.Swept)) ?_
      ⟨Phase.init, by simp [Down, asyncLogging]⟩ guarded ran).2 down
    intro s action s' inv inTime taken
    refine ⟨Phase.step s action s' inv.1 taken, fun downNext => ?_⟩
    by_cases down : s.Down
    · exact (swept_step inv.1 down taken).2.mpr (inv.2 down)
    · obtain ⟨rfl, pc, same⟩ := down_step inv.1 down taken downNext
      exact same.mpr (inTime pc)
  · intro swept
    refine (Machine.guarded_or Phase.step (C := InTime) (P := fun s => s.Down ∧ ¬ s.Swept)
      ?_ ?_ Phase.init ran).resolve_right fun missed => missed.2 swept
    · intro s action s' inv taken
      obtain ⟨downNext, same⟩ := swept_step inv.1 inv.2.1 taken
      exact ⟨Phase.step s action s' inv.1 taken, downNext, mt same.mp inv.2.2⟩
    · intro s action s' phase missed taken
      cases action with
      | append line | thread => exact absurd trivial missed
      | owner =>
          obtain ⟨pc, left⟩ := Classical.not_imp.mp missed
          simp only [asyncLogging, phase.conserved.owned.ok, Bool.false_eq_true, if_false,
            ownerStep, pc, Option.some.injEq] at taken
          exact taken ▸ ⟨.inl rfl, left⟩

instance (s : AsyncLogging) : DecidablePred s.InTime
  | .owner => inferInstanceAs (Decidable (s.owner = .stopping → (_ ∨ _) ∨ _ ≤ _))
  | .append _ | .thread => .isTrue trivial

/-- A line is appended while the background thread waits, and then `stop` is called. -/
def calmStop : List LogStep :=
  [.owner, .thread, .owner, .thread, .thread, .append shortLine, .owner, .owner,
    .owner, .thread, .thread, .thread, .thread, .thread, .thread, .thread, .thread, .owner]

theorem calmStop_run : (asyncLogging.run asyncLogging.init calmStop).isSome := by decide +kernel

theorem flushed_iff_inTime_calm :
    ∃ s, asyncLogging.run asyncLogging.init calmStop = some s ∧ s.owner = .stopped ∧
      s.promised = 1 ∧ s.Flushed :=
  ⟨Option.get _ calmStop_run, (Option.some_get _).symm, by decide +kernel, by decide +kernel,
    (flushed_iff_inTime calmStop _ (Option.some_get _).symm (by decide +kernel)
      (by decide +kernel)).mp (by decide +kernel)⟩

/-- A line is appended while the background thread is at the test of the flag, and then
    `stop` is called. -/
def hastyStop : List LogStep :=
  [.owner, .thread, .owner, .append shortLine, .owner, .owner, .owner, .thread,
    .thread, .owner]

/-- The line is left in the current buffer. -/
theorem hastyStop_loses : ¬ ∀ steps s, asyncLogging.run asyncLogging.init steps = some s →
    s.owner = .stopped → (∀ turn ∈ s.turns, turn.length ≤ 25) → s.Flushed := by
  intro claim
  have ran : (asyncLogging.run asyncLogging.init hastyStop).any fun s =>
      s.owner = .stopped ∧ s.turns = [] ∧ bytes (s.appended.take s.promised) = [104, 10] ∧
        s.output.flushed = [] := by decide +kernel
  obtain ⟨s, ran, final⟩ := (Option.any_eq_true _ _).mp ran
  obtain ⟨stopped, turns, promised, flushed⟩ := of_decide_eq_true final
  have kept := claim hastyStop s ran stopped (by simp [turns])
  simp [Flushed, promised, flushed] at kept

end AsyncLogging

end Corio.Logging
