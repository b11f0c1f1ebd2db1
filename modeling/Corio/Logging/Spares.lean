import Corio.Logging.Conserved

/-! # What the assertions of `threadFunc` rest on

Lines of any length come from any number of threads, and the block that uses two buffers
again is taken apart, so that they also come between its steps. Handing a buffer on is one
step: the assignment, and the `reset` or `pop_back` that takes it away from where it was.
-/

namespace Corio.Logging

/-- Where the background thread is in the block behind the output. -/
inductive Refill where
  /-- At `resize(2)`. -/
  | resizing
  /-- At `if (!newBuffer1)`. -/
  | first
  /-- At `if (!newBuffer2)`. -/
  | second
  /-- At `buffersToWrite.clear()`. -/
  | clearing
  deriving DecidableEq, Repr

structure Reuse where
  logging : AsyncLogging
  refill : Refill

namespace Reuse

def threadStep (t : Reuse) : Option Reuse :=
  let s := t.logging
  if s.thread = .recycling then
    match t.refill with
    | .resizing => some ⟨{ s with buffersToWrite := s.buffersToWrite.take 2 }, .first⟩
    | .first => some ⟨s.refill1, .second⟩
    | .second => some ⟨s.refill2, .clearing⟩
    | .clearing => some ⟨{ s with buffersToWrite := [] }.goto .flushing, .resizing⟩
  else s.threadStep.map (⟨·, t.refill⟩)

end Reuse

inductive ReuseStep where
  /-- Some thread appends a line. -/
  | append (logline : Bytes)
  | thread
  | owner

def reuse : Machine Reuse ReuseStep where
  init := ⟨asyncLogging.init, .resizing⟩
  step t action :=
    if t.logging.failed then none
    else
      match action with
      | .append logline => some ⟨t.logging.place logline, t.refill⟩
      | .thread => t.threadStep
      | .owner => t.logging.ownerStep.map (⟨·, t.refill⟩)

namespace Reuse

open AsyncLogging

/-- Each assertion of `threadFunc`, where it is reached. -/
structure Asserted (t : Reuse) : Prop where
  running : t.logging.thread = .entering → t.logging.running = true
  newBuffer1 : t.logging.thread = .locking → t.logging.isEmptyBuffer t.logging.newBuffer1
  newBuffer2 : t.logging.thread = .locking → t.logging.isEmptyBuffer t.logging.newBuffer2
  nothingToWrite : t.logging.thread = .locking → t.logging.buffersToWrite = []
  swapped : t.logging.thread = .taken → t.logging.buffersToWrite ≠ []
  first : t.logging.thread = .recycling → t.refill = .first → t.logging.newBuffer1 = none →
    t.logging.buffersToWrite ≠ []
  second : t.logging.thread = .recycling → t.refill = .second → t.logging.newBuffer2 = none →
    t.logging.buffersToWrite ≠ []

/-- How many spare buffers the background thread has got back, and what is left of those
    it has taken. -/
def Phase (t : Reuse) : Prop :=
  match t.refill with
  | .resizing => t.logging.Owned
  | .first => t.logging.Owned ∧ t.logging.thread = .recycling
  | .second =>
      t.logging.thread = .recycling ∧ t.logging.owner ≠ .constructed ∧
        t.logging.newBuffer1 ≠ none ∧
        (t.logging.newBuffer2 = none → t.logging.buffersToWrite ≠ [])
  | .clearing =>
      t.logging.thread = .recycling ∧ t.logging.owner ≠ .constructed ∧
        t.logging.newBuffer1 ≠ none ∧ t.logging.newBuffer2 ≠ none

structure Sound (t : Reuse) : Prop where
  apart : t.logging.Apart
  ok : t.logging.failed = false
  phase : t.Phase

variable {t t' : Reuse}

theorem Sound.of_owned {s : AsyncLogging} (owned : s.Owned) : Sound ⟨s, .resizing⟩ :=
  ⟨owned.apart, owned.ok, owned⟩

/-- A line leaves what belongs to the background thread alone. -/
theorem Sound.append (sound : t.Sound) (logline : Bytes) :
    Sound ⟨t.logging.place logline, t.refill⟩ := by
  have apart := sound.apart.place logline
  have phase := sound.phase
  obtain ⟨current, there⟩ := Option.ne_none_iff_exists'.mp sound.apart.current
  have frame : (t.logging.place logline).failed = t.logging.failed ∧
      (t.logging.place logline).thread = t.logging.thread ∧
      (t.logging.place logline).owner = t.logging.owner ∧
      (t.logging.place logline).newBuffer1 = t.logging.newBuffer1 ∧
      (t.logging.place logline).newBuffer2 = t.logging.newBuffer2 ∧
      (t.logging.place logline).buffersToWrite = t.logging.buffersToWrite := by
    rcases place_cases there logline with ⟨data, same⟩ | ⟨p, next, data, -, same⟩ <;>
    · rw [same]
      exact ⟨rfl, rfl, rfl, rfl, rfl, rfl⟩
  obtain ⟨failed, thread, owner, buffer1, buffer2, toWrite⟩ := frame
  refine ⟨apart, failed.trans sound.ok, ?_⟩
  cases refill : t.refill with
  | resizing =>
      simp only [Phase, refill] at phase ⊢
      exact phase.place logline
  | first =>
      simp only [Phase, refill] at phase ⊢
      exact ⟨phase.1.place logline, thread.trans phase.2⟩
  | second | clearing =>
      simp only [Phase, refill] at phase ⊢
      simpa only [thread, owner, buffer1, buffer2, toWrite] using phase

theorem Sound.owner (sound : t.Sound) {s : AsyncLogging} (taken : t.logging.ownerStep = some s) :
    Sound ⟨s, t.refill⟩ := by
  have phase := sound.phase
  cases refill : t.refill with
  | resizing =>
      simp only [Phase, refill] at phase
      exact .of_owned (phase.ownerStep taken)
  | first =>
      simp only [Phase, refill] at phase
      have owned := phase.1.ownerStep taken
      refine ⟨owned.apart, owned.ok, owned, ?_⟩
      cases phase.1.ownerStep_cases taken with
      | started unborn => exact absurd (unborn.symm.trans phase.2) (by simp)
      | onward => exact phase.2
  | second | clearing =>
      simp only [Phase, refill] at phase
      have apart := sound.apart
      have move := ownerStep_cases (fun early => absurd early phase.2.1)
        (fun entering => absurd (entering.symm.trans phase.1) (by simp)) taken
      cases move with
      | started unborn => exact absurd (unborn.symm.trans phase.1) (by simp)
      | onward later _ =>
          exact ⟨⟨apart.distinct, apart.old, apart.current, apart.spare, apart.used⟩, sound.ok,
            phase.1, later, phase.2.2⟩

/-- The last of the taken buffers becomes a spare one. -/
theorem refilled {s : AsyncLogging} (apart : s.Apart) {front : List Addr} {p : Addr}
    (ends : s.buffersToWrite = front ++ [p]) (buffer1 buffer2 : Option Addr)
    (one : (buffer1.toList ++ buffer2.toList).Perm
      (p :: (s.newBuffer1.toList ++ s.newBuffer2.toList))) :
    Apart { s with heap := Function.update s.heap p [], buffersToWrite := front,
                   newBuffer1 := buffer1, newBuffer2 := buffer2 } := by
  have distinct := moved
    { s with buffersToWrite := front, newBuffer1 := buffer1, newBuffer2 := buffer2 }.pointers
    apart.distinct apart.old fun a => by
      have := one.count_eq a
      simp only [pointers, ends, List.count_append, List.count_cons, List.count_nil] at this ⊢
      omega
  refine ⟨distinct.1, distinct.2, apart.current, fun q member => ?_, apart.used⟩
  by_cases same : q = p
  · simp only [same, Function.update_self]
  · simp only [Function.update_of_ne same]
    refine apart.spare q ?_
    rw [List.append_assoc, List.mem_append, one.mem_iff] at member
    simp only [List.mem_append, List.mem_cons, same, false_or] at member ⊢
    tauto

theorem Sound.resized (owned : t.logging.Owned) (pc : t.logging.thread = .recycling) :
    Sound ⟨{ t.logging with buffersToWrite := t.logging.buffersToWrite.take 2 }, .first⟩ := by
  obtain ⟨used, some_, two⟩ := owned.loaded (by simp only [Loaded, pc])
  have apart := moved
    { t.logging with buffersToWrite := t.logging.buffersToWrite.take 2 }.pointers
    owned.distinct owned.old fun a => by
      have := (List.take_sublist 2 t.logging.buffersToWrite).count_le a
      simp only [pointers, List.count_append]
      omega
  have resized : AsyncLogging.Owned
      { t.logging with buffersToWrite := t.logging.buffersToWrite.take 2 } := by
    refine ⟨apart.1, apart.2, owned.current, owned.spare, owned.used, fun idle => ?_,
      fun _ => ⟨used, by simpa using some_, fun none => ?_⟩, fun bare => ?_, owned.unborn,
      owned.entering, owned.ok⟩
    · simp only [Idle, pc] at idle
    · have := two none
      rw [List.length_take]
      omega
    · simp only [Bare, pc, reduceCtorEq, or_self] at bare
  exact ⟨resized.apart, resized.ok, resized, pc⟩

theorem Sound.refilled1 (owned : t.logging.Owned) (pc : t.logging.thread = .recycling) :
    Sound ⟨t.logging.refill1, .second⟩ := by
  obtain ⟨used, some_, two⟩ := owned.loaded (by simp only [Loaded, pc])
  obtain ⟨front, p, ends⟩ := List.eq_nil_or_concat _ |>.resolve_left some_
  rw [List.concat_eq_append] at ends
  have apart := refilled owned.apart ends (some p) t.logging.newBuffer2 (by simp [used])
  have begun : t.logging.owner ≠ .constructed := fun early =>
    absurd ((owned.unborn early).symm.trans pc) (by simp)
  rw [refill1_snoc used ends]
  refine ⟨apart, owned.ok, pc, begun, Option.some_ne_none _, fun none => ?_⟩
  have length := congrArg List.length ends
  have := two none
  rw [List.length_append, List.length_singleton] at length
  have more : 0 < front.length := by omega
  exact List.length_pos_iff.mp more

theorem Sound.refilled2 (sound : t.Sound) (refill : t.refill = .second) :
    Sound ⟨t.logging.refill2, .clearing⟩ := by
  have phase := sound.phase
  simp only [Phase, refill] at phase
  obtain ⟨pc, begun, has1, left⟩ := phase
  cases has2 : t.logging.newBuffer2 with
  | some p =>
      have same : t.logging.refill2 = t.logging := by simp [refill2, has2]
      rw [same]
      exact ⟨sound.apart, sound.ok, pc, begun, has1, by simp [has2]⟩
  | none =>
      obtain ⟨front, p, ends⟩ := List.eq_nil_or_concat _ |>.resolve_left (left has2)
      rw [List.concat_eq_append] at ends
      have apart := refilled sound.apart ends t.logging.newBuffer1 (some p) (by simp [has2])
      rw [refill2_snoc front p has2 ends]
      exact ⟨apart, sound.ok, pc, begun, has1, Option.some_ne_none _⟩

theorem Sound.cleared (sound : t.Sound) (refill : t.refill = .clearing) :
    Sound ⟨{ t.logging with buffersToWrite := [] }.goto .flushing, .resizing⟩ := by
  have phase := sound.phase
  simp only [Phase, refill] at phase
  obtain ⟨pc, begun, has1, has2⟩ := phase
  have apart := moved { t.logging with buffersToWrite := [] }.pointers
    sound.apart.distinct sound.apart.old fun a => by
      simp only [pointers, List.count_append, List.count_nil]
      omega
  refine .of_owned ⟨apart.1, apart.2, sound.apart.current, sound.apart.spare, sound.apart.used,
    fun _ => ⟨has1, has2, rfl⟩, False.elim, fun bare => ?_, fun early => absurd early begun,
    ThreadPc.noConfusion, sound.ok⟩
  simp only [Bare, goto, reduceCtorEq, or_self] at bare

theorem Sound.thread (sound : t.Sound) (taken : t.threadStep = some t') : t'.Sound := by
  have phase := sound.phase
  simp only [threadStep] at taken
  split at taken
  · rename_i pc
    cases refill : t.refill with
    | resizing =>
        simp only [refill, Option.some.injEq] at taken
        simp only [Phase, refill] at phase
        exact taken ▸ .resized phase pc
    | first =>
        simp only [refill, Option.some.injEq] at taken
        simp only [Phase, refill] at phase
        exact taken ▸ .refilled1 phase.1 pc
    | second =>
        simp only [refill, Option.some.injEq] at taken
        exact taken ▸ sound.refilled2 refill
    | clearing =>
        simp only [refill, Option.some.injEq] at taken
        exact taken ▸ sound.cleared refill
  · rename_i other
    obtain ⟨s, stepped, rfl⟩ := Option.map_eq_some_iff.mp taken
    cases refill : t.refill with
    | resizing =>
        simp only [Phase, refill] at phase
        exact .of_owned (phase.threadStep stepped)
    | first =>
        simp only [Phase, refill] at phase
        exact absurd phase.2 other
    | second | clearing =>
        simp only [Phase, refill] at phase
        exact absurd phase.1 other

theorem Sound.step {action : ReuseStep} (sound : t.Sound) (taken : reuse.step t action = some t') :
    t'.Sound := by
  simp only [reuse, sound.ok, Bool.false_eq_true, if_false] at taken
  cases action with
  | append logline => exact Option.some.inj taken ▸ sound.append logline
  | thread => exact sound.thread taken
  | owner =>
      obtain ⟨s, stepped, rfl⟩ := Option.map_eq_some_iff.mp taken
      exact sound.owner stepped

theorem Sound.reached (reached : reuse.Reachable t) : t.Sound :=
  reached.induct (.of_owned Owned.init) fun _ _ _ => Sound.step

theorem run_thread {next : Reuse} (ok : t.logging.failed = false)
    (step : t.threadStep = some next) (n : Nat) :
    reuse.run t (List.replicate (n + 1) .thread) = reuse.run next (List.replicate n .thread) := by
  rw [List.replicate_succ, Machine.run_cons]
  simp only [reuse, ok, Bool.false_eq_true, if_false, step, Option.bind_some]

/-- Without anything in between, the four steps are the one of the coarser machine. -/
theorem run_recycling {s : AsyncLogging} (owned : s.Owned) (pc : s.thread = .recycling) :
    reuse.run ⟨s, .resizing⟩ (List.replicate 4 .thread) = s.threadStep.map (⟨·, .resizing⟩) := by
  let resized : AsyncLogging := { s with buffersToWrite := s.buffersToWrite.take 2 }
  have one : Sound ⟨resized, .first⟩ := .resized (t := ⟨s, .resizing⟩) owned pc
  have two : Sound ⟨resized.refill1, .second⟩ := .refilled1 one.phase.1 one.phase.2
  have three : Sound ⟨resized.refill1.refill2, .clearing⟩ := two.refilled2 rfl
  have step1 : threadStep ⟨s, .resizing⟩ = some ⟨resized, .first⟩ := if_pos pc
  have step2 : threadStep ⟨resized, .first⟩ = some ⟨resized.refill1, .second⟩ :=
    if_pos one.phase.2
  have step3 : threadStep ⟨resized.refill1, .second⟩ = some ⟨resized.refill1.refill2, .clearing⟩ :=
    if_pos two.phase.1
  have step4 : threadStep ⟨resized.refill1.refill2, .clearing⟩ =
      some ⟨{ resized.refill1.refill2 with buffersToWrite := [] }.goto .flushing, .resizing⟩ :=
    if_pos three.phase.1
  have whole : s.threadStep = some ({ { s with buffersToWrite := s.buffersToWrite.take 2 }
      |>.refill1.refill2 with buffersToWrite := [] }.goto .flushing) := by
    simp only [AsyncLogging.threadStep, pc]
  rw [run_thread owned.ok step1, run_thread one.ok step2, run_thread two.ok step3,
    run_thread three.ok step4, whole]
  rfl

theorem asserted_recycling (pc : t.logging.thread = .recycling)
    (first : t.refill = .first → t.logging.newBuffer1 = none → t.logging.buffersToWrite ≠ [])
    (second : t.refill = .second → t.logging.newBuffer2 = none → t.logging.buffersToWrite ≠ []) :
    t.Asserted := by
  have elsewhere {other : ThreadPc} (there : t.logging.thread = other)
      (different : other ≠ .recycling) : False :=
    different (there.symm.trans pc)
  exact
    { running := fun there => (elsewhere there (by simp)).elim
      newBuffer1 := fun there => (elsewhere there (by simp)).elim
      newBuffer2 := fun there => (elsewhere there (by simp)).elim
      nothingToWrite := fun there => (elsewhere there (by simp)).elim
      swapped := fun there => (elsewhere there (by simp)).elim
      first := fun _ => first
      second := fun _ => second }

theorem Sound.asserted (sound : t.Sound) : t.Asserted := by
  have phase := sound.phase
  cases refill : t.refill with
  | resizing =>
      simp only [Phase, refill] at phase
      have asserted (pc : t.logging.thread = .locking) :=
        phase.asserted (by simp only [Idle, pc])
      exact
        { running := fun pc => (phase.entering pc).2
          newBuffer1 := fun pc => (asserted pc).1
          newBuffer2 := fun pc => (asserted pc).2.1
          nothingToWrite := fun pc => (asserted pc).2.2
          swapped := fun pc => (phase.loaded (by simp only [Loaded, pc])).2.1
          first := fun _ other => absurd (refill.symm.trans other) (by simp)
          second := fun _ other => absurd (refill.symm.trans other) (by simp) }
  | first =>
      simp only [Phase, refill] at phase
      have loaded := phase.1.loaded (by simp only [Loaded, phase.2])
      exact asserted_recycling phase.2 (fun _ _ => loaded.2.1)
        fun other => absurd (refill.symm.trans other) (by simp)
  | second =>
      simp only [Phase, refill] at phase
      exact asserted_recycling phase.1 (fun other => absurd (refill.symm.trans other) (by simp))
        fun _ => phase.2.2.2
  | clearing =>
      simp only [Phase, refill] at phase
      exact asserted_recycling phase.1 (fun other => absurd (refill.symm.trans other) (by simp))
        fun other => absurd (refill.symm.trans other) (by simp)

/-- The assertions hold wherever they are reached, there is a current buffer whenever the mutex
    is free, and no buffer is in two places. -/
theorem spares_kept (reached : reuse.Reachable t) :
    t.Asserted ∧ t.logging.failed = false ∧ t.logging.currentBuffer ≠ none ∧
      t.logging.pointers.Nodup := by
  have sound := Sound.reached reached
  exact ⟨sound.asserted, sound.ok, sound.apart.current, sound.apart.distinct⟩

/-- Two lines and a whole turn, with an append between the two refills. -/
def wholeTurn : List ReuseStep :=
  [.owner, .thread, .append [104, 10], .thread, .thread, .thread, .thread, .thread, .thread,
    .thread, .thread, .append [105, 10], .thread]

theorem wholeTurn_run : (reuse.run reuse.init wholeTurn).isSome := by decide +kernel

theorem spares_kept_turn : ∃ t, reuse.run reuse.init wholeTurn = some t ∧
    t.refill = .clearing ∧ t.logging.pointers.length = 4 ∧ t.logging.pointers.Nodup :=
  ⟨Option.get _ wholeTurn_run, (Option.some_get _).symm, by decide +kernel, by decide +kernel,
    (spares_kept ⟨wholeTurn, (Option.some_get _).symm⟩).2.2.2⟩

end Reuse

end Corio.Logging
