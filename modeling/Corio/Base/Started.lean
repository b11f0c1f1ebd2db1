import Corio.Base.StartUp

/-! # Whether starting returns

Every schedule of the threads comes to an end, but for wakeups for no reason, and there the
starter has returned unless a thread was not created. Then it waits for ever.
-/

namespace Corio.Base

variable {σ : Type} {n : Nat}

def StarterPc.weight : StarterPc → Nat
  | .creating => 5
  | .latching | .checking => 2
  | .awaiting | .returning => 1
  | .returned | .aborted => 0

def StartedPc.weight : StartedPc → Nat
  | .storing => 2
  | .counting | .preparing => 1
  | .unborn | .announcing | .running => 0

namespace StartUp

variable {kind : GateKind σ} {s s' : StartUp σ}

/-- Where neither thread can go on, the starter has returned or there is no other thread. -/
theorem Sound.rests (sound : s.Sound kind)
    (starter : ∀ created, s.starterStep kind created = none)
    (started : ∀ id, s.startedStep kind id = none) :
    s.starter = .returned ∨ s.starter = .awaiting ∧ s.started = .unborn := by
  have starts := starter true
  have goes := started 1
  have latchWaits := sound.latchWaits
  have latchSets := sound.latchSets
  have otherSets := sound.otherSets
  have otherWaits := sound.otherWaits
  have quiet {τ : Type} {g : Gate Unit τ} (away : g.waiter () = .locking ∨ g.waiter () = .through) :
      ∀ i, ¬ (g.waiter i).Holds := by
    rintro ⟨⟩
    rcases away with pc | pc <;> simp [pc, WaitPc.Holds]
  unfold StartUp.starterStep at starts
  unfold StartUp.startedStep at goes
  cases pc : s.starter with
  | creating | checking | returning => simp [pc] at starts
  | aborted => exact absurd pc sound.asserted
  | returned => exact .inl rfl
  | latching =>
      simp only [pc, Option.map_eq_none_iff] at starts latchWaits otherWaits
      obtain ⟨born, waits⟩ := latchWaits
      cases at_ : s.started with
      | unborn => exact absurd at_ born
      | storing | preparing => simp [at_] at goes
      | counting =>
          simp only [at_, Option.map_eq_none_iff] at goes
          exact absurd ((sound.latch.rests (fun _ => starts) goes).2 ()) waits
      | announcing =>
          simp only [at_, Option.map_eq_none_iff] at goes otherSets
          exact absurd (sound.other.sets (quiet (.inl otherWaits)) goes) otherSets
      | running =>
          simp only [at_] at latchSets
          have sets : countDownLatch.setStep s.latch = none := by
            simp [GateKind.setStep, show _ = _ from latchSets]
          exact absurd ((sound.latch.rests (fun _ => starts) sets).2 ()) waits
  | awaiting =>
      simp only [pc, Option.map_eq_none_iff] at starts latchWaits otherWaits
      cases at_ : s.started with
      | unborn => exact .inr ⟨rfl, rfl⟩
      | storing | preparing => simp [at_] at goes
      | counting =>
          simp only [at_, Option.map_eq_none_iff] at goes latchSets latchWaits
          have through : s.latch.waiter () = .through := by simpa [LatchWaits] using latchWaits
          exact absurd (sound.latch.sets (quiet (.inr through)) goes) latchSets
      | announcing =>
          simp only [at_, Option.map_eq_none_iff] at goes
          exact absurd ((sound.other.rests (fun _ => starts) goes).2 ()) otherWaits
      | running =>
          simp only [at_] at otherSets
          have sets : kind.setStep s.other = none := by
            simp [GateKind.setStep, show _ = _ from otherSets]
          exact absurd ((sound.other.rests (fun _ => starts) sets).2 ()) otherWaits

theorem startedStep_starter {id : Nat} (taken : s.startedStep kind id = some s') :
    s'.starter = s.starter := by
  unfold StartUp.startedStep at taken
  split at taken
  case h_1 =>
      split at taken <;> cases taken
      rfl
  case h_2 | h_4 =>
      obtain ⟨next, -, rfl⟩ := Option.map_eq_some_iff.mp taken
      rfl
  case h_3 =>
      cases taken
      rfl
  case h_5 | h_6 => cases taken

theorem wakeStep_starter {latching : Bool} (taken : s.wakeStep latching = some s') :
    s'.starter = s.starter := by
  unfold StartUp.wakeStep at taken
  split at taken <;>
  · obtain ⟨next, -, rfl⟩ := Option.map_eq_some_iff.mp taken
    rfl

/-- A starter whose thread was not created does not return. -/
theorem Sound.waits (sound : s.Sound kind) (unborn : s.started = .unborn) :
    s.starter ≠ .returned := by
  intro returned
  have otherWaits := sound.otherWaits
  have otherSets := sound.otherSets
  rw [returned] at otherWaits
  rw [unborn] at otherSets
  have done := sound.other.passed () (.inr otherWaits)
  simp [SetPc.Done, show _ = _ from otherSets] at done

def weight (s : StartUp σ) : Nat :=
  s.starter.weight + s.started.weight + s.latch.weight + s.other.weight

theorem weight_init (kind : GateKind σ) : (StartUp.init kind).weight = 25 := by
  simp [weight, StartUp.init, GateKind.init, Gate.weight, StarterPc.weight, StartedPc.weight,
    WaitPc.weight, SetPc.weight]

theorem weight_starterStep (sound : s.Sound kind) {created : Bool}
    (taken : s.starterStep kind created = some s') : s'.weight < s.weight := by
  unfold StartUp.starterStep at taken
  cases pc : s.starter with
  | creating =>
      have latchWaits := sound.latchWaits
      simp only [pc] at taken latchWaits
      obtain rfl := Option.some.inj taken
      cases created <;>
        simp [weight, pc, latchWaits.1, StarterPc.weight, StartedPc.weight]
  | latching =>
      simp only [pc, Option.map_eq_some_iff] at taken
      obtain ⟨next, waited, rfl⟩ := taken
      have less := Gate.weight_waitStep waited
      simp only [weight, pc]
      split <;> simp only [StarterPc.weight] <;> omega
  | checking =>
      simp only [pc, Option.some.injEq] at taken
      obtain rfl := taken
      simp only [weight, pc]
      split <;> simp only [StarterPc.weight] <;> omega
  | awaiting =>
      simp only [pc, Option.map_eq_some_iff] at taken
      obtain ⟨next, waited, rfl⟩ := taken
      have less := Gate.weight_waitStep waited
      simp only [weight, pc]
      split <;> simp only [StarterPc.weight] <;> omega
  | returning =>
      simp only [pc, Option.some.injEq] at taken
      obtain rfl := taken
      simp only [weight, pc, StarterPc.weight]
      omega
  | returned | aborted => simp [pc] at taken

theorem weight_startedStep {id : Nat} (taken : s.startedStep kind id = some s') :
    s'.weight < s.weight := by
  unfold StartUp.startedStep at taken
  cases pc : s.started with
  | unborn | running => simp [pc] at taken
  | storing =>
      simp only [pc, Option.ite_none_right_eq_some, Option.some.injEq] at taken
      obtain ⟨-, rfl⟩ := taken
      simp only [weight, pc, StartedPc.weight]
      omega
  | counting =>
      simp only [pc, Option.map_eq_some_iff] at taken
      obtain ⟨next, counted, rfl⟩ := taken
      have less := Gate.weight_setStep counted
      simp only [weight, pc]
      split <;> simp only [StartedPc.weight] <;> omega
  | preparing =>
      simp only [pc, Option.some.injEq] at taken
      obtain rfl := taken
      simp only [weight, pc, StartedPc.weight]
      omega
  | announcing =>
      simp only [pc, Option.map_eq_some_iff] at taken
      obtain ⟨next, told, rfl⟩ := taken
      have less := Gate.weight_setStep told
      simp only [weight, pc]
      split <;> simp only [StartedPc.weight] <;> omega

theorem weight_wakeStep {latching : Bool} (taken : s.wakeStep latching = some s') :
    s'.weight ≤ s.weight + 3 := by
  unfold StartUp.wakeStep at taken
  split at taken <;>
  · simp only [Option.map_eq_some_iff] at taken
    obtain ⟨next, woken, rfl⟩ := taken
    have more := Gate.weight_wake woken
    simp only [weight]
    omega

end StartUp

/-- A thread is woken for no reason. -/
def StartStep.IsWake : StartStep n → Prop
  | .wake _ _ => True
  | .starter _ | .started _ _ => False

instance : DecidablePred (StartStep.IsWake (n := n))
  | .wake _ _ => .isTrue trivial
  | .starter _ | .started _ _ => .isFalse not_false

namespace Starting

/-- Threads are started one behind the other, and their results are kept. -/
structure Sound (kind : Fin n → GateKind σ) (s : Starting n σ) : Prop where
  threads : ∀ i, (s.threads i).Sound (kind i)
  before : ∀ i : Fin n, i.val < s.current → (s.threads i).starter = .returned
  later : ∀ i : Fin n, s.current < i.val → s.threads i = .init (kind i)
  within : s.current ≤ n
  results : s.results = ((List.finRange n).take s.current).map fun i => (kind i).set (kind i).start

variable {kind : Fin n → GateKind σ} {s s' : Starting n σ}

theorem Sound.init : (starting kind).init.Sound kind where
  threads _ := .init
  before _ early := absurd early (Nat.not_lt_zero _)
  later _ _ := rfl
  within := Nat.zero_le _
  results := rfl

/-- A step of one thread, or of its starter. -/
theorem Sound.set (sound : s.Sound kind) {i : Fin n} {t : StartUp σ} (kept : t.Sound (kind i))
    (before : (s.threads i).starter = .returned → t.starter = .returned)
    (later : s.threads i = .init (kind i) → i.val ≤ s.current) : (s.set i t).Sound kind where
  threads j := by
    by_cases same : j = i
    · subst same
      simpa [Starting.set] using kept
    · simpa [Starting.set, Function.update_of_ne same] using sound.threads j
  before j early := by
    by_cases same : j = i
    · subst same
      simpa [Starting.set] using before (sound.before j early)
    · simpa [Starting.set, Function.update_of_ne same] using sound.before j early
  later j late := by
    by_cases same : j = i
    · subst same
      exact absurd (later (sound.later j late)) (Nat.not_le.mpr late)
    · simpa [Starting.set, Function.update_of_ne same] using sound.later j late
  within := sound.within
  results := sound.results

theorem Sound.step (s : Starting n σ) (action : StartStep n) (s' : Starting n σ)
    (sound : s.Sound kind) (taken : (starting kind).step s action = some s') : s'.Sound kind := by
  cases action with
  | starter created =>
      simp only [starting, Option.dite_none_right_eq_some] at taken
      obtain ⟨below, taken⟩ := taken
      have thread := sound.threads ⟨s.current, below⟩
      cases result : (s.threads ⟨s.current, below⟩).result with
      | none =>
          simp only [result, Option.map_eq_some_iff] at taken
          obtain ⟨t, stepped, rfl⟩ := taken
          refine sound.set (thread.starterStep stepped) (fun returned => ?_) fun _ => Nat.le_refl _
          simp [StartUp.starterStep, returned] at stepped
      | some value =>
          simp only [result, Option.some.injEq] at taken
          obtain rfl := taken
          have returned := thread.result
          rw [result] at returned
          split at returned
          case isFalse => cases returned
          case isTrue there =>
              refine ⟨sound.threads, fun i early => ?_, fun i late => ?_, below, ?_⟩
              · rcases Nat.lt_succ_iff_lt_or_eq.mp early with earlier | same
                · exact sound.before i earlier
                · rwa [show i = ⟨s.current, below⟩ from Fin.ext same]
              · exact sound.later i (Nat.lt_of_succ_lt late)
              · rw [List.take_add_one, List.map_append, sound.results, Option.some.inj returned]
                simp [below]
  | started i id =>
      simp only [starting, Option.map_eq_some_iff] at taken
      obtain ⟨t, stepped, rfl⟩ := taken
      refine sound.set ((sound.threads i).startedStep stepped) (fun returned => ?_) fun fresh => ?_
      · rw [StartUp.startedStep_starter stepped, returned]
      · simp [StartUp.startedStep, fresh, StartUp.init] at stepped
  | wake i latching =>
      simp only [starting, Option.map_eq_some_iff] at taken
      obtain ⟨t, woken, rfl⟩ := taken
      refine sound.set ((sound.threads i).wakeStep woken) (fun returned => ?_) fun fresh => ?_
      · rw [StartUp.wakeStep_starter woken, returned]
      · cases latching <;>
          simp [StartUp.wakeStep, fresh, StartUp.init, GateKind.init, Gate.wake] at woken

theorem sound_reachable (reached : (starting kind).Reachable s) : s.Sound kind :=
  reached.induct Sound.init Sound.step

/-- Loops are started in order. Each is the one of its own thread, which has its identity by
    then. -/
theorem loops_started {numThreads : Nat} {s : Starting numThreads (Option Nat)}
    (reached : (eventLoopThreadPool numThreads).Reachable s) :
    s.results = (List.range s.current).map some ∧ s.current ≤ numThreads ∧
      ∀ i, (s.threads i).starter ≠ .aborted ∧
        (i.val < s.current → 0 < (s.threads i).tid ∧ (s.threads i).other.shared = some i.val) := by
  have sound := sound_reachable reached
  refine ⟨?_, sound.within, fun i => ⟨(sound.threads i).asserted, fun early => ?_⟩⟩
  · have names : (List.range numThreads).map some = (List.finRange numThreads).map fun i =>
        (loopThread i.val).set (loopThread i.val).start := by
      rw [← List.map_coe_finRange_eq_range, List.map_map]
      rfl
    rw [sound.results, List.map_take, ← names, ← List.map_take, List.take_range,
      Nat.min_eq_left sound.within]
  · have thread := sound.threads i
    have returned := sound.before i early
    have otherWaits := thread.otherWaits
    rw [returned] at otherWaits
    refine ⟨?_, thread.other.shared_eq otherWaits⟩
    have done := thread.other.passed () (.inr otherWaits)
    refine (thread.tid.resolve_left fun unborn => ?_).resolve_left fun storing => ?_
    · exact thread.waits unborn returned
    · have otherSets := thread.otherSets
      rw [storing] at otherSets
      simp [SetPc.Done, show _ = _ from otherSets] at done

/-- The starter sleeps twice, and is woken once for no reason. -/
def oneStarted : List (StartStep 1) :=
  [.starter true, .started (Fin.last 0) 9, .starter true, .starter true] ++
    List.replicate 4 (.started (Fin.last 0) 9) ++ List.replicate 4 (.starter true) ++
    [.started (Fin.last 0) 9, .starter true, .starter true, .wake (Fin.last 0) false,
      .starter true, .starter true] ++
    List.replicate 4 (.started (Fin.last 0) 9) ++ List.replicate 5 (.starter true)

theorem loops_started_one : ∃ s,
    (eventLoopThreadPool 1).run (eventLoopThreadPool 1).init oneStarted = some s ∧ s.current = 1 ∧
      s.results = (List.range s.current).map some := by
  have ran : ((eventLoopThreadPool 1).run (eventLoopThreadPool 1).init oneStarted).any
      fun s => s.current = 1 := by decide +kernel
  obtain ⟨s, ran, current⟩ := (Option.any_eq_true _ _).mp ran
  exact ⟨s, ran, of_decide_eq_true current, (loops_started ⟨oneStarted, ran⟩).1⟩

/-- How many steps are left. -/
def weight (s : Starting n σ) : Nat := ∑ i, (s.threads i).weight + (n - s.current)

theorem weight_set (s : Starting n σ) (i : Fin n) (t : StartUp σ) :
    (s.set i t).weight + (s.threads i).weight = s.weight + t.weight := by
  have new := Finset.add_sum_erase Finset.univ (fun j => (Function.update s.threads i t j).weight)
    (Finset.mem_univ i)
  have old := Finset.add_sum_erase Finset.univ (fun j => (s.threads j).weight) (Finset.mem_univ i)
  have others : ∀ j ∈ Finset.univ.erase i,
      (Function.update s.threads i t j).weight = (s.threads j).weight := by
    intro j there
    rw [Function.update_of_ne (Finset.ne_of_mem_erase there)]
  rw [Finset.sum_congr rfl others, Function.update_self] at new
  simp only [weight, set]
  omega

theorem Sound.weight_step (sound : s.Sound kind) {action : StartStep n}
    (taken : (starting kind).step s action = some s') :
    (action.IsWake → s'.weight ≤ s.weight + 3) ∧ (¬ action.IsWake → s'.weight < s.weight) := by
  cases action with
  | starter created =>
      simp only [starting, Option.dite_none_right_eq_some] at taken
      obtain ⟨below, taken⟩ := taken
      cases result : (s.threads ⟨s.current, below⟩).result with
      | none =>
          simp only [result, Option.map_eq_some_iff] at taken
          obtain ⟨t, stepped, rfl⟩ := taken
          have less := StartUp.weight_starterStep (sound.threads _) stepped
          have moved := s.weight_set ⟨s.current, below⟩ t
          exact ⟨False.elim, fun _ => by omega⟩
      | some value =>
          simp only [result, Option.some.injEq] at taken
          obtain rfl := taken
          refine ⟨False.elim, fun _ => ?_⟩
          simp only [weight]
          omega
  | started i id =>
      simp only [starting, Option.map_eq_some_iff] at taken
      obtain ⟨t, stepped, rfl⟩ := taken
      have less := StartUp.weight_startedStep stepped
      have moved := s.weight_set i t
      exact ⟨False.elim, fun _ => by omega⟩
  | wake i latching =>
      simp only [starting, Option.map_eq_some_iff] at taken
      obtain ⟨t, woken, rfl⟩ := taken
      have more := StartUp.weight_wakeStep woken
      have moved := s.weight_set i t
      exact ⟨fun _ => by omega, fun awake => absurd trivial awake⟩

theorem Sound.weight_run (sound : s.Sound kind) {steps : List (StartStep n)}
    (ran : (starting kind).run s steps = some s') :
    steps.length + s'.weight ≤ s.weight + 4 * steps.countP (·.IsWake) := by
  induction steps generalizing s with
  | nil =>
      obtain rfl := Option.some.inj ran
      simp
  | cons action rest ih =>
      obtain ⟨mid, taken, later⟩ := Machine.run_cons_some _ |>.mp ran
      obtain ⟨more, less⟩ := sound.weight_step taken
      have there := ih (Sound.step s action mid sound taken) later
      rw [List.length_cons, List.countP_cons]
      by_cases wakes : action.IsWake
      · rw [if_pos (by simpa using wakes)]
        have more := more wakes
        omega
      · rw [if_neg (by simpa using wakes)]
        have less := less wakes
        omega

theorem weight_init (kind : Fin n → GateKind σ) : (starting kind).init.weight = 26 * n := by
  simp only [weight, starting, StartUp.weight_init, Finset.sum_const_nat fun _ _ => rfl,
    Finset.card_univ, Fintype.card_fin]
  omega

/-- A thread that `pthread_create` did not create. -/
def Failed (s : Starting n σ) (i : Fin n) : Prop :=
  (s.threads i).starter ≠ .creating ∧ (s.threads i).started = .unborn

theorem Sound.returned_iff (sound : s.Sound kind)
    (rests : ∀ action : StartStep n, ¬ action.IsWake → (starting kind).step s action = none) :
    s.current = n ↔ ∀ i, ¬ s.Failed i := by
  constructor
  · rintro all i ⟨-, unborn⟩
    exact (sound.threads i).waits unborn (sound.before i (by omega))
  · intro created
    by_contra short
    have below : s.current < n := Nat.lt_of_le_of_ne sound.within short
    have thread := sound.threads ⟨s.current, below⟩
    have starter (created : Bool) := rests (.starter created) id
    simp only [starting, dif_pos below] at starter
    have started (id_ : Nat) := rests (.started ⟨s.current, below⟩ id_) id
    simp only [starting, Option.map_eq_none_iff] at started
    cases result : (s.threads ⟨s.current, below⟩).result with
    | some value => simp [result] at starter
    | none =>
        simp only [result, Option.map_eq_none_iff] at starter
        rcases thread.rests starter started with returned | ⟨awaiting, unborn⟩
        · have left := thread.result
          simp [result, returned] at left
        · exact created ⟨s.current, below⟩ ⟨by simp [awaiting], unborn⟩

/-- Starting threads takes a bounded number of steps in every schedule, but for those after
    wakeups for no reason. When nobody can go on, it has returned exactly if every thread was
    created. -/
theorem start_returns (kind : Fin n → GateKind σ) (steps : List (StartStep n))
    (s : Starting n σ) (ran : (starting kind).run (starting kind).init steps = some s) :
    steps.length ≤ 26 * n + 4 * steps.countP (·.IsWake) ∧
      ((∀ action : StartStep n, ¬ action.IsWake → (starting kind).step s action = none) →
        (s.current = n ↔ ∀ i, ¬ s.Failed i)) := by
  have sound := sound_reachable ⟨steps, ran⟩
  refine ⟨?_, sound.returned_iff⟩
  have bound := Sound.init.weight_run ran
  rw [weight_init] at bound
  omega

/-- `pthread_create` fails, and the starter waits for a loop. -/
def oneFailed : List (StartStep 1) := [.starter false, .starter true, .starter true]

theorem start_returns_failed : ∃ s,
    (eventLoopThreadPool 1).run (eventLoopThreadPool 1).init oneFailed = some s ∧ s.current = 0 ∧
      ¬ ∀ i, ¬ s.Failed i := by
  have ran : ((eventLoopThreadPool 1).run (eventLoopThreadPool 1).init oneFailed).any fun s =>
      s.current = 0 ∧ (s.threads (Fin.last 0)).started = .unborn ∧
        ∀ created, ((eventLoopThreadPool 1).step s (.starter created)).isNone := by decide +kernel
  obtain ⟨s, ran, final⟩ := (Option.any_eq_true _ _).mp ran
  obtain ⟨current, unborn, asleep⟩ := of_decide_eq_true final
  have rests (action : StartStep 1) (awake : ¬ action.IsWake) :
      (eventLoopThreadPool 1).step s action = none := by
    cases action with
    | starter created => exact Option.isNone_iff_eq_none.mp (asleep created)
    | started i id =>
        have fresh : (s.threads i).started = .unborn := by rwa [Subsingleton.elim i (Fin.last 0)]
        simp [eventLoopThreadPool, starting, StartUp.startedStep, fresh]
    | wake => exact absurd trivial awake
  have returned := (start_returns _ oneFailed s ran).2 rests
  refine ⟨s, ran, current, fun all => ?_⟩
  have finished := returned.mpr all
  rw [current] at finished
  cases finished

end Starting

end Corio.Base
