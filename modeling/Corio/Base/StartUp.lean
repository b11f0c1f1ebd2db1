import Corio.Foundation.Gate
import Corio.Foundation.Machine

/-! # Starting threads

`Thread::start`, and what its callers wait for behind it: `EventLoopThread::startLoop` for the
loop that the thread publishes, `AsyncLogging::start` for a second latch.
-/

namespace Corio.Base

/-- A `CountDownLatch` with a count of one. -/
def countDownLatch : GateKind Int where
  start := 1
  ready count := decide (count ≤ 0)
  set count := count - 1
  notifies count := count == 0
  closed := rfl
  opens := rfl
  tells := rfl

/-- `EventLoopThread::loop_` of the `i`th thread, with its lock. There is one waiter, so that
    `notify` wakes whoever sleeps. -/
def loopThread (i : Nat) : GateKind (Option Nat) where
  start := none
  ready loop := loop.isSome
  set _ := some i
  notifies _ := true
  closed := rfl
  opens := rfl
  tells := rfl

/-- Where the thread is that calls `Thread::start`. -/
inductive StarterPc where
  /-- At `pthread_create`. -/
  | creating
  /-- In `latch_.wait`. -/
  | latching
  /-- At the assertion about `tid_`. -/
  | checking
  /-- Behind `Thread::start`, waiting for the other condition. -/
  | awaiting
  /-- Behind the lock, at the value that is returned. -/
  | returning
  | returned
  /-- The assertion failed. -/
  | aborted
  deriving DecidableEq, Repr

/-- Where the new thread is. -/
inductive StartedPc where
  | unborn
  /-- At `*tid_ = CurrentThread::tid()`. -/
  | storing
  /-- In `latch_->countDown`. -/
  | counting
  /-- Up to the other condition. -/
  | preparing
  | announcing
  | running
  deriving DecidableEq, Repr

/-- A thread and the one that starts it, with a latch and another condition to wait for. -/
structure StartUp (σ : Type) where
  starter : StarterPc
  started : StartedPc
  tid : Nat
  latch : Gate Unit Int
  other : Gate Unit σ
  /-- What the starter has read behind the lock. -/
  result : Option σ

variable {σ : Type}

namespace StartUp

def init (kind : GateKind σ) : StartUp σ :=
  ⟨.creating, .unborn, 0, countDownLatch.init, kind.init, none⟩

/-- `startLoop` or `start`. A thread that is not created is waited for all the same. -/
def starterStep (kind : GateKind σ) (s : StartUp σ) (created : Bool) : Option (StartUp σ) :=
  match s.starter with
  | .creating =>
      some (if created then { s with starter := .latching, started := .storing }
        else { s with starter := .awaiting })
  | .latching => (countDownLatch.waitStep s.latch ()).map fun latch =>
      { s with latch := latch
               starter := if latch.waiter () = .through then .checking else .latching }
  | .checking => some { s with starter := if 0 < s.tid then .awaiting else .aborted }
  | .awaiting => (kind.waitStep s.other ()).map fun other =>
      { s with other := other
               starter := if other.waiter () = .through then .returning else .awaiting }
  | .returning => some { s with starter := .returned, result := some s.other.shared }
  | .returned | .aborted => none

/-- `ThreadData::runInThread`, where `gettid` returns this. -/
def startedStep (kind : GateKind σ) (s : StartUp σ) (tid : Nat) : Option (StartUp σ) :=
  match s.started with
  | .storing => if 0 < tid then some { s with started := .counting, tid := tid } else none
  | .counting => (countDownLatch.setStep s.latch).map fun latch =>
      { s with latch := latch
               started := if latch.setter = .through then .preparing else .counting }
  | .preparing => some { s with started := .announcing }
  | .announcing => (kind.setStep s.other).map fun other =>
      { s with other := other
               started := if other.setter = .through then .running else .announcing }
  | .unborn | .running => none

/-- The starter is woken for no reason, in the latch or behind it. -/
def wakeStep (s : StartUp σ) (latching : Bool) : Option (StartUp σ) :=
  if latching then (s.latch.wake ()).map fun latch => { s with latch := latch }
  else (s.other.wake ()).map fun other => { s with other := other }

end StartUp

/-- Threads that are started one behind the other. -/
structure Starting (n : Nat) (σ : Type) where
  threads : Fin n → StartUp σ
  /-- The one that is being started. -/
  current : Nat
  /-- What has been returned for those before. -/
  results : List σ

inductive StartStep (n : Nat) where
  /-- The starter goes on, and `pthread_create` succeeds or not. -/
  | starter (created : Bool)
  | started (i : Fin n) (tid : Nat)
  | wake (i : Fin n) (latching : Bool)
  deriving DecidableEq, Repr

variable {n : Nat}

def Starting.set (s : Starting n σ) (i : Fin n) (t : StartUp σ) : Starting n σ :=
  { s with threads := Function.update s.threads i t }

def starting (kind : Fin n → GateKind σ) : Machine (Starting n σ) (StartStep n) where
  init := ⟨fun i => .init (kind i), 0, []⟩
  step s action :=
    match action with
    | .starter created =>
        if below : s.current < n then
          let i : Fin n := ⟨s.current, below⟩
          match (s.threads i).result with
          | none => ((s.threads i).starterStep (kind i) created).map (s.set i)
          | some result =>
              some { s with current := s.current + 1, results := s.results ++ [result] }
        else none
    | .started i tid => ((s.threads i).startedStep (kind i) tid).map (s.set i)
    | .wake i latching => ((s.threads i).wakeStep latching).map (s.set i)

/-- `EventLoopThreadPool::start`. -/
def eventLoopThreadPool (numThreads : Nat) : Machine (Starting numThreads (Option Nat))
    (StartStep numThreads) :=
  starting fun i => loopThread i

/-- `AsyncLogging::start`. -/
def asyncLoggingStart : Machine (Starting 1 Int) (StartStep 1) := starting fun _ => countDownLatch

namespace StartUp

/-- How far the new thread is with the latch. -/
def LatchSets (pc : SetPc) : StartedPc → Prop
  | .unborn | .storing => pc = .locking
  | .counting => pc ≠ .through
  | .preparing | .announcing | .running => pc = .through

/-- How far it is with the other condition. -/
def OtherSets (pc : SetPc) : StartedPc → Prop
  | .unborn | .storing | .counting | .preparing => pc = .locking
  | .announcing => pc ≠ .through
  | .running => pc = .through

/-- How far the starter is with the latch, which it does not look at without a new thread. -/
def LatchWaits (pc : WaitPc) (started : StartedPc) : StarterPc → Prop
  | .creating => started = .unborn ∧ pc = .locking
  | .latching => started ≠ .unborn ∧ pc ≠ .through
  | .checking => started ≠ .unborn ∧ pc = .through
  | .awaiting | .returning | .returned | .aborted =>
      started = .unborn ∧ pc = .locking ∨ started ≠ .unborn ∧ pc = .through

def OtherWaits (pc : WaitPc) : StarterPc → Prop
  | .creating | .latching | .checking | .aborted => pc = .locking
  | .awaiting => pc ≠ .through
  | .returning | .returned => pc = .through

/-- What holds at each place of the two threads. -/
structure Sound (kind : GateKind σ) (s : StartUp σ) : Prop where
  latch : s.latch.Sound countDownLatch
  other : s.other.Sound kind
  latchSets : LatchSets s.latch.setter s.started
  otherSets : OtherSets s.other.setter s.started
  latchWaits : LatchWaits (s.latch.waiter ()) s.started s.starter
  otherWaits : OtherWaits (s.other.waiter ()) s.starter
  tid : s.started = .unborn ∨ s.started = .storing ∨ 0 < s.tid
  result : s.result = if s.starter = .returned then some (kind.set kind.start) else none
  asserted : s.starter ≠ .aborted

variable {kind : GateKind σ} {s s' : StartUp σ}

theorem Sound.init : (StartUp.init kind).Sound kind where
  latch := .init
  other := .init
  latchSets := rfl
  otherSets := rfl
  latchWaits := ⟨rfl, rfl⟩
  otherWaits := rfl
  tid := .inl rfl
  result := rfl
  asserted := by simp [StartUp.init]

theorem Sound.starterStep (sound : s.Sound kind) {created : Bool}
    (taken : s.starterStep kind created = some s') : s'.Sound kind := by
  obtain ⟨latch, other, latchSets, otherSets, latchWaits, otherWaits, tid, result, asserted⟩ :=
    sound
  unfold StartUp.starterStep at taken
  cases pc : s.starter with
  | creating =>
      simp only [pc] at taken latchWaits otherWaits result
      obtain rfl := Option.some.inj taken
      obtain ⟨unborn, fresh⟩ := latchWaits
      rw [unborn] at latchSets otherSets
      cases created with
      | true =>
          exact ⟨latch, other, latchSets, otherSets, ⟨by simp, by simp [fresh]⟩, otherWaits,
            .inr (.inl rfl), result, by simp⟩
      | false =>
          have asleep : s.other.waiter () ≠ .through := by simp [show _ = _ from otherWaits]
          exact ⟨latch, other, unborn ▸ latchSets, unborn ▸ otherSets, .inl ⟨unborn, fresh⟩, asleep,
            .inl unborn, result, by simp⟩
  | latching =>
      simp only [pc, Option.map_eq_some_iff] at taken latchWaits otherWaits result
      obtain ⟨next, waited, rfl⟩ := taken
      obtain ⟨born, -⟩ := latchWaits
      have setter := Gate.waitStep_setter waited
      by_cases through : next.waiter () = .through
      · simp only [if_pos through]
        exact ⟨latch.waitStep waited, other, setter ▸ latchSets, otherSets, ⟨born, through⟩,
          otherWaits, tid, result, by simp⟩
      · simp only [if_neg through]
        exact ⟨latch.waitStep waited, other, setter ▸ latchSets, otherSets, ⟨born, through⟩,
          otherWaits, tid, result, by simp⟩
  | checking =>
      simp only [pc] at taken latchWaits otherWaits result
      obtain rfl := Option.some.inj taken
      obtain ⟨born, through⟩ := latchWaits
      have positive : 0 < s.tid := by
        refine (tid.resolve_left born).resolve_left fun storing => ?_
        have done := latch.passed () (.inr through)
        rw [storing] at latchSets
        simp [SetPc.Done, show _ = _ from latchSets] at done
      have asleep : s.other.waiter () ≠ .through := by simp [show _ = _ from otherWaits]
      simp only [if_pos positive]
      exact ⟨latch, other, latchSets, otherSets, .inr ⟨born, through⟩, asleep, tid, result, by simp⟩
  | awaiting =>
      simp only [pc, Option.map_eq_some_iff] at taken latchWaits otherWaits result
      obtain ⟨next, waited, rfl⟩ := taken
      have setter := Gate.waitStep_setter waited
      by_cases through : next.waiter () = .through
      · simp only [if_pos through]
        exact ⟨latch, other.waitStep waited, latchSets, setter ▸ otherSets, latchWaits, through,
          tid, result, by simp⟩
      · simp only [if_neg through]
        exact ⟨latch, other.waitStep waited, latchSets, setter ▸ otherSets, latchWaits, through,
          tid, result, by simp⟩
  | returning =>
      simp only [pc] at taken latchWaits otherWaits result
      obtain rfl := Option.some.inj taken
      exact ⟨latch, other, latchSets, otherSets, latchWaits, otherWaits, tid,
        congrArg some (other.shared_eq otherWaits), by simp⟩
  | returned | aborted => simp [pc] at taken

/-- What a step on a gate, not by the starter, leaves the starter to see. -/
theorem waiter_kept {τ : Type} {g g' : Gate Unit τ}
    (moved : g'.waiter () = g.waiter () ∨ g.waiter () = .asleep ∧ g'.waiter () = .woken) :
    (g'.waiter () = .locking ↔ g.waiter () = .locking) ∧
      (g'.waiter () = .through ↔ g.waiter () = .through) := by
  rcases moved with same | ⟨asleep, woken⟩
  · simp [same]
  · simp [asleep, woken]

theorem LatchWaits.kept {pc pc' : WaitPc} {started started' : StartedPc} {starter : StarterPc}
    (waits : LatchWaits pc started starter)
    (born : started' = .unborn ↔ started = .unborn)
    (kept : (pc' = .locking ↔ pc = .locking) ∧ (pc' = .through ↔ pc = .through)) :
    LatchWaits pc' started' starter := by
  cases starter <;> simpa only [LatchWaits, ne_eq, born, kept.1, kept.2] using waits

theorem OtherWaits.kept {pc pc' : WaitPc} {starter : StarterPc} (waits : OtherWaits pc starter)
    (kept : (pc' = .locking ↔ pc = .locking) ∧ (pc' = .through ↔ pc = .through)) :
    OtherWaits pc' starter := by
  cases starter <;> simpa only [OtherWaits, ne_eq, kept.1, kept.2] using waits

theorem Sound.startedStep (sound : s.Sound kind) {id : Nat}
    (taken : s.startedStep kind id = some s') : s'.Sound kind := by
  obtain ⟨latch, other, latchSets, otherSets, latchWaits, otherWaits, tid, result, asserted⟩ :=
    sound
  unfold StartUp.startedStep at taken
  cases pc : s.started with
  | unborn | running => simp [pc] at taken
  | storing =>
      simp only [pc, Option.ite_none_right_eq_some, Option.some.injEq] at taken latchSets otherSets
      obtain ⟨positive, rfl⟩ := taken
      have before : s.latch.setter ≠ .through := by simp [show _ = _ from latchSets]
      exact ⟨latch, other, before, otherSets, latchWaits.kept (by simp [pc]) (by simp), otherWaits,
        .inr (.inr positive), result, asserted⟩
  | counting =>
      simp only [pc, Option.map_eq_some_iff] at taken latchSets otherSets tid
      obtain ⟨next, counted, rfl⟩ := taken
      have kept := waiter_kept (Gate.setStep_waiter counted)
      have positive : 0 < s.tid := by simpa using tid
      by_cases through : next.setter = .through
      · simp only [if_pos through]
        exact ⟨latch.setStep counted, other, through, otherSets,
          latchWaits.kept (by simp [pc]) kept, otherWaits, .inr (.inr positive), result, asserted⟩
      · simp only [if_neg through]
        exact ⟨latch.setStep counted, other, through, otherSets,
          latchWaits.kept (by simp [pc]) kept, otherWaits, .inr (.inr positive), result, asserted⟩
  | preparing =>
      simp only [pc, Option.some.injEq] at taken latchSets otherSets tid
      obtain rfl := taken
      have before : s.other.setter ≠ .through := by simp [show _ = _ from otherSets]
      have positive : 0 < s.tid := by simpa using tid
      exact ⟨latch, other, latchSets, before, latchWaits.kept (by simp [pc]) (by simp), otherWaits,
        .inr (.inr positive), result, asserted⟩
  | announcing =>
      simp only [pc, Option.map_eq_some_iff] at taken latchSets otherSets tid
      obtain ⟨next, told, rfl⟩ := taken
      have kept := waiter_kept (Gate.setStep_waiter told)
      have positive : 0 < s.tid := by simpa using tid
      by_cases through : next.setter = .through
      · simp only [if_pos through]
        exact ⟨latch, other.setStep told, latchSets, through,
          latchWaits.kept (by simp [pc]) (by simp), otherWaits.kept kept, .inr (.inr positive), result, asserted⟩
      · simp only [if_neg through]
        exact ⟨latch, other.setStep told, latchSets, through,
          latchWaits.kept (by simp [pc]) (by simp), otherWaits.kept kept, .inr (.inr positive), result, asserted⟩

theorem Sound.wakeStep (sound : s.Sound kind) {latching : Bool}
    (taken : s.wakeStep latching = some s') : s'.Sound kind := by
  obtain ⟨latch, other, latchSets, otherSets, latchWaits, otherWaits, tid, result, asserted⟩ :=
    sound
  unfold StartUp.wakeStep at taken
  cases latching with
  | true =>
      simp only [if_true, Option.map_eq_some_iff] at taken
      obtain ⟨next, woken, rfl⟩ := taken
      have setter := Gate.wake_setter woken
      have kept := waiter_kept (Gate.wake_waiter woken)
      exact ⟨latch.wake woken, other, setter ▸ latchSets, otherSets, latchWaits.kept Iff.rfl kept,
        otherWaits, tid, result, asserted⟩
  | false =>
      simp only [Bool.false_eq_true, if_false, Option.map_eq_some_iff] at taken
      obtain ⟨next, woken, rfl⟩ := taken
      have setter := Gate.wake_setter woken
      have kept := waiter_kept (Gate.wake_waiter woken)
      exact ⟨latch, other.wake woken, latchSets, setter ▸ otherSets, latchWaits,
        otherWaits.kept kept, tid, result, asserted⟩

end StartUp

end Corio.Base
