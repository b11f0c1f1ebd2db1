import Corio.Foundation.Machine
import Mathlib.Data.Fintype.Option

/-! # Starting and stopping

The thread that calls `start`, `stop` and `wait`, and the threads that `start`
spawns, interleaved at the accesses to the `running_` flags. `run` sets the flag of
its scheduler when it is entered, so a `stop` that comes earlier is forgotten.
-/

namespace Corio.Uring

/-- `none` is the acceptor. -/
abbrev Sched (workers : Nat) := Option (Fin workers)

/-- Where a thread is in `UringScheduler::run`. -/
inductive RunPc where
  | unborn
  /-- Created, and not yet at `running_.store(true)`. -/
  | entering
  /-- At the test of the `while` loop. -/
  | testing
  | looping
  /-- Behind the loop, at the last `drain_posts` and `drain_ready`. -/
  | draining
  | exited
  deriving DecidableEq, Repr

/-- Where the calling thread is. -/
inductive CallerPc where
  | start
  /-- At the creation of a worker's thread, or of the acceptor's behind the last one. -/
  | spawning (i : Nat)
  | started
  | stopAcceptor
  | stopWorkers (i : Nat)
  | stopped
  | joinWorkers (i : Nat)
  | joined
  deriving DecidableEq, Repr

structure HttpServer (workers : Nat) where
  caller : CallerPc
  /-- `HttpServer::running_`. -/
  serving : Bool
  /-- `UringScheduler::running_`. -/
  running : Sched workers → Bool
  thread : Sched workers → RunPc
  deriving DecidableEq

variable {workers : Nat}

namespace HttpServer

def goto (s : HttpServer workers) (caller : CallerPc) : HttpServer workers :=
  { s with caller := caller }

def setRunning (s : HttpServer workers) (who : Sched workers) (value : Bool) :
    HttpServer workers :=
  { s with running := Function.update s.running who value }

def setThread (s : HttpServer workers) (who : Sched workers) (pc : RunPc) : HttpServer workers :=
  { s with thread := Function.update s.thread who pc }

/-- The next access of the calling thread, which is `start(); stop(); wait();`. -/
def callerStep (s : HttpServer workers) : Option (HttpServer workers) :=
  match s.caller with
  | .start =>
      if s.serving then some (s.goto .started)
      else some ({ s with serving := true }.goto (.spawning 0))
  | .spawning i =>
      if below : i < workers then
        some ((s.setThread (some ⟨i, below⟩) .entering).goto (.spawning (i + 1)))
      else some ((s.setThread none .entering).goto .started)
  | .started =>
      if s.serving then some ({ s with serving := false }.goto .stopAcceptor)
      else some (s.goto .stopped)
  | .stopAcceptor => some ((s.setRunning none false).goto (.stopWorkers 0))
  | .stopWorkers i =>
      if below : i < workers then
        some ((s.setRunning (some ⟨i, below⟩) false).goto (.stopWorkers (i + 1)))
      else some (s.goto .stopped)
  | .stopped => if s.thread none = .exited then some (s.goto (.joinWorkers 0)) else none
  | .joinWorkers i =>
      if below : i < workers then
        if s.thread (some ⟨i, below⟩) = .exited then some (s.goto (.joinWorkers (i + 1)))
        else none
      else some (s.goto .joined)
  | .joined => none

/-- The next access of a thread in `run`. -/
def runStep (s : HttpServer workers) (who : Sched workers) : Option (HttpServer workers) :=
  match s.thread who with
  | .unborn => none
  | .entering => some ((s.setRunning who true).setThread who .testing)
  | .testing => some (s.setThread who (if s.running who then .looping else .draining))
  | .looping => some (s.setThread who .testing)
  | .draining => some (s.setThread who .exited)
  | .exited => none

end HttpServer

inductive ServerStep (workers : Nat) where
  | caller
  | run (who : Sched workers)
  deriving DecidableEq, Repr

def httpServer (workers : Nat) : Machine (HttpServer workers) (ServerStep workers) where
  init := ⟨.start, false, fun _ => false, fun _ => .unborn⟩
  step s action :=
    match action with
    | .caller => s.callerStep
    | .run who => s.runStep who

namespace HttpServer

/-- `stop` has returned. -/
def StopReturned (s : HttpServer workers) : Prop :=
  match s.caller with
  | .stopped | .joinWorkers _ | .joined => True
  | _ => False

instance (s : HttpServer workers) : Decidable s.StopReturned := by
  unfold StopReturned
  split <;> infer_instance

/-- `stop` has cleared the flag of this scheduler. -/
def Cleared (s : HttpServer workers) (who : Sched workers) : Prop :=
  match s.caller, who with
  | .start, _ | .spawning _, _ | .started, _ | .stopAcceptor, _ => False
  | .stopWorkers _, none => True
  | .stopWorkers i, some worker => worker < i
  | .stopped, _ | .joinWorkers _, _ | .joined, _ => True

/-- The thread has executed `running_.store(true)`. -/
def Entered (s : HttpServer workers) (who : Sched workers) : Prop :=
  s.thread who ≠ .unborn ∧ s.thread who ≠ .entering

instance (s : HttpServer workers) (who : Sched workers) : Decidable (s.Entered who) := by
  unfold Entered
  infer_instance

/-- The flag is down, and its thread will not raise it again. -/
def Settled (s : HttpServer workers) (who : Sched workers) : Prop :=
  s.Entered who ∧ s.running who = false

/-- The scheduler whose flag the calling thread clears next. -/
def clearing (s : HttpServer workers) : Option (Sched workers) :=
  match s.caller with
  | .stopAcceptor => some none
  | .stopWorkers i => if below : i < workers then some (some ⟨i, below⟩) else none
  | _ => none

/-- The condition on a step: `stop` clears a flag only after its thread raised it. -/
def ClearsRaised (s : HttpServer workers) : ServerStep workers → Prop
  | .run _ => True
  | .caller => ∀ who, s.clearing = some who → s.Entered who

instance (s : HttpServer workers) (action : ServerStep workers) :
    Decidable (s.ClearsRaised action) := by
  unfold ClearsRaised
  cases action <;> infer_instance

/-- What is promised once `stop` has returned. -/
structure ShutDown (s : HttpServer workers) : Prop where
  down : ∀ steps later, (httpServer workers).run s steps = some later →
    ∀ who, later.running who = false
  leaves : ∀ steps later who next, (httpServer workers).run s steps = some later →
    later.thread who = .testing → (httpServer workers).step later (.run who) = some next →
    next.thread who = .draining
  joins : ∀ steps later, (httpServer workers).run s steps = some later →
    ∃ more final, (httpServer workers).run later more = some final ∧ final.caller = .joined

/-- The caller has created this thread. -/
def Born (s : HttpServer workers) (who : Sched workers) : Prop :=
  match s.caller, who with
  | .start, _ | .spawning _, none => False
  | .spawning i, some worker => worker < i
  | _, _ => True

structure Base (s : HttpServer workers) : Prop where
  fresh : s.caller = .start → s.serving = false
  serving : (∃ i, s.caller = .spawning i) ∨ s.caller = .started → s.serving = true
  born : ∀ who, s.Born who → s.thread who ≠ .unborn

/-- All a thread can do in one step. -/
structure RunStep (s : HttpServer workers) (who : Sched workers) (s' : HttpServer workers) :
    Prop where
  caller : s'.caller = s.caller
  serving : s'.serving = s.serving
  others : ∀ other, other ≠ who →
    s'.thread other = s.thread other ∧ s'.running other = s.running other
  born : s.thread who ≠ .unborn
  entered : s'.Entered who
  flag : s'.running who = if s.thread who = .entering then true else s.running who

theorem runStep_spec {s s' : HttpServer workers} {who : Sched workers}
    (taken : s.runStep who = some s') : RunStep s who s' := by
  simp only [runStep] at taken
  split at taken
  case h_1 | h_6 => cases taken
  all_goals
    rename_i pc
    obtain rfl := Option.some.inj taken
    refine ⟨rfl, rfl, ?_, ?_, ?_, ?_⟩
    · intro other apart
      simp [setThread, setRunning, Function.update_of_ne apart]
    · simp [pc]
    · simp only [Entered, setThread, Function.update_self]
      first | decide | split <;> decide
    · simp [pc, setThread, setRunning]

theorem RunStep.settled_iff {s s' : HttpServer workers} {who : Sched workers}
    (taken : RunStep s who s') (other : Sched workers) : s'.Settled other ↔ s.Settled other := by
  by_cases same : other = who
  · subst same
    have flag := taken.flag
    constructor
    · rintro ⟨-, down⟩
      by_cases entering : s.thread other = .entering
      · rw [if_pos entering, down] at flag
        cases flag
      · rw [if_neg entering] at flag
        exact ⟨⟨taken.born, entering⟩, flag ▸ down⟩
    · rintro ⟨⟨-, entered⟩, down⟩
      rw [if_neg entered] at flag
      exact ⟨taken.entered, flag.trans down⟩
  · obtain ⟨thread, running⟩ := taken.others other same
    simp only [Settled, Entered, thread, running]

theorem RunStep.cleared_iff {s s' : HttpServer workers} {who : Sched workers}
    (taken : RunStep s who s') (other : Sched workers) : s'.Cleared other ↔ s.Cleared other := by
  simp only [Cleared, taken.caller]

theorem RunStep.base {s s' : HttpServer workers} {who : Sched workers} (taken : RunStep s who s')
    (base : s.Base) : s'.Base where
  fresh := by
    rw [taken.caller, taken.serving]
    exact base.fresh
  serving := by
    rw [taken.caller, taken.serving]
    exact base.serving
  born := by
    intro other born
    by_cases same : other = who
    · exact same ▸ taken.entered.1
    · rw [(taken.others other same).1]
      refine base.born other ?_
      simpa only [Born, taken.caller] using born

/-- All the calling thread can do in one step. -/
structure CallerStep (s s' : HttpServer workers) : Prop where
  base : s'.Base
  flag : ∀ who, s'.running who = if s.clearing = some who then false else s.running who
  cleared : ∀ who, s'.Cleared who ↔ s.Cleared who ∨ s.clearing = some who
  apart : ∀ who, s.Cleared who → s.clearing ≠ some who
  thread : ∀ who, s'.Cleared who → s'.thread who = s.thread who

/-- A step in the phases that clear no flag and end before `stop` clears one. -/
theorem CallerStep.before {s s' : HttpServer workers} (base : s'.Base)
    (clearing : s.clearing = none) (running : s'.running = s.running)
    (early : ∀ who, ¬ s.Cleared who) (stillEarly : ∀ who, ¬ s'.Cleared who) : CallerStep s s' where
  base := base
  flag := by simp [clearing, running]
  cleared := by simp [clearing, early, stillEarly]
  apart := by simp [clearing]
  thread := fun who done => absurd done (stillEarly who)

/-- A step in the phases after which every flag is cleared. -/
theorem CallerStep.behind {s s' : HttpServer workers} (base : s'.Base)
    (clearing : s.clearing = none) (running : s'.running = s.running)
    (thread : s'.thread = s.thread)
    (late : ∀ who, s.Cleared who) (stillLate : ∀ who, s'.Cleared who) : CallerStep s s' where
  base := base
  flag := by simp [clearing, running]
  cleared := by simp [clearing, late, stillLate]
  apart := by simp [clearing]
  thread := fun who _ => by rw [thread]

section Caller

variable {s s' : HttpServer workers} {i : Nat}

/-- `start` starts the next worker, or the acceptor behind the last one. -/
theorem spawning_spec (base : s.Base) (caller : s.caller = .spawning i)
    (taken : s.callerStep = some s') : CallerStep s s' := by
  obtain ⟨-, serving, born⟩ := base
  have up := serving (.inl ⟨i, caller⟩)
  simp only [callerStep, caller] at taken
  split at taken
  case isTrue below =>
    obtain rfl := Option.some.inj taken
    refine .before ⟨by simp [goto], by simpa [goto, setThread] using up, ?_⟩ ?_ rfl ?_ ?_
    · rintro (_ | worker) before
      · simp [Born, goto] at before
      · by_cases same : worker = ⟨i, below⟩
        · simp [goto, setThread, same]
        · have earlier : worker < i := by
            have : worker.val ≠ i := fun equal => same (Fin.ext equal)
            simp only [Born, goto] at before
            omega
          simpa [goto, setThread, same] using born (some worker) (by simpa [Born, caller])
    all_goals simp [clearing, Cleared, caller, goto]
  case isFalse last =>
    obtain rfl := Option.some.inj taken
    refine .before ⟨by simp [goto], by simpa [goto, setThread] using up, ?_⟩ ?_ rfl ?_ ?_
    · rintro (_ | worker) -
      · simp [goto, setThread]
      · have earlier : worker < i := by omega
        simpa [goto, setThread] using born (some worker) (by simpa [Born, caller])
    all_goals simp [clearing, Cleared, caller, goto]

/-- `stop` clears the flag of the next worker, or is through. -/
theorem stopWorkers_spec (base : s.Base) (caller : s.caller = .stopWorkers i)
    (taken : s.callerStep = some s') : CallerStep s s' := by
  have born := base.born
  simp only [callerStep, caller] at taken
  split at taken
  case isTrue below =>
    obtain rfl := Option.some.inj taken
    refine ⟨⟨by simp [goto], by simp [goto], ?_⟩, ?_, ?_, ?_, fun who _ => rfl⟩
    · exact fun who _ => born who (by simp [Born, caller])
    · intro who
      simp [clearing, caller, below, goto, setRunning, Function.update_apply, eq_comm]
    · rintro (_ | worker)
      · simp [Cleared, caller, goto]
      · simp only [Cleared, clearing, caller, below, goto, dif_pos, Option.some.injEq, Fin.ext_iff]
        omega
    · rintro (_ | worker) cleared
      · simp [clearing, caller, below]
      · simp only [Cleared, caller] at cleared
        simp only [clearing, caller, below, dif_pos, ne_eq, Option.some.injEq, Fin.ext_iff]
        omega
  case isFalse last =>
    obtain rfl := Option.some.inj taken
    refine .behind ⟨by simp [goto], by simp [goto], ?_⟩ ?_ rfl rfl ?_ ?_
    · exact fun who _ => born who (by simp [Born, caller])
    · simp [clearing, caller, last]
    · rintro (_ | worker) <;> simp only [Cleared, caller]
      omega
    · simp [Cleared, goto]

/-- `wait` joins the next worker, or is through. -/
theorem joinWorkers_spec (base : s.Base) (caller : s.caller = .joinWorkers i)
    (taken : s.callerStep = some s') : CallerStep s s' := by
  have born := base.born
  simp only [callerStep, caller] at taken
  split at taken
  · split at taken
    · obtain rfl := Option.some.inj taken
      refine .behind ⟨by simp [goto], by simp [goto], ?_⟩ ?_ rfl rfl ?_ ?_
      · exact fun who _ => born who (by simp [Born, caller])
      all_goals simp [clearing, Cleared, caller, goto]
    · cases taken
  · obtain rfl := Option.some.inj taken
    refine .behind ⟨by simp [goto], by simp [goto], ?_⟩ ?_ rfl rfl ?_ ?_
    · exact fun who _ => born who (by simp [Born, caller])
    all_goals simp [clearing, Cleared, caller, goto]

end Caller

theorem callerStep_spec {s s' : HttpServer workers} (base : s.Base)
    (taken : s.callerStep = some s') : CallerStep s s' := by
  have born := base.born
  cases caller : s.caller with
  | start =>
      simp only [callerStep, caller, base.fresh caller, Bool.false_eq_true, if_false] at taken
      obtain rfl := Option.some.inj taken
      refine .before ⟨by simp [goto], by simp [goto], ?_⟩ ?_ rfl ?_ ?_
      · rintro (_ | worker) before <;> simp [Born, goto] at before
      all_goals simp [clearing, Cleared, caller, goto]
  | spawning i => exact spawning_spec base caller taken
  | started =>
      simp only [callerStep, caller, base.serving (.inr caller), if_true] at taken
      obtain rfl := Option.some.inj taken
      refine .before ⟨by simp [goto], by simp [goto], ?_⟩ ?_ rfl ?_ ?_
      · exact fun who _ => born who (by simp [Born, caller])
      all_goals simp [clearing, Cleared, caller, goto]
  | stopAcceptor =>
      simp only [callerStep, caller] at taken
      obtain rfl := Option.some.inj taken
      refine ⟨⟨by simp [goto], by simp [goto], ?_⟩, ?_, ?_, ?_, fun who _ => rfl⟩
      · exact fun who _ => born who (by simp [Born, caller])
      · intro who
        simp [clearing, caller, goto, setRunning, Function.update_apply, eq_comm]
      · rintro (_ | worker) <;> simp [Cleared, clearing, caller, goto]
      · rintro who cleared
        simp [Cleared, caller] at cleared
  | stopWorkers i => exact stopWorkers_spec base caller taken
  | stopped =>
      simp only [callerStep, caller, Option.ite_none_right_eq_some, Option.some.injEq] at taken
      obtain ⟨-, rfl⟩ := taken
      refine .behind ⟨by simp [goto], by simp [goto], ?_⟩ ?_ rfl rfl ?_ ?_
      · exact fun who _ => born who (by simp [Born, caller])
      all_goals simp [clearing, Cleared, caller, goto]
  | joinWorkers i => exact joinWorkers_spec base caller taken
  | joined => simp only [callerStep, caller, reduceCtorEq] at taken

/-- Every cleared flag stays down. -/
def AllSettled (s : HttpServer workers) : Prop := ∀ who, s.Cleared who → s.Settled who

/-- Some cleared flag is up again, or will be. -/
def Unsettled (s : HttpServer workers) : Prop := ∃ who, s.Cleared who ∧ ¬ s.Settled who

theorem CallerStep.settled {s s' : HttpServer workers} (taken : CallerStep s s')
    (raised : s.ClearsRaised .caller) (settled : s.AllSettled) : s'.AllSettled := by
  intro who cleared
  have thread := taken.thread who cleared
  have flag := taken.flag who
  by_cases now : s.clearing = some who
  · rw [if_pos now] at flag
    exact ⟨by simpa only [Entered, thread] using raised who now, flag⟩
  · rw [if_neg now] at flag
    obtain ⟨entered, down⟩ := settled who (((taken.cleared who).mp cleared).resolve_right now)
    exact ⟨by simpa only [Entered, thread] using entered, flag.trans down⟩

theorem CallerStep.unsettled {s s' : HttpServer workers} (taken : CallerStep s s')
    (unsettled : s.Unsettled) : s'.Unsettled := by
  obtain ⟨who, cleared, up⟩ := unsettled
  have still := (taken.cleared who).mpr (.inl cleared)
  refine ⟨who, still, ?_⟩
  have flag := taken.flag who
  rw [if_neg (taken.apart who cleared)] at flag
  simpa only [Settled, Entered, taken.thread who still, flag] using up

/-- A flag that is cleared too early is not settled. -/
theorem CallerStep.forgotten {s s' : HttpServer workers} (taken : CallerStep s s')
    (early : ¬ s.ClearsRaised .caller) : s'.Unsettled := by
  simp only [ClearsRaised, not_forall] at early
  obtain ⟨who, now, absent⟩ := early
  have cleared := (taken.cleared who).mpr (.inr now)
  refine ⟨who, cleared, fun settled => absent ?_⟩
  simpa only [Entered, taken.thread who cleared] using settled.1

theorem RunStep.unsettled {s s' : HttpServer workers} {who : Sched workers}
    (taken : RunStep s who s') (unsettled : s.Unsettled) : s'.Unsettled := by
  obtain ⟨other, cleared, up⟩ := unsettled
  exact ⟨other, (taken.cleared_iff other).mpr cleared, up ∘ (taken.settled_iff other).mp⟩

theorem RunStep.settled {s s' : HttpServer workers} {who : Sched workers}
    (taken : RunStep s who s') (settled : s.AllSettled) : s'.AllSettled := by
  intro other cleared
  exact (taken.settled_iff other).mpr (settled other ((taken.cleared_iff other).mp cleared))

end HttpServer

open HttpServer

theorem base_init : (httpServer workers).init.Base :=
  ⟨fun _ => rfl, by simp [httpServer], by simp [httpServer, HttpServer.Born]⟩

theorem base_step (s : HttpServer workers) (action : ServerStep workers)
    (s' : HttpServer workers) (base : s.Base)
    (taken : (httpServer workers).step s action = some s') : s'.Base := by
  cases action with
  | caller => exact (callerStep_spec base taken).base
  | run who => exact (runStep_spec taken).base base

theorem settled_step (s : HttpServer workers) (action : ServerStep workers)
    (s' : HttpServer workers) (kept : s.Base ∧ s.AllSettled) (raised : s.ClearsRaised action)
    (taken : (httpServer workers).step s action = some s') : s'.Base ∧ s'.AllSettled := by
  refine ⟨base_step s action s' kept.1 taken, ?_⟩
  cases action with
  | caller => exact (callerStep_spec kept.1 taken).settled raised kept.2
  | run who => exact (runStep_spec taken).settled kept.2

theorem unsettled_step (s : HttpServer workers) (action : ServerStep workers)
    (s' : HttpServer workers) (kept : s.Base ∧ s.Unsettled)
    (taken : (httpServer workers).step s action = some s') : s'.Base ∧ s'.Unsettled := by
  refine ⟨base_step s action s' kept.1 taken, ?_⟩
  cases action with
  | caller => exact (callerStep_spec kept.1 taken).unsettled kept.2
  | run who => exact (runStep_spec taken).unsettled kept.2

/-- A flag that is cleared too early is not settled. -/
theorem unsettled_of_early (s : HttpServer workers) (action : ServerStep workers)
    (s' : HttpServer workers) (base : s.Base) (early : ¬ s.ClearsRaised action)
    (taken : (httpServer workers).step s action = some s') : s'.Unsettled := by
  cases action with
  | caller => exact (callerStep_spec base taken).forgotten early
  | run who => exact absurd trivial early

/-- What holds from the return of `stop` on, if it cleared raised flags only. -/
structure Quiet (s : HttpServer workers) : Prop where
  base : s.Base
  returned : s.StopReturned
  settled : ∀ who, s.Settled who

theorem cleared_of_returned {s : HttpServer workers} (returned : s.StopReturned)
    (who : Sched workers) : s.Cleared who := by
  unfold StopReturned at returned
  unfold Cleared
  split at returned <;> simp_all

theorem raised_of_returned {s : HttpServer workers} (returned : s.StopReturned)
    (action : ServerStep workers) : s.ClearsRaised action := by
  cases action with
  | run who => trivial
  | caller =>
      intro who now
      unfold StopReturned at returned
      unfold clearing at now
      split at returned <;> simp_all

theorem returned_step {s s' : HttpServer workers} {action : ServerStep workers}
    (returned : s.StopReturned) (taken : (httpServer workers).step s action = some s') :
    s'.StopReturned := by
  cases action with
  | run who => simpa only [StopReturned, (runStep_spec taken).caller] using returned
  | caller =>
      unfold StopReturned at returned
      simp only [httpServer, callerStep] at taken
      split at returned
      case h_1 caller =>
        simp only [caller, Option.ite_none_right_eq_some, Option.some.injEq] at taken
        simp [← taken.2, StopReturned, goto]
      case h_2 i caller =>
        simp only [caller] at taken
        split at taken
        · simp only [Option.ite_none_right_eq_some, Option.some.injEq] at taken
          simp [← taken.2, StopReturned, goto]
        · simp [← Option.some.inj taken, StopReturned, goto]
      case h_3 caller => simp [caller] at taken
      case h_4 => cases returned

theorem quiet_step (s : HttpServer workers) (action : ServerStep workers)
    (s' : HttpServer workers) (quiet : Quiet s)
    (taken : (httpServer workers).step s action = some s') : Quiet s' := by
  have returned := returned_step quiet.returned taken
  obtain ⟨base, settled⟩ := settled_step s action s'
    ⟨quiet.base, fun who _ => quiet.settled who⟩ (raised_of_returned quiet.returned action) taken
  exact ⟨base, returned, fun who => settled who (cleared_of_returned returned who)⟩

/-- How many steps a thread that finds its flag down is from its end. -/
def stepsLeft : RunPc → Nat
  | .looping => 3
  | .testing => 2
  | .draining => 1
  | .unborn | .entering | .exited => 0

/-- A thread that finds its flag down leaves the loop, whatever the others do. -/
theorem quiet_runStep {s s' : HttpServer workers} {who : Sched workers} (quiet : Quiet s)
    (taken : s.runStep who = some s') :
    stepsLeft (s'.thread who) + 1 = stepsLeft (s.thread who) := by
  obtain ⟨⟨born, entered⟩, down⟩ := quiet.settled who
  simp only [runStep] at taken
  split at taken
  case h_1 | h_2 | h_6 => simp_all
  all_goals
    rename_i pc
    obtain rfl := Option.some.inj taken
    simp [setThread, pc, down, stepsLeft]

theorem quiet_exit {s : HttpServer workers} (quiet : Quiet s) (who : Sched workers) :
    ∃ more later, (httpServer workers).run s more = some later ∧ Quiet later ∧
      later.caller = s.caller ∧ later.thread who = .exited ∧
      ∀ other, s.thread other = .exited → later.thread other = .exited := by
  induction left : stepsLeft (s.thread who) generalizing s with
  | zero =>
      obtain ⟨⟨born, entered⟩, -⟩ := quiet.settled who
      refine ⟨[], s, rfl, quiet, rfl, ?_, fun _ exited => exited⟩
      cases pc : s.thread who <;> simp_all [stepsLeft]
  | succ n ih =>
      obtain ⟨next, taken⟩ : ∃ next, s.runStep who = some next := by
        cases pc : s.thread who <;> simp_all [stepsLeft, runStep]
      have spec := runStep_spec taken
      have fewer := quiet_runStep quiet taken
      obtain ⟨more, later, ran, laterQuiet, caller, exited, others⟩ :=
        ih (quiet_step s (.run who) next quiet taken) (by omega)
      refine ⟨.run who :: more, later, Machine.run_cons_some _ |>.mpr ⟨next, taken, ran⟩,
        laterQuiet, caller.trans spec.caller, exited, fun other done => ?_⟩
      by_cases same : other = who
      · exact same ▸ exited
      · exact others other ((spec.others other same).1.trans done)

/-- All these threads come to their end. -/
theorem quiet_exits {s : HttpServer workers} (quiet : Quiet s) (whos : List (Sched workers)) :
    ∃ more later, (httpServer workers).run s more = some later ∧ Quiet later ∧
      later.caller = s.caller ∧ (∀ who ∈ whos, later.thread who = .exited) ∧
      ∀ other, s.thread other = .exited → later.thread other = .exited := by
  induction whos generalizing s with
  | nil => exact ⟨[], s, rfl, quiet, rfl, by simp, fun _ exited => exited⟩
  | cons who whos ih =>
      obtain ⟨first, mid, ran, midQuiet, caller, exited, others⟩ := quiet_exit quiet who
      obtain ⟨second, later, ran', laterQuiet, caller', exits, others'⟩ := ih midQuiet
      refine ⟨first ++ second, later, Machine.run_append_some _ |>.mpr ⟨mid, ran, ran'⟩,
        laterQuiet, caller'.trans caller, ?_, fun other done => others' other (others other done)⟩
      simp only [List.mem_cons, forall_eq_or_imp]
      exact ⟨others' who exited, exits⟩

theorem workers_join {i : Nat} {s : HttpServer workers} (caller : s.caller = .joinWorkers i)
    (exited : ∀ who, s.thread who = .exited) :
    ∃ more final, (httpServer workers).run s more = some final ∧ final.caller = .joined := by
  induction remaining : workers - i generalizing i s with
  | zero =>
      have last : ¬ i < workers := by omega
      refine ⟨[.caller], s.goto .joined, ?_, rfl⟩
      simp [Machine.run_cons, httpServer, callerStep, caller, last]
  | succ n ih =>
      have below : i < workers := by omega
      obtain ⟨more, final, ran, joined⟩ :=
        ih (i := i + 1) (s := s.goto (.joinWorkers (i + 1))) rfl exited (by omega)
      refine ⟨.caller :: more, final, Machine.run_cons_some _ |>.mpr ⟨_, ?_, ran⟩, joined⟩
      simp [httpServer, callerStep, caller, below, exited]

/-- `wait` joins threads that have come to their end. -/
theorem exited_joins {s : HttpServer workers} (returned : s.StopReturned)
    (exited : ∀ who, s.thread who = .exited) :
    ∃ more final, (httpServer workers).run s more = some final ∧ final.caller = .joined := by
  unfold StopReturned at returned
  split at returned
  case h_1 caller =>
    obtain ⟨more, final, ran, joined⟩ :=
      workers_join (i := 0) (s := s.goto (.joinWorkers 0)) rfl exited
    refine ⟨.caller :: more, final, Machine.run_cons_some _ |>.mpr ⟨_, ?_, ran⟩, joined⟩
    simp [httpServer, callerStep, caller, exited]
  case h_2 i caller => exact workers_join caller exited
  case h_3 caller => exact ⟨[], s, rfl, caller⟩
  case h_4 => cases returned

theorem shutDown_of_quiet {s : HttpServer workers} (quiet : Quiet s) : s.ShutDown where
  down := by
    intro steps later ran who
    exact ((Machine.run_preserves quiet_step quiet ran).settled who).2
  leaves := by
    intro steps later who next ran testing taken
    have down := ((Machine.run_preserves quiet_step quiet ran).settled who).2
    simp only [httpServer, runStep, testing, down, Bool.false_eq_true, if_false,
      Option.some.injEq] at taken
    simp [← taken, setThread]
  joins := by
    intro steps later ran
    have laterQuiet := Machine.run_preserves quiet_step quiet ran
    obtain ⟨more, drained, ran', drainedQuiet, -, exited, -⟩ :=
      quiet_exits laterQuiet (none :: (List.finRange workers).map some)
    have all : ∀ who, drained.thread who = .exited := by
      rintro (_ | worker)
      · exact exited none (by simp)
      · exact exited (some worker) (by simp)
    obtain ⟨rest, final, ran'', joined⟩ := exited_joins drainedQuiet.returned all
    exact ⟨more ++ rest, final, Machine.run_append_some _ |>.mpr ⟨drained, ran', ran''⟩, joined⟩

/-- A flag that is not settled goes up again. -/
theorem unsettled_rises {s : HttpServer workers} (base : s.Base) (returned : s.StopReturned)
    (unsettled : s.Unsettled) : ¬ s.ShutDown := by
  intro shut
  obtain ⟨who, -, up⟩ := unsettled
  have down := shut.down [] s rfl who
  have born : s.thread who ≠ .unborn := by
    refine base.born who ?_
    unfold StopReturned at returned
    unfold HttpServer.Born
    split at returned <;> simp_all
  have entering : s.thread who = .entering := by
    by_contra entered
    exact up ⟨⟨born, entered⟩, down⟩
  have raised := shut.down [.run who] ((s.setRunning who true).setThread who .testing)
    (by simp [Machine.run_cons, httpServer, runStep, entering]) who
  simp [setThread, setRunning] at raised

/-- Once `stop` has returned everything shuts down, exactly if `stop` cleared each flag
    after the thread of that scheduler raised it. -/
theorem shutDown_iff (steps : List (ServerStep workers)) (s : HttpServer workers)
    (ran : (httpServer workers).run (httpServer workers).init steps = some s)
    (returned : s.StopReturned) :
    (httpServer workers).Guarded ClearsRaised (httpServer workers).init steps ↔ s.ShutDown := by
  have base := Machine.run_preserves base_step base_init ran
  constructor
  · intro guarded
    have settled : (httpServer workers).init.AllSettled := fun who cleared => by
      simp [httpServer, Cleared] at cleared
    have kept := Machine.Guarded.preserves settled_step ⟨base_init, settled⟩ guarded ran
    exact shutDown_of_quiet
      ⟨base, returned, fun who => kept.2 who (cleared_of_returned returned who)⟩
  · intro shut
    have settles :=
      Machine.guarded_or base_step unsettled_step unsettled_of_early base_init ran
    refine settles.resolve_right fun unsettled => ?_
    exact unsettled_rises base returned unsettled shut

/-- One worker; both threads are in their loops when `stop` comes. -/
def calmSteps : List (ServerStep 1) :=
  [.caller, .caller, .caller, .run (some 0), .run none, .caller, .run none, .caller, .caller,
    .caller]

theorem shutDown_calm : ∃ s, (httpServer 1).run (httpServer 1).init calmSteps = some s ∧
    s.StopReturned ∧ s.ShutDown := by
  obtain ⟨s, ran⟩ := Option.isSome_iff_exists.mp
    (show ((httpServer 1).run (httpServer 1).init calmSteps).isSome by decide)
  have returned : s.StopReturned := by
    have : ((httpServer 1).run (httpServer 1).init calmSteps).all (·.StopReturned) := by decide
    simpa [ran] using this
  exact ⟨s, ran, returned, (shutDown_iff calmSteps s ran returned).mp (by decide)⟩

/-- `stop` comes before the worker has entered `run`. -/
def hastySteps : List (ServerStep 1) :=
  [.caller, .caller, .caller, .run none, .caller, .caller, .caller, .caller]

/-- The worker then raises its flag again. -/
theorem hastyStop_forgotten :
    ((httpServer 1).run (httpServer 1).init hastySteps).any (fun s => s.StopReturned) ∧
    ((httpServer 1).run (httpServer 1).init (hastySteps ++ [.run (some 0)])).any
      (fun s => s.StopReturned ∧ s.running (some 0) = true) := by
  decide

end Corio.Uring
