import Corio.Foundation.Machine
import Mathlib.Logic.Function.Basic

/-! # The two loops around `epoll_wait`

`EventLoop::loop` with the loop of `Epoll::poll` in it, which waits again for as long as there is
no channel to handle. What the handlers and functors do to the table of the channels is open.
-/

namespace Corio.Epoll.Waiting

/-- What `epoll_wait` returns. -/
inductive Outcome where
  /-- The descriptors of the events, none when the time is over. -/
  | reported (fds : List Nat)
  | failed
  deriving DecidableEq, Repr

/-- Where the thread of the loop is. -/
inductive Place where
  /-- At the test of the `while` loop. -/
  | testing
  /-- In `epoll_wait`. -/
  | waiting
  /-- At `handleEvents` of the next channel, or at `doPendingFunctors`. -/
  | handling (ret : List Nat)
  /-- At `handleExpired`. -/
  | expiring
  /-- Behind the loop. -/
  | left
  deriving DecidableEq, Repr

structure Loop where
  place : Place
  quit : Bool
  fd2chan : Nat → Option Nat

inductive Step where
  | test
  /-- `epoll_wait` returns. -/
  | wait (outcome : Outcome)
  /-- The next channel is handled, and the table is then this one. -/
  | handle (fd2chan : Nat → Option Nat)
  | doPendingFunctors (fd2chan : Nat → Option Nat)
  | handleExpired (fd2chan : Nat → Option Nat)
  /-- Anybody calls `quit`. -/
  | quit

namespace Loop

/-- The channels of the events, which `Epoll::getEventsRequest` looks up. -/
def getEventsRequest (s : Loop) : Outcome → List Nat
  | .reported fds => fds.filterMap s.fd2chan
  | .failed => []

/-- What follows the return of `epoll_wait` in `Epoll::poll`. -/
def poll (s : Loop) (outcome : Outcome) : Loop :=
  let req_data := s.getEventsRequest outcome
  if req_data.length > 0 then { s with place := .handling req_data }
  else { s with place := .waiting }

end Loop

/-- `EventLoop::loop`, with this table in the beginning. -/
def loop (fd2chan : Nat → Option Nat) : Machine Loop Step where
  init := ⟨.testing, false, fd2chan⟩
  step s action :=
    match s.place, action with
    | _, .quit => some { s with quit := true }
    | .testing, .test => some { s with place := if s.quit then .left else .waiting }
    | .waiting, .wait outcome => some (s.poll outcome)
    | .handling (_ :: ret), .handle fd2chan =>
        some { s with place := .handling ret, fd2chan := fd2chan }
    | .handling [], .doPendingFunctors fd2chan =>
        some { s with place := .expiring, fd2chan := fd2chan }
    | .expiring, .handleExpired fd2chan => some { s with place := .testing, fd2chan := fd2chan }
    | _, _ => none

namespace Step

def IsWait : Step → Prop
  | .wait _ => True
  | _ => False

def IsFunctors : Step → Prop
  | .doPendingFunctors _ => True
  | _ => False

def IsExpired : Step → Prop
  | .handleExpired _ => True
  | _ => False

end Step

/-- Between two returns of `epoll_wait` the loop calls its functors and looks for expired
    connections. -/
def LooksBetween (steps : List Step) : Prop :=
  ∀ front mid back first second, steps = front ++ .wait first :: (mid ++ .wait second :: back) →
    (∀ step ∈ mid, ¬ step.IsWait) → (∃ step ∈ mid, step.IsFunctors) ∧ ∃ step ∈ mid, step.IsExpired

/-- Every return of `epoll_wait` but the last one reports an event of a channel in the table. -/
def Productive (fd2chan : Nat → Option Nat) : Loop → List Step → Prop
  | _, [] => True
  | s, step :: rest =>
      (∀ outcome, step = .wait outcome → (∃ later ∈ rest, later.IsWait) →
        s.getEventsRequest outcome ≠ []) ∧
      ∀ next, (loop fd2chan).step s step = some next → Productive fd2chan next rest

variable {fd2chan : Nat → Option Nat} {s s' : Loop} {steps : List Step}

theorem poll_place (s : Loop) (outcome : Outcome) :
    s.getEventsRequest outcome = [] ∧ (s.poll outcome).place = .waiting ∨
      s.getEventsRequest outcome ≠ [] ∧
        (s.poll outcome).place = .handling (s.getEventsRequest outcome) := by
  unfold Loop.poll
  cases s.getEventsRequest outcome with
  | nil => exact .inl ⟨rfl, rfl⟩
  | cons c rest => exact .inr ⟨List.cons_ne_nil c rest, rfl⟩

theorem wait_place {outcome : Outcome}
    (taken : (loop fd2chan).step s (.wait outcome) = some s') :
    s.place = .waiting ∧ s' = s.poll outcome := by
  cases place : s.place with
  | waiting =>
      simp only [loop, place, Option.some.injEq] at taken
      exact ⟨rfl, taken.symm⟩
  | testing | expiring | left => simp [loop, place] at taken
  | handling ret => cases ret <;> simp [loop, place] at taken

/-- From the handlers to `epoll_wait` the loop goes through the functors and `handleExpired`. -/
theorem looks_before_wait (ran : (loop fd2chan).run s steps = some s')
    (noWait : ∀ step ∈ steps, ¬ step.IsWait) (waits : s'.place = .waiting) :
    (∀ ret, s.place = .handling ret →
      (∃ step ∈ steps, step.IsFunctors) ∧ ∃ step ∈ steps, step.IsExpired) ∧
      (s.place = .expiring → ∃ step ∈ steps, step.IsExpired) := by
  induction steps generalizing s with
  | nil =>
      obtain rfl := Option.some.inj ran
      refine ⟨fun ret here => ?_, fun here => ?_⟩
      · cases here.symm.trans waits
      · cases here.symm.trans waits
  | cons step rest ih =>
      obtain ⟨next, taken, ran⟩ := Machine.run_cons_some _ |>.mp ran
      obtain ⟨handling, expiring⟩ :=
        ih ran fun later member => noWait later (List.mem_cons_of_mem _ member)
      have extend {P : Step → Prop} : (∃ later ∈ rest, P later) → ∃ later ∈ step :: rest, P later :=
        fun ⟨later, member, holds⟩ => ⟨later, List.mem_cons_of_mem _ member, holds⟩
      constructor
      · intro ret here
        cases step with
        | quit =>
            obtain rfl := Option.some.inj taken
            obtain ⟨functors, expired⟩ := handling ret here
            exact ⟨extend functors, extend expired⟩
        | handle table =>
            cases ret with
            | nil => simp [loop, here] at taken
            | cons c ret =>
                simp only [loop, here, Option.some.injEq] at taken
                obtain ⟨functors, expired⟩ := handling ret (by rw [← taken])
                exact ⟨extend functors, extend expired⟩
        | doPendingFunctors table =>
            cases ret with
            | nil =>
                simp only [loop, here, Option.some.injEq] at taken
                exact ⟨⟨_, List.mem_cons_self, trivial⟩, extend (expiring (by rw [← taken]))⟩
            | cons c ret => simp [loop, here] at taken
        | test | wait outcome | handleExpired table =>
            cases ret <;> simp [loop, here] at taken
      · intro here
        cases step with
        | quit =>
            obtain rfl := Option.some.inj taken
            exact extend (expiring here)
        | handleExpired table => exact ⟨_, List.mem_cons_self, trivial⟩
        | test | wait outcome | handle table | doPendingFunctors table =>
            simp [loop, here] at taken

theorem quits_of_waiting (ran : (loop fd2chan).run s steps = some s')
    (noWait : ∀ step ∈ steps, ¬ step.IsWait) (waits : s.place = .waiting) :
    ∀ step ∈ steps, step = .quit := by
  induction steps generalizing s with
  | nil => exact fun step member => absurd member List.not_mem_nil
  | cons step rest ih =>
      obtain ⟨next, taken, ran⟩ := Machine.run_cons_some _ |>.mp ran
      have later := fun later member => noWait later (List.mem_cons_of_mem _ member)
      cases step with
      | quit =>
          obtain rfl := Option.some.inj taken
          exact List.forall_mem_cons.mpr ⟨rfl, ih ran later waits⟩
      | wait outcome => exact absurd trivial (noWait _ List.mem_cons_self)
      | test | handle table | doPendingFunctors table | handleExpired table =>
          simp [loop, waits] at taken

theorem first_wait (waits : ∃ step ∈ steps, step.IsWait) :
    ∃ mid outcome back, steps = mid ++ .wait outcome :: back ∧ ∀ step ∈ mid, ¬ step.IsWait := by
  induction steps with
  | nil =>
      obtain ⟨step, member, -⟩ := waits
      cases member
  | cons step rest ih =>
      cases step with
      | wait outcome =>
          exact ⟨[], outcome, rest, rfl, fun _ member => absurd member List.not_mem_nil⟩
      | test | handle table | doPendingFunctors table | handleExpired table | quit =>
          obtain ⟨later, member, isWait⟩ := waits
          rcases List.mem_cons.mp member with rfl | member
          · exact absurd isWait id
          · obtain ⟨mid, outcome, back, rfl, noWait⟩ := ih ⟨later, member, isWait⟩
            exact ⟨_ :: mid, outcome, back, rfl, List.forall_mem_cons.mpr ⟨id, noWait⟩⟩

theorem looksBetween_cons (step : Step) (rest : List Step) :
    LooksBetween (step :: rest) ↔
      (∀ mid back first second, step = .wait first → rest = mid ++ .wait second :: back →
        (∀ between ∈ mid, ¬ between.IsWait) →
          (∃ between ∈ mid, between.IsFunctors) ∧ ∃ between ∈ mid, between.IsExpired) ∧
      LooksBetween rest := by
  constructor
  · intro looks
    refine ⟨fun mid back first second this rest_ => ?_, fun front mid back first second rest_ => ?_⟩
    · exact looks [] mid back first second (by rw [this, rest_]; rfl)
    · exact looks (step :: front) mid back first second (by rw [rest_]; rfl)
  · rintro ⟨here, later⟩ front mid back first second whole
    cases front with
    | nil =>
        obtain ⟨this, rest_⟩ := List.cons.inj whole
        exact here mid back first second this rest_
    | cons a front => exact later front mid back first second (List.cons.inj whole).2

/-- Expired connections are looked for between two returns of `epoll_wait` exactly in the runs
    where every return but the last one is productive. -/
theorem looksBetween_iff (ran : (loop fd2chan).run s steps = some s') :
    LooksBetween steps ↔ Productive fd2chan s steps := by
  induction steps generalizing s with
  | nil =>
      refine iff_of_true (fun front mid back first second whole => ?_) trivial
      exact absurd whole (by simp)
  | cons step rest ih =>
      obtain ⟨next, taken, ran⟩ := Machine.run_cons_some _ |>.mp ran
      have only : (∀ other, (loop fd2chan).step s step = some other →
          Productive fd2chan other rest) ↔ Productive fd2chan next rest :=
        ⟨fun all => all next taken, fun one other again => by
          rwa [← Option.some.inj (taken.symm.trans again)]⟩
      rw [looksBetween_cons, Productive, only, ih ran]
      refine and_congr_left fun _ => ⟨?_, ?_⟩
      · rintro looks outcome rfl later nothing
        obtain ⟨-, rfl⟩ := wait_place taken
        obtain ⟨mid, second, back, rfl, noWait⟩ := first_wait later
        obtain ⟨between, before, -⟩ := Machine.run_append_some _ |>.mp ran
        have waiting : (s.poll outcome).place = .waiting :=
          (poll_place s outcome).elim And.right fun found => absurd nothing found.1
        obtain ⟨⟨functors, member, isFunctors⟩, -⟩ := looks mid back outcome second rfl rfl noWait
        rw [quits_of_waiting before noWait waiting functors member] at isFunctors
        exact isFunctors
      · rintro productive mid back first second rfl rfl noWait
        obtain ⟨-, rfl⟩ := wait_place taken
        obtain ⟨between, before, after⟩ := Machine.run_append_some _ |>.mp ran
        obtain ⟨last, again, -⟩ := Machine.run_cons_some _ |>.mp after
        have found := productive first rfl ⟨.wait second, by simp, trivial⟩
        have handling : (s.poll first).place = .handling (s.getEventsRequest first) :=
          (poll_place s first).elim (fun nothing => absurd nothing.1 found) And.right
        exact (looks_before_wait before noWait (wait_place again).1).1 _ handling

/-- The loop handles a wakeup, and waits again. -/
def woken : List Step :=
  [.test, .wait (.reported [5]), .handle fun _ => none, .doPendingFunctors fun _ => none,
    .handleExpired fun _ => none, .test, .wait (.reported [])]

/-- A table with a channel for descriptor 5. -/
def oneChannel (fd : Nat) : Option Nat := if fd = 5 then some 0 else none

theorem looksBetween_woken : LooksBetween woken := by
  obtain ⟨s, ran⟩ := Option.isSome_iff_exists.mp
    (show ((loop oneChannel).run (loop oneChannel).init woken).isSome by decide)
  refine (looksBetween_iff ran).mpr ?_
  simp [woken, Productive, loop, Loop.poll, Loop.getEventsRequest, oneChannel, Step.IsWait]

/-- The time is over twice, and nobody looks for expired connections. -/
theorem idle_not_looked : ∃ steps s,
    (loop oneChannel).run (loop oneChannel).init steps = some s ∧ ¬ LooksBetween steps := by
  refine ⟨[.test, .wait (.reported []), .wait (.reported [])], _, rfl, fun looks => ?_⟩
  obtain ⟨⟨step, member, -⟩, -⟩ := looks [.test] [] [] (.reported []) (.reported []) rfl
    fun step member => absurd member List.not_mem_nil
  cases member

end Corio.Epoll.Waiting
