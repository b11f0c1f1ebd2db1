import Corio.Foundation.Machine
import Mathlib.Logic.Function.Basic

/-! # The event loop and its threads

The thread of an `EventLoop` from `EventLoopThread::threadFunc` on, the thread that
owns it, and any number of threads that call `queueInLoop`. The eventfd is a counter and an
edge that `epoll_wait` has not reported yet: a write makes both, a read resets the counter.
-/

namespace Corio.Epoll

/-- Where the thread of the loop is. -/
inductive LoopPc where
  | unborn
  /-- At the construction of the `EventLoop`. -/
  | constructing
  /-- At `loop_ = &loop`. -/
  | publishing
  /-- In `loop`, at `looping_ = true`. -/
  | entering
  /-- At `quit_ = false`. -/
  | resetting
  /-- At the test of the `while` loop. -/
  | testing
  /-- About to block in `epoll_wait`. -/
  | polling
  /-- Calling `handleEvents`, `wake` telling that the wakeup channel's is still to come. -/
  | handling (wake : Bool)
  /-- In `doPendingFunctors`, at `callingPendingFunctors_ = true`. -/
  | starting
  /-- At the swap. -/
  | swapping
  /-- Calling the functors. -/
  | running
  /-- At `handleExpired`. -/
  | expiring
  /-- Behind the loop, at `looping_ = false`. -/
  | leaving
  /-- At `loop_ = NULL`. -/
  | clearing
  | finished
  deriving DecidableEq, Repr

/-- Where the owner is in `startLoop(); ~EventLoopThread();`. -/
inductive OwnerPc where
  | creating
  /-- Until `loop_` is published. -/
  | waiting
  | started
  /-- In the destructor, at the test of `loop_`. -/
  | closing
  /-- In `quit`, at `quit_ = true`. -/
  | quitting
  /-- In `quit`, at `wakeup`. -/
  | waking
  | joining
  | joined
  /-- Destroyed without a loop to quit. -/
  | detached
  deriving DecidableEq, Repr

/-- A loop with functors `φ`, and callers of `queueInLoop` named by `ι`. -/
structure EventLoop (ι φ : Type) where
  thread : LoopPc
  owner : OwnerPc
  /-- Whether `EventLoopThread::loop_` is set. -/
  published : Bool
  looping : Bool
  quit : Bool
  callingPendingFunctors : Bool
  pendingFunctors : List φ
  /-- What `doPendingFunctors` has swapped out and not called yet. -/
  functors : List φ
  /-- The loop's thread is in `queueInLoop`, behind the lock. -/
  requested : Bool
  /-- These threads are in `queueInLoop`, behind the lock. -/
  waking : ι → Bool
  counter : Nat
  edge : Bool
  /-- All functors in the order they were queued in. -/
  queued : List φ
  /-- Those that were called. -/
  called : List φ

variable {ι φ : Type}

namespace EventLoop

def goto (s : EventLoop ι φ) (pc : LoopPc) : EventLoop ι φ := { s with thread := pc }

def wakeup (s : EventLoop ι φ) : EventLoop ι φ :=
  { s with counter := s.counter + 1, edge := true }

/-- `EventLoop::handleRead`. -/
def handleRead (s : EventLoop ι φ) : EventLoop ι φ := { s with counter := 0 }

/-- The locked part of `queueInLoop`. -/
def emplace (s : EventLoop ι φ) (f : φ) : EventLoop ι φ :=
  { s with pendingFunctors := s.pendingFunctors ++ [f], queued := s.queued ++ [f] }

/-- What follows the lock in the loop's own thread. -/
def wakeupIfCalling (s : EventLoop ι φ) : EventLoop ι φ :=
  let s := { s with requested := false }
  if s.callingPendingFunctors then s.wakeup else s

/-- The loop exists, so other threads may have a pointer to it. -/
def Alive (s : EventLoop ι φ) : Prop :=
  s.thread ≠ .unborn ∧ s.thread ≠ .constructing ∧ s.thread ≠ .finished

instance (s : EventLoop ι φ) : Decidable s.Alive := by
  unfold Alive
  infer_instance

/-- The next step of the loop's thread, where it waits for nothing. -/
def threadStep (s : EventLoop ι φ) : Option (EventLoop ι φ) :=
  if s.requested then some s.wakeupIfCalling
  else
    match s.thread with
    | .unborn | .polling | .finished => none
    | .constructing => some ({ s with looping := false, quit := false }.goto .publishing)
    | .publishing => some ({ s with published := true }.goto .entering)
    | .entering => some ({ s with looping := true }.goto .resetting)
    | .resetting => some ({ s with quit := false }.goto .testing)
    | .testing => some (s.goto (if s.quit then .leaving else .polling))
    | .handling true => some (s.handleRead.goto (.handling false))
    | .handling false => some (s.goto .starting)
    | .starting => some ({ s with callingPendingFunctors := true }.goto .swapping)
    | .swapping =>
        some ({ s with functors := s.pendingFunctors, pendingFunctors := s.functors }.goto .running)
    | .running =>
        match s.functors with
        | [] => some ({ s with callingPendingFunctors := false }.goto .expiring)
        | f :: rest => some { s with functors := rest, called := s.called ++ [f] }
    | .expiring => some (s.goto .testing)
    | .leaving => some ({ s with looping := false }.goto .clearing)
    | .clearing => some ({ s with published := false }.goto .finished)

/-- `epoll_wait` returns, with the wakeup channel or not, and with others or not. -/
def pollStep (s : EventLoop ι φ) (wake others : Bool) : Option (EventLoop ι φ) :=
  if s.thread = .polling ∧ (wake ∨ others) ∧ (wake → 0 < s.counter ∧ s.edge) then
    some ({ s with edge := s.edge && !wake }.goto (.handling wake))
  else none

/-- A channel's handler or a functor calls `queueInLoop` on its own loop. -/
def queueStep (s : EventLoop ι φ) (f : φ) : Option (EventLoop ι φ) :=
  match s.thread with
  | .handling _ | .running =>
      if s.requested then none else some { s.emplace f with requested := true }
  | _ => none

def ownerStep (s : EventLoop ι φ) : Option (EventLoop ι φ) :=
  match s.owner with
  | .creating => some ({ s with owner := .waiting }.goto .constructing)
  | .waiting => if s.published then some { s with owner := .started } else none
  | .started => some { s with owner := .closing }
  | .closing => some { s with owner := if s.published then .quitting else .detached }
  | .quitting => some { s with quit := true, owner := .waking }
  | .waking => some { s.wakeup with owner := .joining }
  | .joining => if s.thread = .finished then some { s with owner := .joined } else none
  | .joined | .detached => none

end EventLoop

inductive LoopStep (ι φ : Type) where
  | thread
  | poll (wake others : Bool)
  /-- The loop's thread queues a functor. -/
  | queue (f : φ)
  /-- Another thread queues a functor. -/
  | emplace (i : ι) (f : φ)
  /-- It goes on to `wakeup`. -/
  | wakeup (i : ι)
  | owner

def eventLoop (ι φ : Type) [DecidableEq ι] : Machine (EventLoop ι φ) (LoopStep ι φ) where
  init :=
    { thread := .unborn, owner := .creating, published := false, looping := false, quit := false,
      callingPendingFunctors := false, pendingFunctors := [], functors := [], requested := false,
      waking := fun _ => false, counter := 0, edge := false, queued := [], called := [] }
  step s action :=
    match action with
    | .thread => s.threadStep
    | .poll wake others => s.pollStep wake others
    | .queue f => s.queueStep f
    | .emplace i f =>
        if s.Alive ∧ s.waking i = false then
          some { s.emplace f with waking := Function.update s.waking i true }
        else none
    | .wakeup i =>
        if s.Alive ∧ s.waking i = true then
          some { s.wakeup with waking := Function.update s.waking i false }
        else none
    | .owner => s.ownerStep

namespace EventLoop

/-- The pending functors will be swapped out before the next `epoll_wait`. -/
def Collecting (s : EventLoop ι φ) : Prop :=
  (∃ wake, s.thread = .handling wake) ∨ s.thread = .starting ∨ s.thread = .swapping

/-- `epoll_wait` has something to report about the eventfd. -/
def Readable (s : EventLoop ι φ) : Prop := 0 < s.counter ∧ s.edge = true

/-- The invariant. Pending functors are collected in this turn, or there is a wakeup, or
    somebody is about to write one. -/
structure Wakeful (s : EventLoop ι φ) : Prop where
  order : s.called ++ s.functors ++ s.pendingFunctors = s.queued
  calling : s.callingPendingFunctors = true ↔ s.thread = .swapping ∨ s.thread = .running
  functors : s.thread ≠ .running → s.functors = []
  requested : s.requested = true → s.thread = .running ∨ ∃ wake, s.thread = .handling wake
  heard : s.pendingFunctors ≠ [] →
    s.Collecting ∨ s.Readable ∨ s.requested = true ∨ ∃ i, s.waking i = true
  unborn : s.owner = .creating → s.thread = .unborn

variable {s s' : EventLoop ι φ}

/-- Only the thread's place and the flags changed. -/
structure Moved (s s' : EventLoop ι φ) : Prop where
  called : s'.called = s.called
  functors : s'.functors = s.functors
  pending : s'.pendingFunctors = s.pendingFunctors
  queued : s'.queued = s.queued
  requested : s'.requested = s.requested
  waking : s'.waking = s.waking
  counter : s'.counter = s.counter
  edge : s'.edge = s.edge
  owner : s'.owner = s.owner

theorem Wakeful.move (wakeful : s.Wakeful) (moved : Moved s s') (born : s.owner ≠ .creating)
    (idle : s.requested = false)
    (calling : s'.callingPendingFunctors = true ↔ s'.thread = .swapping ∨ s'.thread = .running)
    (notRunning : s.thread ≠ .running ∨ s.functors = [])
    (collects : s.Collecting → s'.Collecting) : s'.Wakeful where
  order := by
    rw [moved.called, moved.functors, moved.pending, moved.queued]
    exact wakeful.order
  calling := calling
  functors := fun _ => by
    rw [moved.functors]
    exact notRunning.elim wakeful.functors id
  requested := fun on => by
    rw [moved.requested, idle] at on
    cases on
  heard := fun pending => by
    rw [moved.pending] at pending
    simp only [Readable, moved.counter, moved.edge, moved.requested, moved.waking]
    exact (wakeful.heard pending).imp_left collects
  unborn := fun creating => absurd (moved.owner ▸ creating) born

/-- The wakeup after a functor, or none where it is collected anyway. -/
theorem Wakeful.wakeupIfCalling (wakeful : s.Wakeful) (on : s.requested = true) :
    s.wakeupIfCalling.Wakeful := by
  unfold EventLoop.wakeupIfCalling
  simp only
  split
  case isTrue calling =>
      exact ⟨wakeful.order, wakeful.calling, wakeful.functors, nofun,
        fun _ => .inr (.inl ⟨Nat.succ_pos _, rfl⟩), wakeful.unborn⟩
  case isFalse calling =>
      have collecting : s.Collecting := by
        rcases wakeful.requested on with running | handling
        · exact absurd (wakeful.calling.mpr (.inr running)) calling
        · exact .inl handling
      exact ⟨wakeful.order, wakeful.calling, wakeful.functors, nofun,
        fun _ => .inl collecting, wakeful.unborn⟩

theorem Wakeful.threadStep (wakeful : s.Wakeful) (taken : s.threadStep = some s') :
    s'.Wakeful := by
  unfold EventLoop.threadStep at taken
  split at taken
  case isTrue on =>
      obtain rfl := Option.some.inj taken
      exact wakeful.wakeupIfCalling on
  case isFalse idle =>
      replace idle : s.requested = false := by simpa using idle
      have born (pc : s.thread ≠ .unborn) : s.owner ≠ .creating := fun creating =>
        pc (wakeful.unborn creating)
      -- Outside of `doPendingFunctors` the flag is down and stays so.
      have off (outside : s.thread ≠ .swapping ∧ s.thread ≠ .running) :
          ¬ s.callingPendingFunctors = true := by
        simpa only [wakeful.calling, not_or] using outside
      cases pc : s.thread with
      | unborn | polling | finished => simp [pc] at taken
      | constructing | publishing | entering | resetting | expiring | leaving | clearing =>
          simp only [pc, Option.some.injEq] at taken
          subst taken
          refine wakeful.move ⟨rfl, rfl, rfl, rfl, rfl, rfl, rfl, rfl, rfl⟩ (born (by simp [pc]))
            idle (iff_of_false (off (by simp [pc])) (by simp [EventLoop.goto]))
            (.inl (by simp [pc])) fun collecting => ?_
          simp [Collecting, pc] at collecting
      | testing =>
          simp only [pc, Option.some.injEq] at taken
          subst taken
          refine wakeful.move ⟨rfl, rfl, rfl, rfl, rfl, rfl, rfl, rfl, rfl⟩ (born (by simp [pc]))
            idle (iff_of_false (off (by simp [pc])) ?_) (.inl (by simp [pc]))
            fun collecting => ?_
          · simp only [EventLoop.goto]
            split <;> simp
          · simp [Collecting, pc] at collecting
      | handling wake =>
          cases wake with
          | true =>
              simp only [pc, Option.some.injEq] at taken
              subst taken
              exact ⟨wakeful.order, iff_of_false (off (by simp [pc])) (by simp [EventLoop.goto]),
                fun _ => wakeful.functors (by simp [pc]), fun _ => .inr ⟨false, rfl⟩,
                fun _ => .inl (.inl ⟨false, rfl⟩),
                fun creating => absurd creating (born (by simp [pc]))⟩
          | false =>
              simp only [pc, Option.some.injEq] at taken
              subst taken
              exact wakeful.move ⟨rfl, rfl, rfl, rfl, rfl, rfl, rfl, rfl, rfl⟩
                (born (by simp [pc])) idle
                (iff_of_false (off (by simp [pc])) (by simp [EventLoop.goto]))
                (.inl (by simp [pc])) fun _ => .inr (.inl rfl)
      | starting =>
          simp only [pc, Option.some.injEq] at taken
          subst taken
          exact wakeful.move ⟨rfl, rfl, rfl, rfl, rfl, rfl, rfl, rfl, rfl⟩ (born (by simp [pc]))
            idle (iff_of_true rfl (.inl rfl)) (.inl (by simp [pc])) fun _ => .inr (.inr rfl)
      | swapping =>
          simp only [pc, Option.some.injEq] at taken
          subst taken
          have empty : s.functors = [] := wakeful.functors (by simp [pc])
          have order := wakeful.order
          rw [empty, List.append_nil] at order
          refine ⟨?_, iff_of_true (wakeful.calling.mpr (.inl pc)) (.inr rfl),
            fun elsewhere => absurd rfl elsewhere, fun on => ?_,
            fun pending => absurd empty pending,
            fun creating => absurd creating (born (by simp [pc]))⟩
          · simpa only [EventLoop.goto, empty, List.append_nil] using order
          · exact absurd on (by simp [EventLoop.goto, idle])
      | running =>
          simp only [pc] at taken
          split at taken
          · rename_i empty
            obtain rfl := Option.some.inj taken
            refine wakeful.move ⟨rfl, rfl, rfl, rfl, rfl, rfl, rfl, rfl, rfl⟩
              (born (by simp [pc])) idle (iff_of_false nofun (by simp [EventLoop.goto]))
              (.inr empty) fun collecting => ?_
            simp [Collecting, pc] at collecting
          · rename_i f rest next
            obtain rfl := Option.some.inj taken
            have order := wakeful.order
            rw [next] at order
            refine ⟨by simpa using order, iff_of_true (wakeful.calling.mpr (.inr pc)) (.inr rfl),
              fun elsewhere => absurd rfl elsewhere, fun _ => .inl rfl, fun pending => ?_,
              fun creating => absurd creating (born (by simp [pc]))⟩
            refine (wakeful.heard pending).imp_left fun collecting => ?_
            simp [Collecting, pc] at collecting

theorem Wakeful.pollStep (wakeful : s.Wakeful) {wake others : Bool}
    (taken : s.pollStep wake others = some s') : s'.Wakeful := by
  simp only [EventLoop.pollStep, Option.ite_none_right_eq_some, Option.some.injEq] at taken
  obtain ⟨⟨pc, -⟩, rfl⟩ := taken
  have off : ¬ s.callingPendingFunctors = true := by simp [wakeful.calling, pc]
  exact ⟨wakeful.order, iff_of_false off (by simp [EventLoop.goto]),
    fun _ => wakeful.functors (by simp [pc]), fun _ => .inr ⟨wake, rfl⟩,
    fun _ => .inl (.inl ⟨wake, rfl⟩), fun creating => by simp [wakeful.unborn creating] at pc⟩

theorem Wakeful.queueStep (wakeful : s.Wakeful) {f : φ} (taken : s.queueStep f = some s') :
    s'.Wakeful := by
  have inside : (s.thread = .running ∨ ∃ wake, s.thread = .handling wake) ∧
      s' = { s.emplace f with requested := true } := by
    unfold EventLoop.queueStep at taken
    split at taken
    case h_1 wake pc =>
        simp only [Option.ite_none_left_eq_some, Option.some.injEq] at taken
        exact ⟨.inr ⟨wake, pc⟩, taken.2.symm⟩
    case h_2 pc =>
        simp only [Option.ite_none_left_eq_some, Option.some.injEq] at taken
        exact ⟨.inl pc, taken.2.symm⟩
    case h_3 => cases taken
  obtain ⟨pc, rfl⟩ := inside
  have order := wakeful.order
  exact ⟨by simp [emplace, ← order], wakeful.calling, wakeful.functors, fun _ => pc,
    fun _ => .inr (.inr (.inl rfl)), wakeful.unborn⟩

theorem Wakeful.ownerStep (wakeful : s.Wakeful) (taken : s.ownerStep = some s') : s'.Wakeful := by
  unfold EventLoop.ownerStep at taken
  cases owner : s.owner with
  | creating =>
      simp only [owner, Option.some.injEq] at taken
      subst taken
      have pc := wakeful.unborn owner
      have off : ¬ s.callingPendingFunctors = true := by simp [wakeful.calling, pc]
      refine ⟨wakeful.order, iff_of_false off (by simp [EventLoop.goto]),
        fun _ => wakeful.functors (by simp [pc]), fun on => ?_, fun pending => ?_, nofun⟩
      · rcases wakeful.requested on with running | ⟨wake, handling⟩
        · simp [pc] at running
        · simp [pc] at handling
      · refine (wakeful.heard pending).imp_left fun collecting => ?_
        simp [Collecting, pc] at collecting
  | waiting | joining =>
      simp only [owner, Option.ite_none_right_eq_some, Option.some.injEq] at taken
      obtain ⟨-, rfl⟩ := taken
      exact ⟨wakeful.order, wakeful.calling, wakeful.functors, wakeful.requested, wakeful.heard,
        nofun⟩
  | started | quitting =>
      simp only [owner, Option.some.injEq] at taken
      subst taken
      exact ⟨wakeful.order, wakeful.calling, wakeful.functors, wakeful.requested, wakeful.heard,
        nofun⟩
  | closing =>
      simp only [owner, Option.some.injEq] at taken
      subst taken
      refine ⟨wakeful.order, wakeful.calling, wakeful.functors, wakeful.requested, wakeful.heard,
        fun creating => ?_⟩
      simp only at creating
      split at creating <;> cases creating
  | waking =>
      simp only [owner, Option.some.injEq] at taken
      subst taken
      exact ⟨wakeful.order, wakeful.calling, wakeful.functors, wakeful.requested,
        fun _ => .inr (.inl ⟨Nat.succ_pos _, rfl⟩), nofun⟩
  | joined | detached => simp [owner] at taken

end EventLoop

open EventLoop

variable [DecidableEq ι]

theorem wakeful_init : (eventLoop ι φ).init.Wakeful where
  order := rfl
  calling := by simp [eventLoop]
  functors := fun _ => rfl
  requested := nofun
  heard := fun pending => absurd rfl pending
  unborn := fun _ => rfl

/-- Every step keeps the invariant. -/
theorem wakeful_step (s : EventLoop ι φ) (action : LoopStep ι φ) (s' : EventLoop ι φ)
    (wakeful : s.Wakeful) (taken : (eventLoop ι φ).step s action = some s') : s'.Wakeful := by
  cases action with
  | thread => exact wakeful.threadStep taken
  | poll wake others => exact wakeful.pollStep taken
  | queue f => exact wakeful.queueStep taken
  | emplace i f =>
      simp only [eventLoop, Option.ite_none_right_eq_some, Option.some.injEq] at taken
      obtain ⟨-, rfl⟩ := taken
      have order := wakeful.order
      exact ⟨by simp [emplace, ← order], wakeful.calling, wakeful.functors, wakeful.requested,
        fun _ => .inr (.inr (.inr ⟨i, Function.update_self _ _ _⟩)), wakeful.unborn⟩
  | wakeup i =>
      simp only [eventLoop, Option.ite_none_right_eq_some, Option.some.injEq] at taken
      obtain ⟨-, rfl⟩ := taken
      exact ⟨wakeful.order, wakeful.calling, wakeful.functors, wakeful.requested,
        fun _ => .inr (.inl ⟨Nat.succ_pos _, rfl⟩), wakeful.unborn⟩
  | owner => exact wakeful.ownerStep taken

theorem wakeful_reachable {s : EventLoop ι φ} (reached : (eventLoop ι φ).Reachable s) :
    s.Wakeful := reached.induct wakeful_init wakeful_step

/-- Functors are called in the order they were queued in, each at most once and none is
    lost, and the loop never blocks on pending functors without a wakeup. -/
theorem functors_called (steps : List (LoopStep ι φ)) (s : EventLoop ι φ)
    (ran : (eventLoop ι φ).run (eventLoop ι φ).init steps = some s) :
    s.called ++ (s.functors ++ s.pendingFunctors) = s.queued ∧
      (s.thread = .polling → s.pendingFunctors ≠ [] →
        s.Readable ∨ ∃ i, s.waking i = true) := by
  have wakeful := wakeful_reachable ⟨steps, ran⟩
  refine ⟨List.append_assoc _ _ _ ▸ wakeful.order, fun pc pending => ?_⟩
  rcases wakeful.heard pending with collecting | readable | on | waking
  · simp [Collecting, pc] at collecting
  · exact .inl readable
  · have inside := wakeful.requested on
    simp [pc] at inside
  · exact .inr waking

/-- Another thread queues a second functor while the loop calls the first one. -/
def racedSteps : List (LoopStep Unit Nat) :=
  [.owner, .thread, .thread, .thread, .thread, .thread, .emplace () 1, .wakeup (), .poll true false,
    .thread, .thread, .thread, .thread, .emplace () 2, .thread, .thread, .thread, .thread]

theorem functors_called_raced :
    ∃ s, (eventLoop Unit Nat).run (eventLoop Unit Nat).init racedSteps = some s ∧
      s.thread = .polling ∧ s.pendingFunctors = [2] ∧
      s.called ++ (s.functors ++ s.pendingFunctors) = s.queued ∧
      (s.Readable ∨ ∃ i, s.waking i = true) := by
  obtain ⟨s, ran⟩ := Option.isSome_iff_exists.mp
    (show ((eventLoop Unit Nat).run (eventLoop Unit Nat).init racedSteps).isSome by decide)
  have there : ((eventLoop Unit Nat).run (eventLoop Unit Nat).init racedSteps).all fun s =>
      s.thread = .polling ∧ s.pendingFunctors = [2] := by decide
  rw [ran] at there
  obtain ⟨pc, pending⟩ := of_decide_eq_true there
  obtain ⟨order, heard⟩ := functors_called racedSteps s ran
  exact ⟨s, ran, pc, pending, order, heard pc (by simp [pending])⟩

end Corio.Epoll
