import Corio.Foundation.Machine
import Corio.Foundation.Text
import Corio.Foundation.Threads

/-! # Tasks on a worker

`Task.h` and the ready queue of a scheduler, for coroutines of any kind. A detached
task is enqueued with the flag to destroy it, but every later resumption comes from
`OperationBase::complete`, without the flag. Handles are never reused here.

It is assumed that every await gets the completion of its own operation, and that one only:
the address in `user_data` is left to `Ring`, as are the runs in which a completion comes to a
later operation at that address. An exception that crosses a `co_await` is taken out of a frame
that is gone (see `Exceptions`). That has an outcome of its own here, `Signal.dangled`, and the
worker does not go on behind it.
-/

namespace Corio.Uring

abbrev Handle := Nat

/-- What a resumption hands to the coroutine. -/
inductive Signal (ρ : Type) where
  | begin
  /-- The completion of the operation it awaits, and what a receive left in its buffer. -/
  | completed (res : Int) (chunk : Bytes)
  /-- The result of the task it awaits. -/
  | returned (result : ρ)
  /-- The exception of the task it awaits, which `await_resume` reads out of the frame that it
      has destroyed. -/
  | dangled
  deriving DecidableEq, Repr

/-- How a coroutine gives up control. -/
inductive Effect (β ρ : Type) where
  | awaitOperation (body : β)
  | awaitTask (child body : β)
  /-- Its final suspend. -/
  | finish (result : ρ)

/-- Coroutine bodies, suspended, and what they do until they give up control. What they
    read from outside is `ω`. -/
structure Program (β ρ ω : Type) where
  resume : ω → β → Signal ρ → Effect β ρ
  /-- Whether a task ends with an exception that it does not catch. -/
  raised : ρ → Bool
  /-- The body of a detached task for a descriptor. -/
  detached : Nat → β
  /-- The descriptor that a parameter held in the frame will close. -/
  owned : β → Option Nat
  owned_detached : ∀ fd, owned (detached fd) = some fd
  owned_operation : ∀ {world body signal body'},
    resume world body signal = .awaitOperation body' → owned body' = owned body
  owned_task : ∀ {world body signal child body'},
    resume world body signal = .awaitTask child body' → owned body' = owned body

namespace Program

variable {β ρ ω : Type} (P : Program β ρ ω)

/-- What a coroutine does when it goes on. With an exception out of a frame that is gone,
    nothing is defined. -/
def go (world : ω) (body : β) (signal : Signal ρ) : Option (Effect β ρ) :=
  match signal with
  | .dangled => none
  | .begin | .completed .. | .returned _ => some (P.resume world body signal)

/-- `await_resume`: a value is moved out of the frame before it is destroyed, an exception is
    read behind that. -/
def awaitResume (result : ρ) : Signal ρ := if P.raised result then .dangled else .returned result

theorem resume_of_go {P : Program β ρ ω} {world : ω} {body : β} {signal : Signal ρ}
    {effect : Effect β ρ} (goes : P.go world body signal = some effect) :
    P.resume world body signal = effect := by
  cases signal with
  | dangled => cases goes
  | begin | completed | returned => exact Option.some.inj goes

end Program

structure Frame (β ρ : Type) where
  body : β
  signal : Signal ρ
  /-- `continuation_` of the promise. -/
  continuation : Option Handle
  done : Bool

structure ReadyItem where
  handle : Handle
  destroyAfterResume : Bool
  deriving DecidableEq, Repr

structure Worker (β ρ : Type) where
  frames : Handle → Option (Frame β ρ)
  ready : List ReadyItem
  /-- Coroutines suspended on an operation. -/
  pending : List Handle
  /-- The item `resume_ready` is at, and the coroutine that runs. -/
  running : Option (ReadyItem × Handle)
  next : Handle
  /-- The detached task a coroutine runs in, which no step looks at. -/
  root : Handle → Handle
  started : List (Handle × Nat)
  /-- Detached tasks that have been suspended on an operation. -/
  suspended : List Handle
  /-- Detached tasks that have reached their final suspend. -/
  finished : List Handle
  destroyed : List Handle
  /-- Descriptors closed by the destruction of a frame. -/
  closed : List (Handle × Nat)

namespace Worker

variable {β ρ ω : Type}

def setFrame (s : Worker β ρ) (h : Handle) (frame : Frame β ρ) : Worker β ρ :=
  { s with frames := Function.update s.frames h (some frame) }

/-- `handle.destroy()`. -/
def destroy (P : Program β ρ ω) (s : Worker β ρ) (h : Handle) : Worker β ρ :=
  match s.frames h with
  | none => s
  | some frame =>
      { s with frames := Function.update s.frames h none, destroyed := s.destroyed ++ [h],
               closed := s.closed ++ (P.owned frame.body).toList.map fun fd => (h, fd) }

def isDone (s : Worker β ρ) (h : Handle) : Bool :=
  match s.frames h with
  | none => false
  | some frame => frame.done

/-- `Task::start`: the frame is there since the call, and is enqueued to be destroyed. -/
def start (P : Program β ρ ω) (s : Worker β ρ) (fd : Nat) : Worker β ρ :=
  { s.setFrame s.next ⟨P.detached fd, .begin, none, false⟩ with
      ready := s.ready ++ [⟨s.next, true⟩], next := s.next + 1,
      root := Function.update s.root s.next s.next, started := s.started ++ [(s.next, fd)] }

/-- The rest of `resume_ready`, when control is back from `resume`. -/
def resumed (P : Program β ρ ω) (s : Worker β ρ) (item : ReadyItem) : Worker β ρ :=
  let s := { s with running := none }
  if item.destroyAfterResume ∧ s.isDone item.handle then s.destroy P item.handle else s

def suspend (P : Program β ρ ω) (s : Worker β ρ) (item : ReadyItem) (h : Handle)
    (frame : Frame β ρ) (body : β) : Worker β ρ :=
  resumed P { s.setFrame h { frame with body := body } with
    pending := s.pending ++ [h], suspended := s.suspended ++ [s.root h] } item

/-- `Task::Awaiter::await_suspend`, for a task that is created in the same expression. -/
def call (s : Worker β ρ) (item : ReadyItem) (h : Handle) (frame : Frame β ρ)
    (child body : β) : Worker β ρ :=
  { (s.setFrame h { frame with body := body }).setFrame s.next ⟨child, .begin, some h, false⟩ with
      running := some (item, s.next), next := s.next + 1,
      root := Function.update s.root s.next (s.root h) }

/-- `FinalAwaiter::await_suspend` with a continuation, and the `await_resume` of the
    coroutine that is continued. -/
def giveBack (P : Program β ρ ω) (s : Worker β ρ) (item : ReadyItem) (h : Handle)
    (c : Handle) (caller : Frame β ρ) (result : ρ) : Worker β ρ :=
  { (s.destroy P h).setFrame c { caller with signal := P.awaitResume result } with
      running := some (item, c) }

/-- `FinalAwaiter::await_suspend` without a continuation. -/
def detach (P : Program β ρ ω) (s : Worker β ρ) (item : ReadyItem) (h : Handle)
    (frame : Frame β ρ) : Worker β ρ :=
  resumed P { s.setFrame h { frame with done := true } with finished := s.finished ++ [h] } item

/-- The running coroutine runs until it gives up control. -/
def exec (P : Program β ρ ω) (s : Worker β ρ) (world : ω) : Option (Worker β ρ) :=
  match s.running with
  | none => none
  | some (item, h) =>
      match s.frames h with
      | none => none
      | some frame =>
          match P.go world frame.body frame.signal with
          | none => none
          | some (.awaitOperation body) => some (suspend P s item h frame body)
          | some (.awaitTask child body) => some (call s item h frame child body)
          | some (.finish result) =>
              match frame.continuation with
              | none => some (detach P s item h frame)
              | some c =>
                  match s.frames c with
                  | none => none
                  | some caller => some (giveBack P s item h c caller result)

/-- The next item of `drain_ready`. -/
def take (s : Worker β ρ) : Option (Worker β ρ) :=
  match s.running, s.ready with
  | none, item :: ready => some { s with ready := ready, running := some (item, item.handle) }
  | _, _ => none

/-- `OperationBase::complete`, out of `handle_cqe`. -/
def complete (s : Worker β ρ) (i : Nat) (res : Int) (chunk : Bytes) : Option (Worker β ρ) :=
  match s.running, s.pending[i]? with
  | none, some h =>
      match s.frames h with
      | none => none
      | some frame =>
          some { s.setFrame h { frame with signal := .completed res chunk } with
                   pending := s.pending.eraseIdx i, ready := s.ready ++ [⟨h, false⟩] }
  | _, _ => none

end Worker

inductive WorkerStep (ω : Type) where
  | start (fd : Nat)
  | take
  | exec (world : ω)
  | complete (i : Nat) (res : Int) (chunk : Bytes)

def worker {β ρ ω : Type} (P : Program β ρ ω) : Machine (Worker β ρ) (WorkerStep ω) where
  init := ⟨fun _ => none, [], [], none, 0, id, [], [], [], [], []⟩
  step s action :=
    match action with
    | .start fd => if s.running = none then some (s.start P fd) else none
    | .take => s.take
    | .exec world => s.exec P world
    | .complete i res chunk => s.complete i res chunk

/-- An exception has crossed a `co_await`. -/
def Worker.Dangling {β ρ : Type} (s : Worker β ρ) : Prop :=
  ∃ item h frame, s.running = some (item, h) ∧ s.frames h = some frame ∧ frame.signal = .dangled

/-- The worker is at its end then. -/
theorem Worker.Dangling.stuck {β ρ ω : Type} {P : Program β ρ ω} {s : Worker β ρ}
    (dangling : s.Dangling) (action : WorkerStep ω) : (worker P).step s action = none := by
  obtain ⟨item, h, frame, running, found, signal⟩ := dangling
  cases action with
  | start fd => simp [worker, running]
  | take => simp [worker, take, running]
  | exec world => simp [worker, exec, running, found, signal, Program.go]
  | complete i res chunk => simp [worker, complete, running]

/-- That is where an awaited task leads that ends with an exception. -/
theorem Worker.giveBack_dangling {β ρ ω : Type} {P : Program β ρ ω} {s : Worker β ρ}
    {item : ReadyItem} {h c : Handle} {caller : Frame β ρ} {result : ρ}
    (raised : P.raised result = true) : (giveBack P s item h c caller result).Dangling :=
  ⟨item, c, _, rfl, Function.update_self _ _ _, if_pos raised⟩

end Corio.Uring
