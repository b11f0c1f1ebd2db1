import Corio.Uring.Tasks

/-! # Exceptions that cross a `co_await`

The frames of a worker, each with the state of its life and its promise. Coroutines do what they
like: a step says what the one that runs does next. From its final suspend on control goes by
itself, through the `await_resume` of the coroutine that waits for it.
-/

namespace Corio.Uring.Exceptions

inductive Life where
  /-- At its initial suspend. A `Task` in the frame of this coroutine has the handle. -/
  | created (holder : Handle)
  /-- To be resumed by the scheduler. -/
  | queued (destroyAfterResume : Bool)
  | running
  /-- In the `co_await` of this task. -/
  | awaiting (child : Handle)
  /-- In the `co_await` of an operation. -/
  | suspended
  /-- At its final suspend. -/
  | done
  | destroyed
  deriving DecidableEq, Repr

structure Promise (ν ε : Type) where
  /-- `value_`, which the promise of a `Task<void>` does not have. -/
  value : Option ν := none
  exception : Option ε := none
  continuation : Option Handle := none

inductive Control (ε : Type) where
  /-- With the scheduler. -/
  | scheduler
  /-- With this coroutine, while `resume_ready` is at the item. -/
  | runs (item : ReadyItem) (h : Handle)
  /-- An exception looks for a handler in the coroutine. It may come from the `co_await` of this
      child. -/
  | raising (item : ReadyItem) (h : Handle) (e : ε) (child : Option Handle)
  deriving DecidableEq, Repr

/-- The coroutine that has control. -/
def Control.current {ε : Type} : Control ε → Option Handle
  | .scheduler => none
  | .runs _ h | .raising _ h _ _ => some h

/-- The promise of a frame that is destroyed is what was in it last. -/
structure Table (ν ε : Type) where
  life : Handle → Option Life
  promise : Handle → Promise ν ε
  next : Handle
  control : Control ε
  /-- Frames that a `co_await` has suspended their caller for. -/
  awaited : List Handle
  /-- Frames that have come to their final suspend. -/
  ended : List Handle
  destroyed : List Handle
  /-- Frames whose promise has been read, and whether they were there. -/
  reads : List (Handle × Bool)
  /-- What `await_resume` has thrown for these children. -/
  rethrown : List (Handle × ε)
  /-- Children and the coroutines that have waited for them and not caught what it has thrown. -/
  passed : List (Handle × Handle)

namespace Table

variable {ν ε : Type}

def setLife (s : Table ν ε) (h : Handle) (life : Life) : Table ν ε :=
  { s with life := Function.update s.life h (some life) }

/-- A coroutine is called. -/
def allocate (s : Table ν ε) (life : Life) : Table ν ε :=
  { s.setLife s.next life with promise := Function.update s.promise s.next {}, next := s.next + 1 }

/-- `handle.destroy()`. -/
def destroy (s : Table ν ε) (h : Handle) : Table ν ε :=
  { s.setLife h .destroyed with destroyed := s.destroyed ++ [h] }

def alive (s : Table ν ε) (h : Handle) : Bool :=
  match s.life h with
  | none | some .destroyed => false
  | some _ => true

def readPromise (s : Table ν ε) (h : Handle) : Table ν ε :=
  { s with reads := s.reads ++ [(h, s.alive h)] }

/-- What a read of `exception_` finds that is known to be set. -/
def readException (s : Table ν ε) (h : Handle) (stale : ε) : ε :=
  if s.alive h then (s.promise h).exception.getD stale else stale

/-- `Awaiter::await_suspend`. The task has not begun, so `await_ready` is false. -/
def awaitSuspend (s : Table ν ε) (item : ReadyItem) (h awaiting : Handle) : Table ν ε :=
  { (s.setLife awaiting (.awaiting h)).setLife h .running with
      promise := Function.update s.promise h { s.promise h with continuation := some awaiting },
      control := .runs item h, awaited := s.awaited ++ [h] }

/-- `Awaiter::await_resume` and what it throws. The memory of a frame that is gone holds
    `stale`. -/
def awaitResume (s : Table ν ε) (h : Handle) (stale : ε) : Table ν ε × Option ε :=
  let s := s.readPromise h
  if (s.promise h).exception.isSome then
    let s := s.destroy h
    (s.readPromise h, some (s.readException h stale))
  else
    let s := if (s.promise h).value.isSome then s.readPromise h else s
    (s.destroy h, none)

/-- The rest of `resume_ready`, when control is back from `resume`. -/
def resumed (s : Table ν ε) (item : ReadyItem) : Table ν ε :=
  let s := { s with control := .scheduler }
  if item.destroyAfterResume ∧ s.life item.handle = some .done then s.destroy item.handle else s

/-- `co_await` goes on in the coroutine that waits. -/
def continueWith (s : Table ν ε) (item : ReadyItem) (c h : Handle) (stale : ε) : Table ν ε :=
  match (s.setLife c .running).awaitResume h stale with
  | (s, none) => { s with control := .runs item c }
  | (s, some e) =>
      { s with control := .raising item c e (some h), rethrown := s.rethrown ++ [(h, e)] }

/-- `FinalAwaiter::await_suspend`, and on from the handle that it returns. -/
def finalSuspend (s : Table ν ε) (item : ReadyItem) (h : Handle) (stale : ε) : Table ν ε :=
  let s := ({ s.setLife h .done with ended := s.ended ++ [h] }).readPromise h
  match (s.promise h).continuation with
  | none => s.resumed item
  | some c => s.continueWith item c h stale

/-- `return_value`, or `return_void` where there is none. -/
def returnValue (s : Table ν ε) (h : Handle) (value : Option ν) : Table ν ε :=
  { s with promise := Function.update s.promise h { s.promise h with value := value } }

def unhandledException (s : Table ν ε) (h : Handle) (e : ε) (child : Option Handle) : Table ν ε :=
  { s with promise := Function.update s.promise h { s.promise h with exception := some e },
           passed := s.passed ++ child.toList.map fun k => (k, h) }

/-- No `Task` of the coroutine holds a handle: its locals are gone. -/
def Unwound (s : Table ν ε) (h : Handle) : Prop := ∀ k < s.next, s.life k ≠ some (.created h)

instance (s : Table ν ε) (h : Handle) : Decidable (s.Unwound h) := by
  unfold Unwound
  infer_instance

end Table

inductive Move (ν ε : Type) where
  /-- A coroutine is called outside of any other, and `start` enqueues it. -/
  | spawn
  /-- The scheduler comes to a coroutine that is enqueued, in any order. -/
  | resume (h : Handle)
  /-- The operation that a coroutine awaits is complete. -/
  | complete (h : Handle)
  /-- The coroutine that runs calls another one and has its `Task`. -/
  | create
  /-- It awaits one of its tasks, destroys one, or starts one. -/
  | await (h : Handle)
  | drop (h : Handle)
  | start (h : Handle)
  /-- It awaits an operation. -/
  | operation
  | returns (value : Option ν)
  | throws (e : ε)
  /-- The exception is caught. -/
  | catches
  /-- It is not, and leaves the coroutine. -/
  | leaves

open Table in
/-- The frames of a worker. -/
def tasks {ν ε : Type} (stale : Handle → ε) : Machine (Table ν ε) (Move ν ε) where
  init := ⟨fun _ => none, fun _ => {}, 0, .scheduler, [], [], [], [], [], []⟩
  step s move :=
    match move, s.control with
    | .spawn, .scheduler => some (s.allocate (.queued true))
    | .resume h, .scheduler =>
        match s.life h with
        | some (.queued flag) => some { s.setLife h .running with control := .runs ⟨h, flag⟩ h }
        | _ => none
    | .complete h, .scheduler =>
        if s.life h = some .suspended then some (s.setLife h (.queued false)) else none
    | .create, .runs _ h => some (s.allocate (.created h))
    | .await k, .runs item h =>
        if s.life k = some (.created h) then some (s.awaitSuspend item k h) else none
    | .start k, .runs _ h =>
        if s.life k = some (.created h) then some (s.setLife k (.queued true)) else none
    | .drop k, .runs _ h | .drop k, .raising _ h _ _ =>
        if s.life k = some (.created h) then some (s.destroy k) else none
    | .operation, .runs item h => some ((s.setLife h .suspended).resumed item)
    | .returns value, .runs item h =>
        if s.Unwound h then some ((s.returnValue h value).finalSuspend item h (stale h)) else none
    | .throws e, .runs item h => some { s with control := .raising item h e none }
    | .catches, .raising item h _ _ => some { s with control := .runs item h }
    | .leaves, .raising item h e child =>
        if s.Unwound h then some ((s.unhandledException h e child).finalSuspend item h (stale h))
        else none
    | _, _ => none

variable {ν ε : Type}

/-- An exception crosses a `co_await` as it is, a frame that has been awaited is destroyed once,
    when it has ended, and no promise is read behind that. -/
structure Intact (s : Table ν ε) : Prop where
  thrown : ∀ throw ∈ s.rethrown, (s.promise throw.1).exception = some throw.2
  same : ∀ pass ∈ s.passed, (s.promise pass.1).exception.isSome ∧
    (s.promise pass.2).exception = (s.promise pass.1).exception
  once : ∀ h ∈ s.awaited, s.destroyed.count h = if h ∈ s.ended then 1 else 0
  alive : ∀ read ∈ s.reads, read.2 = true

/-- The condition on a step: an exception that leaves a coroutine leaves one that none waits
    for. -/
def Unawaited (s : Table ν ε) (move : Move ν ε) : Prop :=
  match move, s.control with
  | .leaves, .raising _ h _ _ => (s.promise h).continuation = none
  | _, _ => True

instance (s : Table ν ε) (move : Move ν ε) : Decidable (Unawaited s move) := by
  unfold Unawaited
  split
  · exact decidable_of_iff (((s.promise _).continuation).isNone = true) Option.isNone_iff_eq_none
  · infer_instance

/-! ## The frames of a worker -/

/-- The coroutine has begun and not ended. -/
def Life.underWay : Life → Bool
  | .queued _ | .running | .awaiting _ | .suspended => true
  | .created _ | .done | .destroyed => false

structure Sound (s : Table ν ε) : Prop where
  fresh : ∀ h, s.next ≤ h → s.life h = none
  current : ∀ h, s.control.current = some h → s.life h = some .running
  waits : ∀ h c life, s.life h = some life → life ≠ .destroyed →
    (s.promise h).continuation = some c → life.underWay = true ∧ s.life c = some (.awaiting h)
  unset : ∀ h life, s.life h = some life → life ≠ .done → life ≠ .destroyed →
    (s.promise h).exception = none
  awaited : ∀ h ∈ s.awaited, s.life h ≠ none ∧ ∃ c, (s.promise h).continuation = some c
  counted : ∀ h, s.destroyed.count h = if s.life h = some .destroyed then 1 else 0
  ended : ∀ h ∈ s.ended, s.life h = some .done ∨ s.life h = some .destroyed
  gone : ∀ h ∈ s.awaited, s.life h = some .destroyed → h ∈ s.ended

section Sound

variable {s s' : Table ν ε} {h k : Handle} {life : Life} {stale : Handle → ε} {item : ReadyItem}
  {control : Control ε}

theorem init_sound : Sound (tasks stale : Machine (Table ν ε) (Move ν ε)).init := by
  constructor <;> simp [tasks, Control.current]

theorem Sound.allocate (sound : Sound s) (there : life ≠ .destroyed) :
    Sound (s.allocate life) := by
  have absent := sound.fresh s.next (Nat.le_refl _)
  obtain ⟨fresh, current, waits, unset, awaited, counted, ended, gone⟩ := sound
  constructor <;> simp only [Table.allocate, Table.setLife, Function.update_apply] <;> grind

/-- A coroutine that waits for no other one goes from one state of its life to another. -/
theorem Sound.setLife (sound : Sound s) {before : Life} (was : s.life h = some before)
    (free : ∀ child, before ≠ .awaiting child) (unended : before ≠ .done ∧ before ≠ .destroyed)
    (underWay : life.underWay = true)
    (goes : ∀ k, control.current = some k →
      s.control.current = some k ∧ k ≠ h ∨ k = h ∧ life = .running) :
    Sound { s.setLife h life with control := control } := by
  obtain ⟨fresh, current, waits, unset, awaited, counted, ended, gone⟩ := sound
  constructor <;> simp only [Table.setLife, Function.update_apply] <;> grind [Life.underWay]

theorem Sound.give (sound : Sound s)
    (goes : ∀ k, control.current = some k → s.control.current = some k) :
    Sound { s with control := control } := by
  obtain ⟨fresh, current, waits, unset, awaited, counted, ended, gone⟩ := sound
  exact ⟨fresh, fun k has => current k (goes k has), waits, unset, awaited,
    counted, ended, gone⟩

/-- Nobody waits for a coroutine that has not begun or has stayed at its final suspend. -/
theorem Sound.unawaited (sound : Sound s) {before : Life} (was : s.life h = some before)
    (idle : before.underWay = false) (there : before ≠ .destroyed) :
    (s.promise h).continuation = none := by
  cases awaiter : (s.promise h).continuation with
  | none => rfl
  | some c =>
      have underWay := (sound.waits h c before was there awaiter).1
      rw [idle] at underWay
      cases underWay

theorem Sound.destroy (sound : Sound s) {before : Life} (was : s.life h = some before)
    (idle : before.underWay = false) (there : before ≠ .destroyed) : Sound (s.destroy h) := by
  have alone := sound.unawaited was idle there
  obtain ⟨fresh, current, waits, unset, awaited, counted, ended, gone⟩ := sound
  constructor <;> simp only [Table.destroy, Table.setLife, Function.update_apply] <;>
    grind [Life.underWay]

theorem Sound.resumed (sound : Sound s) (item : ReadyItem) : Sound (s.resumed item) := by
  have back : Sound { s with control := .scheduler } := sound.give nofun
  simp only [Table.resumed]
  split
  · rename_i ended
    exact back.destroy ended.2 rfl (by decide)
  · exact back

/-- The child is one of the tasks of the coroutine. -/
theorem Sound.awaitSuspend (sound : Sound s) (runs : s.life h = some .running)
    (held : s.life k = some (.created h)) : Sound (s.awaitSuspend item k h) := by
  have control : ∀ c, (Control.runs item k : Control ε).current = some c → c = k := by
    intro c same
    exact (Option.some.inj same).symm
  have alone := sound.unawaited held rfl (by simp)
  obtain ⟨fresh, current, waits, unset, awaited, counted, ended, gone⟩ := sound
  constructor <;> simp only [Table.awaitSuspend, Table.setLife, Function.update_apply] <;>
    grind [Life.underWay]

/-- The child has ended and is destroyed, and its awaiter goes on. -/
theorem Sound.handOver (sound : Sound s) (runs : s.control.current = some h)
    (ending : Promise ν ε) (awaiter : ending.continuation = some k)
    (same : ending.continuation = (s.promise h).continuation)
    (goes : control.current = some k) (reads : List (Handle × Bool)) (rethrown : List (Handle × ε))
    (passed : List (Handle × Handle)) :
    Sound ⟨Function.update (Function.update (Function.update s.life h (some .done)) k
        (some .running)) h (some .destroyed), Function.update s.promise h ending, s.next, control,
      s.awaited, s.ended ++ [h], s.destroyed ++ [h], reads, rethrown, passed⟩ := by
  have running := sound.current h runs
  have waiting : s.life k = some (.awaiting h) :=
    (sound.waits h k .running running (by decide) (same ▸ awaiter)).2
  obtain ⟨fresh, current, waits, unset, awaited, counted, ended, gone⟩ := sound
  constructor <;> simp only [Function.update_apply] <;> grind [Life.underWay]

/-- A coroutine that none waits for stays at its final suspend. -/
theorem Sound.detach (sound : Sound s) (runs : s.control.current = some h)
    (ending : Promise ν ε) (alone : ending.continuation = none)
    (same : ending.continuation = (s.promise h).continuation) (reads : List (Handle × Bool))
    (passed : List (Handle × Handle)) :
    Sound ⟨Function.update s.life h (some .done), Function.update s.promise h ending, s.next,
      .scheduler, s.awaited, s.ended ++ [h], s.destroyed, reads, s.rethrown, passed⟩ := by
  have running := sound.current h runs
  have control : ∀ k, (Control.scheduler : Control ε).current ≠ some k := nofun
  obtain ⟨fresh, current, waits, unset, awaited, counted, ended, gone⟩ := sound
  constructor <;> simp only [Function.update_apply] <;> grind [Life.underWay]

/-- What the coroutine leaves in its promise on the way to its final suspend. -/
def ending (s : Table ν ε) (h : Handle) (promise : Promise ν ε) (passed : List (Handle × Handle)) :
    Table ν ε :=
  { s with promise := Function.update s.promise h promise, passed := passed }

theorem ending_detached (s : Table ν ε) (item : ReadyItem) (stale : ε) (promise : Promise ν ε)
    (passed : List (Handle × Handle)) (alone : promise.continuation = none) :
    (ending s h promise passed).finalSuspend item h stale =
      Table.resumed ⟨Function.update s.life h (some .done), Function.update s.promise h promise,
        s.next, .scheduler, s.awaited, s.ended ++ [h], s.destroyed, s.reads ++ [(h, true)],
        s.rethrown, passed⟩ item := by
  simp [ending, Table.finalSuspend, Table.readPromise, Table.alive, Table.setLife, Table.resumed,
    alone]

theorem alive_ended (life : Handle → Option Life) (h c : Handle) :
    (match Function.update (Function.update life h (some .done)) c (some .running) h with
      | none | some .destroyed => false
      | some _ => true) = true := by
  rcases eq_or_ne h c with rfl | other
  · simp
  · simp [Function.update_of_ne other]

/-- The promise is read once more than the frame is there. -/
theorem ending_raises (s : Table ν ε) (item : ReadyItem) (stale : ε) (promise : Promise ν ε)
    (passed : List (Handle × Handle)) (awaiter : promise.continuation = some k)
    (raised : promise.exception.isSome) :
    (ending s h promise passed).finalSuspend item h stale =
      ⟨Function.update (Function.update (Function.update s.life h (some .done)) k
          (some .running)) h (some .destroyed), Function.update s.promise h promise, s.next,
        .raising item k stale (some h), s.awaited, s.ended ++ [h], s.destroyed ++ [h],
        s.reads ++ [(h, true), (h, true), (h, false)], s.rethrown ++ [(h, stale)], passed⟩ := by
  simp [ending, Table.finalSuspend, Table.readPromise, Table.continueWith, Table.awaitResume,
    Table.readException, Table.alive, Table.setLife, Table.destroy, awaiter, raised, alive_ended]

theorem ending_returns (s : Table ν ε) (item : ReadyItem) (stale : ε) (promise : Promise ν ε)
    (passed : List (Handle × Handle)) (awaiter : promise.continuation = some k)
    (returned : promise.exception = none) :
    (ending s h promise passed).finalSuspend item h stale =
      ⟨Function.update (Function.update (Function.update s.life h (some .done)) k
          (some .running)) h (some .destroyed), Function.update s.promise h promise, s.next,
        .runs item k, s.awaited, s.ended ++ [h], s.destroyed ++ [h],
        s.reads ++ (h, true) :: (h, true) :: promise.value.toList.map fun _ => (h, true),
        s.rethrown, passed⟩ := by
  cases stored : promise.value <;>
    simp [ending, Table.finalSuspend, Table.readPromise, Table.continueWith, Table.awaitResume,
      Table.alive, Table.setLife, Table.destroy, awaiter, returned, stored, alive_ended]

theorem Sound.finalSuspend (sound : Sound s) (runs : s.control.current = some h)
    (promise : Promise ν ε) (same : promise.continuation = (s.promise h).continuation)
    (item : ReadyItem) (stale : ε) (passed : List (Handle × Handle)) :
    Sound ((ending s h promise passed).finalSuspend item h stale) := by
  cases awaiter : promise.continuation with
  | none =>
      rw [ending_detached s item stale promise passed awaiter]
      exact (sound.detach runs promise awaiter same _ _).resumed item
  | some k =>
      cases raised : promise.exception with
      | none =>
          rw [ending_returns s item stale promise passed awaiter raised]
          exact sound.handOver runs promise awaiter same rfl _ _ _
      | some e =>
          rw [ending_raises s item stale promise passed awaiter (by simp [raised])]
          exact sound.handOver runs promise awaiter same rfl _ _ _

/-- What a step can be. -/
inductive Goes (stale : Handle → ε) (s s' : Table ν ε) : Move ν ε → Prop where
  /-- No coroutine ends. -/
  | on {move : Move ν ε} (met : Unawaited s move) (sound : Sound s') (reads : s'.reads = s.reads)
      (rethrown : s'.rethrown = s.rethrown) (passed : s'.passed = s.passed)
      (child : ∀ item h e k, s'.control = .raising item h e (some k) →
        s.control = .raising item h e (some k)) : Goes stale s s' move
  | returned {item : ReadyItem} {h : Handle} (value : Option ν) (control : s.control = .runs item h)
      (same : s' = (ending s h { s.promise h with value := value } s.passed).finalSuspend item h
        (stale h)) : Goes stale s s' (.returns value)
  | left {item : ReadyItem} {h : Handle} {e : ε} {child : Option Handle}
      (control : s.control = .raising item h e child)
      (same : s' = (ending s h { s.promise h with exception := some e }
        (s.passed ++ child.toList.map fun k => (k, h))).finalSuspend item h (stale h)) :
      Goes stale s s' .leaves

theorem resumed_logs (s : Table ν ε) (item : ReadyItem) :
    (s.resumed item).control = .scheduler ∧ (s.resumed item).reads = s.reads ∧
      (s.resumed item).rethrown = s.rethrown ∧ (s.resumed item).passed = s.passed := by
  simp only [Table.resumed]
  split <;> exact ⟨rfl, rfl, rfl, rfl⟩

theorem step_goes {move : Move ν ε} (sound : Sound s)
    (taken : (tasks stale).step s move = some s') : Goes stale s s' move := by
  have running : ∀ {h}, s.control.current = some h → s.life h = some .running :=
    fun current => sound.current _ current
  simp only [tasks] at taken
  split at taken
  case h_1 =>
      obtain rfl := Option.some.inj taken
      exact .on trivial (sound.allocate (by decide)) rfl rfl rfl fun _ _ _ _ same => same
  case h_2 h control =>
      split at taken
      · rename_i flag queued
        obtain rfl := Option.some.inj taken
        refine .on trivial (sound.setLife queued ?_ ?_ rfl ?_) rfl rfl rfl nofun
        · simp
        · simp
        · rintro k ⟨⟩
          exact .inr ⟨rfl, rfl⟩
      · cases taken
  case h_3 h control =>
      obtain ⟨suspended, same⟩ := Option.ite_none_right_eq_some.mp taken
      obtain rfl := Option.some.inj same
      have kept : Sound { s.setLife h (.queued false) with control := s.control } :=
        sound.setLife suspended (by simp) (by simp) rfl (by simp [control, Control.current])
      exact .on trivial kept rfl rfl rfl fun _ _ _ _ same => same
  case h_4 item h control =>
      obtain rfl := Option.some.inj taken
      exact .on trivial (sound.allocate (by simp)) rfl rfl rfl fun _ _ _ _ same => same
  case h_5 k item h control =>
      obtain ⟨held, same⟩ := Option.ite_none_right_eq_some.mp taken
      obtain rfl := Option.some.inj same
      have runs : s.life h = some .running := running (by rw [control]; rfl)
      exact .on trivial (sound.awaitSuspend runs held) rfl rfl rfl nofun
  case h_6 k item h control =>
      obtain ⟨held, same⟩ := Option.ite_none_right_eq_some.mp taken
      obtain rfl := Option.some.inj same
      have runs : s.life h = some .running := running (by rw [control]; rfl)
      have kept : Sound { s.setLife k (.queued true) with control := s.control } :=
        sound.setLife held (by simp) (by simp) rfl (by grind [Control.current])
      exact .on trivial kept rfl rfl rfl fun _ _ _ _ same => same
  case h_7 k item h control =>
      obtain ⟨held, same⟩ := Option.ite_none_right_eq_some.mp taken
      obtain rfl := Option.some.inj same
      exact .on trivial (sound.destroy held rfl (by simp)) rfl rfl rfl fun _ _ _ _ same => same
  case h_8 k item h e child control =>
      obtain ⟨held, same⟩ := Option.ite_none_right_eq_some.mp taken
      obtain rfl := Option.some.inj same
      exact .on trivial (sound.destroy held rfl (by simp)) rfl rfl rfl fun _ _ _ _ same => same
  case h_9 item h control =>
      obtain rfl := Option.some.inj taken
      have runs : s.life h = some .running := running (by rw [control]; rfl)
      have kept : Sound { s.setLife h .suspended with control := .scheduler } :=
        sound.setLife runs (by simp) (by simp) rfl nofun
      obtain ⟨back, reads, rethrown, passed⟩ := resumed_logs (s.setLife h .suspended) item
      refine .on trivial (kept.resumed item) reads rethrown passed ?_
      simp [back]
  case h_10 value item h control =>
      obtain ⟨-, same⟩ := Option.ite_none_right_eq_some.mp taken
      exact .returned value control (Option.some.inj same).symm
  case h_11 e item h control =>
      obtain rfl := Option.some.inj taken
      exact .on trivial (sound.give (by simp [control, Control.current])) rfl rfl rfl nofun
  case h_12 item h e child control =>
      obtain rfl := Option.some.inj taken
      exact .on trivial (sound.give (by simp [control, Control.current])) rfl rfl rfl nofun
  case h_13 item h e child control =>
      obtain ⟨-, same⟩ := Option.ite_none_right_eq_some.mp taken
      exact .left control (Option.some.inj same).symm
  case h_14 => cases taken

theorem Goes.sound {move : Move ν ε} (sound : Sound s) (goes : Goes stale s s' move) :
    Sound s' := by
  cases goes with
  | on met kept => exact kept
  | returned value control same | left control same =>
      rw [same]
      apply sound.finalSuspend
      · rw [control]
        rfl
      · rfl

theorem step_sound {move : Move ν ε} (sound : Sound s)
    (taken : (tasks stale).step s move = some s') : Sound s' :=
  (step_goes sound taken).sound sound

/-- Every frame that is awaited is destroyed once, when it has ended. -/
theorem Sound.once (sound : Sound s) (awaited : h ∈ s.awaited) :
    s.destroyed.count h = if h ∈ s.ended then 1 else 0 := by
  have iff : h ∈ s.ended ↔ s.life h = some .destroyed := by
    refine ⟨fun ended => ?_, sound.gone h awaited⟩
    obtain ⟨-, c, awaiter⟩ := sound.awaited h awaited
    rcases sound.ended h ended with done | destroyed
    · rw [sound.unawaited done rfl (by decide)] at awaiter
      cases awaiter
    · exact destroyed
  rw [sound.counted, if_congr iff rfl rfl]

end Sound

/-! ## Exceptions -/

section Runs

variable {s s' : Table ν ε} {stale : Handle → ε} {h k : Handle} {acts : List (Move ν ε)}

theorem finalSuspend_reads (s : Table ν ε) (item : ReadyItem) (promise : Promise ν ε)
    (passed : List (Handle × Handle)) (stale : ε) :
    ∃ more, ((ending s h promise passed).finalSuspend item h stale).reads = s.reads ++ more := by
  cases awaiter : promise.continuation with
  | none =>
      rw [ending_detached s item stale promise passed awaiter, (resumed_logs _ item).2.1]
      exact ⟨_, rfl⟩
  | some k =>
      cases raised : promise.exception with
      | none =>
          rw [ending_returns s item stale promise passed awaiter raised]
          exact ⟨_, rfl⟩
      | some e =>
          rw [ending_raises s item stale promise passed awaiter (by simp [raised])]
          exact ⟨_, rfl⟩

/-- A promise has been read that is gone. -/
def Dangled (s : Table ν ε) : Prop := ∃ read ∈ s.reads, read.2 = false

theorem step_dangled {move : Move ν ε} (state : Sound s ∧ Dangled s)
    (taken : (tasks stale).step s move = some s') : Sound s' ∧ Dangled s' := by
  obtain ⟨sound, read, member, gone⟩ := state
  refine ⟨step_sound sound taken, read, ?_, gone⟩
  cases step_goes sound taken with
  | on met kept reads => exact reads ▸ member
  | returned value control same | left control same =>
      obtain ⟨more, reads⟩ := finalSuspend_reads s _ _ _ _
      rw [same, reads]
      exact List.mem_append_left _ member

/-- An exception that leaves a coroutine that is awaited is read out of a frame that is gone. -/
theorem step_missed {move : Move ν ε} (sound : Sound s) (missed : ¬ Unawaited s move)
    (taken : (tasks stale).step s move = some s') : Dangled s' := by
  cases step_goes sound taken with
  | on met => exact absurd met missed
  | returned => exact absurd trivial missed
  | @left item h e child control same =>
      simp only [Unawaited, control] at missed
      obtain ⟨c, awaiter⟩ := Option.ne_none_iff_exists'.mp missed
      refine ⟨(h, false), ?_, rfl⟩
      have raises := ending_raises (h := h) s item (stale h)
        { s.promise h with exception := some e } (s.passed ++ child.toList.map fun k => (k, h))
        awaiter rfl
      rw [same, raises]
      simp

/-- No exception has crossed a `co_await`. -/
structure Quiet (s : Table ν ε) : Prop where
  reads : ∀ read ∈ s.reads, read.2 = true
  rethrown : s.rethrown = []
  passed : s.passed = []
  child : ∀ item h e k, s.control ≠ .raising item h e (some k)

theorem init_quiet : Quiet (tasks stale : Machine (Table ν ε) (Move ν ε)).init :=
  ⟨nofun, rfl, rfl, nofun⟩

theorem detached_quiet (quiet : Quiet s) (item : ReadyItem) (promise : Promise ν ε) (stale : ε)
    (alone : promise.continuation = none) :
    Quiet ((ending s h promise s.passed).finalSuspend item h stale) := by
  rw [ending_detached s item stale promise s.passed alone]
  generalize mid : Table.mk _ _ _ _ _ _ _ _ _ _ = t
  obtain ⟨back, reads, rethrown, passed⟩ := resumed_logs t item
  refine ⟨?_, ?_, ?_, by simp [back]⟩
  · rw [reads, ← mid]
    simpa using quiet.reads
  · rw [rethrown, ← mid]
    exact quiet.rethrown
  · rw [passed, ← mid]
    exact quiet.passed

theorem returned_quiet (quiet : Quiet s) (item : ReadyItem) (promise : Promise ν ε) (stale : ε)
    (returned : promise.exception = none) :
    Quiet ((ending s h promise s.passed).finalSuspend item h stale) := by
  cases awaiter : promise.continuation with
  | none => exact detached_quiet quiet item promise stale awaiter
  | some k =>
      rw [ending_returns s item stale promise s.passed awaiter returned]
      refine ⟨?_, quiet.rethrown, quiet.passed, nofun⟩
      intro read member
      rcases List.mem_append.mp member with before | here
      · exact quiet.reads read before
      · cases stored : promise.value <;> simp_all

theorem step_quiet {move : Move ν ε} (state : Sound s ∧ Quiet s) (met : Unawaited s move)
    (taken : (tasks stale).step s move = some s') : Sound s' ∧ Quiet s' := by
  obtain ⟨sound, quiet⟩ := state
  refine ⟨step_sound sound taken, ?_⟩
  cases step_goes sound taken with
  | on met kept reads rethrown passed child =>
      refine ⟨reads ▸ quiet.reads, rethrown.trans quiet.rethrown, passed.trans quiet.passed, ?_⟩
      intro item h e k raising
      exact quiet.child item h e k (child item h e k raising)
  | @returned item h value control same =>
      have running := sound.current h (by rw [control]; rfl)
      rw [same]
      exact returned_quiet quiet item _ (stale h) (sound.unset h .running running nofun nofun)
  | @left item h e child control same =>
      simp only [Unawaited, control] at met
      cases child with
      | some k => exact absurd control (quiet.child item h e k)
      | none =>
          rw [same, Option.toList_none, List.map_nil, List.append_nil]
          exact detached_quiet quiet item _ (stale h) met

/-- What has crossed every `co_await` of a run is intact just where no exception has left a
    coroutine that is awaited: `await_resume` destroys the frame before it reads `exception_` to
    throw it again. -/
theorem exceptions_intact_iff (stale : Handle → ε) (acts : List (Move ν ε)) (s : Table ν ε)
    (ran : (tasks stale).run (tasks stale).init acts = some s) :
    Intact s ↔ (tasks stale).Guarded Unawaited (tasks stale).init acts := by
  constructor
  · intro intact
    rcases Machine.guarded_or (fun _ _ _ sound taken => step_sound sound taken)
        (fun _ _ _ state taken => step_dangled state taken)
        (fun _ _ _ sound missed taken => step_missed sound missed taken) init_sound ran with
      guarded | ⟨read, member, gone⟩
    · exact guarded
    · rw [intact.alive read member] at gone
      cases gone
  · intro guarded
    obtain ⟨sound, quiet⟩ := Machine.Guarded.preserves
      (fun _ _ _ state met taken => step_quiet state met taken) ⟨init_sound, init_quiet⟩ guarded ran
    refine ⟨?_, ?_, fun h awaited => sound.once awaited, quiet.reads⟩
    · simp [quiet.rethrown]
    · simp [quiet.passed]

end Runs

/-- A child throws and catches what it has thrown, and its value is awaited. -/
def caughtMoves : List (Move Nat Nat) :=
  [.spawn, .resume 0, .create, .await 1, .throws 7, .catches, .returns (some 5), .returns none]

theorem exceptions_intact_iff_caught :
    ∃ s, (tasks fun _ => 9).run (tasks fun _ => 9).init caughtMoves = some s ∧ Intact s ∧
      s.destroyed = [1, 0] := by
  obtain ⟨s, ran⟩ := Option.isSome_iff_exists.mp
    (show ((tasks fun _ => 9).run (tasks fun _ => 9).init caughtMoves).isSome by decide)
  refine ⟨s, ran, (exceptions_intact_iff _ caughtMoves s ran).mpr (by decide), ?_⟩
  have destroyed : ((tasks fun _ => 9).run (tasks fun _ => 9).init caughtMoves).map
      (·.destroyed) = some [1, 0] := by
    decide
  rw [ran] at destroyed
  exact Option.some.inj destroyed

/-- The child does not catch it, and the coroutine that awaits it does not either. -/
def uncaughtMoves : List (Move Nat Nat) :=
  [.spawn, .resume 0, .create, .await 1, .throws 7, .leaves, .leaves]

/-- Another exception is thrown then than the child has stored, if the memory of its frame holds
    another one. -/
theorem uncaught_dangles :
    ∃ s, (tasks fun _ => 9).run (tasks fun _ => 9).init uncaughtMoves = some s ∧
      (s.promise 1).exception = some 7 ∧ (s.promise 0).exception = some 9 ∧
        (1, false) ∈ s.reads ∧ ¬ Intact s := by
  obtain ⟨s, ran⟩ := Option.isSome_iff_exists.mp
    (show ((tasks fun _ => 9).run (tasks fun _ => 9).init uncaughtMoves).isSome by decide)
  have seen : ((tasks fun _ => 9).run (tasks fun _ => 9).init uncaughtMoves).map
      (fun s => ((s.promise 1).exception, (s.promise 0).exception, s.reads)) =
        some (some 7, some 9, [(1, true), (1, true), (1, false), (0, true)]) := by
    decide
  rw [ran] at seen
  simp only [Option.map_some, Option.some.injEq, Prod.mk.injEq] at seen
  obtain ⟨child, awaiter, reads⟩ := seen
  have read : (1, false) ∈ s.reads := by simp [reads]
  refine ⟨s, ran, child, awaiter, read, fun intact => ?_⟩
  cases intact.alive (1, false) read

end Corio.Uring.Exceptions
