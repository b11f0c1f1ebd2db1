import Corio.Foundation.Machine
import Corio.Foundation.RingBuffer
import Mathlib.Data.List.Perm.Basic

/-! # The thread pool

`ThreadPool.cpp`: a bounded queue of tasks in a circular vector, and the threads that
take them. Everything is shared under one lock, so a turn under the lock is one step;
`pthread_cond_wait` gives the lock back in the middle and ends a step.
-/

namespace Corio.Pool

inductive ShutDownOption where
  | immediate
  | graceful
  deriving DecidableEq, Repr

def maxThreads : Int := 1024

def maxQueue : Int := 65535

def threadpoolQueueFull : Int := -3

def threadpoolShutdown : Int := -4

inductive PoolThread (τ : Type) where
  /-- About to take the lock, for the next task or out of `pthread_cond_wait`. -/
  | entering
  /-- In `pthread_cond_wait`. -/
  | waiting
  /-- In the task it took, which is an empty function if the slot was empty. -/
  | running (task : Option τ)
  | exited
  deriving DecidableEq, Repr

structure ThreadPool (τ : Type) where
  queue : RingBuffer (Option τ)
  shutdown : Option ShutDownOption
  started : Int
  threads : List (PoolThread τ)
  /-- The lock is taken or destroyed by someone who never gives it back. -/
  lockLost : Bool
  /-- `threadpool_destroy` is joining the threads. -/
  joining : Bool
  /-- The tasks `threadpool_add` took, which no step looks at. -/
  accepted : List τ
  taken : List (Option τ)
  finished : List (Option τ)

namespace ThreadPool

variable {τ : Type}

/-- How many threads and slots `threadpool_create` makes of its arguments. -/
def sizes (threadCount queueSize : Int) : Nat × Nat :=
  if threadCount ≤ 0 ∨ threadCount > maxThreads ∨ queueSize ≤ 0 ∨ queueSize > maxQueue then
    (4, 1024)
  else (threadCount.toNat, queueSize.toNat)

theorem sizes_pos (threadCount queueSize : Int) :
    0 < (sizes threadCount queueSize).1 ∧ 0 < (sizes threadCount queueSize).2 := by
  unfold sizes
  split
  · exact ⟨by decide, by decide⟩
  · exact ⟨by omega, by omega⟩

/-- `threadpool_create`, when every thread could be created. Until it returns the threads
    find nothing to do. -/
def threadpoolCreate (threadCount queueSize : Int) : ThreadPool τ where
  queue := .empty (List.replicate (sizes threadCount queueSize).2 none)
    (by simpa using (sizes_pos threadCount queueSize).2)
  shutdown := none
  started := (sizes threadCount queueSize).1
  threads := List.replicate (sizes threadCount queueSize).1 .entering
  lockLost := false
  joining := false
  accepted := []
  taken := []
  finished := []

def setThread (p : ThreadPool τ) (i : Nat) (thread : PoolThread τ) : ThreadPool τ :=
  { p with threads := p.threads.set i thread }

/-- A thread comes out of `pthread_cond_wait`, signalled or not. -/
def wake (p : ThreadPool τ) (i : Nat) : Option (ThreadPool τ) :=
  match p.threads[i]? with
  | some .waiting => some (p.setThread i .entering)
  | _ => none

def isWaiting : PoolThread τ → Bool
  | .waiting => true
  | .entering | .running _ | .exited => false

def isExited : PoolThread τ → Bool
  | .exited => true
  | .entering | .waiting | .running _ => false

/-- `pthread_cond_signal` wakes one of the threads that wait, if there are any. -/
def signal (p : ThreadPool τ) : Option Nat → Option (ThreadPool τ)
  | some i => p.wake i
  | none => if p.threads.any isWaiting then none else some p

/-- `threadpool_add`, with what it returns. -/
def threadpoolAdd (p : ThreadPool τ) (task : τ) (woken : Option Nat) :
    Option (ThreadPool τ × Int) :=
  if p.lockLost then none
  else if full : p.queue.count = p.queue.slots.length then some (p, threadpoolQueueFull)
  else if p.shutdown.isSome then some (p, threadpoolShutdown)
  else
    let space := Nat.lt_of_le_of_ne p.queue.count_le full
    (signal { p with queue := p.queue.push space (some task),
                     accepted := p.accepted ++ [task] } woken).map fun p => (p, 0)

/-- The test behind the loop of `threadpool_thread`. -/
def Leaves (p : ThreadPool τ) : Prop :=
  p.shutdown = some .immediate ∨ p.shutdown = some .graceful ∧ p.queue.count = 0

instance (p : ThreadPool τ) : Decidable p.Leaves := inferInstanceAs (Decidable (_ ∨ _))

/-- A thread that neither waits nor leaves finds a task. -/
theorem count_pos {p : ThreadPool τ} (goesOn : ¬ (p.queue.count = 0 ∧ p.shutdown = none))
    (stays : ¬ p.Leaves) : 0 < p.queue.count := by
  rw [Leaves, not_or] at stays
  cases option : p.shutdown with
  | none => exact Nat.pos_of_ne_zero fun empty => goesOn ⟨empty, option⟩
  | some kind =>
      cases kind with
      | immediate => exact absurd option stays.1
      | graceful => exact Nat.pos_of_ne_zero fun empty => stays.2 ⟨option, empty⟩

/-- `threadpool_thread`, from where it takes the lock to where it gives it back. -/
def turn (p : ThreadPool τ) (i : Nat) : Option (ThreadPool τ) :=
  match p.threads[i]? with
  | some .entering =>
      if p.lockLost then none
      else if goesOn : p.queue.count = 0 ∧ p.shutdown = none then some (p.setThread i .waiting)
      else if stays : p.Leaves then
        some { p.setThread i .exited with started := p.started - 1 }
      else
        let task := p.queue.front
        some { p.setThread i (.running task) with
                 queue := p.queue.pop (count_pos goesOn stays) none, taken := p.taken ++ [task] }
  | _ => none

/-- The task returns. -/
def finish (p : ThreadPool τ) (i : Nat) : Option (ThreadPool τ) :=
  match p.threads[i]? with
  | some (.running task) =>
      some { p.setThread i .entering with finished := p.finished ++ [task] }
  | _ => none

/-- `pthread_cond_broadcast`. -/
def broadcast : PoolThread τ → PoolThread τ
  | .waiting => .entering
  | thread => thread

/-- `threadpool_destroy` up to the joins. A second call leaves the loop with the lock. -/
def threadpoolDestroy (p : ThreadPool τ) (option : ShutDownOption) : Option (ThreadPool τ) :=
  if p.lockLost then none
  else if p.shutdown.isSome then some { p with lockLost := true }
  else some { p with shutdown := some option, threads := p.threads.map broadcast, joining := true }

/-- The rest of `threadpool_destroy`, when every thread has been joined: `threadpool_free`
    takes the lock and destroys it, unless threads are counted as started. -/
def joined (p : ThreadPool τ) : Option (ThreadPool τ) :=
  if p.joining ∧ p.threads.all isExited then
    if p.started > 0 then some { p with joining := false }
    else if p.lockLost then none
    else some { p with joining := false, lockLost := true }
  else none

end ThreadPool

inductive PoolStep (τ : Type) where
  | add (task : τ) (woken : Option Nat)
  | turn (i : Nat)
  /-- A spurious wakeup. -/
  | wake (i : Nat)
  | finish (i : Nat)
  | destroy (option : ShutDownOption)
  | joined

def threadPool (τ : Type) (threadCount queueSize : Int) : Machine (ThreadPool τ) (PoolStep τ) where
  init := .threadpoolCreate threadCount queueSize
  step p action :=
    match action with
    | .add task woken => (p.threadpoolAdd task woken).map Prod.fst
    | .turn i => p.turn i
    | .wake i => p.wake i
    | .finish i => p.finish i
    | .destroy option => p.threadpoolDestroy option
    | .joined => p.joined

namespace ThreadPool

variable {τ : Type} {p p' : ThreadPool τ} {i : Nat}

def task? : PoolThread τ → Option (Option τ)
  | .running task => some task
  | .entering | .waiting | .exited => none

def isAwake : PoolThread τ → Bool
  | .entering | .running _ => true
  | .waiting | .exited => false

/-- The tasks that run. -/
def inHand (p : ThreadPool τ) : List (Option τ) := p.threads.filterMap task?

/-- Threads that will look at the queue again without being woken. -/
def awake (p : ThreadPool τ) : Nat := p.threads.countP isAwake

def alive (p : ThreadPool τ) : Nat := p.threads.countP (! isExited ·)

/-- Where the tasks are, and what the threads that do not look for one may rely on. -/
structure Sound (p : ThreadPool τ) : Prop where
  inOrder : p.taken ++ p.queue.contents = p.accepted.map some
  worked : p.taken.Perm (p.finished ++ p.inHand)
  counted : p.started = p.alive
  sleeping : .waiting ∈ p.threads → p.shutdown = none ∧ p.queue.count ≤ p.awake
  left : .exited ∈ p.threads → p.Leaves

section SetThread

variable {x : PoolThread τ} (at_ : p.threads[i]? = some x) (y : PoolThread τ)

include at_

theorem split_thread : ∃ before after, p.threads = before ++ x :: after ∧
    (p.setThread i y).threads = before ++ y :: after := by
  obtain ⟨inside, rfl⟩ := List.getElem?_eq_some_iff.mp at_
  refine ⟨p.threads.take i, p.threads.drop (i + 1), ?_, ?_⟩
  · rw [List.getElem_cons_drop, List.take_append_drop]
  · rw [setThread, List.set_eq_take_append_cons_drop, if_pos inside]

theorem inHand_setThread :
    ((p.setThread i y).inHand ++ (task? x).toList).Perm (p.inHand ++ (task? y).toList) := by
  obtain ⟨before, after, whole, changed⟩ := split_thread at_ y
  have apart (z : PoolThread τ) : (before ++ z :: after).filterMap task? =
      before.filterMap task? ++ ((task? z).toList ++ after.filterMap task?) := by
    rw [List.filterMap_append, List.filterMap_cons]
    cases task? z <;> rfl
  simp only [inHand, whole, changed, apart, List.append_assoc]
  refine List.Perm.append_left _ ?_
  refine List.perm_append_comm.trans ?_
  rw [← List.append_assoc]
  exact List.Perm.append_right _ List.perm_append_comm

theorem countP_setThread (q : PoolThread τ → Bool) :
    (p.setThread i y).threads.countP q + (q x).toNat = p.threads.countP q + (q y).toNat := by
  obtain ⟨before, after, whole, changed⟩ := split_thread at_ y
  simp only [whole, changed, List.countP_append, List.countP_cons]
  cases q x <;> cases q y <;> simp <;> omega

theorem awake_setThread :
    (p.setThread i y).awake + (isAwake x).toNat = p.awake + (isAwake y).toNat :=
  countP_setThread at_ y isAwake

theorem alive_setThread :
    (p.setThread i y).alive + (! isExited x).toNat = p.alive + (! isExited y).toNat :=
  countP_setThread at_ y (! isExited ·)

omit at_ in
theorem mem_setThread {z : PoolThread τ} (member : z ∈ (p.setThread i y).threads) :
    z = y ∨ z ∈ p.threads := (List.mem_or_eq_of_mem_set member).symm

end SetThread

theorem Sound.init (threadCount queueSize : Int) :
    (threadpoolCreate threadCount queueSize : ThreadPool τ).Sound where
  inOrder := rfl
  worked := by simp [threadpoolCreate, inHand, task?]
  counted := by simp [threadpoolCreate, alive, List.countP_replicate, isExited]
  sleeping := by simp [threadpoolCreate]
  left := by simp [threadpoolCreate]

theorem Sound.wake (sound : p.Sound) (taken : p.wake i = some p') : p'.Sound := by
  unfold ThreadPool.wake at taken
  split at taken
  · rename_i at_
    obtain rfl := Option.some.inj taken
    have asleep := sound.sleeping (List.mem_of_getElem? at_)
    have hands := inHand_setThread at_ .entering
    have alive := alive_setThread at_ .entering
    have awake := awake_setThread at_ .entering
    simp only [task?, Option.toList_none, List.append_nil, isExited, isAwake, Bool.not_false,
      Bool.toNat_true, Bool.toNat_false] at hands alive awake
    refine ⟨sound.inOrder, sound.worked.trans (hands.symm.append_left _), ?_, fun _ => ?_,
      fun member => sound.left ((mem_setThread _ member).resolve_left nofun)⟩
    · have counted := sound.counted
      change p.started = _
      omega
    · have bound := asleep.2
      refine ⟨asleep.1, ?_⟩
      change p.queue.count ≤ _
      omega
  · cases taken

/-- The thread that is woken for the new task is one more that looks for a task. -/
theorem Sound.add {task : τ} {woken : Option Nat} {code : Int} (sound : p.Sound)
    (taken : p.threadpoolAdd task woken = some (p', code)) : p'.Sound := by
  unfold threadpoolAdd at taken
  split at taken
  · cases taken
  · split at taken
    · obtain ⟨rfl, -⟩ := Prod.mk.inj (Option.some.inj taken)
      exact sound
    · rename_i full
      split at taken
      · obtain ⟨rfl, -⟩ := Prod.mk.inj (Option.some.inj taken)
        exact sound
      · rename_i open_
        have running : p.shutdown = none := by simpa using open_
        obtain ⟨woken_, signalled, same⟩ := Option.map_eq_some_iff.mp taken
        obtain ⟨rfl, -⟩ := Prod.mk.inj same
        have inOrder : p.taken ++ (p.queue.contents ++ [some task]) =
            (p.accepted ++ [task]).map some := by
          rw [← List.append_assoc, sound.inOrder, List.map_append, List.map_singleton]
        have none_ : .exited ∉ p.threads := fun member => by
          have leaves := sound.left member
          simp [Leaves, running] at leaves
        cases woken with
        | none =>
            simp only [signal] at signalled
            split at signalled
            · cases signalled
            · rename_i nobody
              obtain rfl := Option.some.inj signalled
              refine ⟨?_, sound.worked, sound.counted, fun member => ?_, fun member => ?_⟩
              · rw [RingBuffer.contents_push]
                exact inOrder
              · exact absurd (List.any_eq_true.mpr ⟨_, member, rfl⟩) nobody
              · exact absurd member none_
        | some i =>
            simp only [signal, ThreadPool.wake] at signalled
            split at signalled
            · rename_i at_
              obtain rfl := Option.some.inj signalled
              have asleep := sound.sleeping (List.mem_of_getElem? at_)
              have hands := inHand_setThread at_ .entering
              have alive := alive_setThread at_ .entering
              have awake := awake_setThread at_ .entering
              simp only [task?, Option.toList_none, List.append_nil, isExited, isAwake,
                Bool.not_false, Bool.toNat_true, Bool.toNat_false] at hands alive awake
              refine ⟨?_, sound.worked.trans (hands.symm.append_left _), ?_, fun _ => ?_,
                fun member => absurd ((mem_setThread _ member).resolve_left nofun) none_⟩
              · simp only [setThread, RingBuffer.contents_push]
                exact inOrder
              · have counted := sound.counted
                change p.started = ((p.setThread i .entering).alive : Int)
                omega
              · have bound := asleep.2
                refine ⟨running, ?_⟩
                change p.queue.count + 1 ≤ (p.setThread i .entering).awake
                omega
            · cases signalled

/-- A thread takes the lock, and waits, leaves or takes a task. -/
theorem Sound.turn (sound : p.Sound) (taken : p.turn i = some p') : p'.Sound := by
  unfold ThreadPool.turn at taken
  split at taken
  · rename_i at_
    split at taken
    · cases taken
    · split at taken
      · rename_i empty
        obtain rfl := Option.some.inj taken
        have hands := inHand_setThread at_ .waiting
        have alive := alive_setThread at_ .waiting
        simp only [task?, Option.toList_none, List.append_nil, isExited, Bool.not_false,
          Bool.toNat_true] at hands alive
        refine ⟨sound.inOrder, sound.worked.trans (hands.symm.append_left _), ?_, fun _ => ?_,
          fun member => sound.left ((mem_setThread _ member).resolve_left (by simp))⟩
        · have counted := sound.counted
          change p.started = _
          omega
        · refine ⟨empty.2, ?_⟩
          change p.queue.count ≤ _
          omega
      · rename_i goesOn
        split at taken
        · rename_i leaves
          obtain rfl := Option.some.inj taken
          have hands := inHand_setThread at_ .exited
          have alive := alive_setThread at_ .exited
          simp only [task?, Option.toList_none, List.append_nil, isExited, Bool.not_false,
            Bool.not_true, Bool.toNat_true, Bool.toNat_false] at hands alive
          refine ⟨sound.inOrder, sound.worked.trans (hands.symm.append_left _), ?_,
            fun member => ?_, fun _ => leaves⟩
          · have counted := sound.counted
            change p.started - 1 = ((p.setThread i .exited).alive : Int)
            omega
          · have asleep := sound.sleeping ((mem_setThread _ member).resolve_left (by simp))
            simp [Leaves, asleep.1] at leaves
        · rename_i stays
          obtain rfl := Option.some.inj taken
          have hands := inHand_setThread at_ (.running p.queue.front)
          have alive := alive_setThread at_ (.running p.queue.front)
          have awake := awake_setThread at_ (.running p.queue.front)
          simp only [task?, Option.toList_none, Option.toList_some, List.append_nil, isExited,
            isAwake, Bool.not_false, Bool.toNat_true] at hands alive awake
          refine ⟨?_, ?_, ?_, fun member => ?_, fun member => ?_⟩
          · simp only [setThread, List.append_assoc, List.singleton_append,
              ← RingBuffer.contents_pop]
            exact sound.inOrder
          · change (p.taken ++ [p.queue.front]).Perm (p.finished ++ _)
            refine (sound.worked.append_right _).trans ?_
            rw [List.append_assoc]
            exact hands.symm.append_left _
          · have counted := sound.counted
            change p.started = ((p.setThread i (.running p.queue.front)).alive : Int)
            omega
          · have asleep := sound.sleeping ((mem_setThread _ member).resolve_left (by simp))
            refine ⟨asleep.1, ?_⟩
            have bound := asleep.2
            change p.queue.count - 1 ≤ (p.setThread i (.running p.queue.front)).awake
            omega
          · exact absurd (sound.left ((mem_setThread _ member).resolve_left (by simp))) stays
  · cases taken

theorem Sound.finish (sound : p.Sound) (taken : p.finish i = some p') : p'.Sound := by
  unfold ThreadPool.finish at taken
  split at taken
  · rename_i task at_
    obtain rfl := Option.some.inj taken
    have hands := inHand_setThread at_ .entering
    have alive := alive_setThread at_ .entering
    have awake := awake_setThread at_ .entering
    simp only [task?, Option.toList_none, Option.toList_some, List.append_nil, isExited,
      isAwake, Bool.not_false, Bool.toNat_true] at hands alive awake
    refine ⟨sound.inOrder, ?_, ?_, fun member => ?_, fun member => ?_⟩
    · change p.taken.Perm ((p.finished ++ [task]) ++ _)
      refine sound.worked.trans ?_
      rw [List.append_assoc]
      exact (hands.symm.trans List.perm_append_comm).append_left _
    · have counted := sound.counted
      change p.started = ((p.setThread i .entering).alive : Int)
      omega
    · have asleep := sound.sleeping ((mem_setThread _ member).resolve_left nofun)
      refine ⟨asleep.1, ?_⟩
      have bound := asleep.2
      change p.queue.count ≤ (p.setThread i .entering).awake
      omega
    · exact sound.left ((mem_setThread _ member).resolve_left nofun)
  · cases taken

theorem mem_broadcast {z : PoolThread τ} (member : z ∈ p.threads.map broadcast) :
    z ≠ .waiting ∧ (z = .exited → .exited ∈ p.threads) := by
  obtain ⟨thread, inside, rfl⟩ := List.mem_map.mp member
  cases thread with
  | entering | waiting | running => exact ⟨nofun, nofun⟩
  | exited => exact ⟨nofun, fun _ => inside⟩

/-- Nobody waits behind a broadcast. -/
theorem Sound.destroy {option : ShutDownOption} (sound : p.Sound)
    (taken : p.threadpoolDestroy option = some p') : p'.Sound := by
  unfold threadpoolDestroy at taken
  split at taken
  · cases taken
  · split at taken
    · obtain rfl := Option.some.inj taken
      exact ⟨sound.inOrder, sound.worked, sound.counted, sound.sleeping, sound.left⟩
    · rename_i open_
      obtain rfl := Option.some.inj taken
      have running : p.shutdown = none := by simpa using open_
      have hands : (p.threads.map broadcast).filterMap task? = p.threads.filterMap task? := by
        rw [List.filterMap_map]
        congr 1
        funext thread
        cases thread <;> rfl
      have alive : (p.threads.map broadcast).countP (! isExited ·) =
          p.threads.countP (! isExited ·) := by
        rw [List.countP_map]
        congr 1
        funext thread
        cases thread <;> rfl
      refine ⟨sound.inOrder, ?_, ?_, fun member => ?_, fun member => ?_⟩
      · change p.taken.Perm (p.finished ++ (p.threads.map broadcast).filterMap task?)
        rw [hands]
        exact sound.worked
      · exact sound.counted.trans (congrArg _ alive.symm)
      · exact absurd rfl (mem_broadcast member).1
      · have leaves := sound.left ((mem_broadcast member).2 rfl)
        simp [Leaves, running] at leaves

theorem Sound.joined (sound : p.Sound) (taken : p.joined = some p') : p'.Sound := by
  unfold ThreadPool.joined at taken
  split at taken
  · split at taken
    · obtain rfl := Option.some.inj taken
      exact ⟨sound.inOrder, sound.worked, sound.counted, sound.sleeping, sound.left⟩
    · split at taken
      · cases taken
      · obtain rfl := Option.some.inj taken
        exact ⟨sound.inOrder, sound.worked, sound.counted, sound.sleeping, sound.left⟩
  · cases taken

theorem sound_step {threadCount queueSize : Int} {action : PoolStep τ} (sound : p.Sound)
    (taken : (threadPool τ threadCount queueSize).step p action = some p') : p'.Sound := by
  cases action with
  | add task woken =>
      obtain ⟨⟨next, code⟩, goes, rfl⟩ := Option.map_eq_some_iff.mp taken
      exact sound.add goes
  | turn i => exact sound.turn taken
  | wake i => exact sound.wake taken
  | finish i => exact sound.finish taken
  | destroy option => exact sound.destroy taken
  | joined => exact sound.joined taken

theorem sound_reachable {threadCount queueSize : Int}
    (reached : (threadPool τ threadCount queueSize).Reachable p) : p.Sound :=
  reached.induct (Sound.init _ _) fun _ _ _ sound taken => sound_step sound taken

/-- The vector keeps its size, and no thread is forgotten. -/
theorem shape_step {threadCount queueSize : Int} {action : PoolStep τ}
    (taken : (threadPool τ threadCount queueSize).step p action = some p') :
    p'.queue.slots.length = p.queue.slots.length ∧ p'.threads.length = p.threads.length := by
  cases action with
  | add task woken =>
      obtain ⟨⟨next, code⟩, goes, rfl⟩ := Option.map_eq_some_iff.mp taken
      unfold threadpoolAdd at goes
      split at goes
      · cases goes
      · split at goes
        · obtain ⟨rfl, -⟩ := Prod.mk.inj (Option.some.inj goes)
          exact ⟨rfl, rfl⟩
        · split at goes
          · obtain ⟨rfl, -⟩ := Prod.mk.inj (Option.some.inj goes)
            exact ⟨rfl, rfl⟩
          · obtain ⟨woken_, signalled, same⟩ := Option.map_eq_some_iff.mp goes
            obtain ⟨rfl, -⟩ := Prod.mk.inj same
            unfold signal ThreadPool.wake at signalled
            split at signalled <;> split at signalled <;> cases signalled
            · exact ⟨List.length_set, List.length_set⟩
            · exact ⟨List.length_set, rfl⟩
  | turn i =>
      simp only [threadPool, ThreadPool.turn] at taken
      split at taken
      · split at taken
        · cases taken
        · split at taken
          · cases taken
            exact ⟨rfl, List.length_set⟩
          · split at taken <;> cases taken
            · exact ⟨rfl, List.length_set⟩
            · exact ⟨List.length_set, List.length_set⟩
      · cases taken
  | wake i =>
      simp only [threadPool, ThreadPool.wake] at taken
      split at taken <;> cases taken
      exact ⟨rfl, List.length_set⟩
  | finish i =>
      simp only [threadPool, ThreadPool.finish] at taken
      split at taken <;> cases taken
      exact ⟨rfl, List.length_set⟩
  | destroy option =>
      simp only [threadPool, threadpoolDestroy] at taken
      split at taken
      · cases taken
      · split at taken <;> cases taken
        · exact ⟨rfl, rfl⟩
        · exact ⟨rfl, List.length_map _⟩
  | joined =>
      simp only [threadPool, ThreadPool.joined] at taken
      split at taken
      · split at taken
        · cases taken
          exact ⟨rfl, rfl⟩
        · split at taken <;> cases taken
          exact ⟨rfl, rfl⟩
      · cases taken

theorem shape_reachable {threadCount queueSize : Int}
    (reached : (threadPool τ threadCount queueSize).Reachable p) :
    p.queue.slots.length = (sizes threadCount queueSize).2 ∧
      p.threads.length = (sizes threadCount queueSize).1 :=
  reached.induct
    (I := fun p => p.queue.slots.length = (sizes threadCount queueSize).2 ∧
      p.threads.length = (sizes threadCount queueSize).1)
    ⟨List.length_replicate, List.length_replicate⟩
    fun _ _ _ same taken =>
      ⟨(shape_step taken).1.trans same.1, (shape_step taken).2.trans same.2⟩

end ThreadPool

/-- The vector is a bounded queue. In every run, whoever adds and whichever thread is
    quicker, the tasks accepted are those taken so far and then those that still wait, in the
    order they were added, never more of them than slots, and a task that was taken is in
    the hands of one thread or has returned. -/
theorem threadPool_inOrder (τ : Type) (threadCount queueSize : Int) (p : ThreadPool τ)
    (reached : (threadPool τ threadCount queueSize).Reachable p) :
    p.taken ++ p.queue.contents = p.accepted.map some ∧
      p.queue.contents.length ≤ (ThreadPool.sizes threadCount queueSize).2 ∧
      p.taken.Perm (p.finished ++ p.inHand) := by
  have sound := ThreadPool.sound_reachable reached
  refine ⟨sound.inOrder, ?_, sound.worked⟩
  rw [RingBuffer.length_contents, ← (ThreadPool.shape_reachable reached).1]
  exact p.queue.count_le

/-- The first of three tasks has returned, the second one is being done. -/
def threeTasks : List (PoolStep Nat) :=
  [.add 10 none, .turn 0, .add 11 none, .turn 1, .finish 0, .turn 0, .add 12 (some 0)]

theorem threadPool_inOrder_three :
    ∃ p, (threadPool Nat 2 2).run (threadPool Nat 2 2).init threeTasks = some p ∧
      p.finished = [some 10] ∧ p.inHand = [some 11] ∧
      p.taken ++ p.queue.contents = p.accepted.map some := by
  have ran : ((threadPool Nat 2 2).run (threadPool Nat 2 2).init threeTasks).any fun p =>
      p.finished = [some 10] ∧ p.inHand = [some 11] := by
    decide +kernel
  obtain ⟨p, ran, final⟩ := (Option.any_eq_true _ _).mp ran
  obtain ⟨finished, inHand⟩ := of_decide_eq_true final
  exact ⟨p, ran, finished, inHand, (threadPool_inOrder Nat 2 2 p ⟨threeTasks, ran⟩).1⟩

end Corio.Pool
