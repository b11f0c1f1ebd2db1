import Corio.Pool.ThreadPool

/-! # Coming to rest and shutting down

Without new tasks the threads of the pool come to rest, and then nothing is left to do.
A graceful shutdown returns behind the last task and an immediate one starts no more; a
second call of `threadpool_destroy` keeps the lock.
-/

namespace Corio.Pool

namespace ThreadPool

variable {τ : Type} {threadCount queueSize : Int} {p p' : ThreadPool τ} {i : Nat}

/-- Steps that a thread has before it sleeps, leaves or takes another task. -/
def weight : PoolThread τ → Nat
  | .entering => 1
  | .running _ => 2
  | .waiting | .exited => 0

/-- A bound for the steps of the threads, as long as nobody else does anything. -/
def work (p : ThreadPool τ) : Nat := 2 * p.queue.count + (p.threads.map weight).sum

/-- No thread has a step of its own. -/
def Resting (p : ThreadPool τ) : Prop := ∀ i, p.turn i = none ∧ p.finish i = none

theorem Resting.asleep (resting : p.Resting) (lock : p.lockLost = false) {thread : PoolThread τ}
    (member : thread ∈ p.threads) : thread = .waiting ∨ thread = .exited := by
  obtain ⟨i, inside, at_⟩ := List.getElem_of_mem member
  have at_ : p.threads[i]? = some thread := List.getElem?_eq_some_iff.mpr ⟨inside, at_⟩
  obtain ⟨noTurn, noFinish⟩ := resting i
  cases thread with
  | waiting => exact .inl rfl
  | exited => exact .inr rfl
  | running task => simp [ThreadPool.finish, at_] at noFinish
  | entering =>
      simp only [ThreadPool.turn, at_, lock, Bool.false_eq_true, if_false] at noTurn
      split at noTurn
      · cases noTurn
      · split at noTurn <;> cases noTurn

theorem threads_reachable (reached : (threadPool τ threadCount queueSize).Reachable p) :
    0 < p.threads.length := by
  rw [(shape_reachable reached).2]
  exact (sizes_pos threadCount queueSize).1

/-- Threads that rest have left nothing to do. -/
theorem Resting.done (reached : (threadPool τ threadCount queueSize).Reachable p)
    (resting : p.Resting) (lock : p.lockLost = false) (running : p.shutdown ≠ some .immediate) :
    p.queue.contents = [] ∧ p.finished.Perm (p.accepted.map some) := by
  have sound := sound_reachable reached
  have nobody : p.inHand = [] := by
    refine List.filterMap_eq_nil_iff.mpr fun thread member => ?_
    rcases resting.asleep lock member with rfl | rfl <;> rfl
  have awake : p.awake = 0 := by
    refine List.countP_eq_zero.mpr fun thread member => ?_
    rcases resting.asleep lock member with rfl | rfl <;> simp [isAwake]
  have empty : p.queue.count = 0 := by
    obtain ⟨thread, member⟩ := List.exists_mem_of_length_pos (threads_reachable reached)
    rcases resting.asleep lock member with rfl | rfl
    · have bound := (sound.sleeping member).2
      omega
    · rcases sound.left member with immediate | graceful
      · exact absurd immediate running
      · exact graceful.2
  have none_ : p.queue.contents = [] := p.queue.contents_nil_iff.mpr empty
  have inOrder := sound.inOrder
  have worked := sound.worked
  rw [none_, List.append_nil] at inOrder
  rw [nobody, List.append_nil, inOrder] at worked
  exact ⟨none_, worked.symm⟩

/-- A pool that is shut down accepts nothing, at once it also starts nothing, and who waits for
    a lock that is lost waits for ever. -/
structure Closing (option : ShutDownOption) (p p' : ThreadPool τ) : Prop where
  shutdown : p'.shutdown = some option
  accepted : p'.accepted = p.accepted
  immediate : option = .immediate → p'.taken = p.taken
  lost : p.lockLost = true →
    p'.lockLost = true ∧ p'.taken = p.taken ∧
      (p.threads.all isExited = false → p'.threads.all isExited = false)

theorem Closing.refl {option : ShutDownOption} (closed : p.shutdown = some option) :
    Closing option p p := ⟨closed, rfl, fun _ => rfl, fun lost => ⟨lost, rfl, id⟩⟩

theorem Closing.trans {option : ShutDownOption} {p'' : ThreadPool τ}
    (first : Closing option p p') (second : Closing option p' p'') : Closing option p p'' where
  shutdown := second.shutdown
  accepted := second.accepted.trans first.accepted
  immediate := fun at_ => (second.immediate at_).trans (first.immediate at_)
  lost := by
    intro lost
    obtain ⟨lost', taken, alive⟩ := first.lost lost
    obtain ⟨lost'', taken', alive'⟩ := second.lost lost'
    exact ⟨lost'', taken'.trans taken, alive' ∘ alive⟩

end ThreadPool

open ThreadPool

/-- What `threadpool_destroy` may rely on behind its joins. -/
structure ShutDown {τ : Type} (option : ShutDownOption) (p p' : ThreadPool τ) : Prop where
  refused : p'.accepted = p.accepted
  immediate : option = .immediate → p'.taken = p.taken
  graceful : option = .graceful → p'.threads.all isExited = true →
    p'.started = 0 ∧ p'.queue.contents = [] ∧ p'.finished.Perm (p.accepted.map some)

end Corio.Pool
