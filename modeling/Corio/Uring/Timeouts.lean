import Corio.Uring.Delivery
import Corio.Coroutine.ReadRequest

/-! # The timer of a receive

A timer chained behind its receive starts when the receive is over. While no timed
receive has reached the kernel, timers only wait behind one in the queue; the first
submission that hands over a timed receive leaves it without a running timer.
-/

namespace Corio.Uring

open Coroutine (Event Answer readRequest tryParseRequest)

def Opcode.isTimer : Opcode → Bool
  | .timeout _ => true
  | _ => false

/-- What `read_request` sees of an `async_recv_for` that ended with this result. -/
def resumedWith (res : Int) (chunk : Bytes) : Event :=
  match awaitResume res with
  | .ok n => .received (chunk.take n)
  | .error code => .failed (some code)

namespace Ring

/-- A receive with a timeout that the kernel has and has not completed. -/
def TimedPending (r : Ring) (sqe : Sqe) : Prop :=
  sqe ∈ r.chains.flatten ∧ sqe.opcode = .recv ∧ sqe.await.timeout.isSome

instance (r : Ring) (sqe : Sqe) : Decidable (r.TimedPending sqe) := by
  unfold TimedPending
  infer_instance

/-- The timer of an await has started and has not fired. -/
def TimerRuns (r : Ring) (await : Await) : Prop :=
  ∃ chain ∈ r.chains, ∃ timer ∈ chain.head?, ∃ duration ∈ await.timeout,
    timer.opcode = .timeout duration ∧ timer.await = await

instance (r : Ring) (await : Await) : Decidable (r.TimerRuns await) := by
  unfold TimerRuns
  infer_instance

/-- Timed receives are being timed, and one that its timer ended is answered by nullopt. -/
structure TimesOut (r : Ring) : Prop where
  runs : ∀ sqe, r.TimedPending sqe → r.TimerRuns sqe.await
  nullopt : ∀ result ∈ r.returned, result.2.opcode.isTimer → result.2.await = result.1 →
    ∀ buffer chunk script, tryParseRequest buffer = none →
      (readRequest (resumedWith result.2.res chunk :: script) buffer).1 = .nullopt

/-- No timed receive is in the kernel. -/
def Untimed (r : Ring) : Prop := ∀ sqe, ¬ r.TimedPending sqe

/-- A queue in which timers come directly behind the timed receive they are linked to. -/
inductive Paired : List Sqe → Prop where
  | nil : Paired []
  | single {sqe : Sqe} {rest : List Sqe} (notTimer : sqe.opcode.isTimer = false)
      (unlinked : sqe.link = false) (later : Paired rest) : Paired (sqe :: rest)
  | timed {recv timer : Sqe} {rest : List Sqe} (isRecv : recv.opcode = .recv)
      (hasTimeout : recv.await.timeout.isSome) (linked : recv.link = true)
      (last : timer.link = false) (later : Paired rest) : Paired (recv :: timer :: rest)

theorem Paired.append {front back : List Sqe} (first : Paired front) (second : Paired back) :
    Paired (front ++ back) := by
  induction first with
  | nil => exact second
  | single notTimer unlinked _ ih => exact .single notTimer unlinked ih
  | timed isRecv hasTimeout linked last _ ih => exact .timed isRecv hasTimeout linked last ih

/-- No chain of a paired queue starts with a timer. -/
theorem Paired.heads {sq : List Sqe} (paired : Paired sq) :
    ∀ chain ∈ chained sq, ∀ head ∈ chain.head?, head.opcode.isTimer = false := by
  induction paired with
  | nil => simp [chained]
  | @single sqe rest notTimer unlinked _ ih =>
      simp only [chained, unlinked, List.mem_cons, forall_eq_or_imp]
      exact ⟨by simpa using notTimer, ih⟩
  | @timed recv timer rest isRecv _ linked last _ ih =>
      simp only [chained, linked, last, List.mem_cons, forall_eq_or_imp]
      exact ⟨by simp [isRecv, Opcode.isTimer], ih⟩

/-- A paired queue with a timer has a timed receive. -/
theorem Paired.untimed {sq : List Sqe} (paired : Paired sq)
    (none_ : ∀ sqe ∈ sq, sqe.opcode = .recv → ¬ sqe.await.timeout.isSome) :
    ∀ sqe ∈ sq, sqe.opcode.isTimer = false := by
  induction paired with
  | nil => simp
  | single notTimer _ _ ih =>
      rw [List.forall_mem_cons] at none_ ⊢
      exact ⟨notTimer, ih none_.2⟩
  | timed isRecv hasTimeout =>
      exact absurd hasTimeout (none_ _ List.mem_cons_self isRecv)

/-- No timer has started, and as long as no timed receive is in the kernel, no timer is. -/
structure Dormant (r : Ring) : Prop where
  heads : ∀ chain ∈ r.chains, ∀ head ∈ chain.head?, head.opcode.isTimer = false
  kernel : r.Untimed → ∀ sqe ∈ r.chains.flatten, sqe.opcode.isTimer = false

/-- No timer ever got beyond the chains. -/
structure TimerFree (r : Ring) : Prop where
  doomed : ∀ sqe ∈ r.doomed, sqe.opcode.isTimer = false
  cq : ∀ cqe ∈ r.cq, cqe.opcode.isTimer = false
  operations : ∀ addr op cqe, r.operations addr = some op → op.completed = some cqe →
    cqe.opcode.isTimer = false
  returned : ∀ result ∈ r.returned, result.2.opcode.isTimer = false

/-- The invariant up to the first timed receive in the kernel, and in that state. -/
structure Latent (r : Ring) : Prop where
  dormant : Dormant r
  paired : r.Untimed → Paired r.sq
  timerFree : TimerFree r

/-- A dormant ring with a timed receive does not time it. -/
theorem Dormant.exposed {r : Ring} (dormant : Dormant r) (timesOut : TimesOut r) : r.Untimed := by
  intro sqe pending
  obtain ⟨chain, member, timer, head, duration, -, isTimer, -⟩ := timesOut.runs sqe pending
  have notTimer := dormant.heads chain member timer head
  rw [isTimer] at notTimer
  cases notTimer

theorem Dormant.flush {r : Ring} (dormant : Dormant r) (paired : Paired r.sq) :
    Dormant r.flush where
  heads := by
    intro chain member
    rcases List.mem_append.mp member with old | new
    · exact dormant.heads chain old
    · exact paired.heads chain new
  kernel := by
    intro untimed sqe inside
    simp only [Ring.flush, List.flatten_append, chained_flatten] at inside
    rcases List.mem_append.mp inside with old | new
    · refine dormant.kernel (fun other pending => untimed other ⟨?_, pending.2⟩) sqe old
      simp only [Ring.flush, List.flatten_append, List.mem_append]
      exact .inl pending.1
    · refine paired.untimed (fun other queued isRecv timed => untimed other ⟨?_, isRecv, timed⟩)
        sqe new
      simp only [Ring.flush, List.flatten_append, chained_flatten, List.mem_append]
      exact .inr queued

/-- `Latent`, with a paired queue in any case. -/
structure Submittable (r : Ring) : Prop where
  dormant : Dormant r
  paired : Paired r.sq
  timerFree : TimerFree r

theorem Submittable.latent {r : Ring} (submittable : Submittable r) : Latent r :=
  ⟨submittable.dormant, fun _ => submittable.paired, submittable.timerFree⟩

theorem Submittable.flush {r : Ring} (submittable : Submittable r) : Submittable r.flush :=
  ⟨submittable.dormant.flush submittable.paired, .nil,
    ⟨submittable.timerFree.doomed, submittable.timerFree.cq, submittable.timerFree.operations,
      submittable.timerFree.returned⟩⟩

theorem Submittable.push {r : Ring} {sqe : Sqe} (submittable : Submittable r)
    (notTimer : sqe.opcode.isTimer = false) (unlinked : sqe.link = false) :
    Submittable (r.push sqe) where
  dormant := ⟨submittable.dormant.heads, submittable.dormant.kernel⟩
  paired := submittable.paired.append (.single notTimer unlinked .nil)
  timerFree := ⟨submittable.timerFree.doomed, submittable.timerFree.cq,
    submittable.timerFree.operations, submittable.timerFree.returned⟩

/-- Whether there was room, and whether the queue was flushed to make it. -/
theorem getSqe_cases (r : Ring) (submits : Bool) :
    r.getSqe submits = .ok r ∨ r.getSqe submits = .ok r.flush ∨ r.getSqe submits = .error r ∨
      r.getSqe submits = .error r.flush := by
  simp only [getSqe]
  split
  · exact .inl rfl
  · split
    · exact .inr (.inr (.inl rfl))
    · split
      · exact .inr (.inl rfl)
      · exact .inr (.inr (.inr rfl))

theorem Submittable.submitOne {r : Ring} {opcode : Opcode} {addr : Addr} {await : Await}
    {submits : Bool} (submittable : Submittable r) (notTimer : opcode.isTimer = false) :
    Submittable (Outcome.ring (r.submitOne opcode addr await submits)) := by
  simp only [Ring.submitOne]
  rcases getSqe_cases r submits with got | got | got | got <;> rw [got]
  · exact submittable.push notTimer rfl
  · exact submittable.flush.push notTimer rfl
  · exact submittable
  · exact submittable.flush

/-- What `submitOne` leaves ends with its entry. -/
theorem submitOne_sq {r r' : Ring} {opcode : Opcode} {addr : Addr} {await : Await}
    {submits : Bool} (submittable : Submittable r)
    (done : r.submitOne opcode addr await submits = .ok r') :
    ∃ before, Submittable before ∧ r' = before.push ⟨opcode, addr, false, await⟩ := by
  simp only [Ring.submitOne] at done
  rcases getSqe_cases r submits with got | got | got | got <;> rw [got] at done
  · exact ⟨r, submittable, (Except.ok.inj done).symm⟩
  · exact ⟨r.flush, submittable.flush, (Except.ok.inj done).symm⟩
  · cases done
  · cases done

theorem Submittable.recvSubmit {r : Ring} {addr : Addr} {await : Await} {submits : Bool × Bool}
    (submittable : Submittable r) :
    Latent (Outcome.ring (r.recvSubmit addr await submits)) := by
  have begun : Submittable (Outcome.ring (r.submitOne .recv addr await submits.1)) :=
    submittable.submitOne rfl
  simp only [Ring.recvSubmit]
  cases first : r.submitOne .recv addr await submits.1 with
  | error between =>
      rw [first] at begun
      exact begun.latent
  | ok between =>
      rw [first] at begun
      change Submittable between at begun
      simp only [bind, Except.bind]
      split
      · exact begun.latent
      · rename_i duration timed
        obtain ⟨before, good, rfl⟩ := submitOne_sq submittable first
        rcases getSqe_cases (before.push ⟨.recv, addr, false, await⟩) submits.2 with
          got | got | got | got <;> rw [got]
        · have sq : before.sq ++
                [⟨.recv, addr, true, await⟩, ⟨.timeout duration, addr, false, await⟩]
              = ((before.push ⟨.recv, addr, false, await⟩).linkLast.push
                ⟨.timeout duration, addr, false, await⟩).sq := by
            simp [Ring.push, linkLast, List.modifyLast_concat]
          refine ⟨⟨good.dormant.heads, good.dormant.kernel⟩, fun _ => ?_,
            ⟨good.timerFree.doomed, good.timerFree.cq, good.timerFree.operations,
              good.timerFree.returned⟩⟩
          exact sq ▸ good.paired.append (.timed rfl (by rw [timed]; rfl) rfl rfl .nil)
        · -- The receive is in the kernel before its timer is in the queue.
          have flushed := begun.flush
          refine ⟨⟨flushed.dormant.heads, flushed.dormant.kernel⟩, fun untimed => ?_,
            ⟨flushed.timerFree.doomed, flushed.timerFree.cq, flushed.timerFree.operations,
              flushed.timerFree.returned⟩⟩
          refine absurd ?_ (untimed ⟨.recv, addr, false, await⟩)
          refine ⟨?_, rfl, by rw [timed]; rfl⟩
          simp [Outcome.ring, Ring.push, linkLast, Ring.flush, chained_flatten]
        · exact begun.latent
        · exact begun.flush.latent

theorem Submittable.submit {r : Ring} {request : Request} {addr : Addr} {await : Await}
    {submits : Bool × Bool} (submittable : Submittable r) :
    Latent (Outcome.ring (r.submit request addr await submits)) := by
  cases request with
  | accept | send => exact (submittable.submitOne rfl).latent
  | recv timeout => exact submittable.recvSubmit

/-- A new operation has no completion yet. -/
theorem Latent.awaitSuspend {r r' : Ring} {request : Request} {addr : Addr}
    {submits : Bool × Bool} (submittable : Submittable r)
    (taken : r.awaitSuspend request addr submits = some r') : Latent r' := by
  simp only [Ring.awaitSuspend, Option.ite_none_left_eq_some] at taken
  obtain ⟨-, taken⟩ := taken
  have after : Latent (Outcome.ring
      (r.submit request addr ⟨r.nextId, request.timeout⟩ submits)) := submittable.submit
  cases submitted : r.submit request addr ⟨r.nextId, request.timeout⟩ submits with
  | error left =>
      rw [submitted] at after
      simp only [submitted, Option.some.injEq] at taken
      obtain ⟨⟨heads, kernel⟩, paired, ⟨doomed, cq, operations, returned⟩⟩ := after
      exact taken ▸ ⟨⟨heads, kernel⟩, paired, ⟨doomed, cq, operations, returned⟩⟩
  | ok left =>
      rw [submitted] at after
      simp only [submitted, Option.some.injEq] at taken
      obtain ⟨⟨heads, kernel⟩, paired, ⟨doomed, cq, operations, returned⟩⟩ := after
      refine taken ▸ ⟨⟨heads, kernel⟩, paired,
        ⟨doomed, cq, fun other op cqe found done => ?_, returned⟩⟩
      by_cases here : other = addr
      · simp only [here, Function.update_self, Option.some.injEq] at found
        rw [← found] at done
        cases done
      · simp only [Function.update_of_ne here] at found
        exact operations other op cqe found done

/-- Nothing new in the kernel, while it has no timed receive. -/
theorem Latent.of_fewer {r r' : Ring} (latent : Latent r) (untimed : r.Untimed)
    (fewer : r'.chains.flatten ⊆ r.chains.flatten) (sq : r'.sq = r.sq) (timerFree : TimerFree r') :
    Latent r' where
  dormant := by
    have none_ : ∀ sqe ∈ r'.chains.flatten, sqe.opcode.isTimer = false := fun sqe inside =>
      latent.dormant.kernel untimed sqe (fewer inside)
    refine ⟨fun chain member head first => none_ head ?_, fun _ => none_⟩
    exact List.mem_flatten.mpr ⟨chain, member, List.mem_of_mem_head? first⟩
  paired := fun _ => sq ▸ latent.paired untimed
  timerFree := timerFree

theorem TimerFree.post {r : Ring} {sqe : Sqe} {res : Int} (timerFree : TimerFree r)
    (notTimer : sqe.opcode.isTimer = false) : TimerFree (r.post sqe res) where
  doomed := timerFree.doomed
  cq := by
    intro cqe inside
    rcases List.mem_append.mp inside with old | new
    · exact timerFree.cq cqe old
    · rw [List.mem_singleton.mp new]
      exact notTimer
  operations := timerFree.operations
  returned := timerFree.returned

theorem Latent.finish {r r' : Ring} {chain : Nat} {res : Int} (latent : Latent r)
    (untimed : r.Untimed) (taken : r.finish chain res = some r') : Latent r' := by
  obtain ⟨doomed, cq, operations, returned⟩ := latent.timerFree
  simp only [Ring.finish] at taken
  split at taken
  · rename_i sqe rest at_
    have none_ : ∀ other ∈ sqe :: rest, other.opcode.isTimer = false := fun other inside =>
      latent.dormant.kernel untimed other
        (List.mem_flatten.mpr ⟨_, List.mem_of_getElem? at_, inside⟩)
    rw [List.forall_mem_cons] at none_
    simp only [Option.ite_none_right_eq_some] at taken
    obtain ⟨-, taken⟩ := taken
    split at taken
    · obtain rfl := Option.some.inj taken
      refine latent.of_fewer untimed (flatten_set_subset at_ (List.nil_subset _)) rfl
        (TimerFree.post ⟨fun other inside => ?_, cq, operations, returned⟩ none_.1)
      exact (List.mem_append.mp inside).elim (doomed other) (none_.2 other)
    · obtain rfl := Option.some.inj taken
      exact latent.of_fewer untimed (flatten_set_subset at_ (List.subset_cons_self sqe rest)) rfl
        (TimerFree.post ⟨doomed, cq, operations, returned⟩ none_.1)
  · cases taken

theorem Latent.cancel {r r' : Ring} {i : Nat} (latent : Latent r) (untimed : r.Untimed)
    (taken : r.cancel i = some r') : Latent r' := by
  obtain ⟨doomed, cq, operations, returned⟩ := latent.timerFree
  simp only [Ring.cancel] at taken
  split at taken
  · rename_i sqe at_
    obtain rfl := Option.some.inj taken
    refine latent.of_fewer untimed (List.Subset.refl _) rfl (TimerFree.post
      ⟨fun other inside => ?_, cq, operations, returned⟩ (doomed sqe (List.mem_of_getElem? at_)))
    exact doomed other (List.mem_of_mem_eraseIdx inside)
  · cases taken

theorem Latent.handleCqe {r r' : Ring} (latent : Latent r) (untimed : r.Untimed)
    (taken : r.handleCqe = some r') : Latent r' := by
  obtain ⟨doomed, cq, operations, returned⟩ := latent.timerFree
  simp only [Ring.handleCqe] at taken
  split at taken
  · cases taken
  · rename_i cqe rest queued
    rw [queued, List.forall_mem_cons] at cq
    cases found : r.operations cqe.userData with
    | none =>
        simp only [found, Option.some.injEq] at taken
        exact taken ▸ latent.of_fewer untimed (List.Subset.refl _) rfl
          ⟨doomed, cq.2, operations, returned⟩
    | some op =>
        simp only [found, Option.some.injEq, Ring.complete] at taken
        split at taken
        · exact taken ▸ latent.of_fewer untimed (List.Subset.refl _) rfl
            ⟨doomed, cq.2, operations, returned⟩
        · refine taken ▸ latent.of_fewer untimed (List.Subset.refl _) rfl
            ⟨doomed, cq.2, fun addr other result alive done => ?_, returned⟩
          by_cases here : addr = cqe.userData
          · simp only [here, Function.update_self, Option.some.injEq] at alive
            rw [← alive, Option.some.injEq] at done
            exact done ▸ cq.1
          · simp only [Function.update_of_ne here] at alive
            exact operations addr other result alive done

theorem Latent.resumeReady {r r' : Ring} (latent : Latent r) (untimed : r.Untimed)
    (taken : r.resumeReady = some r') : Latent r' := by
  obtain ⟨doomed, cq, operations, returned⟩ := latent.timerFree
  obtain ⟨addr, ready, await, cqe, queued, alive, rfl⟩ := resumeReady_some taken
  refine latent.of_fewer untimed (List.Subset.refl _) rfl
    ⟨doomed, cq, fun other op result found done => ?_, fun result inside => ?_⟩
  · by_cases here : other = addr
    · simp only [here, Function.update_self, reduceCtorEq] at found
    · simp only [Function.update_of_ne here] at found
      exact operations other op result found done
  · rcases List.mem_append.mp inside with old | new
    · exact returned result old
    · rw [List.mem_singleton.mp new]
      exact operations addr _ cqe alive rfl

end Ring

open Corio.Uring.Ring

variable {entries : Nat}

theorem latent_init : Latent (ring entries).init where
  dormant := by constructor <;> simp [ring]
  paired := fun _ => .nil
  timerFree := by constructor <;> simp [ring]

theorem latent_step {r r' : Ring} {action : RingStep} (latent : Latent r) (untimed : r.Untimed)
    (taken : (ring entries).step r action = some r') : Latent r' := by
  have submittable : Submittable r := ⟨latent.dormant, latent.paired untimed, latent.timerFree⟩
  cases action with
  | await request addr submits => exact .awaitSuspend submittable taken
  | submit succeeds =>
      simp only [ring, Option.some.injEq] at taken
      subst taken
      split
      · exact submittable.flush.latent
      · exact latent
  | finish chain res => exact latent.finish untimed taken
  | cancel i => exact latent.cancel untimed taken
  | handleCqe => exact latent.handleCqe untimed taken
  | resume => exact latent.resumeReady untimed taken

/-- Without a timer's completion there is nothing to answer. -/
theorem Ring.Latent.timesOut {r : Ring} (latent : Latent r) (untimed : r.Untimed) : TimesOut r where
  runs := fun sqe pending => absurd pending (untimed sqe)
  nullopt := by
    intro result inside isTimer
    rw [latent.timerFree.returned result inside] at isTimer
    cases isTimer

/-- In a run without timed receives in the kernel, the invariant holds throughout. -/
theorem latent_visited {r : Ring} {steps : List RingStep} (latent : Latent r)
    (untimed : ∀ s ∈ (ring entries).visited r steps, s.Untimed) :
    ∀ s ∈ (ring entries).visited r steps, Latent s := by
  induction steps generalizing r with
  | nil => simpa [Machine.visited] using latent
  | cons action rest ih =>
      have here := untimed r (Machine.mem_visited_start _ r _)
      simp only [Machine.visited] at untimed ⊢
      cases taken : (ring entries).step r action with
      | none => simpa using latent
      | some next =>
          simp only [taken, List.forall_mem_cons] at untimed ⊢
          exact ⟨latent, ih (latent_step latent here taken) untimed.2⟩

/-- In a run whose states all time their receives, there is none to time. -/
theorem untimed_visited {r : Ring} {steps : List RingStep} (latent : Latent r)
    (timesOut : ∀ s ∈ (ring entries).visited r steps, TimesOut s) :
    ∀ s ∈ (ring entries).visited r steps, s.Untimed := by
  induction steps generalizing r with
  | nil =>
      simp only [Machine.visited, List.mem_singleton, forall_eq] at timesOut ⊢
      exact latent.dormant.exposed timesOut
  | cons action rest ih =>
      have here := latent.dormant.exposed (timesOut r (Machine.mem_visited_start _ r _))
      simp only [Machine.visited] at timesOut ⊢
      cases taken : (ring entries).step r action with
      | none => simpa using here
      | some next =>
          simp only [taken, List.forall_mem_cons] at timesOut ⊢
          exact ⟨here, ih (latent_step latent here taken) timesOut.2⟩

/-- A timer that ends a receive makes `read_request` throw. -/
theorem firedTimer_throws {buffer chunk : Bytes} {script : List Event}
    (incomplete : tryParseRequest buffer = none) :
    (readRequest (resumedWith (-ETIME) chunk :: script) buffer).1 = .threw (some ETIME) := by
  have fired : resumedWith (-ETIME) chunk = .failed (some ETIME) := rfl
  rw [fired]
  simp [readRequest, incomplete, ETIME, Coroutine.ETIMEDOUT, Coroutine.ECANCELED]

/-- Exactly the runs that never have a timed receive in the kernel time all of them. -/
theorem timesOut_iff (entries : Nat) (steps : List RingStep) :
    (∀ r ∈ (ring entries).visited (ring entries).init steps, TimesOut r) ↔
      ∀ r ∈ (ring entries).visited (ring entries).init steps, r.Untimed := by
  refine ⟨untimed_visited latent_init, fun untimed r inside => ?_⟩
  exact (latent_visited latent_init untimed r inside).timesOut (untimed r inside)

/-- A receive with a timeout of 30 reaches the kernel. -/
def timedSteps : List RingStep := [.await (.recv (some 30)) 0 (true, true), .submit true]

/-- Where the queue has one entry the receive is flushed alone, and its timer ends it. -/
def firedSteps : List RingStep := timedSteps ++ [.finish 1 (-62), .handleCqe, .resume]

/-- Nothing times the receive, and a timer that does makes `read_request` throw. -/
theorem timedRecv_fails :
    (∃ r, (ring 1024).run (ring 1024).init timedSteps = some r ∧
      ∃ sqe, r.TimedPending sqe ∧ ¬ r.TimerRuns sqe.await) ∧
    ∃ r, (ring 1).run (ring 1).init firedSteps = some r ∧
      ∃ result ∈ r.returned, result.2.opcode.isTimer ∧ result.2.await = result.1 ∧
        (readRequest [resumedWith result.2.res []] []).1 = .threw (some ETIME) := by
  constructor
  · obtain ⟨r, ran⟩ := Option.isSome_iff_exists.mp
      (show ((ring 1024).run (ring 1024).init timedSteps).isSome by decide)
    have exposed : ((ring 1024).run (ring 1024).init timedSteps).all fun r =>
        ∃ sqe ∈ r.chains.flatten, r.TimedPending sqe ∧ ¬ r.TimerRuns sqe.await := by
      decide
    rw [ran] at exposed
    obtain ⟨sqe, -, pending, still⟩ := of_decide_eq_true exposed
    exact ⟨r, ran, sqe, pending, still⟩
  · obtain ⟨r, ran⟩ := Option.isSome_iff_exists.mp
      (show ((ring 1).run (ring 1).init firedSteps).isSome by decide)
    have fired : ((ring 1).run (ring 1).init firedSteps).all fun r =>
        ∃ result ∈ r.returned, result.2.opcode.isTimer ∧ result.2.await = result.1 ∧
          result.2.res = -(ETIME : Int) := by
      decide
    rw [ran] at fired
    obtain ⟨result, inside, isTimer, own, res⟩ := of_decide_eq_true fired
    exact ⟨r, ran, result, inside, isTimer, own, res ▸ firedTimer_throws (by decide)⟩

end Corio.Uring
