import Corio.Foundation.Ledger
import Corio.Logging.AsyncLogger
import Corio.Logging.Roles

/-! # Where the lines are

Every line that was logged is in the hands of its thread, in the queue, in those of the
worker or written. The ledger of these follows the accesses of all threads to the queue.
-/

namespace Corio.Logging

namespace AsyncLogger

namespace WorkerPc

/-- Behind a test that found `running_` false. -/
def Draining : WorkerPc → Prop
  | .attempting .drain | .popping .drain | .locking .drain _ | .locked .drain _
  | .writing .drain _ | .unlocking .drain | .flushLocking true | .flushLocked true
  | .flushing true | .flushUnlocking true | .finished => True
  | _ => False

/-- Behind the second loop. -/
def Drained : WorkerPc → Prop
  | .flushLocking true | .flushLocked true | .flushing true | .flushUnlocking true
  | .finished => True
  | _ => False

end WorkerPc

/-- The line that a thread in `log` has not given away. -/
def pending : LoggerPc → QueuePc Nat → Option Nat
  | .attempting p _, _ | .locking p, _ | .locked p, _ => some p
  | .pushing p _, pc => if pc.Accepted then none else some p
  | _, _ => none

/-- How many entries the worker has won without writing them. -/
def inHand : WorkerPc → QueuePc Nat → Nat
  | .popping _, .exchanging _ _ | .popping _, .releasing _ _ _
  | .popping _, .popped (some _) => 1
  | .locking _ _, _ | .locked _ _, _ => 1
  | _, _ => 0

/-- A thread in `log` pushes its line and does nothing else with the queue. -/
def Pushes : LoggerPc → QueuePc Nat → Prop
  | .pushing p _, pc => pc.Offers p ∨ pc.Accepted ∨ pc = .pushed false
  | _, pc => pc.Outside

/-- The worker pops, and has the last entry that was won. -/
def Pops (won : List Nat) (taken : Nat) : WorkerPc → QueuePc Nat → Prop
  | .popping loop, pc => pc.Seeks taken ∨ pc.Holds taken ∨
      (pc = .popped none ∧ (loop = .drain → taken = won.length)) ∨
      ∃ p, pc = .popped (some p) ∧ 0 < taken ∧ won[taken - 1]? = some p
  | .locking _ p, pc | .locked _ p, pc =>
      pc.Outside ∧ 0 < taken ∧ won[taken - 1]? = some p
  | _, pc => pc.Outside

/-- Every line is where the ledger says. -/
structure Accounts (capacity : Capacity) (queue : LogQueue (Who ι) Nat) (logger : ι → LoggerPc)
    (worker : WorkerPc) (lines : List (ι × Bytes)) (written : List Nat) : Prop where
  board : ∃ stage, LogQueue.Board capacity queue stage
  ledger : Ledger.Sound
    { makers := lines.map Prod.fst
      pending := fun i => pending (logger i) (queue.thread (.logger i))
      queued := queue.won
      served := queue.taken - inHand worker (queue.thread .worker)
      done := written }
  pushes : ∀ i, Pushes (logger i) (queue.thread (.logger i))
  pops : Pops queue.won queue.taken worker (queue.thread .worker)
  unused : (queue.thread .owner).Outside
  drained : worker.Drained → queue.taken = queue.won.length

theorem WorkerPc.Drained.draining {pc : WorkerPc} (drained : pc.Drained) : pc.Draining := by
  unfold Drained at drained
  split at drained <;> trivial

/-- A push takes nothing away from the worker. -/
theorem Pops.append {won : List Nat} {taken : Nat} {worker : WorkerPc} {access : QueuePc Nat}
    (pops : Pops won taken worker access) (busy : ¬ worker.Draining) (p : Nat) :
    Pops (won ++ [p]) taken worker access := by
  have kept : ∀ {n r : Nat}, won[n]? = some r → (won ++ [p])[n]? = some r := fun there => by
    rw [List.getElem?_append_left (List.getElem?_eq_some_iff.mp there).1, there]
  cases worker with
  | popping loop =>
      rcases pops with seeks | holds | ⟨none, -⟩ | ⟨r, some, positive, entry⟩
      · exact .inl seeks
      · exact .inr (.inl holds)
      · refine .inr (.inr (.inl ⟨none, ?_⟩))
        rintro rfl
        exact absurd trivial busy
      · exact .inr (.inr (.inr ⟨r, some, positive, kept entry⟩))
  | locking loop r | locked loop r =>
      obtain ⟨outside, positive, entry⟩ := pops
      exact ⟨outside, positive, kept entry⟩
  | _ => exact pops

variable [DecidableEq ι] {capacity : Capacity} {queue queue' : LogQueue (Who ι) Nat}
  {logger : ι → LoggerPc} {worker : WorkerPc} {lines : List (ι × Bytes)} {written : List Nat}

theorem pending_goto (thread : Who ι → QueuePc Nat) (i : ι) (pc : LoggerPc) :
    (fun j => pending (Function.update logger i pc j) (thread (.logger j))) =
      Function.update (fun j => pending (logger j) (thread (.logger j))) i
        (pending pc (thread (.logger i))) := by
  funext j
  by_cases same : j = i
  · subst same
    simp only [Function.update_self]
  · simp only [Function.update_of_ne same]

theorem pushes_goto {thread : Who ι → QueuePc Nat} {i : ι} {pc : LoggerPc}
    (pushes : ∀ j, Pushes (logger j) (thread (.logger j))) (now : Pushes pc (thread (.logger i)))
    (j : ι) : Pushes (Function.update logger i pc j) (thread (.logger j)) := by
  by_cases same : j = i
  · simpa only [same, Function.update_self] using now
  · simpa only [Function.update_of_ne same] using pushes j

theorem pending_advance (thread : Who ι → QueuePc Nat) (i : ι) (pc : QueuePc Nat) :
    (fun j => pending (logger j) (Function.update thread (.logger i) pc (.logger j))) =
      Function.update (fun j => pending (logger j) (thread (.logger j))) i
        (pending (logger i) pc) := by
  funext j
  by_cases same : j = i
  · subst same
    simp only [Function.update_self]
  · have apart : Who.logger j ≠ .logger i := fun equal => same (Who.logger.inj equal)
    simp only [Function.update_of_ne same, Function.update_of_ne apart]

theorem pending_offers {access : QueuePc Nat} {p : Nat} (offers : access.Offers p)
    (attempts : Nat) : pending (.pushing p attempts) access = some p := by
  cases access with
  | loadingTail | pushReading | pushSwapping => rfl
  | _ => exact offers.elim

theorem inHand_seeks {access : QueuePc Nat} {taken : Nat} (seeks : access.Seeks taken)
    {loop : Loop} : inHand (.popping loop) access = 0 := by
  cases access with
  | loadingHead | popReading | popSwapping => rfl
  | _ => exact seeks.elim

theorem inHand_holds {access : QueuePc Nat} {taken : Nat} (holds : access.Holds taken)
    {loop : Loop} : inHand (.popping loop) access = 1 := by
  cases access with
  | exchanging | releasing => rfl
  | _ => exact holds.elim

namespace Accounts

omit [DecidableEq ι] in
/-- No ticket is at work while nobody is in `log` and the worker has won none. -/
theorem holds_none (accounts : Accounts capacity queue logger worker lines written)
    (idle : ∀ i, logger i = .idle) (seeks : (queue.thread .worker).Seeks queue.taken)
    (who : Who ι) : (queue.thread who).holds = none := by
  cases who with
  | owner => exact LogQueue.holds_of_outside accounts.unused
  | worker =>
      cases access : queue.thread .worker with
      | loadingHead | popReading | popSwapping => rfl
      | _ =>
          rw [access] at seeks
          exact seeks.elim
  | logger i =>
      have pushes := accounts.pushes i
      rw [idle i] at pushes
      exact LogQueue.holds_of_outside pushes

/-- A thread in `log` goes on with the line it has, or without one. -/
theorem gotoLogger (accounts : Accounts capacity queue logger worker lines written) {i : ι}
    {pc : LoggerPc}
    (same : pending pc (queue.thread (.logger i)) =
      pending (logger i) (queue.thread (.logger i)))
    (pushes : Pushes pc (queue.thread (.logger i))) :
    Accounts capacity queue (Function.update logger i pc) worker lines written := by
  refine { accounts with ledger := ?_, pushes := pushes_goto accounts.pushes pushes }
  have ledger := accounts.ledger
  rwa [pending_goto, same, Function.update_eq_self]

/-- A line that is written directly. -/
theorem deliver (accounts : Accounts capacity queue logger worker lines written) {i : ι}
    {p : Nat} (locked : logger i = .locked p) (rest : Bytes) :
    Accounts capacity queue (Function.update logger i (.writing rest)) worker lines
      (written ++ [p]) := by
  have outside := accounts.pushes i
  have held : pending (logger i) (queue.thread (.logger i)) = some p := by rw [locked]; rfl
  rw [locked] at outside
  refine { accounts with ledger := ?_, pushes := pushes_goto accounts.pushes outside }
  rw [pending_goto]
  exact accounts.ledger.deliver held

theorem log (accounts : Accounts capacity queue logger worker lines written) {i : ι}
    (idle : logger i = .idle) (text : Bytes) :
    Accounts capacity queue (Function.update logger i (.attempting lines.length 0)) worker
      (lines ++ [(i, text)]) written := by
  have outside := accounts.pushes i
  have free : pending (logger i) (queue.thread (.logger i)) = none := by rw [idle]; rfl
  rw [idle] at outside
  refine { accounts with ledger := ?_, pushes := pushes_goto accounts.pushes outside }
  have made := accounts.ledger.make free
  rw [pending_goto, List.map_append, List.map_singleton]
  simpa only [Ledger.make, List.length_map, pending] using made

omit [DecidableEq ι] in
/-- The worker goes on with the entry it has, or without one. -/
theorem gotoWorker (accounts : Accounts capacity queue logger worker lines written)
    {pc : WorkerPc}
    (same : inHand pc (queue.thread .worker) = inHand worker (queue.thread .worker))
    (pops : Pops queue.won queue.taken pc (queue.thread .worker))
    (drained : pc.Drained → queue.taken = queue.won.length) :
    Accounts capacity queue logger pc lines written := by
  refine { accounts with ledger := ?_, pops := pops, drained := drained }
  rw [same]
  exact accounts.ledger

omit [DecidableEq ι] in
/-- The line of an entry that the worker writes. -/
theorem serve (accounts : Accounts capacity queue logger worker lines written) {loop : Loop}
    {p : Nat} (locked : worker = .locked loop p) (rest : Bytes) :
    Accounts capacity queue logger (.writing loop rest) lines (written ++ [p]) := by
  subst locked
  obtain ⟨outside, positive, entry⟩ := accounts.pops
  refine { accounts with ledger := ?_, pops := outside, drained := fun drained => drained.elim }
  have served := accounts.ledger.serve (p := p) entry
  have count : queue.taken - inHand (.locked loop p) (queue.thread .worker) + 1 =
      queue.taken - inHand (.writing loop rest) (queue.thread .worker) := by
    simp only [inHand]
    omega
  simpa only [Ledger.serve, count] using served

/-- A thread in `log` comes further in the queue. -/
theorem ofPush (accounts : Accounts capacity queue logger worker lines written) {i : ι}
    {pc : LoggerPc} {access : QueuePc Nat} (board : ∃ stage, LogQueue.Board capacity queue' stage)
    (thread : queue'.thread = Function.update queue.thread (.logger i) access)
    (taken : queue'.taken = queue.taken) (pushes : Pushes pc access)
    (moved : queue'.won = queue.won ∧
        pending pc access = pending (logger i) (queue.thread (.logger i)) ∨
      ∃ p, queue'.won = queue.won ++ [p] ∧
        pending (logger i) (queue.thread (.logger i)) = some p ∧ pending pc access = none ∧
        ¬ worker.Draining) :
    Accounts capacity queue' (Function.update logger i pc) worker lines written := by
  have workers : queue'.thread .worker = queue.thread .worker := by
    rw [thread, Function.update_of_ne (by simp)]
  have items : (fun j => pending (Function.update logger i pc j) (queue'.thread (.logger j))) =
      Function.update (fun j => pending (logger j) (queue.thread (.logger j))) i
        (pending pc access) := by
    rw [thread, pending_advance, pending_goto, Function.update_self, Function.update_idem]
  refine ⟨board, ?_, fun j => ?_, ?_, ?_, ?_⟩
  · rw [items, taken, workers]
    rcases moved with ⟨won, same⟩ | ⟨p, won, held, given, -⟩
    · rw [won, same, Function.update_eq_self]
      exact accounts.ledger
    · rw [won, given]
      exact accounts.ledger.enqueue held
  · by_cases same : j = i
    · subst same
      rwa [Function.update_self, thread, Function.update_self]
    · have apart : Who.logger j ≠ .logger i := fun equal => same (Who.logger.inj equal)
      rw [Function.update_of_ne same, thread, Function.update_of_ne apart]
      exact accounts.pushes j
  · rw [taken, workers]
    rcases moved with ⟨won, -⟩ | ⟨p, won, -, -, busy⟩
    · rw [won]
      exact accounts.pops
    · rw [won]
      exact accounts.pops.append busy p
  · rw [thread, Function.update_of_ne (by simp)]
    exact accounts.unused
  · intro drained
    rcases moved with ⟨won, -⟩ | ⟨p, won, -, -, busy⟩
    · rw [taken, won]
      exact accounts.drained drained
    · exact absurd drained.draining busy

/-- The worker comes further in the queue. -/
theorem ofPop (accounts : Accounts capacity queue logger worker lines written)
    {pc : WorkerPc} {access : QueuePc Nat} (board : ∃ stage, LogQueue.Board capacity queue' stage)
    (thread : queue'.thread = Function.update queue.thread .worker access)
    (won : queue'.won = queue.won)
    (served : queue'.taken - inHand pc access =
      queue.taken - inHand worker (queue.thread .worker))
    (pops : Pops queue.won queue'.taken pc access)
    (undrained : ¬ pc.Drained) : Accounts capacity queue' logger pc lines written := by
  have loggers : ∀ j, queue'.thread (.logger j) = queue.thread (.logger j) := fun j => by
    rw [thread, Function.update_of_ne (by simp)]
  refine ⟨board, ?_, fun j => ?_, ?_, ?_, fun drained => absurd drained undrained⟩
  · simp only [loggers, won, thread, Function.update_self, served]
    exact accounts.ledger
  · rw [loggers j]
    exact accounts.pushes j
  · rwa [won, thread, Function.update_self]
  · rw [thread, Function.update_of_ne (by simp)]
    exact accounts.unused

/-- A thread in `log` calls `push`. -/
theorem callPush (accounts : Accounts capacity queue logger worker lines written) {i : ι}
    {p attempts : Nat} (attempting : logger i = .attempting p attempts)
    (taken : (logQueue (Who ι) Nat capacity).step queue (.push (.logger i) p) = some queue') :
    Accounts capacity queue' (Function.update logger i (.pushing p attempts)) worker lines
      written := by
  obtain ⟨stage, board⟩ := accounts.board
  have later := board.step (show queue.Timely (.push (.logger i) p) from trivial) taken
  simp only [logQueue, Option.ite_none_right_eq_some, Option.some.injEq] at taken
  obtain ⟨-, rfl⟩ := taken
  refine accounts.ofPush later rfl rfl (.inl rfl) (.inl ⟨rfl, ?_⟩)
  rw [attempting]
  rfl

/-- The worker calls `pop`. -/
theorem callPop (accounts : Accounts capacity queue logger worker lines written) {loop : Loop}
    (attempting : worker = .attempting loop)
    (taken : (logQueue (Who ι) Nat capacity).step queue (.pop .worker) = some queue') :
    Accounts capacity queue' logger (.popping loop) lines written := by
  obtain ⟨stage, board⟩ := accounts.board
  have later := board.step (show queue.Timely (.pop .worker) from trivial) taken
  simp only [logQueue, Option.ite_none_right_eq_some, Option.some.injEq] at taken
  obtain ⟨-, rfl⟩ := taken
  subst attempting
  exact accounts.ofPop later rfl rfl rfl (.inl trivial) id

/-- A thread makes its next access in `push`. -/
theorem advancePush (accounts : Accounts capacity queue logger worker lines written) {i : ι}
    {spurious : Bool} (idle : worker.Draining → ∀ j, logger j = .idle)
    (later : ∃ stage, LogQueue.Board capacity queue' stage)
    (taken : queue.advance capacity (.logger i) spurious = some queue') :
    Accounts capacity queue' logger worker lines written := by
  have pushes := accounts.pushes i
  cases pc : logger i with
  | pushing p attempts =>
      have kept : Function.update logger i (.pushing p attempts) = logger := by
        rw [← pc, Function.update_eq_self]
      have busy : ¬ worker.Draining := fun draining => by
        rw [idle draining i] at pc
        cases pc
      rw [pc] at pushes
      rcases pushes with offers | accepted | refused
      · have held := pending_offers offers attempts
        obtain ⟨access, thread, same, ⟨won, offers | refused⟩ | ⟨won, accepted⟩⟩ :=
          LogQueue.advance_offers offers taken
        · refine kept ▸ accounts.ofPush later thread same (.inl offers) (.inl ⟨won, ?_⟩)
          rw [pc, held, pending_offers offers]
        · subst refused
          refine kept ▸ accounts.ofPush later thread same (.inr (.inr rfl)) (.inl ⟨won, ?_⟩)
          rw [pc, held]
          rfl
        · refine kept ▸ accounts.ofPush later thread same (.inr (.inl accepted))
            (.inr ⟨p, won, ?_, if_pos accepted, busy⟩)
          rw [pc, held]
      · obtain ⟨access, thread, same, won, next⟩ := LogQueue.advance_accepted accepted taken
        refine kept ▸ accounts.ofPush later thread same (.inr (.inl next)) (.inl ⟨won, ?_⟩)
        rw [pc]
        exact (if_pos next).trans (if_pos accepted).symm
      · rw [LogQueue.advance_outside (by rw [refused]; trivial)] at taken
        cases taken
  | _ =>
      rw [pc] at pushes
      rw [LogQueue.advance_outside pushes] at taken
      cases taken

/-- The worker makes its next access in `pop`. -/
theorem advancePop (accounts : Accounts capacity queue logger worker lines written)
    {spurious : Bool} (idle : worker.Draining → ∀ j, logger j = .idle)
    (later : ∃ stage, LogQueue.Board capacity queue' stage)
    (taken : queue.advance capacity .worker spurious = some queue') :
    Accounts capacity queue' logger worker lines written := by
  have pops := accounts.pops
  obtain ⟨stage, board⟩ := accounts.board
  cases worker with
  | popping loop =>
      rcases pops with seeks | holds | ⟨none, -⟩ | ⟨p, some, -, -⟩
      · have empty : inHand (.popping loop) (queue.thread .worker) = 0 := inHand_seeks seeks
        obtain ⟨access, thread, won, ⟨same, next | ⟨rfl, absent⟩⟩ | ⟨more, next⟩⟩ :=
          LogQueue.advance_seeks board seeks taken
        · refine accounts.ofPop later thread won ?_ (.inl (same.symm ▸ next)) id
          rw [same, empty, inHand_seeks next]
        · refine accounts.ofPop later thread won ?_ (.inr (.inr (.inl ⟨rfl, ?_⟩))) id
          · rw [same, empty]
            rfl
          · rintro rfl
            rw [same]
            refine board.empty absent fun j t σ held => ?_
            rw [accounts.holds_none (idle trivial) seeks j] at held
            cases held
        · refine accounts.ofPop later thread won ?_ (.inr (.inl (more.symm ▸ next))) id
          rw [more, empty, inHand_holds next]
          rfl
      · obtain ⟨access, thread, won, same, next | ⟨p, rfl, entry⟩⟩ :=
          LogQueue.advance_holds board holds taken
        · refine accounts.ofPop later thread won ?_ (.inr (.inl (same.symm ▸ next))) id
          rw [same, inHand_holds holds, inHand_holds next]
        · refine accounts.ofPop later thread won ?_ (.inr (.inr (.inr ⟨p, rfl, ?_, ?_⟩))) id
          · rw [same, inHand_holds holds]
            rfl
          · rw [same]
            exact QueuePc.Holds.pos holds
          · rw [same, entry]
      · rw [LogQueue.advance_outside (by rw [none]; trivial)] at taken
        cases taken
      · rw [LogQueue.advance_outside (by rw [some]; trivial)] at taken
        cases taken
  | locking loop p | locked loop p =>
      rw [LogQueue.advance_outside pops.1] at taken
      cases taken
  | _ =>
      rw [LogQueue.advance_outside pops] at taken
      cases taken

/-- Any thread makes its next access to the queue. -/
theorem advance (accounts : Accounts capacity queue logger worker lines written) {who : Who ι}
    {spurious : Bool} (idle : worker.Draining → ∀ j, logger j = .idle)
    (timely : queue.Timely (.advance who spurious))
    (taken : (logQueue (Who ι) Nat capacity).step queue (.advance who spurious) = some queue') :
    Accounts capacity queue' logger worker lines written := by
  obtain ⟨stage, board⟩ := accounts.board
  have later := board.step timely taken
  cases who with
  | owner =>
      simp only [logQueue, LogQueue.advance_outside accounts.unused, reduceCtorEq] at taken
  | worker => exact accounts.advancePop idle later taken
  | logger i => exact accounts.advancePush idle later taken

end Accounts

end AsyncLogger

end Corio.Logging
