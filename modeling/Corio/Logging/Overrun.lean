import Corio.Logging.Delivered

/-! # When the counter of the queue goes round

A thread that sleeps at its compare-exchange while the counter goes round once takes a slot
whose line has not been read, and that line is lost. Up to there the other threads work as
they should, one line after the other.
-/

namespace Corio.Logging

namespace LogQueue

variable {ι α : Type} [DecidableEq ι] (capacity : Capacity) {q q' : LogQueue ι α}

/-- A pop that finds nothing. -/
theorem run_emptyPop {i : ι} (outside : (q.thread i).Outside)
    (empty : (q.slot capacity q.head).sequence = q.head) :
    (logQueue ι α capacity).run q (.pop i :: List.replicate 2 (.advance i false)) =
      some (q.goto i (.popped none)) := by
  have less : diff q.head (q.head + 1#64) < 0 := by
    have one : q.head - (q.head + 1#64) = -1#64 := by
      rw [← BitVec.sub_sub, BitVec.sub_self, BitVec.zero_sub]
    rw [diff, one]
    decide
  have unequal : diff q.head (q.head + 1#64) ≠ 0 := Int.ne_of_lt less
  have here : (q.slots (q.head &&& capacity.mask)).sequence = q.head := empty
  simp [List.replicate, Machine.run_cons_match, logQueue, outside, advance, goto, slot, here, less,
    unequal]

end LogQueue

namespace AsyncLogger

variable {ι : Type} [DecidableEq ι] (capacity : Capacity) {s : AsyncLogger ι}
  {queue : LogQueue (Who ι) Nat}

/-- Accesses of the queue alone. -/
theorem run_queue (whos : List (Who ι))
    (ran : (logQueue (Who ι) Nat capacity).run s.queue (whos.map (.advance · false)) =
      some queue) :
    (asyncLogger ι capacity).run s (whos.map (.queue · false)) =
      some { s with queue := queue } := by
  induction whos generalizing s with
  | nil =>
      obtain rfl := Option.some.inj ran
      rfl
  | cons who rest ih =>
      obtain ⟨next, taken, later⟩ := (Machine.run_cons_some _).mp ran
      refine (Machine.run_cons_some _).mpr
        ⟨{ s with queue := next }, ?_, ih (s := { s with queue := next }) later⟩
      simp only [asyncLogger, useQueue, taken, Option.map_some]

theorem run_accesses {who : Who ι} (n : Nat)
    (ran : (logQueue (Who ι) Nat capacity).run s.queue (List.replicate n (.advance who false)) =
      some queue) :
    (asyncLogger ι capacity).run s (accesses who n) = some { s with queue := queue } := by
  have all := run_queue capacity (s := s) (List.replicate n who) (by rwa [List.map_replicate])
  rwa [List.map_replicate] at all

/-- A thread logs a line that nobody disturbs. -/
theorem run_queueing {i : ι} (idle : s.logger i = .idle) (message : Bytes)
    (ran : (logQueue (Who ι) Nat capacity).run s.queue
      (LogQueue.soloPush (.logger i) s.lines.length) = some queue)
    (pushed : queue.thread (.logger i) = .pushed true) :
    (asyncLogger ι capacity).run s (queueing i message) =
      some { s with queue := queue, lines := s.lines ++ [(i, formatLine [] .info message)] } := by
  obtain ⟨called, call, later⟩ := (Machine.run_cons_some _).mp ran
  have kept : Function.update s.logger i .idle = s.logger := by
    rw [← idle, Function.update_eq_self]
  have accessed := run_accesses capacity (s := { s with
    queue := called, lines := s.lines ++ [(i, formatLine [] .info message)]
    logger := Function.update s.logger i (.pushing s.lines.length 0) }) 5 later
  refine (Machine.run_append_some _).mpr ⟨_, (Machine.run_append_some _).mpr ⟨_, ?_, accessed⟩, ?_⟩
  · simp [Machine.run_cons_match, asyncLogger, idle, gotoLogger, loggerStep, useQueue, call]
  · simp [Machine.run_cons_match, asyncLogger, gotoLogger, loggerStep, pushed, kept]

/-- The worker gives the rest of a line to the sink. -/
theorem run_writing {loop : Loop} (left : Bytes) (writing : s.worker = .writing loop left) :
    (asyncLogger ι capacity).run s (List.replicate (left.length + 1) .worker) =
      some { s with worker := .unlocking loop.setWrote,
                    sink := { s.sink with given := s.sink.given ++ left } } := by
  induction left generalizing s with
  | nil => simp [Machine.run_cons_match, asyncLogger, workerStep, writing, gotoWorker]
  | cons byte left ih =>
      have next := ih (s := (s.put byte).gotoWorker (.writing loop left)) rfl
      rw [List.length_cons, List.replicate_succ, Machine.run_cons]
      simpa [asyncLogger, workerStep, writing, put, gotoWorker] using next

/-- The worker writes the line it has popped. -/
theorem run_popped {loop : Loop} {p : Nat} (popping : s.worker = .popping loop)
    (popped : s.queue.thread .worker = .popped (some p)) (free : s.sinkMutex = none)
    (opened : s.sink.isOpen = true) :
    (asyncLogger ι capacity).run s (List.replicate (5 + (s.line p).length) .worker) =
      some { s with worker := .attempting loop.setWrote
                    sink := { s.sink with given := s.sink.given ++ s.line p }
                    written := s.written ++ [p] } := by
  have wrote := run_writing capacity (s := { s with
    worker := .writing loop (s.line p), sinkMutex := some .worker
    written := s.written ++ [p] }) (s.line p) rfl
  have split : 5 + (s.line p).length = 3 + ((s.line p).length + 1) + 1 := by omega
  rw [split, List.replicate_add, List.replicate_add]
  refine (Machine.run_append_some _).mpr ⟨_, (Machine.run_append_some _).mpr ⟨_, ?_, wrote⟩, ?_⟩
  · simp [List.replicate, Machine.run_cons_match, asyncLogger, workerStep, popping, popped,
      gotoWorker, lock, free, opened, begin, line]
  · simp [Machine.run_cons_match, asyncLogger, workerStep, gotoWorker, unlock, free]

/-- The worker pops a line and writes it, and nobody disturbs it. -/
theorem run_serving {loop : Loop} {p : Nat} (attempting : s.worker = .attempting loop)
    (free : s.sinkMutex = none) (opened : s.sink.isOpen = true)
    (ran : (logQueue (Who ι) Nat capacity).run s.queue (LogQueue.soloPop .worker) = some queue)
    (popped : queue.thread .worker = .popped (some p)) :
    (asyncLogger ι capacity).run s (serving (s.line p).length) =
      some { s with queue := queue, worker := .attempting loop.setWrote
                    sink := { s.sink with given := s.sink.given ++ s.line p }
                    written := s.written ++ [p] } := by
  obtain ⟨called, call, later⟩ := (Machine.run_cons_some _).mp ran
  have accessed := run_accesses capacity
    (s := { s with queue := called, worker := .popping loop }) 5 later
  have written := run_popped capacity
    (s := { s with queue := queue, worker := .popping loop }) rfl popped free opened
  refine (Machine.run_append_some _).mpr
    ⟨_, (Machine.run_append_some _).mpr ⟨_, ?_, accessed⟩, written⟩
  simp [Machine.run_cons_match, asyncLogger, workerStep, attempting, useQueue, call, gotoWorker]

/-- The worker finds the queue empty and flushes the sink. -/
theorem run_resting {loop : Loop} {last : Bool} (attempting : s.worker = .attempting loop)
    (flushes : behind loop = .flushLocking last) (free : s.sinkMutex = none)
    (opened : s.sink.isOpen = true) (outside : (s.queue.thread .worker).Outside)
    (empty : (s.queue.slot capacity s.queue.head).sequence = s.queue.head) :
    (asyncLogger ι capacity).run s resting =
      some { s with queue := s.queue.goto .worker (.popped none)
                    worker := if last then .finished else .testing
                    sink := { s.sink with flushed := s.sink.given } } := by
  obtain ⟨called, call, later⟩ :=
    (Machine.run_cons_some _).mp (LogQueue.run_emptyPop capacity outside empty)
  have accessed := run_accesses capacity
    (s := { s with queue := called, worker := .popping loop }) 2 later
  refine (Machine.run_append_some _).mpr ⟨_, (Machine.run_append_some _).mpr ⟨_, ?_, accessed⟩, ?_⟩
  · simp [Machine.run_cons_match, asyncLogger, workerStep, attempting, useQueue, call, gotoWorker]
  · simp [List.replicate, Machine.run_cons_match, asyncLogger, workerStep, LogQueue.goto,
      gotoWorker, flushes, lock, free, opened, flush, unlock]

theorem run_closing (joining : s.owner = .joining) (finished : s.worker = .finished)
    (free : s.sinkMutex = none) (opened : s.sink.isOpen = true) :
    (asyncLogger ι capacity).run s closing =
      some { s with owner := .stopped, sink := ⟨false, s.sink.given, s.sink.given⟩ } := by
  simp [closing, List.replicate, Machine.run_cons_match, asyncLogger, ownerStep, joining, finished,
    gotoOwner, lock, free, opened, flush, unlock]

/-- Between `start` and `stop` anything but `stop` is arranged. -/
theorem arranged_of_started {steps : List (LoggerStep ι)} (started : s.owner = .started)
    (serving : ∀ opens, .owner opens ∉ steps) :
    (asyncLogger ι capacity).Guarded Arranged s steps := by
  induction steps generalizing s with
  | nil => trivial
  | cons action rest ih =>
      have later : ∀ opens, .owner opens ∉ rest := fun opens member =>
        serving opens (List.mem_cons_of_mem _ member)
      cases action with
      | log i level message timestamp =>
          refine ⟨started, fun next taken => ih ?_ later⟩
          simp only [asyncLogger, Option.ite_none_right_eq_some, Option.some.injEq] at taken
          exact taken.2 ▸ started
      | queue who spurious =>
          refine ⟨trivial, fun next taken => ih ?_ later⟩
          simp only [asyncLogger, useQueue, Option.map_eq_some_iff] at taken
          obtain ⟨queue, -, rfl⟩ := taken
          exact started
      | logger i =>
          exact ⟨trivial, fun next taken => ih ((fixed_loggerStep taken).2.trans started) later⟩
      | worker =>
          exact ⟨trivial, fun next taken => ih ((fixed_workerStep taken).2.1.trans started) later⟩
      | owner opens => exact absurd List.mem_cons_self (serving opens)

/-- When nobody is in `log`, anything but `log` is arranged. -/
theorem arranged_of_idle (steps : List (LoggerStep ι)) (idle : ∀ i, s.logger i = .idle)
    (silent : ∀ action ∈ steps, (∃ who spurious, action = .queue who spurious) ∨
      action = .worker ∨ ∃ opens, action = .owner opens) :
    (asyncLogger ι capacity).Guarded Arranged s steps := by
  induction steps generalizing s with
  | nil => trivial
  | cons action rest ih =>
      have later := fun action member => silent action (List.mem_cons_of_mem _ member)
      rcases silent action List.mem_cons_self with ⟨who, spurious, rfl⟩ | rfl | ⟨opens, rfl⟩
      · refine ⟨trivial, fun next taken => ih ?_ later⟩
        simp only [asyncLogger, useQueue, Option.map_eq_some_iff] at taken
        obtain ⟨queue, -, rfl⟩ := taken
        exact idle
      · refine ⟨trivial, fun next taken => ih ?_ later⟩
        rwa [(fixed_workerStep taken).2.2]
      · refine ⟨fun _ => idle, fun next taken => ih ?_ later⟩
        rwa [(fixed_ownerStep taken).2]

/-- One thread sleeps at its compare-exchange, while another one has logged so many lines
    and the worker has written them. None of them has the byte 121. -/
structure Turning (n : Nat) (s : AsyncLogger Bool) : Prop where
  resting : LogQueue.Resting LogQueue.smallest s.queue n n
  outside : ∀ who, who ≠ .logger true → (s.queue.thread who).Outside
  asleep : s.queue.thread (.logger true) = .pushSwapping 0 0 0
  sleeper : s.logger true = .pushing 0 0
  idle : s.logger false = .idle
  worker : ∃ wrote, s.worker = .attempting (.running wrote)
  owner : s.owner = .started
  running : s.running = true
  free : s.sinkMutex = none
  opened : s.sink.isOpen = true
  unmarked : 121 ∉ s.sink.given
  lines : ∀ entry ∈ s.lines, 121 ∉ entry.2
  logged : 0 < s.lines.length

omit [DecidableEq ι] in
theorem unmarked_line {s : AsyncLogger ι} (lines : ∀ entry ∈ s.lines, 121 ∉ entry.2) (p : Nat) :
    121 ∉ s.line p := by
  unfold line
  cases there : s.lines[p]? with
  | none => exact List.not_mem_nil
  | some entry => exact lines entry (List.mem_of_getElem? there)

omit [DecidableEq ι] in
theorem unmarked_append {s : AsyncLogger ι} (lines : ∀ entry ∈ s.lines, 121 ∉ entry.2) {i : ι}
    {text : Bytes} (unmarked : 121 ∉ text) : ∀ entry ∈ s.lines ++ [(i, text)], 121 ∉ entry.2 := by
  intro entry member
  rcases List.mem_append.mp member with before | last
  · exact lines entry before
  · obtain rfl := List.mem_singleton.mp last
    exact unmarked

/-- A line is pushed where the next one is popped. -/
theorem payload_soloPushed {queue : LogQueue (Who ι) Nat} {n : Nat}
    (resting : LogQueue.Resting capacity queue n n) (who : Who ι) (p : Nat) :
    ((LogQueue.soloPushed capacity queue who p).slot capacity
      (LogQueue.soloPushed capacity queue who p).head).payload = some p := by
  obtain ⟨stage, board⟩ := resting.board
  have same : queue.head = queue.tail := by
    rw [board.head, board.tail, resting.won, resting.taken]
  simp [LogQueue.soloPushed, LogQueue.slot, LogQueue.setSlot, same]

theorem Turning.next {n : Nat} {s : AsyncLogger Bool} (turning : Turning n s) :
    ∃ steps s', (asyncLogger Bool LogQueue.smallest).run s steps = some s' ∧ Turning (n + 1) s' ∧
      ∀ opens, .owner opens ∉ steps := by
  obtain ⟨wrote, attempting⟩ := turning.worker
  have two : LogQueue.smallest.size = 2 := rfl
  have short : 121 ∉ formatLine [] .info [] := by decide +kernel
  have lines := unmarked_append turning.lines (i := false) short
  obtain ⟨pushRan, pushed⟩ := turning.resting.push (i := .logger false)
    (turning.outside _ (by simp)) (by omega) s.lines.length
  have logged := run_queueing LogQueue.smallest turning.idle [] pushRan
    (by simp [LogQueue.soloPushed])
  have worker : ((LogQueue.soloPushed LogQueue.smallest s.queue (.logger false)
      s.lines.length).thread .worker).Outside := by
    simpa [LogQueue.soloPushed] using turning.outside .worker (by simp)
  obtain ⟨popRan, popped⟩ := pushed.pop worker (Nat.lt_succ_self n)
  have served := run_serving LogQueue.smallest (s := { s with
    queue := _, lines := s.lines ++ [(false, formatLine [] .info [])] }) attempting turning.free
    turning.opened popRan (p := s.lines.length) (by
      simp only [LogQueue.soloPopped, Function.update_self]
      rw [payload_soloPushed LogQueue.smallest turning.resting])
  refine ⟨_, _, (Machine.run_append_some _).mpr ⟨_, logged, served⟩, ?_, ?_⟩
  · refine ⟨popped, fun who apart => ?_, ?_, turning.sleeper, turning.idle, ⟨true, rfl⟩,
      turning.owner, turning.running, turning.free, turning.opened, ?_, lines, by simp⟩
    · by_cases isWorker : who = .worker
      · simp [LogQueue.soloPopped, isWorker, QueuePc.Outside]
      · by_cases isLogger : who = .logger false
        · simp [LogQueue.soloPopped, LogQueue.soloPushed, LogQueue.setSlot, isLogger,
            QueuePc.Outside]
        · simpa [LogQueue.soloPopped, LogQueue.soloPushed, LogQueue.setSlot, isWorker, isLogger]
            using turning.outside who apart
    · simpa [LogQueue.soloPopped, LogQueue.soloPushed, LogQueue.setSlot] using turning.asleep
    · simp only [List.mem_append, not_or]
      exact ⟨turning.unmarked, unmarked_line lines _⟩
  · simp [queueing, serving, accesses]

/-- The first thread goes to sleep. -/
def dozing : List (LoggerStep Bool) :=
  starting ++ [.worker, .log true .info [] [], .logger true] ++ accesses (.logger true) 2

/-- The queue then. -/
def dozed : LogQueue (Who Bool) Nat :=
  (LogQueue.construct (Who Bool) Nat).goto (.logger true) (.pushSwapping 0 0 0)

theorem resting_dozed : LogQueue.Resting LogQueue.smallest dozed 0 0 where
  board := by
    refine ⟨_, LogQueue.Board.construct.goto rfl rfl ⟨rfl, le_rfl, fun _ later => ?_⟩⟩
    have := LogQueue.smallest.two_le_size
    omega
  quiet := fun who => by
    by_cases same : who = .logger true
    · simp [dozed, LogQueue.goto, same, QueuePc.holds]
    · simp [dozed, LogQueue.goto, LogQueue.construct, same, QueuePc.holds]
  won := rfl
  taken := rfl

theorem Turning.start : ∃ s, (asyncLogger Bool LogQueue.smallest).run
    (asyncLogger Bool LogQueue.smallest).init dozing = some s ∧ Turning 0 s := by
  refine ⟨{ running := true, queue := dozed, sink := ⟨true, [], []⟩, sinkMutex := none
            logger := Function.update (fun _ => .idle) true (.pushing 0 0)
            worker := .attempting (.running false), owner := .started
            lines := [(true, formatLine [] .info [])], written := [] }, ?_, ?_⟩
  · simp [dozing, starting, accesses, List.replicate, Machine.run_cons_match, asyncLogger,
      ownerStep, workerStep, loggerStep, gotoOwner, gotoWorker, gotoLogger, lock, unlock, useQueue,
      logQueue, LogQueue.construct, LogQueue.advance, LogQueue.goto, QueuePc.Outside, LogQueue.slot,
      LogQueue.diff, LogQueue.smallest, Capacity.mask, Capacity.size, dozed]
  · refine ⟨resting_dozed, fun who apart => ?_, rfl, rfl, rfl, ⟨false, rfl⟩, rfl, rfl, rfl, rfl,
      List.not_mem_nil, ?_, Nat.one_pos⟩
    · simp [dozed, LogQueue.goto, LogQueue.construct, apart, QueuePc.Outside]
    · simpa using (by decide +kernel : 121 ∉ formatLine [] .info [])

/-- The counter goes round as far as it may. -/
theorem Turning.reached (n : Nat) : ∃ steps s, (asyncLogger Bool LogQueue.smallest).run
    (asyncLogger Bool LogQueue.smallest).init steps = some s ∧ Turning n s ∧
    (asyncLogger Bool LogQueue.smallest).Guarded Arranged
      (asyncLogger Bool LogQueue.smallest).init steps := by
  induction n with
  | zero =>
      obtain ⟨s, ran, turning⟩ := Turning.start
      exact ⟨dozing, s, ran, turning, by decide +kernel⟩
  | succ n ih =>
      obtain ⟨steps, s, ran, turning, arranged⟩ := ih
      obtain ⟨more, s', later, next, serving⟩ := turning.next
      exact ⟨steps ++ more, s', (Machine.run_append_some _).mpr ⟨s, ran, later⟩, next,
        arranged.append ran (arranged_of_started LogQueue.smallest turning.owner serving)⟩

/-- The queue when its last line is popped and the sleeper has put its own line over it. -/
def overrun (queue : LogQueue (Who Bool) Nat) : LogQueue (Who Bool) Nat :=
  { queue with
    head := -1#64, tail := 1#64, won := queue.won ++ [0], taken := queue.taken + 1
    slots := Function.update queue.slots 0#64 ⟨0#64, none⟩
    thread := Function.update (Function.update queue.thread (.logger true) (.pushed true)) .worker
      (.popped (some 0))
    results := queue.results ++ [(queue.taken, some 0)] }

/-- Who accesses the queue meanwhile. -/
def overtaking : List (Who Bool) :=
  List.replicate 3 .worker ++ List.replicate 3 (.logger true) ++ List.replicate 2 .worker

theorem run_overrun {queue : LogQueue (Who Bool) Nat} {p : Nat} (head : queue.head = -2#64)
    (tail : queue.tail = 0#64) (unread : queue.slots 0#64 = ⟨-1#64, some p⟩)
    (asleep : queue.thread (.logger true) = .pushSwapping 0 0 0)
    (outside : (queue.thread .worker).Outside) :
    (logQueue (Who Bool) Nat LogQueue.smallest).run queue
      (.pop .worker :: overtaking.map (.advance · false)) = some (overrun queue) := by
  have apart : Who.logger true ≠ .worker := by simp
  simp [overtaking, List.replicate, Machine.run_cons_match, logQueue, outside, LogQueue.advance,
    LogQueue.goto, LogQueue.slot, LogQueue.setSlot, LogQueue.diff, LogQueue.smallest,
    Capacity.mask, Capacity.size, head, tail, unread, asleep, overrun]
  rw [Function.update_comm apart, Function.update_idem]
  exact Function.update_comm apart.symm _ _ _

/-- The line is lost, and all other ones are in the sink. -/
structure Lost (s : AsyncLogger Bool) : Prop where
  outside : (s.queue.thread .worker).Outside
  empty : (s.queue.slot LogQueue.smallest s.queue.head).sequence = s.queue.head
  idle : ∀ i, s.logger i = .idle
  worker : s.worker = .attempting (.running true)
  owner : s.owner = .started
  running : s.running = true
  free : s.sinkMutex = none
  opened : s.sink.isOpen = true
  unmarked : 121 ∉ s.sink.given
  marked : ∃ entry ∈ s.lines, 121 ∈ entry.2

/-- The queue with two entries in it, when the next ticket is 2 ^ 64 - 2. -/
theorem soloPushed_twice {queue : LogQueue (Who Bool) Nat} (tail : queue.tail = -2#64)
    (who : Who Bool) (p q : Nat) :
    let full := LogQueue.soloPushed LogQueue.smallest
      (LogQueue.soloPushed LogQueue.smallest queue who p) who q
    full.tail = 0#64 ∧ full.slots 0#64 = ⟨-1#64, some p⟩ ∧ full.slots 1#64 = ⟨0#64, some q⟩ := by
  simp [LogQueue.soloPushed, LogQueue.setSlot, LogQueue.smallest, Capacity.mask, Capacity.size,
    tail]

/-- What the worker reads behind the overrun. -/
theorem run_behind {queue : LogQueue (Who Bool) Nat} {q : Nat}
    (other : queue.slots 1#64 = ⟨0#64, some q⟩) :
    ∃ queue', (logQueue (Who Bool) Nat LogQueue.smallest).run (overrun queue)
        (LogQueue.soloPop .worker) = some queue' ∧ queue'.thread .worker = .popped (some q) ∧
      (queue'.slot LogQueue.smallest queue'.head).sequence = queue'.head := by
  obtain ⟨ran, -⟩ := LogQueue.run_soloPop LogQueue.smallest (q := overrun queue)
    (i := .worker) (by simp [overrun, QueuePc.Outside]) (by
      simp [overrun, LogQueue.slot, LogQueue.smallest, Capacity.mask, Capacity.size, other])
  refine ⟨_, ran, ?_, ?_⟩
  · simp [LogQueue.soloPopped, overrun, LogQueue.slot, LogQueue.smallest, Capacity.mask,
      Capacity.size, other]
  · simp [LogQueue.soloPopped, overrun, LogQueue.slot, LogQueue.setSlot, LogQueue.smallest,
      Capacity.mask, Capacity.size]

/-- A line is logged, the worker takes up its ticket, and the sleeper wakes up. -/
theorem Turning.overruns {s : AsyncLogger Bool} (turning : Turning (2 ^ 64 - 2) s) :
    ∃ steps s', (asyncLogger Bool LogQueue.smallest).run s steps = some s' ∧ Lost s' ∧
      ∀ opens, .owner opens ∉ steps := by
  obtain ⟨wrote, attempting⟩ := turning.worker
  have two : LogQueue.smallest.size = 2 := rfl
  obtain ⟨stage, board⟩ := turning.resting.board
  have tail : s.queue.tail = -2#64 := by rw [board.tail, turning.resting.won]; rfl
  have head : s.queue.head = -2#64 := by rw [board.head, turning.resting.taken]; rfl
  have short : 121 ∉ formatLine [] .info [] := by decide +kernel
  -- The line with the mark, and one more.
  obtain ⟨ran1, pushed1⟩ := turning.resting.push (i := .logger false)
    (turning.outside _ (by simp)) (by omega) s.lines.length
  have logged1 := run_queueing LogQueue.smallest turning.idle [121] ran1
    (by simp [LogQueue.soloPushed])
  obtain ⟨ran2, -⟩ := pushed1.push (i := .logger false)
    (by simp [LogQueue.soloPushed, QueuePc.Outside]) (by omega) (s.lines.length + 1)
  have logged2 := run_queueing LogQueue.smallest (s := { s with
    queue := LogQueue.soloPushed LogQueue.smallest s.queue (.logger false) s.lines.length
    lines := s.lines ++ [(false, formatLine [] .info [121])] }) turning.idle [] (by
      simpa using ran2) (by simp [LogQueue.soloPushed])
  obtain ⟨tail2, slot0, slot1⟩ :=
    soloPushed_twice tail (.logger false) s.lines.length (s.lines.length + 1)
  have head2 : (LogQueue.soloPushed LogQueue.smallest (LogQueue.soloPushed LogQueue.smallest
      s.queue (.logger false) s.lines.length) (.logger false) (s.lines.length + 1)).head =
      -2#64 := head
  have asleep : (LogQueue.soloPushed LogQueue.smallest (LogQueue.soloPushed LogQueue.smallest
      s.queue (.logger false) s.lines.length) (.logger false)
      (s.lines.length + 1)).thread (.logger true) = .pushSwapping 0 0 0 := by
    simpa [LogQueue.soloPushed, LogQueue.setSlot] using turning.asleep
  have worker : ((LogQueue.soloPushed LogQueue.smallest (LogQueue.soloPushed LogQueue.smallest
      s.queue (.logger false) s.lines.length) (.logger false)
      (s.lines.length + 1)).thread .worker).Outside := by
    simpa [LogQueue.soloPushed, LogQueue.setSlot] using turning.outside .worker (by simp)
  generalize LogQueue.soloPushed LogQueue.smallest (LogQueue.soloPushed LogQueue.smallest s.queue
    (.logger false) s.lines.length) (.logger false) (s.lines.length + 1) = full at *
  -- The worker gets the line of the sleeper in its place.
  obtain ⟨called, call, later⟩ :=
    (Machine.run_cons_some _).mp (run_overrun head2 tail2 slot0 asleep worker)
  let lines := (s.lines ++ [(false, formatLine [] .info [121])]) ++
    [(false, formatLine [] .info [])]
  have calling : (asyncLogger Bool LogQueue.smallest).run { s with queue := full, lines := lines }
      [.worker] = some { s with
        queue := called, lines := lines, worker := .popping (.running wrote) } := by
    simp [Machine.run_cons_match, asyncLogger, workerStep, attempting, useQueue, call, gotoWorker]
  have accessed := run_queue LogQueue.smallest (s := { s with
    queue := called, lines := lines, worker := .popping (.running wrote) }) overtaking later
  have woken : (asyncLogger Bool LogQueue.smallest).run { s with
        queue := overrun full, lines := lines, worker := .popping (.running wrote) }
      [.logger true] = some { s with
        queue := overrun full, lines := lines, worker := .popping (.running wrote)
        logger := Function.update s.logger true .idle } := by
    simp [Machine.run_cons_match, asyncLogger, loggerStep, turning.sleeper, overrun, gotoLogger]
  have first := run_popped LogQueue.smallest (p := 0) (s := { s with
    queue := overrun full, lines := lines, worker := .popping (.running wrote)
    logger := Function.update s.logger true .idle }) rfl (by simp [overrun]) turning.free
    turning.opened
  obtain ⟨queue, popRan, popped, empty⟩ := run_behind slot1
  have second := run_serving LogQueue.smallest (s := { s with
    queue := overrun full, lines := lines, worker := .attempting (.running true)
    logger := Function.update s.logger true .idle
    sink := { s.sink with given := s.sink.given ++ { s with lines := lines }.line 0 }
    written := s.written ++ [0] }) rfl turning.free turning.opened popRan popped
  have young : { s with lines := lines }.line 0 = s.line 0 := by
    have inside : 0 < (s.lines ++ [(false, formatLine [] .info [121])]).length := by simp
    unfold line
    rw [List.getElem?_append_left inside, List.getElem?_append_left turning.logged]
  have old : { s with lines := lines }.line (s.lines.length + 1) = formatLine [] .info [] := by
    simp [line, lines]
  refine ⟨_, _, (Machine.run_append_some _).mpr ⟨_, logged1, (Machine.run_append_some _).mpr
    ⟨_, logged2, (Machine.run_append_some _).mpr ⟨_, calling, (Machine.run_append_some _).mpr
      ⟨_, accessed, (Machine.run_append_some _).mpr ⟨_, woken, (Machine.run_append_some _).mpr
        ⟨_, first, second⟩⟩⟩⟩⟩⟩, ?_, ?_⟩
  · refine ⟨by simp [popped, QueuePc.Outside], empty, fun i => ?_, rfl, turning.owner,
      turning.running, turning.free, turning.opened, ?_, ?_⟩
    · cases i with
      | true => rfl
      | false => exact turning.idle
    · simp only [List.mem_append, not_or]
      refine ⟨⟨turning.unmarked, ?_⟩, ?_⟩
      · exact young ▸ unmarked_line turning.lines 0
      · exact old ▸ short
    · exact ⟨(false, formatLine [] .info [121]), by simp [lines], by decide +kernel⟩
  · simp [queueing, serving, accesses, overtaking]

/-- The owner stops the logger with the queue empty. -/
def leaving : List (LoggerStep Bool) :=
  [.owner true] ++ resting ++ [.worker] ++ resting ++ closing

theorem Lost.stop {s : AsyncLogger Bool} (lost : Lost s) :
    ∃ s', (asyncLogger Bool LogQueue.smallest).run s leaving = some s' ∧ s'.owner = .stopped ∧
      121 ∉ s'.sink.flushed ∧ s'.lines = s.lines := by
  have stopping : (asyncLogger Bool LogQueue.smallest).run s [.owner true] =
      some { s with running := false, owner := .joining } := by
    simp [Machine.run_cons_match, asyncLogger, ownerStep, lost.owner, lost.running, gotoOwner]
  have first := run_resting LogQueue.smallest
    (s := { s with running := false, owner := .joining }) lost.worker rfl lost.free
    lost.opened lost.outside lost.empty
  have second := run_resting LogQueue.smallest (s := { s with
    running := false, owner := .joining, queue := s.queue.goto .worker (.popped none)
    worker := .attempting .drain, sink := { s.sink with flushed := s.sink.given } }) rfl rfl
    lost.free lost.opened (by simp [LogQueue.goto, QueuePc.Outside]) lost.empty
  have third := run_closing LogQueue.smallest (s := { s with
    running := false, owner := .joining
    queue := (s.queue.goto .worker (.popped none)).goto .worker (.popped none)
    worker := .finished, sink := { s.sink with flushed := s.sink.given } }) rfl rfl lost.free
    lost.opened
  refine ⟨_, (Machine.run_append_some _).mpr ⟨_, (Machine.run_append_some _).mpr ⟨_,
    (Machine.run_append_some _).mpr ⟨_, (Machine.run_append_some _).mpr ⟨_, stopping, first⟩, ?_⟩,
    second⟩, third⟩, rfl, lost.unmarked, rfl⟩
  simp [Machine.run_cons_match, asyncLogger, workerStep, gotoWorker]

/-- If the counter goes round while a thread sleeps, a line can be missing when `stop` has
    returned. -/
theorem overrun_loses : ¬ ∀ (steps : List (LoggerStep Bool)) (s : AsyncLogger Bool),
    (asyncLogger Bool LogQueue.smallest).run (asyncLogger Bool LogQueue.smallest).init steps =
      some s →
    (asyncLogger Bool LogQueue.smallest).Guarded Arranged
      (asyncLogger Bool LogQueue.smallest).init steps →
    s.owner = .stopped →
    ∃ order : List (Bool × Bytes), order.Perm (logged steps) ∧
      s.sink.flushed = (order.map Prod.snd).flatten := by
  intro claim
  obtain ⟨before, s, ran, turning, arranged⟩ := Turning.reached (2 ^ 64 - 2)
  obtain ⟨last, s1, overran, lost, serving⟩ := turning.overruns
  obtain ⟨s2, left, stopped, unmarked, same⟩ := lost.stop
  have served := (Machine.run_append_some _).mpr ⟨s, ran, overran⟩
  have whole := (Machine.run_append_some _).mpr ⟨s1, served, left⟩
  have started := arranged_of_started LogQueue.smallest turning.owner serving
  have guarded := (arranged.append ran started).append served
    (arranged_of_idle LogQueue.smallest leaving lost.idle (by
      simp [leaving, resting, closing, accesses]))
  obtain ⟨order, perm, flushed⟩ := claim _ s2 whole guarded stopped
  obtain ⟨entry, member, marked⟩ := lost.marked
  have logged : s2.lines = logged (before ++ last ++ leaving) := lines_run whole
  rw [← same, logged] at member
  refine unmarked ?_
  rw [flushed]
  exact List.mem_flatten.mpr ⟨entry.2, List.mem_map_of_mem (perm.mem_iff.mpr member), marked⟩

end AsyncLogger

end Corio.Logging
