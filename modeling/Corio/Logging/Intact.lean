import Corio.Logging.Tickets

/-! # What the queue promises

No entry is lost, overwritten or returned twice, as long as each compare-exchange is timely.
One that is not, because the thread slept while the counter went round, breaks the queue.
-/

namespace Corio.Logging

/-- The difference of counters is that of the words. -/
theorem toNat_word_sub {m n : Nat} (le : n ≤ m) (near : m < n + 2 ^ 64) :
    (word m - word n).toNat = m - n := by
  rw [BitVec.toNat_sub, word, word, BitVec.toNat_ofNat, BitVec.toNat_ofNat]
  omega

namespace LogQueue

variable {ι α : Type} {capacity : Capacity} {q q' : LogQueue ι α} {stage : Nat → Stage}

/-- What holds of the queue in every state. -/
structure Intact (capacity : Capacity) (q : LogQueue ι α) : Prop where
  /-- `tail_ - head_`. -/
  span : (q.tail - q.head).toNat ≤ capacity.size
  bounds : q.taken ≤ q.won.length ∧ q.won.length ≤ q.taken + capacity.size
  /-- A pop returns the entry of its ticket, and no null. -/
  results : ∀ t r, (t, r) ∈ q.results →
    t < q.taken ∧ ∃ entry, q.won[t]? = some entry ∧ r = some entry
  /-- No ticket is returned twice. -/
  once : (q.results.map Prod.fst).Nodup
  /-- An entry that was pushed and not popped is in its slot. -/
  unread : ∀ t entry, q.won[t]? = some entry → q.taken ≤ t →
    (∃ i, (q.thread i).holds = some (t, .storing) ∨ (q.thread i).holds = some (t, .publishing)) ∨
      q.slot capacity (word t) = ⟨word (t + 1), some entry⟩
  /-- An entry that was popped is returned, or a pop is about to return it. -/
  read : ∀ t, t < q.taken → t ∈ q.results.map Prod.fst ∨
    ∃ i, (q.thread i).holds = some (t, .exchanging) ∨ (q.thread i).holds = some (t, .releasing)

theorem Board.intact (board : Board capacity q stage) : Intact capacity q where
  span := by
    have := board.taken_le
    have := board.le_taken
    have := capacity.size_lt
    rw [board.tail, board.head, toNat_word_sub] <;> omega
  bounds := ⟨board.taken_le, board.le_taken⟩
  results := by
    intro t r member
    have done := (board.returned t).mpr (List.mem_map_of_mem member)
    have inside : t < q.taken := (board.taken t).mp (by rw [done]; trivial)
    obtain ⟨entry, there⟩ : ∃ entry, q.won[t]? = some entry :=
      ⟨_, List.getElem?_eq_getElem (Nat.lt_of_lt_of_le inside board.taken_le)⟩
    exact ⟨inside, entry, there, (board.results t r member).trans there⟩
  once := board.once
  unread := by
    intro t entry there unread
    have inside := (List.getElem?_eq_some_iff.mp there).1
    cases here : stage t with
    | ahead =>
        have := (board.ahead t).mp here
        omega
    | storing =>
        obtain ⟨i, held⟩ := board.roster.holder t (by rw [here]; trivial)
        exact .inl ⟨i, .inl (here ▸ held)⟩
    | publishing =>
        obtain ⟨i, held⟩ := board.roster.holder t (by rw [here]; trivial)
        exact .inl ⟨i, .inr (here ▸ held)⟩
    | full =>
        right
        have := board.le_taken
        rw [board.slot t inside (by omega), here, Stage.content, there]
    | exchanging | releasing | done =>
        have := (board.taken t).mp (by rw [here]; trivial)
        omega
  read := by
    intro t taken
    have reached := (board.taken t).mpr taken
    cases here : stage t with
    | ahead | storing | publishing | full => exact absurd reached (by rw [here]; exact id)
    | done => exact .inl ((board.returned t).mp here)
    | exchanging =>
        obtain ⟨i, held⟩ := board.roster.holder t (by rw [here]; trivial)
        exact .inr ⟨i, .inl (here ▸ held)⟩
    | releasing =>
        obtain ⟨i, held⟩ := board.roster.holder t (by rw [here]; trivial)
        exact .inr ⟨i, .inr (here ▸ held)⟩

variable [DecidableEq ι]

/-- The queue loses, repeats and reorders nothing while its compare-exchanges are timely. -/
theorem queue_intact (capacity : Capacity) (steps : List (QueueStep ι α)) (q : LogQueue ι α)
    (ran : (logQueue ι α capacity).run (logQueue ι α capacity).init steps = some q)
    (timely : (logQueue ι α capacity).Guarded Timely (logQueue ι α capacity).init steps) :
    Intact capacity q := by
  have board : ∃ stage, Board capacity q stage :=
    Machine.Guarded.preserves (I := fun q => ∃ stage, Board capacity q stage)
      (fun _ _ _ ⟨_, board⟩ timely taken => board.step timely taken) ⟨_, Board.construct⟩ timely ran
  obtain ⟨stage, board⟩ := board
  exact board.intact

/-- A sound queue on which no thread is at work, with these counters. -/
structure Resting (capacity : Capacity) (q : LogQueue ι α) (won taken : Nat) : Prop where
  board : ∃ stage, Board capacity q stage
  quiet : ∀ i, (q.thread i).holds = none
  won : q.won.length = won
  taken : q.taken = taken

omit [DecidableEq ι] in
theorem Resting.stage_full {n m t : Nat} (resting : Resting capacity q n m)
    (board : Board capacity q stage) (won : t < n) (unread : m ≤ t) : stage t = .full := by
  have idle : ¬ (stage t).Busy := fun busy => by
    obtain ⟨i, held⟩ := board.roster.holder t busy
    rw [resting.quiet i] at held
    cases held
  have := resting.won
  have := resting.taken
  cases here : stage t with
  | full => rfl
  | ahead =>
      have := (board.ahead t).mp here
      omega
  | done =>
      have := (board.taken t).mp (by rw [here]; trivial)
      omega
  | storing | publishing | exchanging | releasing => exact absurd (by rw [here]; trivial) idle

omit [DecidableEq ι] in
theorem Resting.stage_done {n m t : Nat} (resting : Resting capacity q n m)
    (board : Board capacity q stage) (read : t < m) : stage t = .done := by
  have idle : ¬ (stage t).Busy := fun busy => by
    obtain ⟨i, held⟩ := board.roster.holder t busy
    rw [resting.quiet i] at held
    cases held
  have taken := (board.taken t).mpr (by rw [resting.taken]; exact read)
  cases here : stage t with
  | done => rfl
  | ahead | storing | publishing | full => exact absurd taken (by rw [here]; exact id)
  | exchanging | releasing => exact absurd (by rw [here]; trivial) idle

/-- The steps of a push that nobody disturbs. -/
def soloPush (i : ι) (entry : α) : List (QueueStep ι α) :=
  .push i entry :: List.replicate 5 (.advance i false)

/-- The steps of a pop that nobody disturbs. -/
def soloPop (i : ι) : List (QueueStep ι α) := .pop i :: List.replicate 5 (.advance i false)

/-- The queue behind it. -/
def soloPushed (capacity : Capacity) (q : LogQueue ι α) (i : ι) (entry : α) : LogQueue ι α :=
  { q.setSlot capacity q.tail ⟨q.tail + 1, some entry⟩ with
    tail := q.tail + 1, won := q.won ++ [entry],
    thread := Function.update q.thread i (.pushed true) }

theorem run_soloPush {i : ι} (outside : (q.thread i).Outside) (entry : α)
    (free : (q.slot capacity q.tail).sequence = q.tail) :
    (logQueue ι α capacity).run q (soloPush i entry) = some (soloPushed capacity q i entry) ∧
      (logQueue ι α capacity).Guarded Timely q (soloPush i entry) := by
  have read : diff (q.slots (q.tail &&& capacity.mask)).sequence q.tail = 0 :=
    (diff_eq_zero_iff _ _).mpr free
  constructor
  · simp [soloPush, soloPushed, List.replicate, Machine.run_cons_match, logQueue, outside, advance,
      goto, slot, setSlot, read]
  · simp [soloPush, List.replicate, Machine.Guarded, logQueue, outside, advance, goto, slot,
      setSlot, read, Timely]

/-- A push that nobody disturbs succeeds while there is room. -/
theorem Resting.push {n m : Nat} (resting : Resting capacity q n m) {i : ι}
    (outside : (q.thread i).Outside) (room : n < m + capacity.size) (entry : α) :
    (logQueue ι α capacity).run q (soloPush i entry) = some (soloPushed capacity q i entry) ∧
      Resting capacity (soloPushed capacity q i entry) (n + 1) m := by
  obtain ⟨stage, board⟩ := resting.board
  have free := board.free_slot fun later => by
    have := resting.won
    exact resting.stage_done board (by omega)
  obtain ⟨ran, timely⟩ := run_soloPush outside entry (by rw [board.tail, free])
  refine ⟨ran, ?_, ?_, ?_, ?_⟩
  · exact Machine.Guarded.preserves (I := fun q => ∃ stage, Board capacity q stage)
      (fun _ _ _ ⟨_, board⟩ timely taken => board.step timely taken) ⟨stage, board⟩ timely ran
  · intro j
    by_cases same : j = i
    · simp [soloPushed, same, QueuePc.holds]
    · simpa only [soloPushed, Function.update_of_ne same] using resting.quiet j
  · simp [soloPushed, resting.won]
  · exact resting.taken

/-- The queue behind a pop that nobody disturbs. -/
def soloPopped (capacity : Capacity) (q : LogQueue ι α) (i : ι) : LogQueue ι α :=
  let entry := (q.slot capacity q.head).payload
  { q.setSlot capacity q.head ⟨q.head + capacity.mask + 1, none⟩ with
    head := q.head + 1, taken := q.taken + 1, results := q.results ++ [(q.taken, entry)],
    thread := Function.update q.thread i (.popped entry) }

variable (capacity) in
theorem run_soloPop {i : ι} (outside : (q.thread i).Outside)
    (full : (q.slot capacity q.head).sequence = q.head + 1) :
    (logQueue ι α capacity).run q (soloPop i) = some (soloPopped capacity q i) ∧
      (logQueue ι α capacity).Guarded Timely q (soloPop i) := by
  have read : diff (q.slots (q.head &&& capacity.mask)).sequence (q.head + 1#64) = 0 :=
    (diff_eq_zero_iff _ _).mpr full
  constructor
  · simp [soloPop, soloPopped, List.replicate, Machine.run_cons_match, logQueue, outside, advance,
      goto, slot, setSlot, read]
  · simp [soloPop, List.replicate, Machine.Guarded, logQueue, outside, advance, goto, slot,
      setSlot, read, Timely]

/-- A pop that nobody disturbs succeeds while there is an entry. -/
theorem Resting.pop {n m : Nat} (resting : Resting capacity q n m) {i : ι}
    (outside : (q.thread i).Outside) (some : m < n) :
    (logQueue ι α capacity).run q (soloPop i) = .some (soloPopped capacity q i) ∧
      Resting capacity (soloPopped capacity q i) n (m + 1) := by
  obtain ⟨stage, board⟩ := resting.board
  have won := resting.won
  have taken := resting.taken
  have := board.le_taken
  have full := resting.stage_full board some le_rfl
  have content := board.slot m (by omega) (by omega)
  obtain ⟨ran, timely⟩ := run_soloPop capacity outside (by
    rw [board.head, taken, content, full, word_succ]
    rfl)
  refine ⟨ran, ?_, ?_, ?_, ?_⟩
  · exact Machine.Guarded.preserves (I := fun q => ∃ stage, Board capacity q stage)
      (fun _ _ _ ⟨_, board⟩ timely taken => board.step timely taken) ⟨stage, board⟩ timely ran
  · intro j
    by_cases same : j = i
    · simp [soloPopped, same, QueuePc.holds]
    · simpa only [soloPopped, Function.update_of_ne same] using resting.quiet j
  · exact won
  · simp only [soloPopped, taken]

/-- One thread pushes and pops any number of entries, and nobody else moves. -/
theorem Resting.cycles {start : LogQueue ι α} (resting : Resting capacity start 0 0) {i : ι}
    (outside : (start.thread i).Outside) (entry : α) (n : Nat) :
    ∃ steps q, (logQueue ι α capacity).run start steps = some q ∧ Resting capacity q n n ∧
      (q.thread i).Outside ∧ ∀ j, j ≠ i → q.thread j = start.thread j := by
  have := capacity.two_le_size
  induction n with
  | zero => exact ⟨[], start, rfl, resting, outside, fun _ _ => rfl⟩
  | succ n ih =>
      obtain ⟨steps, q, ran, resting, outside, others⟩ := ih
      obtain ⟨pushRan, pushed⟩ := resting.push outside (by omega) entry
      have between : ((soloPushed capacity q i entry).thread i).Outside := by
        simp [soloPushed, QueuePc.Outside]
      obtain ⟨popRan, popped⟩ := pushed.pop between (by omega)
      refine ⟨steps ++ (soloPush i entry ++ soloPop i), _, ?_, popped, ?_, fun j apart => ?_⟩
      · exact Machine.run_append_some _ |>.mpr
          ⟨q, ran, Machine.run_append_some _ |>.mpr ⟨_, pushRan, popRan⟩⟩
      · simp [soloPopped, QueuePc.Outside]
      · simp only [soloPopped, soloPushed, setSlot, Function.update_of_ne apart, others j apart]

/-- Two slots. -/
def smallest : Capacity := ⟨1, by decide, by decide⟩

/-- One thread pushes two entries, and another one pops between. -/
def passedOn : List (QueueStep Bool Nat) := soloPush true 7 ++ soloPop false ++ soloPush true 8

theorem queue_intact_passedOn : ∃ q : LogQueue Bool Nat,
    (logQueue Bool Nat smallest).run (logQueue Bool Nat smallest).init passedOn = some q ∧
      q.results = [(0, some 7)] ∧ Intact smallest q := by
  have ran : ((logQueue Bool Nat smallest).run (logQueue Bool Nat smallest).init passedOn).any
      fun q => q.results = [(0, some 7)] := by decide
  obtain ⟨q, ran, results⟩ := (Option.any_eq_true _ _).mp ran
  exact ⟨q, ran, of_decide_eq_true results, queue_intact smallest passedOn q ran (by decide)⟩

/-- A push that sleeps at its compare-exchange. -/
def asleep : LogQueue Bool Unit := (construct Bool Unit).goto true (.pushSwapping () 0 0)

theorem run_asleep : (logQueue Bool Unit smallest).run (logQueue Bool Unit smallest).init
    [.push true (), .advance true false, .advance true false] = some asleep := by
  simp [asleep, Machine.run_cons_match, logQueue, construct, advance, goto, QueuePc.Outside, slot,
    smallest, Capacity.mask, Capacity.size, diff]

theorem resting_asleep : Resting smallest asleep 0 0 where
  board := by
    refine ⟨_, Board.construct.goto rfl rfl ⟨rfl, le_rfl, fun _ later => ?_⟩⟩
    have := smallest.two_le_size
    omega
  quiet := fun i => by cases i <;> rfl
  won := rfl
  taken := rfl

/-- If `tail_` goes round once while it sleeps, it takes a slot that is full. -/
theorem sleeper_overruns : ¬ ∀ (steps : List (QueueStep Bool Unit)) (q : LogQueue Bool Unit),
    (logQueue Bool Unit smallest).run (logQueue Bool Unit smallest).init steps = some q →
    Intact smallest q := by
  intro claim
  have size : smallest.size = 2 := rfl
  obtain ⟨steps, q, ran, resting, outside, others⟩ :=
    resting_asleep.cycles (i := false) trivial () (2 ^ 64 - 2)
  obtain ⟨ran1, resting1⟩ := resting.push outside (by omega) ()
  obtain ⟨ran2, resting2⟩ := resting1.push (i := false)
    (by simp [soloPushed, QueuePc.Outside]) (by omega) ()
  -- The words of 0 and of 2 ^ 64 are the same.
  generalize last : soloPushed smallest (soloPushed smallest q false ()) false () = full at *
  have sleeping : full.thread true = .pushSwapping () 0 0 := by
    have apart : true ≠ false := by decide
    simp only [← last, soloPushed, setSlot, Function.update_of_ne apart, others true apart]
    rfl
  have tail : full.tail = 0 := by
    obtain ⟨stage, board⟩ := resting2.board
    rw [board.tail, resting2.won]
    rfl
  have overrun : (logQueue Bool Unit smallest).step full (.advance true false) =
      some ({ full with tail := 1, won := full.won ++ [()] }.goto true
        (.storing () 0 full.won.length)) := by
    simp [logQueue, advance, sleeping, tail]
  have whole := Machine.run_append_some _ |>.mpr ⟨_, run_asleep, Machine.run_append_some _ |>.mpr
    ⟨_, ran, Machine.run_append_some _ |>.mpr ⟨_, ran1, Machine.run_append_some _ |>.mpr
      ⟨_, ran2, Machine.run_cons_some _ |>.mpr ⟨_, overrun, Machine.run_nil _ _⟩⟩⟩⟩⟩
  have intact := claim _ _ whole
  have bound := intact.bounds.2
  simp only [goto, List.length_append, List.length_singleton, resting2.won, resting2.taken, size]
    at bound
  omega

end LogQueue

end Corio.Logging
