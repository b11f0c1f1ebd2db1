import Corio.Logging.Tickets
import Mathlib.Data.Nat.ModEq

/-! # The queue in one thread

`push` and `pop` from the call to the return, for every capacity that the constructor accepts.
With two slots or more they are those of a bounded list. The one slot of a queue of capacity 1
says when it is full what it says when it is free for the next ticket.
-/

namespace Corio.Logging

/-- The members of a `LogQueue`. -/
structure Members (α : Type) where
  slots : Word → Slot α
  mask : Word
  head : Word
  tail : Word

inductive Call (α : Type) where
  | push (entry : α)
  | pop
  deriving DecidableEq, Repr

inductive Reply (α : Type) where
  | pushed (done : Bool)
  /-- With an entry exactly if the result is true. -/
  | popped (entry : Option α)
  deriving DecidableEq, Repr

/-- A list of at most this size, first in, first out. -/
def fifo {α : Type} (size : Nat) (queued : List α) : Call α → Reply α × List α
  | .push entry =>
      if queued.length < size then (.pushed true, queued ++ [entry]) else (.pushed false, queued)
  | .pop =>
      match queued with
      | [] => (.popped none, [])
      | oldest :: rest => (.popped (some oldest), rest)

namespace Members

variable {α : Type}

/-- The constructor, or `none` where it throws. -/
def construct (α : Type) (capacity : Word) : Option (Members α) :=
  if capacity = 0 ∨ capacity &&& (capacity - 1) ≠ 0 then none
  else some ⟨fun i => ⟨i, none⟩, capacity - 1, 0, 0⟩

/-- The slot for a position. -/
def slot (q : Members α) (pos : Word) : Slot α := q.slots (pos &&& q.mask)

def setSlot (q : Members α) (pos : Word) (slot : Slot α) : Members α :=
  { q with slots := Function.update q.slots (pos &&& q.mask) slot }

/-- The loop of `push` for some turns. The compare-exchange fails `spurious` times for no
    reason. -/
def pushLoop (q : Members α) (entry : α) : Nat → Nat → Word → Option (Bool × Members α)
  | 0, _, _ => none
  | turns + 1, spurious, pos =>
      let diff := LogQueue.diff (q.slot pos).sequence pos
      if diff = 0 then
        if q.tail = pos ∧ spurious = 0 then
          let q := { q with tail := pos + 1 }
          let q := q.setSlot pos { q.slot pos with payload := some entry }
          some (true, q.setSlot pos { q.slot pos with sequence := pos + 1 })
        else pushLoop q entry turns (spurious - 1) q.tail
      else if diff < 0 then some (false, q)
      else pushLoop q entry turns spurious q.tail

/-- The loop of `pop`. -/
def popLoop (q : Members α) : Nat → Nat → Word → Option (Option α × Members α)
  | 0, _, _ => none
  | turns + 1, spurious, pos =>
      let diff := LogQueue.diff (q.slot pos).sequence (pos + 1)
      if diff = 0 then
        if q.head = pos ∧ spurious = 0 then
          let q := { q with head := pos + 1 }
          let entry := (q.slot pos).payload
          let q := q.setSlot pos { q.slot pos with payload := none }
          some (entry, q.setSlot pos { q.slot pos with sequence := pos + q.mask + 1 })
        else popLoop q turns (spurious - 1) q.head
      else if diff < 0 then some (none, q)
      else popLoop q turns spurious q.head

def call (q : Members α) (turns spurious : Nat) : Call α → Option (Reply α × Members α)
  | .push entry =>
      (q.pushLoop entry turns spurious q.tail).map fun (done, q) => (.pushed done, q)
  | .pop => (q.popLoop turns spurious q.head).map fun (entry, q) => (.popped entry, q)

/-- The call terminates, with this reply. -/
def Returns (q : Members α) (call : Call α) (spurious : Nat) (reply : Reply α)
    (q' : Members α) : Prop :=
  ∃ turns, q.call turns spurious call = some (reply, q')

/-- Every one of these calls terminates, with the reply of the list. Beside each stands how often
    its compare-exchange fails for no reason. -/
def ActsAs (size : Nat) : Members α → List α → List (Call α × Nat) → Prop
  | _, _, [] => True
  | q, queued, (call, spurious) :: rest =>
      ∃ q', q.Returns call spurious (fifo size queued call).1 q' ∧
        ActsAs size q' (fifo size queued call).2 rest

end Members

/-- The call is no push to a list of that size. -/
def Call.Roomy {α : Type} (size : Nat) (queued : List α) : Call α → Prop
  | .push _ => queued.length < size
  | .pop => True

/-- The step in which a thread makes the call. -/
def Call.step {ι α : Type} (i : ι) : Call α → QueueStep ι α
  | .push entry => .push i entry
  | .pop => .pop i

/-- Where a thread is that was given the reply. -/
def Reply.pc {α : Type} : Reply α → QueuePc α
  | .pushed done => .pushed done
  | .popped entry => .popped entry

/-- No entry is pushed while that many are queued. -/
def Roomy {α : Type} (size : Nat) : List α → List (Call α × Nat) → Prop
  | _, [] => True
  | queued, (call, _) :: rest =>
      call.Roomy size queued ∧ Roomy size (fifo size queued call).2 rest

/-! ## Words -/

section Words

variable {bits : Nat}

/-- Positions less than a lap apart have different slots. -/
theorem low_inj (fits : bits < 64) {m n : Nat} (le : m ≤ n) (near : n < m + 2 ^ bits)
    (same : word n &&& word (2 ^ bits - 1) = word m &&& word (2 ^ bits - 1)) : n = m := by
  rw [← BitVec.toNat_inj, word_and_low fits, word_and_low fits] at same
  have lap : 2 ^ bits ∣ n - m := (Nat.modEq_iff_dvd' le).mp same.symm
  have := Nat.eq_zero_of_dvd_of_lt lap (by omega)
  omega

/-- A position one lap further on has the same slot. -/
theorem low_lap (fits : bits < 64) (n : Nat) :
    word (n + 2 ^ bits) &&& word (2 ^ bits - 1) = word n &&& word (2 ^ bits - 1) := by
  rw [← BitVec.toNat_inj, word_and_low fits, word_and_low fits, Nat.add_mod_right]

theorem diff_word {m n : Nat} (less : m < n) (near : n ≤ m + 2 ^ 63) :
    LogQueue.diff (word m) (word n) < 0 := by
  rw [LogQueue.diff, BitVec.toInt_neg_iff, BitVec.toNat_sub, word, word, BitVec.toNat_ofNat,
    BitVec.toNat_ofNat]
  omega

/-- The constructor accepts the powers of two. -/
theorem construct_some {α : Type} {capacity : Word} {q : Members α}
    (accepted : Members.construct α capacity = some q) :
    ∃ bits < 64, capacity = word (2 ^ bits) ∧
      q = ⟨fun i => ⟨i, none⟩, word (2 ^ bits - 1), 0, 0⟩ := by
  unfold Members.construct at accepted
  split at accepted
  · cases accepted
  · rename_i power
    obtain ⟨nonzero, zero⟩ := not_or.mp power
    have value : capacity.toNat ≠ 0 := fun none_ => nonzero (BitVec.eq_of_toNat_eq none_)
    have less : (capacity - 1).toNat = capacity.toNat - 1 :=
      BitVec.toNat_sub_of_le (BitVec.le_def.mpr (Nat.one_le_iff_ne_zero.mpr value))
    have and_ : capacity.toNat &&& (capacity.toNat - 1) = 0 := by
      rw [← less, ← BitVec.toNat_and, not_not.mp zero]
      rfl
    obtain ⟨bits, same⟩ := Nat.ne_zero_and_sub_one_eq_zero_iff_isPowerOfTwo.mp ⟨value, and_⟩
    have fits : bits < 64 := (Nat.pow_lt_pow_iff_right (by omega)).mp (same ▸ capacity.isLt)
    have wide : capacity = word (2 ^ bits) := by
      rw [← same, word, BitVec.ofNat_toNat, BitVec.setWidth_eq]
    have mask : capacity - 1 = word (2 ^ bits - 1) := by
      rw [← same, ← less, word, BitVec.ofNat_toNat, BitVec.setWidth_eq]
    exact ⟨bits, fits, wide, mask ▸ (Option.some.inj accepted).symm⟩

end Words

namespace Members

variable {α : Type} {q : Members α}

/-! ## One call -/

theorem slot_setSlot (pos pos' : Word) (slot : Slot α) :
    (q.setSlot pos slot).slot pos' =
      if pos' &&& q.mask = pos &&& q.mask then slot else q.slot pos' := by
  simp only [Members.slot, setSlot, Function.update_apply]

/-- What a push leaves that got a free slot. -/
def pushed (q : Members α) (entry : α) : Members α :=
  { q.setSlot q.tail ⟨q.tail + 1, some entry⟩ with tail := q.tail + 1 }

/-- What a pop leaves that got a full slot. -/
def popped (q : Members α) : Members α :=
  { q.setSlot q.head ⟨q.head + q.mask + 1, none⟩ with head := q.head + 1 }

theorem returns_pushed (free : (q.slot q.tail).sequence = q.tail) (entry : α) (spurious : Nat) :
    q.Returns (.push entry) spurious (.pushed true) (q.pushed entry) := by
  have read : LogQueue.diff (q.slot q.tail).sequence q.tail = 0 := (diff_eq_zero_iff _ _).mpr free
  have loop : ∃ turns, q.pushLoop entry turns spurious q.tail = some (true, q.pushed entry) := by
    induction spurious with
    | zero =>
        refine ⟨1, ?_⟩
        rw [pushLoop, if_pos read, if_pos ⟨rfl, rfl⟩]
        simp only [pushed, setSlot, slot, Function.update_self, Function.update_idem]
    | succ spurious ih =>
        obtain ⟨turns, returned⟩ := ih
        refine ⟨turns + 1, ?_⟩
        rw [pushLoop, if_pos read, if_neg (fun last => Nat.succ_ne_zero _ last.2)]
        exact returned
  obtain ⟨turns, returned⟩ := loop
  exact ⟨turns, by rw [call, returned]; rfl⟩

theorem returns_popped (full : (q.slot q.head).sequence = q.head + 1) (spurious : Nat) :
    q.Returns .pop spurious (.popped (q.slot q.head).payload) q.popped := by
  have read : LogQueue.diff (q.slot q.head).sequence (q.head + 1) = 0 :=
    (diff_eq_zero_iff _ _).mpr full
  have loop : ∃ turns, q.popLoop turns spurious q.head =
      some ((q.slot q.head).payload, q.popped) := by
    induction spurious with
    | zero =>
        refine ⟨1, ?_⟩
        rw [popLoop, if_pos read, if_pos ⟨rfl, rfl⟩]
        simp only [popped, setSlot, slot, Function.update_self, Function.update_idem]
    | succ spurious ih =>
        obtain ⟨turns, returned⟩ := ih
        refine ⟨turns + 1, ?_⟩
        rw [popLoop, if_pos read, if_neg (fun last => Nat.succ_ne_zero _ last.2)]
        exact returned
  obtain ⟨turns, returned⟩ := loop
  exact ⟨turns, by rw [call, returned]; rfl⟩

theorem returns_full (behind : LogQueue.diff (q.slot q.tail).sequence q.tail < 0) (entry : α)
    (spurious : Nat) : q.Returns (.push entry) spurious (.pushed false) q :=
  ⟨1, by simp only [call, pushLoop, if_neg (Int.ne_of_lt behind), if_pos behind, Option.map_some]⟩

theorem returns_empty (behind : LogQueue.diff (q.slot q.head).sequence (q.head + 1) < 0)
    (spurious : Nat) : q.Returns .pop spurious (.popped none) q :=
  ⟨1, by simp only [call, popLoop, if_neg (Int.ne_of_lt behind), if_pos behind, Option.map_some]⟩

/-! ## A call that nobody disturbs -/

/-- The members of a queue that threads share. -/
def ofShared {ι : Type} (capacity : Capacity) (q : LogQueue ι α) : Members α :=
  ⟨q.slots, capacity.mask, q.head, q.tail⟩

section Shared

open LogQueue

variable {ι : Type} [DecidableEq ι] {capacity : Capacity} {i : ι} {s s' : LogQueue ι α}

theorem thread_goto (s : LogQueue ι α) (i : ι) (pc : QueuePc α) : (s.goto i pc).thread i = pc := by
  simp only [goto, Function.update_self]

theorem run_advance {spurious : Bool} {steps : List (QueueStep ι α)} {mid : LogQueue ι α}
    (step : s.advance capacity i spurious = some mid)
    (later : (logQueue ι α capacity).run mid steps = some s') :
    (logQueue ι α capacity).run s (.advance i spurious :: steps) = some s' :=
  Machine.run_cons_some _ |>.mpr ⟨mid, step, later⟩

variable (capacity) in
theorem run_pushSwapping {entry : α} {pos : Word} {since : Nat}
    (swapping : s.thread i = .pushSwapping entry pos since) (tail : s.tail = pos) :
    (logQueue ι α capacity).run s (List.replicate 3 (.advance i false)) = some
      ({ s.setSlot capacity pos ⟨pos + 1, some entry⟩ with
         tail := pos + 1, won := s.won ++ [entry] }.goto i (.pushed true)) := by
  simp [List.replicate, Machine.run_cons_match, logQueue, advance, goto, LogQueue.slot,
    LogQueue.setSlot, tail, swapping]

/-- The steps of a thread in the loop of `push` that is not disturbed are the loop's turns. -/
theorem run_pushLoop {turns spurious since : Nat} {entry : α} {pos : Word}
    {answer : Bool × Members α} (reading : s.thread i = .pushReading entry pos since)
    (returned : (ofShared capacity s).pushLoop entry turns spurious pos = some answer) :
    ∃ steps s', (logQueue ι α capacity).run s steps = some s' ∧
      ofShared capacity s' = answer.2 ∧ s'.thread i = .pushed answer.1 := by
  induction turns generalizing s spurious since pos with
  | zero => cases returned
  | succ turns ih =>
      rw [pushLoop] at returned
      by_cases equal : diff ((ofShared capacity s).slot pos).sequence pos = 0
      · have read : s.advance capacity i false =
            some (s.goto i (.pushSwapping entry pos since)) := by
          rw [advance, reading]
          exact if_pos equal
        rw [if_pos equal] at returned
        by_cases wins : (ofShared capacity s).tail = pos ∧ spurious = 0
        · rw [if_pos wins] at returned
          obtain rfl := Option.some.inj returned
          have tail : s.tail = pos := wins.1
          have swapped := run_pushSwapping capacity
            (thread_goto s i (.pushSwapping entry pos since)) tail
          refine ⟨_, _, run_advance read swapped, ?_, thread_goto _ i _⟩
          simp [ofShared, LogQueue.setSlot, goto, Members.setSlot, Members.slot]
        · rw [if_neg wins] at returned
          have missed : (s.goto i (.pushSwapping entry pos since)).advance capacity i true =
              some ((s.goto i (.pushSwapping entry pos since)).goto i
                (.pushReading entry s.tail s.won.length)) := by
            simp [advance, goto]
          obtain ⟨steps, s', ran, behind⟩ := ih (thread_goto (s.goto i _) i _) returned
          exact ⟨_, s', run_advance read (run_advance missed ran), behind⟩
      · rw [if_neg equal] at returned
        by_cases less : diff ((ofShared capacity s).slot pos).sequence pos < 0
        · rw [if_pos less] at returned
          obtain rfl := Option.some.inj returned
          have read : s.advance capacity i false = some (s.goto i (.pushed false)) := by
            rw [advance, reading]
            exact (if_neg equal).trans (if_pos less)
          exact ⟨_, _, run_advance read (Machine.run_nil _ _), rfl, thread_goto s i _⟩
        · rw [if_neg less] at returned
          have read : s.advance capacity i false = some (s.goto i (.loadingTail entry)) := by
            rw [advance, reading]
            exact (if_neg equal).trans (if_neg less)
          have loaded : (s.goto i (.loadingTail entry)).advance capacity i false =
              some ((s.goto i (.loadingTail entry)).goto i
                (.pushReading entry s.tail s.won.length)) := by
            simp [advance, goto]
          obtain ⟨steps, s', ran, behind⟩ := ih (thread_goto (s.goto i _) i _) returned
          exact ⟨_, s', run_advance read (run_advance loaded ran), behind⟩

variable (capacity) in
theorem run_popSwapping {pos : Word} {since : Nat}
    (swapping : s.thread i = .popSwapping pos since) (head : s.head = pos) :
    (logQueue ι α capacity).run s (List.replicate 3 (.advance i false)) = some
      ({ s.setSlot capacity pos ⟨pos + capacity.mask + 1, none⟩ with
         head := pos + 1, taken := s.taken + 1
         results := s.results ++ [(s.taken, (s.slot capacity pos).payload)] }.goto i
        (.popped (s.slot capacity pos).payload)) := by
  simp [List.replicate, Machine.run_cons_match, logQueue, advance, goto, LogQueue.slot,
    LogQueue.setSlot, head, swapping]

/-- The same for `pop`. -/
theorem run_popLoop {turns spurious since : Nat} {pos : Word} {answer : Option α × Members α}
    (reading : s.thread i = .popReading pos since)
    (returned : (ofShared capacity s).popLoop turns spurious pos = some answer) :
    ∃ steps s', (logQueue ι α capacity).run s steps = some s' ∧
      ofShared capacity s' = answer.2 ∧ s'.thread i = .popped answer.1 := by
  induction turns generalizing s spurious since pos with
  | zero => cases returned
  | succ turns ih =>
      rw [popLoop] at returned
      by_cases equal : diff ((ofShared capacity s).slot pos).sequence (pos + 1) = 0
      · have read : s.advance capacity i false = some (s.goto i (.popSwapping pos since)) := by
          rw [advance, reading]
          exact if_pos equal
        rw [if_pos equal] at returned
        by_cases wins : (ofShared capacity s).head = pos ∧ spurious = 0
        · rw [if_pos wins] at returned
          obtain rfl := Option.some.inj returned
          have head : s.head = pos := wins.1
          have swapped := run_popSwapping capacity (thread_goto s i (.popSwapping pos since)) head
          refine ⟨_, _, run_advance read swapped, ?_, thread_goto _ i _⟩
          simp [ofShared, LogQueue.setSlot, goto, Members.setSlot, Members.slot]
        · rw [if_neg wins] at returned
          have missed : (s.goto i (.popSwapping pos since)).advance capacity i true =
              some ((s.goto i (.popSwapping pos since)).goto i (.popReading s.head s.taken)) := by
            simp [advance, goto]
          obtain ⟨steps, s', ran, behind⟩ := ih (thread_goto (s.goto i _) i _) returned
          exact ⟨_, s', run_advance read (run_advance missed ran), behind⟩
      · rw [if_neg equal] at returned
        by_cases less : diff ((ofShared capacity s).slot pos).sequence (pos + 1) < 0
        · rw [if_pos less] at returned
          obtain rfl := Option.some.inj returned
          have read : s.advance capacity i false = some (s.goto i (.popped none)) := by
            rw [advance, reading]
            exact (if_neg equal).trans (if_pos less)
          exact ⟨_, _, run_advance read (Machine.run_nil _ _), rfl, thread_goto s i _⟩
        · rw [if_neg less] at returned
          have read : s.advance capacity i false = some (s.goto i .loadingHead) := by
            rw [advance, reading]
            exact (if_neg equal).trans (if_neg less)
          have loaded : (s.goto i .loadingHead).advance capacity i false =
              some ((s.goto i .loadingHead).goto i (.popReading s.head s.taken)) := by
            simp [advance, goto]
          obtain ⟨steps, s', ran, behind⟩ := ih (thread_goto (s.goto i _) i _) returned
          exact ⟨_, s', run_advance read (run_advance loaded ran), behind⟩

/-- What a call returns is what it returns to a thread that shares the queue and is not
    disturbed. -/
theorem Returns.run {call : Call α} {spurious : Nat} {reply : Reply α} {q : Members α}
    (returned : (ofShared capacity s).Returns call spurious reply q)
    (outside : (s.thread i).Outside) :
    ∃ steps s', (logQueue ι α capacity).run s (call.step i :: steps) = some s' ∧
      ofShared capacity s' = q ∧ s'.thread i = reply.pc := by
  obtain ⟨turns, returned⟩ := returned
  cases call with
  | push entry =>
      obtain ⟨answer, looped, same⟩ := Option.map_eq_some_iff.mp returned
      obtain ⟨rfl, rfl⟩ := Prod.mk.inj same
      have begun : (logQueue ι α capacity).step s (.push i entry) =
          some (s.goto i (.loadingTail entry)) := if_pos outside
      have loaded : (s.goto i (.loadingTail entry)).advance capacity i false =
          some ((s.goto i (.loadingTail entry)).goto i
            (.pushReading entry s.tail s.won.length)) := by
        simp [advance, goto]
      obtain ⟨steps, s', ran, behind⟩ := run_pushLoop (thread_goto (s.goto i _) i _) looped
      exact ⟨_, s', Machine.run_cons_some _ |>.mpr ⟨_, begun, run_advance loaded ran⟩, behind⟩
  | pop =>
      obtain ⟨answer, looped, same⟩ := Option.map_eq_some_iff.mp returned
      obtain ⟨rfl, rfl⟩ := Prod.mk.inj same
      have begun : (logQueue ι α capacity).step s (.pop i) = some (s.goto i .loadingHead) :=
        if_pos outside
      have loaded : (s.goto i .loadingHead).advance capacity i false =
          some ((s.goto i .loadingHead).goto i (.popReading s.head s.taken)) := by
        simp [advance, goto]
      obtain ⟨steps, s', ran, behind⟩ := run_popLoop (thread_goto (s.goto i _) i _) looped
      exact ⟨_, s', Machine.run_cons_some _ |>.mpr ⟨_, begun, run_advance loaded ran⟩, behind⟩

end Shared

/-! ## What a call returns is determined -/

theorem pushLoop_succ {entry : α} {turns spurious : Nat} {pos : Word} {answer : Bool × Members α}
    (returned : q.pushLoop entry turns spurious pos = some answer) :
    q.pushLoop entry (turns + 1) spurious pos = some answer := by
  induction turns generalizing spurious pos with
  | zero => cases returned
  | succ turns ih =>
      rw [pushLoop] at returned ⊢
      split_ifs at returned ⊢
      · exact returned
      · exact ih returned
      · exact returned
      · exact ih returned

theorem popLoop_succ {turns spurious : Nat} {pos : Word} {answer : Option α × Members α}
    (returned : q.popLoop turns spurious pos = some answer) :
    q.popLoop (turns + 1) spurious pos = some answer := by
  induction turns generalizing spurious pos with
  | zero => cases returned
  | succ turns ih =>
      rw [popLoop] at returned ⊢
      split_ifs at returned ⊢
      · exact returned
      · exact ih returned
      · exact returned
      · exact ih returned

theorem call_le {call : Call α} {turns turns' spurious : Nat} {answer : Reply α × Members α}
    (le : turns ≤ turns') (returned : q.call turns spurious call = some answer) :
    q.call turns' spurious call = some answer := by
  induction le with
  | refl => exact returned
  | step _ ih =>
      cases call with
      | push entry =>
          obtain ⟨found, same, mapped⟩ := Option.map_eq_some_iff.mp ih
          exact Option.map_eq_some_iff.mpr ⟨found, pushLoop_succ same, mapped⟩
      | pop =>
          obtain ⟨found, same, mapped⟩ := Option.map_eq_some_iff.mp ih
          exact Option.map_eq_some_iff.mpr ⟨found, popLoop_succ same, mapped⟩

theorem Returns.unique {call : Call α} {spurious : Nat} {reply reply' : Reply α}
    {q₁ q₂ : Members α} (first : q.Returns call spurious reply q₁)
    (second : q.Returns call spurious reply' q₂) : reply = reply' ∧ q₁ = q₂ := by
  obtain ⟨turns, first⟩ := first
  obtain ⟨turns', second⟩ := second
  have both := (call_le (Nat.le_max_left turns turns') first).symm.trans
    (call_le (Nat.le_max_right turns turns') second)
  exact Prod.mk.inj (Option.some.inj both)

/-! ## The entries of a queue -/

/-- A queue of `2 ^ bits` slots with these entries, of which the oldest has this ticket. -/
structure Holds (bits : Nat) (q : Members α) (oldest : Nat) (queued : List α) : Prop where
  mask : q.mask = word (2 ^ bits - 1)
  head : q.head = word oldest
  tail : q.tail = word (oldest + queued.length)
  le : queued.length ≤ 2 ^ bits
  full : ∀ i < queued.length, q.slot (word (oldest + i)) = ⟨word (oldest + i + 1), queued[i]?⟩
  free : ∀ i, queued.length ≤ i → i < 2 ^ bits →
    q.slot (word (oldest + i)) = ⟨word (oldest + i), none⟩

namespace Holds

variable {bits oldest : Nat} {queued : List α}

theorem construct (fits : bits < 64) :
    Holds bits (⟨fun i => ⟨i, none⟩, word (2 ^ bits - 1), 0, 0⟩ : Members α) 0 [] := by
  refine ⟨rfl, rfl, rfl, Nat.zero_le _, fun i less => absurd less (Nat.not_lt_zero i), ?_⟩
  intro i _ less
  have low : word i &&& word (2 ^ bits - 1) = word i := by
    have : 2 ^ bits < 2 ^ 64 := Nat.pow_lt_pow_right (by omega) fits
    rw [← BitVec.toNat_inj, word_and_low fits, word, BitVec.toNat_ofNat, Nat.mod_eq_of_lt less,
      Nat.mod_eq_of_lt (by omega)]
  rw [Nat.zero_add, slot, low]

theorem push (holds : Holds bits q oldest queued) (fits : bits < 64)
    (room : queued.length < 2 ^ bits) (entry : α) (spurious : Nat) :
    q.Returns (.push entry) spurious (.pushed true) (q.pushed entry) ∧
      Holds bits (q.pushed entry) oldest (queued ++ [entry]) := by
  have here := holds.free queued.length le_rfl room
  rw [← holds.tail] at here
  have slots (pos : Word) : (q.pushed entry).slot pos =
      if pos &&& q.mask = q.tail &&& q.mask then ⟨q.tail + 1, some entry⟩ else q.slot pos :=
    slot_setSlot (q := q) q.tail pos _
  refine ⟨returns_pushed (by rw [here]) entry spurious, holds.mask, holds.head, ?_, ?_, ?_, ?_⟩
  · rw [pushed, holds.tail, word_succ, List.length_append]
    rfl
  · rw [List.length_append]
    exact room
  · intro i less
    rw [List.length_append, List.length_singleton] at less
    rw [slots, holds.tail, holds.mask]
    by_cases last : i = queued.length
    · rw [if_pos (by rw [last]), last, word_succ, List.getElem?_concat_length]
    · rw [if_neg, holds.full i (by omega), List.getElem?_append_left (by omega)]
      intro same
      have := low_inj fits (by omega) (by omega) same.symm
      omega
  · intro i le less
    rw [List.length_append, List.length_singleton] at le
    rw [slots, holds.tail, holds.mask, if_neg, holds.free i (by omega) less]
    intro same
    have := low_inj fits (by omega) (by omega) same
    omega

theorem pop {entry : α} (holds : Holds bits q oldest (entry :: queued)) (fits : bits < 64)
    (spurious : Nat) :
    q.Returns .pop spurious (.popped (some entry)) q.popped ∧
      Holds bits q.popped (oldest + 1) queued := by
  have here := holds.full 0 (Nat.zero_lt_succ _)
  have le := holds.le
  rw [List.length_cons] at le
  rw [Nat.add_zero, ← word_succ, ← holds.head, List.getElem?_cons_zero] at here
  have slots (pos : Word) : q.popped.slot pos =
      if pos &&& q.mask = q.head &&& q.mask then ⟨q.head + q.mask + 1, none⟩ else q.slot pos :=
    slot_setSlot (q := q) q.head pos _
  have lap : q.head + q.mask + 1 = word (oldest + 2 ^ bits) := by
    rw [holds.head, holds.mask, word, word, ← BitVec.ofNat_add, ← word, word_succ]
    congr 1
    omega
  have answered := returns_popped (q := q) (by rw [here]) spurious
  rw [here] at answered
  refine ⟨answered, holds.mask, ?_, ?_, by omega, ?_, ?_⟩
  · rw [popped, holds.head, word_succ]
  · have tail := holds.tail
    rw [List.length_cons, Nat.add_comm queued.length, ← Nat.add_assoc] at tail
    exact tail
  · intro i less
    have old := holds.full (i + 1) (Nat.succ_lt_succ less)
    rw [List.getElem?_cons_succ, Nat.add_comm i, ← Nat.add_assoc] at old
    rw [slots, holds.head, holds.mask, if_neg, old]
    intro same
    have := low_inj fits (by omega) (by omega) same
    omega
  · intro i le' less
    rw [slots, holds.head, holds.mask]
    by_cases last : i + 1 = 2 ^ bits
    · have again : oldest + 1 + i = oldest + 2 ^ bits := by omega
      rw [again, if_pos (low_lap fits oldest), ← holds.head, ← holds.mask, lap]
    · have old := holds.free (i + 1) (Nat.succ_le_succ le') (by omega)
      rw [Nat.add_comm i, ← Nat.add_assoc] at old
      rw [if_neg, old]
      intro same
      have := low_inj fits (by omega) (by omega) same
      omega

theorem push_full (holds : Holds bits q oldest queued) (fits : bits < 64) (two : 1 ≤ bits)
    (full : queued.length = 2 ^ bits) (entry : α) (spurious : Nat) :
    q.Returns (.push entry) spurious (.pushed false) q := by
  have wide : 2 ^ 1 ≤ 2 ^ bits := Nat.pow_le_pow_right (by omega) two
  have narrow : 2 ^ bits ≤ 2 ^ 63 := Nat.pow_le_pow_right (by omega) (by omega)
  have here := holds.full 0 (by omega)
  have same : q.slot q.tail = q.slot (word (oldest + 0)) := by
    rw [slot, slot, holds.tail, holds.mask, full, low_lap fits, Nat.add_zero]
  refine returns_full ?_ entry spurious
  rw [same, here, holds.tail]
  exact diff_word (by omega) (by omega)

theorem pop_empty (holds : Holds bits q oldest []) (spurious : Nat) :
    q.Returns .pop spurious (.popped none) q := by
  have here := holds.free 0 le_rfl (Nat.two_pow_pos bits)
  refine returns_empty ?_ spurious
  rw [holds.head, ← Nat.add_zero oldest, here, word_succ]
  exact diff_word (by omega) (by omega)

/-- The one slot of a full queue is taken for a free one. -/
theorem push_one (holds : Holds 0 q oldest queued) (full : queued.length = 1) (entry : α)
    (spurious : Nat) : q.Returns (.push entry) spurious (.pushed true) (q.pushed entry) := by
  have here := holds.full 0 (by omega)
  have same : q.slot q.tail = q.slot (word (oldest + 0)) := by
    have fits : 0 < 64 := by omega
    have lap := low_lap fits oldest
    rw [slot, slot, holds.tail, holds.mask, full, Nat.add_zero]
    exact congrArg q.slots lap
  refine returns_pushed ?_ entry spurious
  rw [same, here, holds.tail, full]

/-- A call to a queue with more than one slot, or with room, is one to the list. -/
theorem call (holds : Holds bits q oldest queued) (fits : bits < 64) (call : Call α)
    (spurious : Nat) (fine : 1 ≤ bits ∨ call.Roomy (2 ^ bits) queued) :
    ∃ q' oldest', q.Returns call spurious (fifo (2 ^ bits) queued call).1 q' ∧
      Holds bits q' oldest' (fifo (2 ^ bits) queued call).2 := by
  cases call with
  | push entry =>
      by_cases room : queued.length < 2 ^ bits
      · rw [fifo, if_pos room]
        exact ⟨_, _, holds.push fits room entry spurious⟩
      · rw [fifo, if_neg room]
        have full := Nat.le_antisymm holds.le (Nat.not_lt.mp room)
        exact ⟨_, _, holds.push_full fits (fine.resolve_right room) full entry spurious, holds⟩
  | pop =>
      cases queued with
      | nil => exact ⟨_, _, holds.pop_empty spurious, holds⟩
      | cons oldest rest => exact ⟨_, _, holds.pop fits spurious⟩

theorem actsAs_iff (holds : Holds bits q oldest queued) (fits : bits < 64)
    (calls : List (Call α × Nat)) :
    q.ActsAs (2 ^ bits) queued calls ↔ (bits = 0 → Roomy (2 ^ bits) queued calls) := by
  induction calls generalizing q oldest queued with
  | nil => exact iff_of_true trivial fun _ => trivial
  | cons first rest ih =>
      obtain ⟨call, spurious⟩ := first
      by_cases fine : 1 ≤ bits ∨ call.Roomy (2 ^ bits) queued
      · obtain ⟨q', oldest', returned, behind⟩ := holds.call fits call spurious fine
        rw [ActsAs, Roomy]
        constructor
        · rintro ⟨q'', returned', acts⟩ one
          rw [← (returned.unique returned').2] at acts
          exact ⟨fine.resolve_left (by omega), (ih behind).mp acts one⟩
        · intro roomy
          exact ⟨q', returned, (ih behind).mpr fun one => (roomy one).2⟩
      · obtain ⟨small, crowded⟩ := not_or.mp fine
        obtain rfl : bits = 0 := by omega
        refine iff_of_false ?_ fun roomy => crowded (roomy rfl).1
        rintro ⟨q', returned, -⟩
        cases call with
        | pop => exact crowded trivial
        | push entry =>
            have full := Nat.le_antisymm holds.le (Nat.not_lt.mp crowded)
            rw [fifo, if_neg (show ¬ queued.length < 2 ^ 0 from crowded)] at returned
            have answer := (returned.unique (holds.push_one full entry spurious)).1
            exact absurd (Reply.pushed.inj answer) (by decide)

end Holds

/-- A queue that is used by one thread is a bounded list, unless it has one slot and an entry is
    pushed while that is full. -/
theorem boundedFifo_iff {capacity : Word} (accepted : construct α capacity = some q)
    (calls : List (Call α × Nat)) :
    q.ActsAs capacity.toNat [] calls ↔ (capacity = 1 → Roomy 1 [] calls) := by
  obtain ⟨bits, fits, rfl, rfl⟩ := construct_some accepted
  have size : (word (2 ^ bits)).toNat = 2 ^ bits := by
    rw [word, BitVec.toNat_ofNat, Nat.mod_eq_of_lt (Nat.pow_lt_pow_right (by omega) fits)]
  have one : word (2 ^ bits) = 1 ↔ bits = 0 := by
    rw [← BitVec.toNat_inj, size]
    exact Nat.pow_eq_one.trans (by simp)
  rw [size, (Holds.construct fits).actsAs_iff fits, one]
  refine imp_congr_right ?_
  rintro rfl
  rfl

/-- The queue of 8192 slots that a logger has by default. -/
theorem boundedFifo_default : ∃ q : Members Nat, construct Nat 8192 = some q ∧
    q.ActsAs 8192 [] [(.push 7, 0), (.push 8, 2), (.pop, 1), (.pop, 0), (.pop, 0)] := by
  have other : (8192 : Word) ≠ 1 := by decide
  exact ⟨_, rfl, (boundedFifo_iff rfl _).mpr fun one => absurd one other⟩

/-- A queue of one slot takes a second entry over the first. -/
theorem oneSlot_overwrites : ∃ q : Members Nat, construct Nat 1 = some q ∧
    ¬ q.ActsAs (1 : Word).toNat [] [(.push 7, 0), (.push 8, 0)] := by
  refine ⟨_, rfl, ?_⟩
  rintro ⟨q₁, first, q₂, second, -⟩
  obtain ⟨-, rfl⟩ := first.unique (returns_pushed rfl 7 0)
  exact absurd (second.unique (returns_pushed rfl 8 0)).1 (by decide)

end Members

end Corio.Logging
