import Corio.Epoll.Stream

/-! # What `writen` leaves of a string

The bytes `write` has accepted leave the string and no others do, whatever mix of short
writes, `EINTR` and `EAGAIN` comes. Only a string of 4 GiB and more can be cleared too soon:
when `EAGAIN` comes behind exactly as many bytes as its size cast to `int` says.
-/

namespace Corio.Epoll

/-- The bytes `write` accepts, call by call from `ptr` on. -/
def writtenFrom : List WriteResult → Bytes → Bytes
  | [], ptr => ptr
  | result :: writes, ptr =>
      if ptr = [] then []
      else
        match result with
        | .accepted n => ptr.take n ++ writtenFrom writes (ptr.drop n)
        | .interrupted => writtenFrom writes ptr
        | .again | .failed => []

/-- What `writen(int, std::string &)` returns. -/
def writenValue (writes : List WriteResult) (sbuff : Bytes) : Int :=
  let outcome := writeLoop writes sbuff.length 0
  if outcome.failed then -1 else outcome.writeSum

/-- The accepted bytes are on the wire, the others are left, and their number is returned. -/
structure WritenConserves (socket : Socket) (sbuff : Bytes) : Prop where
  sent : (writenString socket sbuff).2.2.wire = socket.wire ++ writtenFrom socket.writes sbuff
  kept : writtenFrom socket.writes sbuff ++ (writenString socket sbuff).2.1 = sbuff
  returned : writenValue socket.writes sbuff = (writtenFrom socket.writes sbuff).length

def WriteResult.count : WriteResult → Nat
  | .accepted n => n
  | .interrupted | .again | .failed => 0

/-- How many bytes a peer takes before it says `EAGAIN` for the first time. -/
def beforeAgain (writes : List WriteResult) : Nat :=
  ((writes.takeWhile (· ≠ .again)).map WriteResult.count).sum

/-- `EAGAIN` comes too early, and behind as many bytes as the size cast to `int`. -/
def TakenForWhole (writes : List WriteResult) (size : Nat) : Prop :=
  .again ∈ writes ∧ beforeAgain writes < size ∧ (beforeAgain writes : Int) = toInt size

instance (writes : List WriteResult) (size : Nat) : Decidable (TakenForWhole writes size) := by
  unfold TakenForWhole
  infer_instance

/-- Below 4 GiB a size cast to `int` is itself or negative. -/
theorem not_takenForWhole (writes : List WriteResult) {size : Nat} (small : size < 2 ^ 32) :
    ¬ TakenForWhole writes size := by
  intro ⟨_, short, same⟩
  rw [toInt_nat] at same
  split at same <;> omega

/-- The calls of `write` take the front of the string. -/
theorem writtenFrom_eq (writes : List WriteResult) (ptr : Bytes) (writeSum : Nat) :
    writtenFrom writes ptr =
      ptr.take ((writeLoop writes ptr.length writeSum).writeSum - writeSum) := by
  induction writes generalizing ptr writeSum with
  | nil => simp [writtenFrom, writeLoop]
  | cons result writes ih =>
      by_cases empty : ptr = []
      · subst empty
        simp [writtenFrom]
      · have some_ : ¬ ptr.length = 0 := fun none_ => empty (List.length_eq_zero_iff.mp none_)
        simp only [writtenFrom, writeLoop, empty, some_, if_false]
        cases result with
        | accepted n =>
            have rest := ih (ptr.drop n) (writeSum + min n ptr.length)
            have bounds := writeLoop_bounds writes (ptr.drop n).length (writeSum + min n ptr.length)
            have left : ptr.length - min n ptr.length = (ptr.drop n).length := by
              rw [List.length_drop]
              omega
            simp only [left, rest, ← List.take_add]
            rcases Nat.le_total n ptr.length with fits | long
            · rw [Nat.min_eq_left fits] at bounds ⊢
              congr 1
              omega
            · rw [Nat.min_eq_right long] at bounds ⊢
              rw [List.take_of_length_le (by omega), List.take_of_length_le (by omega)]
        | interrupted => exact ih ptr writeSum
        | again | failed => simp

theorem beforeAgain_accepted (n : Nat) (writes : List WriteResult) :
    beforeAgain (.accepted n :: writes) = n + beforeAgain writes := by
  simp [beforeAgain, WriteResult.count]

theorem beforeAgain_interrupted (writes : List WriteResult) :
    beforeAgain (.interrupted :: writes) = beforeAgain writes := by
  simp [beforeAgain, WriteResult.count]

/-- How far the loop comes, unless it fails. -/
theorem writeLoop_writeSum {writes : List WriteResult} {nleft writeSum : Nat}
    (succeeded : (writeLoop writes nleft writeSum).failed = false) :
    (writeLoop writes nleft writeSum).writeSum =
      writeSum + if .again ∈ writes then min (beforeAgain writes) nleft else nleft := by
  induction writes generalizing nleft writeSum with
  | nil => simp [writeLoop]
  | cons result writes ih =>
      simp only [writeLoop] at succeeded ⊢
      by_cases nothing : nleft = 0
      · simp [nothing]
      · simp only [nothing, if_false] at succeeded ⊢
        cases result with
        | accepted n =>
            simp only [ih succeeded, beforeAgain_accepted, List.mem_cons, reduceCtorEq, false_or]
            split <;> omega
        | interrupted =>
            simp only [ih succeeded, beforeAgain_interrupted, List.mem_cons, reduceCtorEq, false_or]
        | again => simp [beforeAgain]
        | failed => cases succeeded

theorem succeeded_of_nonneg {writes : List WriteResult} {sbuff : Bytes}
    (returns : 0 ≤ writenValue writes sbuff) :
    (writeLoop writes sbuff.length 0).failed = false := by
  cases ended : (writeLoop writes sbuff.length 0).failed with
  | false => rfl
  | true =>
      simp only [writenValue, ended, if_true] at returns
      omega

/-- Whether bytes get lost is decided at the end, between clearing and cutting. -/
theorem writenConserves_iff_safe {socket : Socket} {sbuff : Bytes}
    (returns : 0 ≤ writenValue socket.writes sbuff) :
    WritenConserves socket sbuff ↔ SafeFlush socket.writes sbuff := by
  have taken := writtenFrom_eq socket.writes sbuff 0
  have bound := (writeLoop_bounds socket.writes sbuff.length 0).2
  have succeeded := succeeded_of_nonneg returns
  rw [Nat.sub_zero] at taken
  rw [Nat.zero_add] at bound
  constructor
  · intro conserves short same
    have lost := conserves.kept
    simp only [writenString, succeeded, Bool.false_eq_true, if_false, same, if_true, taken,
      List.append_nil] at lost
    have := congrArg List.length lost
    rw [List.length_take] at this
    omega
  · intro safe
    refine ⟨?_, ?_, ?_⟩
    · simp only [writenString, succeeded, Bool.false_eq_true, if_false, taken]
      split <;> rfl
    · simp only [writenString, succeeded, Bool.false_eq_true, if_false, taken]
      split
      · rename_i whole
        have all := Nat.not_lt.mp fun short => safe short whole
        rw [List.append_nil, List.take_of_length_le all]
      · rw [List.take_append_drop]
    · simp only [writenValue, succeeded, Bool.false_eq_true, if_false, taken, List.length_take,
        Nat.min_eq_left bound]

/-- A short write is one that met `EAGAIN`. -/
theorem safeFlush_iff {writes : List WriteResult} {sbuff : Bytes}
    (succeeded : (writeLoop writes sbuff.length 0).failed = false) :
    SafeFlush writes sbuff ↔ ¬ TakenForWhole writes sbuff.length := by
  have reached := writeLoop_writeSum succeeded
  simp only [SafeFlush, TakenForWhole, reached, Nat.zero_add]
  split
  · rename_i again
    rcases Nat.lt_or_ge (beforeAgain writes) sbuff.length with short | whole
    · simp [again, short, Nat.min_eq_left (Nat.le_of_lt short)]
    · simp [Nat.min_eq_right whole, Nat.not_lt.mpr whole]
  · rename_i never
    simp [never]

/-- A string that `writen` has not given up on is conserved unless its size cast to `int` is
    taken for the whole. -/
theorem writen_conserves_iff {socket : Socket} {sbuff : Bytes}
    (returns : 0 ≤ writenValue socket.writes sbuff) :
    WritenConserves socket sbuff ↔ ¬ TakenForWhole socket.writes sbuff.length :=
  (writenConserves_iff_safe returns).trans (safeFlush_iff (succeeded_of_nonneg returns))

/-- A greeting in two short writes with an interrupt between them. -/
theorem writen_conserves_short :
    0 ≤ writenValue [.accepted 2, .interrupted, .accepted 1, .again] (bytes "hello") ∧
      WritenConserves ⟨[], [.accepted 2, .interrupted, .accepted 1, .again], []⟩
        (bytes "hello") :=
  ⟨by decide, (writen_conserves_iff (by decide)).mpr (by decide)⟩

/-- 4 GiB of which nothing is accepted are cleared, and 0 is returned. -/
theorem writen_clears :
    ¬ ∀ (socket : Socket) (sbuff : Bytes), .failed ∉ socket.writes →
      0 ≤ writenValue socket.writes sbuff → WritenConserves socket sbuff := by
  intro always
  obtain ⟨sbuff, size⟩ : ∃ sbuff : Bytes, sbuff.length = 2 ^ 32 :=
    ⟨List.replicate (2 ^ 32) 0, List.length_replicate⟩
  have nothing : writeLoop [.again] sbuff.length 0 = ⟨false, 0, []⟩ := by
    rw [size]
    rfl
  have returns : 0 ≤ writenValue [.again] sbuff := by
    simp [writenValue, nothing]
  have conserves := always ⟨[], [.again], []⟩ sbuff (by simp) returns
  have safe := (writenConserves_iff_safe returns).mp conserves
  simp only [SafeFlush, size] at safe
  exact safe (by decide) (by decide)

end Corio.Epoll
