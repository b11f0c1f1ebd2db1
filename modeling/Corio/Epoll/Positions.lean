import Corio.Epoll.Faults

/-! # The offsets of a header

`hState_` outlives a call of `parseHeaders` and the four offsets do not. A line whose
beginning has come up in this call has its offsets in order; one that an earlier call has begun
has lost its `key_start`, and building its key leaves the string.
-/

namespace Corio.Epoll.Positions

open Faults

/-- The variables at each place where `H_CR` builds a key and a value. -/
def builds (str : Bytes) : Nat → Bytes → Scan → List Scan
  | _, [], _ => []
  | i, c :: rest, s =>
      if s.notFinish then
        (if s.hState = .cr ∧ c = 10 then [s] else []) ++
          match scanChar str i c s with
          | .ok (true, s) => builds str (i + 1) rest s
          | .ok (false, _) => []
          | .error _ => []
      else []

/-- Those of one call of `parseHeaders`. -/
def built (d : HttpData) : List Scan :=
  builds d.inBuffer 0 d.inBuffer { hState := d.hState, headers := d.headers }

/-- The offsets are in order and inside the string, where the key ends in a colon and the value
    in a carriage return. -/
structure InBuffer (str : Bytes) (s : Scan) : Prop where
  start : 0 ≤ s.keyStart
  key : s.keyStart < s.keyEnd
  between : s.keyEnd < s.valueStart
  value : s.valueStart < s.valueEnd
  inside : s.valueEnd ≤ str.length
  colon : str[s.keyEnd.toNat]? = some 58
  return_ : str[s.valueEnd.toNat]? = some 13

/-- A connection whose head is being received. -/
structure Receiving where
  d : HttpData
  /-- The last call has returned `PARSE_HEADER_AGAIN`, or there was none. -/
  again : Bool
  deriving DecidableEq

/-- What the next call of `parseHeaders` sees. -/
def Receiving.appended (r : Receiving) (piece : Bytes) : HttpData :=
  { r.d with inBuffer := r.d.inBuffer ++ piece }

/-- Pieces are appended, each one with a call of `parseHeaders`. -/
def receiving (d : HttpData) : Machine Receiving Bytes where
  init := ⟨d, true⟩
  step r piece :=
    if r.again then
      match parseHeaders (r.appended piece) with
      | .ok (flag, d) => some ⟨d, flag = .again⟩
      | .error _ => none
    else none

/-- The condition on a call: its text has less than 2^31 bytes, and does not complete a line that
    an earlier call has begun. -/
def Whole (r : Receiving) (piece : Bytes) : Prop :=
  r.again = true → (r.appended piece).inBuffer.length < 2 ^ 31 ∧
    closesLine r.d.hState 1 (r.appended piece).inBuffer = false

instance (r : Receiving) (piece : Bytes) : Decidable (Whole r piece) := by
  unfold Whole
  infer_instance

variable {str rest : Bytes} {i : Nat} {c : UInt8} {s s' : Scan}

/-- A key from `first` to `last` has been passed. -/
structure KeyPlaced (str : Bytes) (i : Nat) (first last : Int) : Prop where
  key : first < last
  passed : last < i
  colon : str[last.toNat]? = some 58

/-- What the offsets are worth at this place, for a line that has begun in this call. -/
def Placed (str : Bytes) (i : Nat) (s : Scan) : Prop :=
  match s.hState with
  | .key => s.keyStart < i
  | .colon | .spacesAfterColon => KeyPlaced str i s.keyStart s.keyEnd
  | .value =>
      KeyPlaced str i s.keyStart s.keyEnd ∧ s.keyEnd < s.valueStart ∧ s.valueStart < i
  | .cr =>
      KeyPlaced str i s.keyStart s.keyEnd ∧ s.keyEnd < s.valueStart ∧
        s.valueStart < s.valueEnd ∧ s.valueEnd < i ∧ str[s.valueEnd.toNat]? = some 13
  | .start | .lf | .endCR | .endLF => True

theorem KeyPlaced.succ {first last : Int} (key : KeyPlaced str i first last) :
    KeyPlaced str (i + 1) first last :=
  ⟨key.key, Int.lt_trans key.passed (by omega), key.colon⟩

/-- A turn keeps the offsets of such a line in order. -/
theorem scanChar_placed (whole : toInt i = i) (here : str[i]? = some c)
    (placed : 0 ≤ s.keyStart → Placed str i s) (turn : scanChar str i c s = .ok (true, s'))
    (begun : 0 ≤ s'.keyStart) : Placed str (i + 1) s' := by
  cases state : s.hState with simp only [scanChar, state] at turn
  | start =>
      split at turn
      · cases turn
        simp only [Placed, state]
      · cases turn
        simp only [Placed, whole]
        omega
  | key =>
      split at turn
      · rename_i colon
        split at turn
        · cases turn
        · cases turn
          simp only [Placed, whole] at *
          exact ⟨by omega, by omega, by simpa only [Int.toNat_natCast, colon] using here⟩
      · split at turn
        · cases turn
        · cases turn
          have before := placed begun
          simp only [Placed, state] at before ⊢
          omega
  | colon =>
      split at turn
      · cases turn
        have before := placed begun
        simp only [Placed, state] at before ⊢
        exact before.succ
      · cases turn
  | spacesAfterColon =>
      cases turn
      have before := placed begun
      simp only [Placed, state, whole] at before ⊢
      exact ⟨before.succ, before.passed, by omega⟩
  | value =>
      split at turn
      · rename_i return_
        split at turn
        · cases turn
        · cases turn
          have before := placed begun
          simp only [Placed, state] at before
          obtain ⟨key, first, last⟩ := before
          simp only [Placed, whole] at *
          refine ⟨key.succ, first, by omega, by omega, ?_⟩
          simpa only [Int.toNat_natCast, return_] using here
      · split at turn
        · cases turn
        · cases turn
          have before := placed begun
          simp only [Placed, state] at before ⊢
          exact ⟨before.1.succ, before.2.1, by omega⟩
  | cr =>
      split at turn
      · cases key : between str s.keyStart s.keyEnd with
        | error => simp [key, bind, Except.bind] at turn
        | ok =>
            cases value : between str s.valueStart s.valueEnd with
            | error => simp [key, value, bind, Except.bind] at turn
            | ok =>
                simp only [key, value, bind, Except.bind] at turn
                cases turn
                simp only [Placed]
      · cases turn
  | lf =>
      split at turn
      · cases turn
        simp only [Placed]
      · cases turn
        simp only [Placed, whole]
        omega
  | endCR =>
      split at turn
      · cases turn
        simp only [Placed]
      · cases turn
  | endLF =>
      cases turn
      simp only [Placed]

/-- Where a line is completed that has begun in this call, its offsets are in order. -/
theorem placed_inBuffer (inside : i < str.length) (state : s.hState = .cr) (start : 0 ≤ s.keyStart)
    (placed : Placed str i s) : InBuffer str s := by
  simp only [Placed, state] at placed
  obtain ⟨⟨key, -, colon⟩, first, ordered, last, return_⟩ := placed
  exact ⟨start, key, first, ordered, by omega, colon, return_⟩

/-- A line that is completed has its beginning in this call. -/
theorem begun_of_tracked (tracked : Tracked i (10 :: rest) s) (state : s.hState = .cr) :
    0 ≤ s.keyStart := by
  have line := tracked.line
  simp only [Located, Dangling, state, closesLine] at line
  rcases line with ⟨⟨start, -⟩, -⟩ | ⟨n, open_, -⟩
  · exact start
  · simp at open_

theorem builds_inBuffer (tracked : Tracked i rest s) (placed : 0 ≤ s.keyStart → Placed str i s)
    (left : str.drop i = rest) (small : str.length < 2 ^ 31) :
    ∀ b ∈ builds str i rest s, InBuffer str b := by
  induction rest generalizing i s with
  | nil => exact fun _ member => absurd member List.not_mem_nil
  | cons c rest ih =>
      have inside : i < str.length := by
        have := congrArg List.length left
        rw [List.length_drop, List.length_cons] at this
        omega
      have here : str[i]? = some c := by
        rw [← List.head?_drop, left, List.head?_cons]
      have later : str.drop (i + 1) = rest := by
        rw [← List.tail_drop, left, List.tail_cons]
      have whole : toInt i = i := toInt_small (by omega)
      intro b member
      rw [builds] at member
      split at member
      · rcases List.mem_append.mp member with built | afterwards
        · split at built
          · rename_i completes
            obtain ⟨state, rfl⟩ := completes
            obtain rfl := List.mem_singleton.mp built
            have start := begun_of_tracked tracked state
            exact placed_inBuffer inside state start (placed start)
          · exact absurd built List.not_mem_nil
        · obtain ⟨goOn, s', turn, goes⟩ := scanChar_tracked tracked inside small
          rw [turn] at afterwards
          cases goOn with
          | true =>
              exact ih (goes rfl) (scanChar_placed whole here placed turn) later b afterwards
          | false => exact absurd afterwards List.not_mem_nil
      · exact absurd member List.not_mem_nil

theorem scanChar_error {fault : Fault} (turn : scanChar str i c s = .error fault) :
    s.hState = .cr ∧ c = 10 ∧ ¬ InBuffer str s := by
  cases state : s.hState with simp only [scanChar, state] at turn
  | start | colon | lf | endCR => split at turn <;> cases turn
  | key =>
      split at turn
      · split at turn <;> cases turn
      · split at turn <;> cases turn
  | spacesAfterColon | endLF => cases turn
  | value =>
      split at turn
      · split at turn <;> cases turn
      · split at turn <;> cases turn
  | cr =>
      split at turn
      · rename_i feed
        refine ⟨rfl, feed, fun inBuffer => ?_⟩
        obtain ⟨start, key, first, value, inside, -, -⟩ := inBuffer
        obtain ⟨word, keyRead⟩ : ∃ word, between str s.keyStart s.keyEnd = .ok word :=
          between_within start (Int.le_of_lt key) (by omega)
        have valueStart : 0 ≤ s.valueStart := by omega
        obtain ⟨text, valueRead⟩ := between_within valueStart (Int.le_of_lt value) inside
        rw [keyRead, valueRead] at turn
        cases turn
      · cases turn

/-- Where the loop leaves the string, some key or value does not have its offsets in order. -/
theorem scan_ok (inBuffer : ∀ b ∈ builds str i rest s, InBuffer str b) :
    ∃ r, scan str i rest s = .ok r := by
  induction rest generalizing i s with
  | nil => exact ⟨_, rfl⟩
  | cons c rest ih =>
      rw [builds] at inBuffer
      rw [scan]
      split
      · rename_i goes
        rw [if_pos goes] at inBuffer
        cases turn : scanChar str i c s with
        | ok r =>
            obtain ⟨goOn, s'⟩ := r
            rw [turn] at inBuffer
            cases goOn with
            | true => exact ih fun b member => inBuffer b (List.mem_append_right _ member)
            | false => exact ⟨_, rfl⟩
        | error fault =>
            obtain ⟨state, feed, outside⟩ := scanChar_error turn
            refine absurd (inBuffer s (List.mem_append_left _ ?_)) outside
            rw [if_pos ⟨state, feed⟩]
            exact List.mem_cons_self
      · exact ⟨_, rfl⟩

/-- Below 2^31 bytes, the offsets of a call are in order exactly when no line is completed whose
    beginning is gone. -/
theorem built_inBuffer_iff {d : HttpData} (small : d.inBuffer.length < 2 ^ 31) :
    (∀ b ∈ built d, InBuffer d.inBuffer b) ↔ closesLine d.hState 1 d.inBuffer = false := by
  constructor
  · intro inBuffer
    by_contra completed
    obtain ⟨r, scanned⟩ := scan_ok inBuffer
    rw [scan_completed small completed] at scanned
    cases scanned
  · intro whole
    have dangling : Dangling 0 d.inBuffer { hState := d.hState, headers := d.headers } :=
      ⟨1, whole, fun _ => rfl⟩
    refine builds_inBuffer ⟨Int.le_refl 0, Int.le_refl 0, .inr dangling⟩ ?_ List.drop_zero small
    exact fun begun => absurd (show (0 : Int) ≤ -1 from begun) (by decide)

/-- In a run whose calls all meet the condition, every key and value is built from offsets that
    are in order and inside the string. -/
theorem positions_inBuffer (d : HttpData) (earlier later : List Bytes) {piece : Bytes}
    (whole : (receiving d).Guarded Whole (receiving d).init (earlier ++ piece :: later))
    {r : Receiving} (ran : (receiving d).run (receiving d).init earlier = some r)
    (again : r.again = true) :
    ∀ b ∈ built (r.appended piece), InBuffer (r.appended piece).inBuffer b := by
  obtain ⟨small, closed⟩ := whole.at ran again
  exact (built_inBuffer_iff small).mpr closed

/-- A connection that has read one line, up to its line feed. -/
def oneLine : Receiving :=
  ⟨{ inBuffer := bytes "\n", hState := .lf,
     headers := Dict.empty.assign (bytes "Host") (bytes "a") }, true⟩

/-- A head in two pieces that are cut between two lines. -/
theorem positions_inBuffer_lines :
    (receiving {}).run (receiving {}).init [bytes "\nHost: a\r\n"] = some oneLine ∧
      (built (oneLine.appended (bytes "Age: 1\r\n\r\n"))).length = 1 ∧
      ∀ b ∈ built (oneLine.appended (bytes "Age: 1\r\n\r\n")),
        InBuffer (oneLine.appended (bytes "Age: 1\r\n\r\n")).inBuffer b := by
  have ran : (receiving {}).run (receiving {}).init [bytes "\nHost: a\r\n"] = some oneLine := by
    decide +kernel
  refine ⟨ran, by decide +kernel, ?_⟩
  exact positions_inBuffer {} [bytes "\nHost: a\r\n"] [] (by decide +kernel) ran rfl

/-- A name in two pieces: the key begins at -1. -/
theorem positions_lost :
    ¬ ∀ (d : HttpData), d.hState = .start →
        ∀ (earlier : List Bytes) (piece : Bytes) (r : Receiving),
        (receiving d).run (receiving d).init earlier = some r → r.again = true →
          ∀ b ∈ built (r.appended piece), InBuffer (r.appended piece).inBuffer b := by
  intro always
  let cut : Receiving := ⟨{ inBuffer := bytes "Ho", hState := .key }, true⟩
  have ran : (receiving {}).run (receiving {}).init [bytes "\nHo"] = some cut := by decide +kernel
  have inBuffer := always {} rfl [bytes "\nHo"] (bytes "st: a\r\n") cut ran rfl
  obtain ⟨b, member, lost⟩ : ∃ b ∈ built (cut.appended (bytes "st: a\r\n")),
      b.keyStart = -1 := by
    decide +kernel
  have start := (inBuffer b member).start
  omega

end Corio.Epoll.Positions
