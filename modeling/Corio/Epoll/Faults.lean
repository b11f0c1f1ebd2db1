import Corio.Epoll.HeaderLines
import Corio.Epoll.Progress
import Corio.Epoll.Stream

/-! # What can leave `handleRead`

A call of `handleRead` in steps: `readn`, one test of `state_` after the other, what stands behind
the `do` block. Nothing up to the top of the thread catches an exception, so a step that throws is
the last one of the server. Between two calls the other handlers of the connection run. The lines
that a call logs and the stack that its recursion takes are left to `Stack`.
-/

namespace Corio.Epoll.Faults

/-- Where the handler of the connection is. -/
inductive Place where
  /-- Not in `handleRead`. -/
  | outside
  /-- At `readn`. -/
  | reading
  /-- At the next test of `state_`. -/
  | testing
  /-- Behind the `do` block. -/
  | ending
  /-- An exception has left `handleRead`, or its behaviour is undefined. -/
  | thrown (fault : Fault)
  deriving DecidableEq, Repr

structure Handling where
  place : Place
  d : HttpData
  socket : Socket
  deriving DecidableEq, Repr

inductive Action where
  /-- `handleEvents` starts over with `events_ = 0`. -/
  | event
  /-- `handleRead` is called, with what its system calls will return. -/
  | read (reads : List ReadResult) (writes : List WriteResult)
  /-- It goes on by one step. -/
  | advance
  | write (writes : List WriteResult)
  | conn
  /-- The timer has expired. -/
  | close
  deriving DecidableEq, Repr

/-- A block has come to this, and the call goes on there. -/
def arrive (place : Place) (r : HttpData × Socket) : Handling := ⟨place, r.1, r.2⟩

/-- From `readn` up to the first test of `state_`. -/
def receive (d : HttpData) (socket : Socket) : Handling :=
  let outcome := readn socket.reads d.inBuffer 0
  let readNum := toInt outcome.readSum
  let d := { d with inBuffer := outcome.inBuffer }
  let socket := { socket with reads := outcome.reads }
  if d.connectionState = .disconnecting then ⟨.ending, { d with inBuffer := [] }, socket⟩
  else if readNum < 0 then arrive .ending (badRequest d socket)
  else if outcome.zero then
    let d := { d with connectionState := .disconnecting }
    ⟨if readNum = 0 then .ending else .testing, d, socket⟩
  else ⟨.testing, d, socket⟩

/-- The block of `STATE_PARSE_URI`, up to the next test or a `break`. -/
def testURI (d : HttpData) (socket : Socket) : Handling :=
  let (flag, d) := parseURI d
  match flag with
  | .again => ⟨.ending, d, socket⟩
  | .error => arrive .ending (badRequest { d with inBuffer := [] } socket)
  | .success => ⟨.testing, { d with state := .parseHeaders }, socket⟩

def testHeaders (d : HttpData) (socket : Socket) : Handling :=
  match parseHeaders d with
  | .error fault => ⟨.thrown fault, d, socket⟩
  | .ok (.again, d) => ⟨.ending, d, socket⟩
  | .ok (.error, d) => arrive .ending (badRequest d socket)
  | .ok (.success, d) =>
      ⟨.testing, { d with state := if d.method = .post then .recvBody else .analysis }, socket⟩

def testBody (d : HttpData) (socket : Socket) : Handling :=
  match d.headers.find? (bytes "Content-length") with
  | none =>
      arrive .ending
        (refuse d socket 400 (bytes "Bad Request: Lack of argument (Content-length)"))
  | some value =>
      match stoi value with
      | none => ⟨.thrown .uncaught, d, socket⟩
      | some contentLength =>
          if toInt d.inBuffer.length < contentLength then ⟨.ending, d, socket⟩
          else ⟨.testing, { d with state := .analysis }, socket⟩

/-- The block of the state of the connection. -/
def test (fs : FileSystem) (d : HttpData) (socket : Socket) : Handling :=
  match d.state with
  | .parseURI => testURI d socket
  | .parseHeaders => testHeaders d socket
  | .recvBody => testBody d socket
  | .analysis => arrive .ending (analyse fs d socket)
  | .finish => ⟨.ending, d, socket⟩

/-- Behind the `do` block, up to the recursive call or the return. -/
def conclude (d : HttpData) (socket : Socket) : Handling :=
  let ended := afterRead d socket
  arrive (if ended.1 then .reading else .outside) ended.2

section Substr

/-- The strings and offsets that `parseURI` calls `substr` with. -/
def uriCalls (d : HttpData) : List (Bytes × Nat) :=
  let str := d.inBuffer
  let pos := sfind [13] str (toSize d.nowReadPos)
  let line := requestLine str d.nowReadPos
  let behind := wrap64 (pos + 1)
  (if str.length > behind then [(str, behind)] else []) ++
    match findMethod line with
    | none => []
    | some (_, pos) =>
        let pos := sfind (bytes "/") line pos
        let space := sfind (bytes " ") line pos
        let slash := sfind (bytes "/") line space
        (if sub64 space pos > 1 then [(line, pos + 1)] else []) ++
          if sub64 line.length slash ≤ 3 then [] else [(line, wrap64 (slash + 1))]

/-- Behind a header block that is complete. -/
def headerCalls (d : HttpData) : List (Bytes × Nat) :=
  match scan d.inBuffer 0 d.inBuffer { hState := d.hState, headers := d.headers } with
  | .ok (true, i, s) => if s.hState = .endLF then [(d.inBuffer, i)] else []
  | _ => []

/-- For the ending of the name of the file. -/
def fileCalls (d : HttpData) : List (Bytes × Nat) :=
  let dotPos := toInt (sfind (bytes ".") d.fileName 0)
  if d.method = .post ∨ dotPos < 0 then [] else [(d.fileName, toSize dotPos)]

/-- In `writen`. -/
def flushCalls (d : HttpData) (socket : Socket) : List (Bytes × Nat) :=
  [(d.outBuffer, (writeLoop socket.writes d.outBuffer.length 0).writeSum)]

/-- The strings and offsets that a step calls `substr` with, but for the offset zero and the
    one that `parseHeaders` itself is modelled with. -/
def substrCalls (s : Handling) : List (Bytes × Nat) :=
  match s.place, s.d.state with
  | .testing, .parseURI => uriCalls s.d
  | .testing, .parseHeaders => headerCalls s.d
  | .testing, .analysis => fileCalls s.d
  | .ending, _ => flushCalls s.d s.socket
  | _, _ => []

/-- None of them is past the end of its string. -/
def Within (s : Handling) : Prop := ∀ call ∈ substrCalls s, call.2 ≤ call.1.length

instance (s : Handling) : Decidable (Within s) := by
  unfold Within
  infer_instance

end Substr

/-- A step of a call that is under way, but for the exceptions of `substr`. -/
def advance (fs : FileSystem) (s : Handling) : Option Handling :=
  match s.place with
  | .reading => some (receive s.d s.socket)
  | .testing => some (test fs s.d s.socket)
  | .ending => some (conclude s.d s.socket)
  | .outside | .thrown _ => none

/-- One connection and its handlers, which are called at any moment and with any result of their
    system calls. -/
def handling (fs : FileSystem) : Machine Handling Action where
  init := ⟨.outside, {}, ⟨[], [], []⟩⟩
  step s action :=
    match action with
    | .advance => if Within s then advance fs s else some { s with place := .thrown .uncaught }
    | .event =>
        if s.place = .outside then some { s with d := { s.d with events := {} } } else none
    | .read reads writes =>
        if s.place = .outside then some ⟨.reading, s.d, ⟨reads, writes, s.socket.wire⟩⟩ else none
    | .write writes =>
        if s.place = .outside then
          some (arrive .outside (handleWrite s.d ⟨[], writes, s.socket.wire⟩))
        else none
    | .conn => if s.place = .outside then some { s with d := handleConn s.d } else none
    | .close => if s.place = .outside then some { s with d := handleClose s.d } else none

/-- A decimal number that is a non-negative `int`. -/
def IsLength (value : Bytes) : Prop :=
  value ≠ [] ∧ (∀ c ∈ value, isdigit c = true) ∧ decimal value < 2 ^ 31

instance (value : Bytes) : Decidable (IsLength value) :=
  decidable_of_iff (value ≠ [] ∧ value.all isdigit ∧ decimal value < 2 ^ 31)
    (by rw [IsLength, List.all_eq_true])

/-- The text begins with the rest, from this state on, of a header line whose beginning is gone.
    The number is the length of the value so far. -/
def closesLine : ParseState → Nat → Bytes → Bool
  | .key, n, c :: rest =>
      if c = 58 then closesLine .colon n rest else c ≠ 10 && c ≠ 13 && closesLine .key n rest
  | .colon, n, c :: rest => c = 32 && closesLine .spacesAfterColon n rest
  | .spacesAfterColon, _, _ :: rest => closesLine .value 1 rest
  | .value, n, c :: rest =>
      if c = 13 then closesLine .cr n rest else n ≤ 255 && closesLine .value (n + 1) rest
  | .cr, _, c :: _ => c = 10
  | _, _, _ => false

/-- The condition on a test of `state_`: no header line is completed whose beginning an earlier
    call has parsed, the text has less than 2^31 bytes, and a length is a decimal number or one that
    `stoi` reads and the buffer covers. -/
structure Sound (d : HttpData) : Prop where
  headers : d.state = .parseHeaders →
    d.inBuffer.length < 2 ^ 31 ∧ closesLine d.hState 1 d.inBuffer = false
  length : d.state = .recvBody → ∀ value ∈ d.headers.find? (bytes "Content-length"),
    IsLength value ∨ ∃ n ∈ stoi value, n ≤ toInt d.inBuffer.length

/-- The condition on a step, in the state before it. -/
def Sane (s : Handling) (action : Action) : Prop :=
  action = .advance → s.place = .testing → Sound s.d

/-- A call has come upon a POST with no length or one that is malformed. -/
def Malformed (s : Handling) : Prop :=
  s.place = .testing ∧ s.d.state = .recvBody ∧ s.d.method = .post ∧
    ¬ ∃ value ∈ s.d.headers.find? (bytes "Content-length"), IsLength value

/-- The call that is under way returns, if its steps meet the condition. If it has just come upon
    a malformed length, `error_` is then set. -/
def Returns (fs : FileSystem) (s : Handling) : Prop :=
  ∃ n, (handling fs).Guarded Sane s (List.replicate n .advance) →
    ∃ s', (handling fs).run s (List.replicate n .advance) = some s' ∧ s'.place = .outside ∧
      (Malformed s → s'.d.error = true)

section Decidable

instance (d : HttpData) : Decidable (Sound d) :=
  decidable_of_iff
    ((d.state = .parseHeaders →
        d.inBuffer.length < 2 ^ 31 ∧ closesLine d.hState 1 d.inBuffer = false) ∧
      (d.state = .recvBody → ∀ value ∈ d.headers.find? (bytes "Content-length"),
        IsLength value ∨ ∃ n ∈ stoi value, n ≤ toInt d.inBuffer.length))
    ⟨fun both => ⟨both.1, both.2⟩, fun sound => ⟨sound.headers, sound.length⟩⟩

instance (s : Handling) (action : Action) : Decidable (Sane s action) := by
  unfold Sane
  infer_instance

instance (s : Handling) : Decidable (Malformed s) := by
  unfold Malformed
  infer_instance

end Decidable

/-! ## The header loop -/

section Headers

variable {str rest : Bytes} {i : Nat} {c : UInt8} {s : Scan} {d : HttpData}

/-- The key of the line lies in front of this offset. -/
def KeyBefore (i : Int) (s : Scan) : Prop :=
  0 ≤ s.keyStart ∧ s.keyStart ≤ s.keyEnd ∧ s.keyEnd ≤ i

/-- The parts of the line that the loop has passed are where its variables say. -/
def Located (i : Int) (s : Scan) : Prop :=
  match s.hState with
  | .key => 0 ≤ s.keyStart ∧ s.keyStart ≤ i
  | .colon | .spacesAfterColon => KeyBefore i s
  | .value => KeyBefore i s ∧ 0 ≤ s.valueStart ∧ s.valueStart ≤ i
  | .cr => KeyBefore i s ∧ 0 ≤ s.valueStart ∧ s.valueStart ≤ s.valueEnd ∧ s.valueEnd ≤ i
  | .start | .lf | .endCR | .endLF => True

/-- Nothing is known of the variables, but the line is not completed. -/
def Dangling (i : Nat) (rest : Bytes) (s : Scan) : Prop :=
  ∃ n, closesLine s.hState n rest = false ∧
    (s.hState = .value → sub64 i (toSize s.valueStart) = n)

structure Tracked (i : Nat) (rest : Bytes) (s : Scan) : Prop where
  positive : 0 ≤ s.nowReadLineBegin
  inside : s.nowReadLineBegin ≤ i
  line : Located i s ∨ Dangling i rest s

theorem Tracked.inside_succ (tracked : Tracked i rest s) : s.nowReadLineBegin ≤ (i + 1 : Nat) :=
  Int.le_trans tracked.inside (Int.ofNat_le.mpr (Nat.le_succ i))

/-- A turn does nothing undefined. -/
def TurnsWell (str rest : Bytes) (i : Nat) (c : UInt8) (s : Scan) : Prop :=
  ∃ goOn s', scanChar str i c s = .ok (goOn, s') ∧ (goOn = true → Tracked (i + 1) rest s')

/-- Nothing is to be shown of a turn that ends the loop. -/
theorem stops {x : Except Fault (Bool × Scan)} {P : Scan → Prop} {s' : Scan}
    (turn : x = .ok (false, s')) : ∃ goOn s', x = .ok (goOn, s') ∧ (goOn = true → P s') :=
  ⟨false, s', turn, nofun⟩

/-- Outside of a value its length does not matter. -/
theorem Dangling.other {n : Nat} (closes : closesLine s.hState n rest = false)
    (other : s.hState ≠ .value) : Dangling i rest s :=
  ⟨n, closes, fun same => absurd same other⟩

theorem between_within {first last : Int} (positive : 0 ≤ first) (le : first ≤ last)
    (within : last ≤ str.length) : ∃ word, between str first last = .ok word :=
  ⟨_, if_pos ⟨positive, le, within⟩⟩

theorem KeyBefore.succ (key : KeyBefore i s) : KeyBefore (i + 1 : Nat) s := by
  obtain ⟨first, ordered, last⟩ := key
  exact ⟨first, ordered, by omega⟩

/-- The difference that is checked grows by one. -/
theorem sub64_succ {n : Nat} {start : Int} (same : sub64 i (toSize start) = n) (le : n ≤ 255) :
    sub64 (i + 1) (toSize start) = n + 1 := by
  simp only [sub64, toSize, BitVec.toNat_ofInt] at same ⊢
  omega

theorem scanChar_start (tracked : Tracked i (c :: rest) s) (whole : toInt i = i)
    (state : s.hState = .start) : TurnsWell str rest i c s := by
  simp only [TurnsWell, scanChar, state]
  split
  · refine ⟨true, s, rfl, fun _ => ⟨tracked.positive, tracked.inside_succ, ?_⟩⟩
    exact .inl (by simp only [Located, state])
  · refine ⟨true, _, rfl, fun _ => ⟨?_, ?_, .inl ?_⟩⟩
    · simp only [whole]
      omega
    · simp only [whole]
      omega
    · simp only [Located, whole]
      omega

theorem scanChar_key (tracked : Tracked i (c :: rest) s) (whole : toInt i = i)
    (state : s.hState = .key) : TurnsWell str rest i c s := by
  have later := tracked.inside_succ
  obtain ⟨positive, -, line⟩ := tracked
  simp only [Located, Dangling, state, closesLine] at line
  simp only [TurnsWell, scanChar, state]
  split
  · rename_i colon
    split
    · exact stops rfl
    · refine ⟨true, _, rfl, fun _ => ⟨positive, later, ?_⟩⟩
      rcases line with ⟨first, last⟩ | ⟨n, open_, -⟩
      · refine .inl ⟨first, ?_, ?_⟩
        · simpa only [whole] using last
        · simp only [whole]
          omega
      · exact .inr (.other (by simpa only [colon, if_true] using open_) (by simp))
  · rename_i notColon
    split
    · exact stops rfl
    · rename_i notBreak
      refine ⟨true, s, rfl, fun _ => ⟨positive, later, ?_⟩⟩
      rcases line with ⟨first, last⟩ | ⟨n, open_, -⟩
      · refine .inl ?_
        simp only [Located, state]
        omega
      · obtain ⟨notLF, notCR⟩ := not_or.mp notBreak
        refine .inr (.other (n := n) ?_ (by simp [state]))
        rw [state]
        simpa [notColon, notLF, notCR] using open_

theorem scanChar_colon (tracked : Tracked i (c :: rest) s) (state : s.hState = .colon) :
    TurnsWell str rest i c s := by
  have later := tracked.inside_succ
  obtain ⟨positive, -, line⟩ := tracked
  simp only [Located, Dangling, state, closesLine] at line
  simp only [TurnsWell, scanChar, state]
  split
  · rename_i space
    refine ⟨true, _, rfl, fun _ => ⟨positive, later, ?_⟩⟩
    rcases line with key | ⟨n, open_, -⟩
    · exact .inl key.succ
    · exact .inr (.other (by simpa [space] using open_) (by simp))
  · exact stops rfl

theorem scanChar_spaces (tracked : Tracked i (c :: rest) s) (small : i + 1 < 2 ^ 31)
    (state : s.hState = .spacesAfterColon) : TurnsWell str rest i c s := by
  have later := tracked.inside_succ
  obtain ⟨positive, -, line⟩ := tracked
  simp only [Located, Dangling, state, closesLine] at line
  simp only [TurnsWell, scanChar, state]
  refine ⟨true, _, rfl, fun _ => ⟨positive, later, ?_⟩⟩
  rcases line with key | ⟨n, open_, -⟩
  · refine .inl ⟨key.succ, ?_⟩
    simp only [toInt_small (n := i) (by omega)]
    omega
  · exact .inr ⟨1, open_, fun _ => sub64_small small⟩

theorem scanChar_value (tracked : Tracked i (c :: rest) s) (whole : toInt i = i)
    (state : s.hState = .value) : TurnsWell str rest i c s := by
  have later := tracked.inside_succ
  obtain ⟨positive, -, line⟩ := tracked
  simp only [Located, Dangling, state, closesLine] at line
  simp only [TurnsWell, scanChar, state]
  split
  · rename_i return_
    split
    · exact stops rfl
    · refine ⟨true, _, rfl, fun _ => ⟨positive, later, ?_⟩⟩
      rcases line with ⟨key, first, last⟩ | ⟨n, open_, -⟩
      · refine .inl ⟨key.succ, first, ?_, ?_⟩
        · simpa only [whole] using last
        · simp only [whole]
          omega
      · exact .inr (.other (by simpa only [return_, if_true] using open_) (by simp))
  · rename_i notReturn
    split
    · exact stops rfl
    · rename_i notLong
      refine ⟨true, s, rfl, fun _ => ⟨positive, later, ?_⟩⟩
      rcases line with ⟨key, first, last⟩ | ⟨n, open_, same⟩
      · refine .inl ?_
        simp only [Located, state]
        exact ⟨key.succ, first, by omega⟩
      · have start := same trivial
        have short : n ≤ 255 := by omega
        refine .inr ⟨n + 1, ?_, fun _ => sub64_succ start short⟩
        simpa [state, notReturn, short] using open_

theorem scanChar_cr (tracked : Tracked i (c :: rest) s) (whole : toInt i = i)
    (inside : i < str.length) (state : s.hState = .cr) : TurnsWell str rest i c s := by
  have line := tracked.line
  simp only [Located, Dangling, state, closesLine] at line
  simp only [TurnsWell, scanChar, state]
  split
  · rename_i feed
    rcases line with ⟨⟨first, ordered, last⟩, valueFirst, valueOrdered, valueLast⟩ | ⟨n, open_, -⟩
    · have keyInside : s.keyEnd ≤ str.length := by omega
      have valueInside : s.valueEnd ≤ str.length := by omega
      obtain ⟨key, keyRead⟩ := between_within first ordered keyInside
      obtain ⟨value, valueRead⟩ := between_within valueFirst valueOrdered valueInside
      rw [keyRead, valueRead]
      refine ⟨true, _, rfl, fun _ => ⟨?_, ?_, .inl trivial⟩⟩
      · simp only [whole]
        omega
      · simp only [whole]
        omega
    · rw [feed] at open_
      cases open_
  · exact stops rfl

/-- Between two lines, and behind the last one. -/
theorem scanChar_between (tracked : Tracked i (c :: rest) s) (whole : toInt i = i)
    (state : s.hState = .lf ∨ s.hState = .endCR ∨ s.hState = .endLF) :
    TurnsWell str rest i c s := by
  have later := tracked.inside_succ
  have positive := tracked.positive
  rcases state with state | state | state <;> simp only [TurnsWell, scanChar, state]
  · split
    · exact ⟨true, _, rfl, fun _ => ⟨positive, later, .inl trivial⟩⟩
    · refine ⟨true, _, rfl, fun _ => ⟨positive, later, .inl ?_⟩⟩
      simp only [Located, whole]
      omega
  · split
    · exact ⟨true, _, rfl, fun _ => ⟨positive, later, .inl trivial⟩⟩
    · exact stops rfl
  · refine ⟨true, _, rfl, fun _ => ⟨?_, ?_, .inl (by simp only [Located])⟩⟩
    · simp only [whole]
      omega
    · simp only [whole]
      omega

theorem scanChar_tracked (tracked : Tracked i (c :: rest) s) (inside : i < str.length)
    (small : str.length < 2 ^ 31) : TurnsWell str rest i c s := by
  have whole : toInt i = i := toInt_small (by omega)
  cases state : s.hState with
  | start => exact scanChar_start tracked whole state
  | key => exact scanChar_key tracked whole state
  | colon => exact scanChar_colon tracked state
  | spacesAfterColon => exact scanChar_spaces tracked (by omega) state
  | value => exact scanChar_value tracked whole state
  | cr => exact scanChar_cr tracked whole inside state
  | lf => exact scanChar_between tracked whole (.inl state)
  | endCR => exact scanChar_between tracked whole (.inr (.inl state))
  | endLF => exact scanChar_between tracked whole (.inr (.inr state))

theorem scan_tracked (tracked : Tracked i rest s) (whole : i + rest.length = str.length)
    (small : str.length < 2 ^ 31) :
    ∃ finished j s', scan str i rest s = .ok (finished, j, s') ∧
      (finished = true → 0 ≤ s'.nowReadLineBegin ∧ s'.nowReadLineBegin ≤ str.length) := by
  induction rest generalizing i s with
  | nil =>
      have inside : s.nowReadLineBegin ≤ str.length := by
        have before := tracked.inside
        rw [List.length_nil] at whole
        omega
      exact ⟨true, i, s, rfl, fun _ => ⟨tracked.positive, inside⟩⟩
  | cons c rest ih =>
      rw [List.length_cons] at whole
      rw [scan]
      split
      · have inside : i < str.length := by omega
        obtain ⟨goOn, s', turn, later⟩ := scanChar_tracked tracked inside small
        rw [turn]
        cases goOn with
        | true => exact ih (later rfl) (by omega)
        | false => exact ⟨false, i, s', rfl, fun no => absurd no Bool.false_ne_true⟩
      · have inside : s.nowReadLineBegin ≤ str.length := by
          have before := tracked.inside
          omega
        exact ⟨true, i, s, rfl, fun _ => ⟨tracked.positive, inside⟩⟩

/-- Where no line is completed that has lost its beginning, the parser returns. -/
theorem parseHeaders_returns (small : d.inBuffer.length < 2 ^ 31)
    (whole : closesLine d.hState 1 d.inBuffer = false) : ∃ r, parseHeaders d = .ok r := by
  have dangling :
      Dangling 0 d.inBuffer { hState := d.hState, headers := d.headers } :=
    ⟨1, whole, fun _ => rfl⟩
  have tracked : Tracked 0 d.inBuffer { hState := d.hState, headers := d.headers } :=
    ⟨Int.le_refl 0, Int.le_refl 0, .inr dangling⟩
  obtain ⟨finished, i, s, scanned, inside⟩ :=
    scan_tracked tracked (Nat.zero_add _) small
  rw [parseHeaders, scanned]
  cases finished with
  | false => exact ⟨_, rfl⟩
  | true =>
      simp only [bind, Except.bind, not_true_eq_false, if_false]
      split
      · exact ⟨_, rfl⟩
      · rw [if_pos (inside rfl)]
        exact ⟨_, rfl⟩

/-- What is left of a line that has lost its beginning. -/
structure Lost (i n : Nat) (s : Scan) : Prop where
  key : s.keyStart < 0
  goes : s.notFinish = true
  value : s.hState = .value → sub64 i (toSize s.valueStart) = n ∧ s.valueStart < i

theorem Lost.other {n : Nat} (key : s.keyStart < 0) (goes : s.notFinish = true)
    (other : s.hState ≠ .value) : Lost i n s :=
  ⟨key, goes, fun same => absurd same other⟩

/-- Where such a line is completed, its key is made of offsets that were never set. -/
theorem scan_lost {n : Nat} (lost : Lost i n s) (closes : closesLine s.hState n rest = true)
    (small : i + rest.length < 2 ^ 31) : scan str i rest s = .error .undefined := by
  induction rest generalizing i n s with
  | nil => cases state : s.hState <;> simp [closesLine, state] at closes
  | cons c rest ih =>
      rw [List.length_cons] at small
      have whole : toInt i = i := toInt_small (by omega)
      obtain ⟨key, goes, value⟩ := lost
      cases state : s.hState with rw [state, closesLine] at closes
      | key =>
          by_cases colon : c = 58
          · rw [if_pos colon] at closes
            have turn : scanChar str i c s =
                .ok (true, { s with keyEnd := toInt i, hState := .colon }) := by
              simp only [scanChar, state, if_pos colon]
              rw [if_neg (by omega)]
            rw [scan_turn goes turn]
            exact ih (.other key goes (by simp)) closes (by omega)
          · simp only [if_neg colon, Bool.and_eq_true, decide_eq_true_eq] at closes
            obtain ⟨⟨notLF, notCR⟩, closes⟩ := closes
            have turn : scanChar str i c s = .ok (true, s) := by
              simp only [scanChar, state, if_neg colon, notLF, notCR, or_self, if_false]
            rw [scan_turn goes turn]
            exact ih (.other key goes (by simp [state])) (by rw [state]; exact closes) (by omega)
      | colon =>
          simp only [Bool.and_eq_true, decide_eq_true_eq] at closes
          have turn : scanChar str i c s = .ok (true, { s with hState := .spacesAfterColon }) := by
            simp only [scanChar, state, if_pos closes.1]
          rw [scan_turn goes turn]
          exact ih (.other key goes (by simp)) closes.2 (by omega)
      | spacesAfterColon =>
          have turn : scanChar str i c s =
              .ok (true, { s with hState := .value, valueStart := toInt i }) := by
            simp only [scanChar, state]
          rw [scan_turn goes turn]
          refine ih ⟨key, goes, fun _ => ⟨sub64_small (by omega), ?_⟩⟩ closes (by omega)
          simp only [whole]
          omega
      | value =>
          obtain ⟨length, start⟩ := value state
          by_cases return_ : c = 13
          · rw [if_pos return_] at closes
            have turn : scanChar str i c s =
                .ok (true, { s with hState := .cr, valueEnd := toInt i }) := by
              simp only [scanChar, state, if_pos return_]
              rw [if_neg (by omega)]
            rw [scan_turn goes turn]
            exact ih (.other key goes (by simp)) closes (by omega)
          · simp only [if_neg return_, Bool.and_eq_true, decide_eq_true_eq] at closes
            have turn : scanChar str i c s = .ok (true, s) := by
              simp only [scanChar, state, if_neg return_, length]
              rw [if_neg (by omega)]
            rw [scan_turn goes turn]
            refine ih ⟨key, goes, fun _ => ⟨sub64_succ length closes.1, by omega⟩⟩ ?_ (by omega)
            rw [state]
            exact closes.2
      | cr =>
          have outside : between str s.keyStart s.keyEnd = .error .undefined :=
            if_neg fun inside => by omega
          rw [scan, if_pos goes]
          simp only [scanChar, state, if_pos (of_decide_eq_true closes), outside]
          rfl
      | start | lf | endCR | endLF => cases closes

theorem scan_completed (small : d.inBuffer.length < 2 ^ 31)
    (completed : closesLine d.hState 1 d.inBuffer ≠ false) :
    scan d.inBuffer 0 d.inBuffer { hState := d.hState, headers := d.headers } =
      .error .undefined := by
  have unset : (-1 : Int) < 0 := by decide
  have lost : Lost 0 1 { hState := d.hState, headers := d.headers } :=
    ⟨unset, rfl, fun _ => ⟨rfl, unset⟩⟩
  have closes : closesLine d.hState 1 d.inBuffer = true := by simpa using completed
  have short : 0 + d.inBuffer.length < 2 ^ 31 := by omega
  exact scan_lost lost closes short

/-- Below 2^31 bytes the parser returns exactly if no line is completed that has lost its
    beginning. -/
theorem parseHeaders_returns_iff (small : d.inBuffer.length < 2 ^ 31) :
    (∃ r, parseHeaders d = .ok r) ↔ closesLine d.hState 1 d.inBuffer = false := by
  refine ⟨?_, parseHeaders_returns small⟩
  rintro ⟨r, parsed⟩
  by_contra completed
  rw [parseHeaders, scan_completed small completed] at parsed
  cases parsed

end Headers

/-! ## The offsets -/

section Offsets

/-- A search finds nothing, or something between its offset and the end. -/
theorem sfind_cases {pat : Bytes} (proper : pat ≠ []) (s : Bytes) (pos : Nat) :
    sfind pat s pos = npos ∨ pos ≤ sfind pat s pos ∧ sfind pat s pos < s.length := by
  unfold sfind
  split
  · rename_i i found
    obtain ⟨-, here⟩ := Find.find?_some found
    have nonempty := List.length_pos_of_ne_nil proper
    have short := here.length_le
    rw [List.length_drop, List.length_drop] at short
    exact .inr ⟨Nat.le_add_right pos i, by omega⟩
  · exact .inl rfl

/-- The name begins behind a slash, or behind the character at `npos`. -/
theorem name_within {line : Bytes} {slash space pos : Nat}
    (slashes : slash = npos ∨ pos ≤ slash ∧ slash < line.length)
    (spaces : space = npos ∨ slash ≤ space ∧ space < line.length)
    (apart : sub64 space slash > 1) : slash + 1 ≤ line.length := by
  rcases slashes with rfl | ⟨-, inside⟩
  · rcases spaces with rfl | ⟨le, inside⟩
    · exact absurd apart (by decide)
    · omega
  · exact inside

/-- The offset behind one that was not found is zero. -/
theorem behind_within {line : Bytes} {slash pos : Nat}
    (slashes : slash = npos ∨ pos ≤ slash ∧ slash < line.length) :
    wrap64 (slash + 1) ≤ line.length := by
  rcases slashes with rfl | ⟨-, inside⟩
  · exact Nat.zero_le _
  · exact (Nat.mod_le _ _).trans inside

theorem uriCalls_within (d : HttpData) : ∀ call ∈ uriCalls d, call.2 ≤ call.1.length := by
  intro call member
  rcases List.mem_append.mp member with rest | line
  · split at rest
    · rename_i longer
      obtain rfl := List.mem_singleton.mp rest
      exact longer.le
    · cases rest
  · split at line
    · cases line
    · rename_i method pos named
      generalize requestLine d.inBuffer d.nowReadPos = text at line
      rcases List.mem_append.mp line with name | version
      · split at name
        · rename_i apart
          obtain rfl := List.mem_singleton.mp name
          exact name_within (sfind_cases (by decide) text pos)
            (sfind_cases (by decide) text (sfind (bytes "/") text pos)) apart
        · cases name
      · split at version
        · cases version
        · obtain rfl := List.mem_singleton.mp version
          exact behind_within (sfind_cases (by decide) text _)

theorem fileCalls_within (d : HttpData) : ∀ call ∈ fileCalls d, call.2 ≤ call.1.length := by
  intro call member
  simp only [fileCalls] at member
  split at member
  · cases member
  · rename_i named
    obtain rfl := List.mem_singleton.mp member
    have positive := not_or.mp named |>.2
    have proper : bytes "." ≠ [] := by decide
    rcases sfind_cases proper d.fileName 0 with missing | ⟨-, inside⟩
    · rw [missing] at positive
      exact absurd (by decide) positive
    · have le := toInt_le (sfind (bytes ".") d.fileName 0)
      have lt := toInt_lt (sfind (bytes ".") d.fileName 0)
      generalize toInt (sfind (bytes ".") d.fileName 0) = dotPos at positive le lt
      obtain ⟨n, rfl⟩ := Int.eq_ofNat_of_zero_le (Int.not_lt.mp positive)
      have whole : toSize n = n := toSize_nat (by omega)
      dsimp only
      rw [whole]
      omega

/-- The loop stays in the text. -/
theorem scan_index {str rest : Bytes} {i j : Nat} {s s' : Scan} {finished : Bool}
    (scanned : scan str i rest s = .ok (finished, j, s')) : j ≤ i + rest.length := by
  induction rest generalizing i s with
  | nil =>
      obtain ⟨-, rfl, -⟩ := Prod.mk.inj (Except.ok.inj scanned)
      exact Nat.le_refl _
  | cons c rest ih =>
      rw [List.length_cons]
      unfold scan at scanned
      split at scanned
      · obtain ⟨⟨goOn, mid⟩, -, later⟩ := bind_ok.mp scanned
        cases goOn with
        | true =>
            have inside := ih later
            omega
        | false =>
            obtain ⟨-, rfl, -⟩ := Prod.mk.inj (Except.ok.inj later)
            exact Nat.le_add_right _ _
      · obtain ⟨-, rfl, -⟩ := Prod.mk.inj (Except.ok.inj scanned)
        exact Nat.le_add_right _ _

theorem headerCalls_within (d : HttpData) : ∀ call ∈ headerCalls d, call.2 ≤ call.1.length := by
  intro call member
  unfold headerCalls at member
  split at member
  · rename_i scanned
    split at member
    · obtain rfl := List.mem_singleton.mp member
      exact (scan_index scanned).trans (Nat.zero_add _).le
    · cases member
  · cases member

/-- No step calls `substr` with an offset past the end. -/
theorem within (s : Handling) : Within s := by
  obtain ⟨place, d, socket⟩ := s
  intro call member
  cases place with
  | outside | reading | thrown => cases member
  | ending =>
      obtain rfl := List.mem_singleton.mp member
      have bounds := (writeLoop_bounds socket.writes d.outBuffer.length 0).2
      exact bounds.trans (Nat.zero_add _).le
  | testing =>
      unfold substrCalls at member
      cases state : d.state with rw [state] at member
      | parseURI => exact uriCalls_within d call member
      | parseHeaders => exact headerCalls_within d call member
      | analysis => exact fileCalls_within d call member
      | recvBody | finish => cases member

end Offsets

/-! ## The steps are `handleRead` -/

section Steps

variable {fs : FileSystem} {s mid s' : Handling} {d : HttpData} {socket : Socket}

theorem step_advance (s : Handling) : (handling fs).step s .advance = advance fs s :=
  if_pos (within s)

/-- The call gets from one state to another. -/
def Advances (fs : FileSystem) (s s' : Handling) : Prop :=
  ∃ n, (handling fs).run s (List.replicate n .advance) = some s'

theorem Advances.refl (s : Handling) : Advances fs s s := ⟨0, rfl⟩

theorem Advances.step (taken : advance fs s = some mid) (later : Advances fs mid s') :
    Advances fs s s' := by
  obtain ⟨n, ran⟩ := later
  refine ⟨n + 1, ?_⟩
  rw [List.replicate_succ, Machine.run_cons, step_advance, taken]
  exact ran

theorem Advances.trans (first : Advances fs s mid) (second : Advances fs mid s') :
    Advances fs s s' := by
  obtain ⟨m, firstRan⟩ := first
  obtain ⟨n, secondRan⟩ := second
  refine ⟨m + n, ?_⟩
  rw [List.replicate_add]
  exact (handling fs).run_append_some.mpr ⟨mid, firstRan, secondRan⟩

/-- What the `do` block comes to from here. -/
def complete (fs : FileSystem) (s : Handling) : Except Fault (HttpData × Socket) :=
  match s.place with
  | .testing => process fs s.d s.socket
  | .thrown fault => .error fault
  | .outside | .reading | .ending => .ok (s.d, s.socket)

theorem complete_testURI : complete fs (testURI d socket) = readURI fs d socket := by
  unfold testURI readURI
  generalize parseURI d = parsed
  obtain ⟨flag, mid⟩ := parsed
  cases flag <;> rfl

theorem complete_testHeaders : complete fs (testHeaders d socket) = readHeaders fs d socket := by
  unfold testHeaders readHeaders
  generalize parseHeaders d = parsed
  cases parsed with
  | error fault => rfl
  | ok parsed =>
      obtain ⟨flag, mid⟩ := parsed
      cases flag with
      | again | error => rfl
      | success =>
          simp only [bind, Except.bind]
          by_cases post : mid.method = .post
          · simp only [post, if_true]
            rfl
          · simp only [post, if_false]
            rfl

theorem complete_testBody : complete fs (testBody d socket) = receiveBody fs d socket := by
  unfold testBody receiveBody
  cases d.headers.find? (bytes "Content-length") with
  | none => rfl
  | some value =>
      dsimp only
      cases stoi value with
      | none => rfl
      | some contentLength =>
          dsimp only
          split <;> rfl

theorem complete_test (fs : FileSystem) (d : HttpData) (socket : Socket) :
    complete fs (test fs d socket) = process fs d socket := by
  unfold test process
  cases d.state with
  | parseURI => exact complete_testURI
  | parseHeaders => exact complete_testHeaders
  | recvBody => exact complete_testBody
  | analysis | finish => rfl

theorem complete_receive (fs : FileSystem) (d : HttpData) (socket : Socket) :
    complete fs (receive d socket) = readOnce fs d socket := by
  unfold receive readOnce
  dsimp only
  split_ifs <;> rfl

/-- How many tests of `state_` can still follow. -/
def rank : ProcessState → Nat
  | .parseURI => 3
  | .parseHeaders => 2
  | .recvBody => 1
  | .analysis | .finish => 0

theorem testURI_next (again : (testURI d socket).place = .testing) :
    (testURI d socket).d.state = .parseHeaders := by
  unfold testURI at again ⊢
  generalize parseURI d = parsed at again ⊢
  obtain ⟨flag, mid⟩ := parsed
  cases flag with
  | again | error => cases again
  | success => rfl

theorem testHeaders_next (again : (testHeaders d socket).place = .testing) :
    (testHeaders d socket).d.state = .recvBody ∨ (testHeaders d socket).d.state = .analysis := by
  unfold testHeaders at again ⊢
  generalize parseHeaders d = parsed at again ⊢
  cases parsed with
  | error fault => cases again
  | ok parsed =>
      obtain ⟨flag, mid⟩ := parsed
      cases flag with
      | again | error => cases again
      | success => exact (ite_eq_or_eq _ _ _)

/-- What becomes of a length. -/
theorem testBody_cases (d : HttpData) (socket : Socket) :
    (d.headers.find? (bytes "Content-length") = none ∧
      testBody d socket = arrive .ending
        (refuse d socket 400 (bytes "Bad Request: Lack of argument (Content-length)"))) ∨
    ∃ value, d.headers.find? (bytes "Content-length") = some value ∧
      ((stoi value = none ∧ testBody d socket = ⟨.thrown .uncaught, d, socket⟩) ∨
        ∃ n, stoi value = some n ∧
          (toInt d.inBuffer.length < n ∧ testBody d socket = ⟨.ending, d, socket⟩ ∨
            n ≤ toInt d.inBuffer.length ∧
              testBody d socket = ⟨.testing, { d with state := .analysis }, socket⟩)) := by
  unfold testBody
  cases found : d.headers.find? (bytes "Content-length") with
  | none => exact .inl ⟨rfl, rfl⟩
  | some value =>
      refine .inr ⟨value, rfl, ?_⟩
      dsimp only
      cases read : stoi value with
      | none => exact .inl ⟨rfl, rfl⟩
      | some n =>
          refine .inr ⟨n, rfl, ?_⟩
          by_cases waits : toInt d.inBuffer.length < n
          · exact .inl ⟨waits, if_pos waits⟩
          · exact .inr ⟨Int.not_lt.mp waits, if_neg waits⟩

theorem testBody_next (again : (testBody d socket).place = .testing) :
    (testBody d socket).d.state = .analysis := by
  rcases testBody_cases d socket with
    ⟨-, same⟩ | ⟨value, -, ⟨-, same⟩ | ⟨n, -, ⟨-, same⟩ | ⟨-, same⟩⟩⟩
  · rw [same] at again
    cases again
  · rw [same] at again
    cases again
  · rw [same] at again
    cases again
  · rw [same]

theorem test_rank (again : (test fs d socket).place = .testing) :
    rank (test fs d socket).d.state < rank d.state := by
  unfold test at again ⊢
  cases state : d.state with rw [state] at again
  | analysis | finish => cases again
  | parseURI =>
      rw [testURI_next again]
      decide
  | parseHeaders =>
      rcases testHeaders_next again with body | analysis
      · rw [body]
        decide
      · rw [analysis]
        decide
  | recvBody =>
      rw [testBody_next again]
      decide

/-- In the `do` block, behind `readn`. -/
def InBlock (place : Place) : Prop := place ≠ .outside ∧ place ≠ .reading

theorem testURI_place (d : HttpData) (socket : Socket) :
    (testURI d socket).place = .ending ∨ (testURI d socket).place = .testing := by
  unfold testURI
  generalize parseURI d = parsed
  obtain ⟨flag, mid⟩ := parsed
  cases flag with
  | again | error => exact .inl rfl
  | success => exact .inr rfl

theorem testHeaders_place (d : HttpData) (socket : Socket) :
    (testHeaders d socket).place = .ending ∨ (testHeaders d socket).place = .testing ∨
      ∃ fault, parseHeaders d = .error fault ∧ (testHeaders d socket).place = .thrown fault := by
  unfold testHeaders
  cases parseHeaders d with
  | error fault => exact .inr (.inr ⟨fault, rfl, rfl⟩)
  | ok parsed =>
      obtain ⟨flag, mid⟩ := parsed
      cases flag with
      | again | error => exact .inl rfl
      | success => exact .inr (.inl rfl)

theorem testBody_place (d : HttpData) (socket : Socket) :
    (testBody d socket).place = .ending ∨ (testBody d socket).place = .testing ∨
      (∃ value ∈ d.headers.find? (bytes "Content-length"), stoi value = none) ∧
        (testBody d socket).place = .thrown .uncaught := by
  rcases testBody_cases d socket with
    ⟨-, same⟩ | ⟨value, found, ⟨unread, same⟩ | ⟨n, -, ⟨-, same⟩ | ⟨-, same⟩⟩⟩
  · exact .inl (congrArg Handling.place same)
  · exact .inr (.inr ⟨⟨value, found, unread⟩, congrArg Handling.place same⟩)
  · exact .inl (congrArg Handling.place same)
  · exact .inr (.inl (congrArg Handling.place same))

theorem test_inBlock (fs : FileSystem) (d : HttpData) (socket : Socket) :
    InBlock (test fs d socket).place := by
  unfold test
  cases d.state with
  | analysis | finish => exact ⟨nofun, nofun⟩
  | parseURI => rcases testURI_place d socket with same | same <;> simp [InBlock, same]
  | parseHeaders =>
      rcases testHeaders_place d socket with same | same | ⟨fault, -, same⟩ <;>
        simp [InBlock, same]
  | recvBody =>
      rcases testBody_place d socket with same | same | ⟨-, same⟩ <;> simp [InBlock, same]

theorem receive_inBlock (d : HttpData) (socket : Socket) : InBlock (receive d socket).place := by
  unfold receive
  dsimp only
  split_ifs <;> exact ⟨nofun, nofun⟩

/-- The `do` block has come to this. -/
def Done (result : Except Fault (HttpData × Socket)) (s : Handling) : Prop :=
  match result with
  | .ok r => s = arrive .ending r
  | .error fault => s.place = .thrown fault

theorem done_self (inBlock : InBlock s.place) (tested : s.place ≠ .testing) :
    Done (complete fs s) s := by
  obtain ⟨place, d, socket⟩ := s
  cases place with
  | outside => exact absurd rfl inBlock.1
  | reading => exact absurd rfl inBlock.2
  | testing => exact absurd rfl tested
  | ending | thrown => rfl

/-- The tests come to an end. -/
theorem tests_end (fs : FileSystem) (s : Handling) (inBlock : InBlock s.place) :
    ∃ s', Advances fs s s' ∧ Done (complete fs s) s' := by
  induction left : rank s.d.state using Nat.strong_induction_on generalizing s with
  | _ n ih =>
      by_cases testing : s.place = .testing
      · obtain ⟨place, d, socket⟩ := s
        obtain rfl : place = .testing := testing
        have same : complete fs ⟨.testing, d, socket⟩ = complete fs (test fs d socket) :=
          (complete_test fs d socket).symm
        have inside := test_inBlock fs d socket
        rw [same]
        by_cases again : (test fs d socket).place = .testing
        · obtain ⟨s', advances, done_⟩ := ih _ (left ▸ test_rank again) _ inside rfl
          exact ⟨s', .step rfl advances, done_⟩
        · exact ⟨_, .step rfl (.refl _), done_self inside again⟩
      · exact ⟨s, .refl s, done_self inBlock testing⟩

/-- The call has returned this, or this has left it. -/
def Ended (result : Except Fault (HttpData × Socket)) (s : Handling) : Prop :=
  match result with
  | .ok r => s = arrive .outside r
  | .error fault => s.place = .thrown fault

/-- With enough fuel, a call takes some number of steps to what `handleRead` computes. -/
theorem handleReadFuel_advances {fuel : Nat} {d : HttpData} {socket : Socket}
    (enough : handleReadFuel fs fuel d socket ≠ .error .outOfFuel) :
    ∃ s', Advances fs ⟨.reading, d, socket⟩ s' ∧ Ended (handleReadFuel fs fuel d socket) s' := by
  induction fuel generalizing d socket with
  | zero => exact absurd rfl enough
  | succ fuel ih =>
      obtain ⟨s', advances, done_⟩ := tests_end fs _ (receive_inBlock d socket)
      rw [complete_receive] at done_
      have start : Advances fs ⟨.reading, d, socket⟩ s' := .step rfl advances
      rw [handleReadFuel, handleReadPass] at enough ⊢
      cases read : readOnce fs d socket with
      | error fault =>
          rw [read] at done_
          exact ⟨s', start, done_⟩
      | ok r =>
          rw [read] at done_ enough
          obtain rfl : s' = arrive .ending r := done_
          have concluded : advance fs (arrive .ending r) = some (conclude r.1 r.2) := rfl
          simp only [bind, Except.bind] at enough ⊢
          unfold conclude at concluded
          generalize afterRead r.1 r.2 = ended at enough concluded ⊢
          obtain ⟨again, d, socket⟩ := ended
          cases again with
          | false => exact ⟨_, start.trans (.step concluded (.refl _)), rfl⟩
          | true =>
              obtain ⟨s'', more, ends⟩ := ih enough
              exact ⟨s'', start.trans (.step concluded more), ends⟩

/-- The steps of a call compute what `handleRead` does. -/
theorem handleRead_advances (fs : FileSystem) (d : HttpData) (socket : Socket) :
    ∃ s', Advances fs ⟨.reading, d, socket⟩ s' ∧ Ended (handleRead fs d socket) s' :=
  handleReadFuel_advances fun failed => handleRead_fault failed rfl

/-- It has returned, or a fault has left it. -/
def Settled (s : Handling) : Prop := s.place = .outside ∨ ∃ fault, s.place = .thrown fault

theorem Ended.settled {result : Except Fault (HttpData × Socket)} (ended : Ended result s) :
    Settled s := by
  cases result with
  | ok r => exact .inl (congrArg Handling.place ended)
  | error fault => exact .inr ⟨fault, ended⟩

theorem ending_settles (fs : FileSystem) (r : HttpData × Socket) :
    ∃ s', Advances fs (arrive .ending r) s' ∧ Settled s' := by
  have concluded : advance fs (arrive .ending r) = some (conclude r.1 r.2) := rfl
  unfold conclude at concluded
  generalize afterRead r.1 r.2 = ended at concluded
  obtain ⟨again, d, socket⟩ := ended
  cases again with
  | false => exact ⟨_, .step concluded (.refl _), .inl rfl⟩
  | true =>
      obtain ⟨s', advances, ends⟩ := handleRead_advances fs d socket
      exact ⟨s', .step concluded advances, ends.settled⟩

/-- Wherever it is, a call comes to an end. -/
theorem call_settles (fs : FileSystem) (s : Handling) : ∃ s', Advances fs s s' ∧ Settled s' := by
  obtain ⟨place, d, socket⟩ := s
  cases place with
  | outside => exact ⟨_, .refl _, .inl rfl⟩
  | thrown fault => exact ⟨_, .refl _, .inr ⟨fault, rfl⟩⟩
  | reading =>
      obtain ⟨s', advances, ends⟩ := handleRead_advances fs d socket
      exact ⟨s', advances, ends.settled⟩
  | ending => exact ending_settles fs (d, socket)
  | testing =>
      obtain ⟨mid, advances, done_⟩ := tests_end fs ⟨.testing, d, socket⟩ ⟨nofun, nofun⟩
      cases result : complete fs ⟨.testing, d, socket⟩ with
      | error fault =>
          rw [result] at done_
          exact ⟨mid, advances, .inr ⟨fault, done_⟩⟩
      | ok r =>
          rw [result] at done_
          obtain rfl : mid = arrive .ending r := done_
          obtain ⟨s', more, settled⟩ := ending_settles fs r
          exact ⟨s', advances.trans more, settled⟩

end Steps

/-! ## Sane runs -/

section Runs

variable {fs : FileSystem} {s s' : Handling} {d : HttpData} {socket : Socket}
  {acts : List Action}

/-- No fault has occurred. -/
def Standing (s : Handling) : Prop := ∀ fault, s.place ≠ .thrown fault

theorem testHeaders_standing (small : d.inBuffer.length < 2 ^ 31)
    (whole : closesLine d.hState 1 d.inBuffer = false) : Standing (testHeaders d socket) := by
  intro fault
  rcases testHeaders_place d socket with same | same | ⟨fault', failed, -⟩
  · simp [same]
  · simp [same]
  · obtain ⟨r, parsed⟩ := parseHeaders_returns small whole
    rw [failed] at parsed
    cases parsed

/-- A length that is a number is read. -/
theorem stoi_length {value : Bytes} (length : IsLength value) : stoi value ≠ none := by
  rw [stoi_digits length.1 length.2.1 length.2.2]
  exact Option.some_ne_none _

theorem testBody_standing (lengths : ∀ value ∈ d.headers.find? (bytes "Content-length"),
      IsLength value ∨ ∃ n ∈ stoi value, n ≤ toInt d.inBuffer.length) :
    Standing (testBody d socket) := by
  intro fault
  rcases testBody_place d socket with same | same | ⟨⟨value, found, unread⟩, -⟩
  · simp [same]
  · simp [same]
  · rcases lengths value found with length | ⟨n, read, -⟩
    · exact absurd unread (stoi_length length)
    · rw [unread] at read
      cases read

theorem test_standing (fs : FileSystem) (socket : Socket) (sound : Sound d) :
    Standing (test fs d socket) := by
  unfold test
  cases state : d.state with
  | parseURI =>
      intro fault
      rcases testURI_place d socket with same | same <;> simp [same]
  | parseHeaders =>
      obtain ⟨small, whole⟩ := sound.headers state
      exact testHeaders_standing small whole
  | recvBody => exact testBody_standing (sound.length state)
  | analysis | finish =>
      intro fault
      simp [arrive]

theorem receive_standing (d : HttpData) (socket : Socket) : Standing (receive d socket) := by
  intro fault
  unfold receive
  dsimp only
  split_ifs <;> nofun

theorem conclude_standing (d : HttpData) (socket : Socket) : Standing (conclude d socket) := by
  intro fault
  simp only [conclude, arrive]
  split <;> nofun

theorem advance_standing (sane : Sane s .advance) (taken : advance fs s = some s') :
    Standing s' := by
  unfold advance at taken
  split at taken
  · obtain rfl := Option.some.inj taken
    exact receive_standing s.d s.socket
  · rename_i testing
    obtain rfl := Option.some.inj taken
    exact test_standing fs s.socket (sane rfl testing)
  · obtain rfl := Option.some.inj taken
    exact conclude_standing s.d s.socket
  · cases taken
  · cases taken

/-- A step that meets the condition is no fault. -/
theorem step_standing (standing : Standing s) (action : Action) (sane : Sane s action)
    (taken : (handling fs).step s action = some s') : Standing s' := by
  cases action with
  | advance =>
      rw [step_advance] at taken
      exact advance_standing sane taken
  | event | conn | close =>
      obtain ⟨-, same⟩ := Option.ite_none_right_eq_some.mp taken
      obtain rfl := Option.some.inj same
      exact standing
  | read | write =>
      obtain ⟨-, same⟩ := Option.ite_none_right_eq_some.mp taken
      obtain rfl := Option.some.inj same
      nofun

theorem init_standing (fs : FileSystem) : Standing (handling fs).init := by
  intro fault
  nofun

theorem run_standing (standing : Standing s) (sane : (handling fs).Guarded Sane s acts)
    (ran : (handling fs).run s acts = some s') : Standing s' :=
  Machine.Guarded.preserves (fun _ action _ standing sane => step_standing standing action sane)
    standing sane ran

/-- With `error_` set the call returns. -/
theorem error_returns (fs : FileSystem) {r : HttpData × Socket} (error : r.1.error = true) :
    Advances fs (arrive .ending r) (arrive .outside r) := by
  have concluded : advance fs (arrive .ending r) = some (conclude r.1 r.2) := rfl
  rw [conclude, afterRead, if_pos error] at concluded
  exact .step concluded (.refl _)

theorem analyse_post (fs : FileSystem) (socket : Socket) (post : d.method = .post) :
    (analyse fs d socket).1.error = true := by
  simp only [analyse, analysisRequest, post]

/-- A malformed length that meets the condition is an error of the connection. -/
theorem malformed_error (malformed : Malformed s) (sane : Sane s .advance) :
    ∃ s', Advances fs s s' ∧ s'.place = .outside ∧ s'.d.error = true := by
  obtain ⟨testing, state, post, noLength⟩ := malformed
  have sound := sane rfl testing
  obtain ⟨place, d, socket⟩ := s
  obtain rfl : place = .testing := testing
  dsimp only at state post noLength sound
  have first : advance fs ⟨.testing, d, socket⟩ = some (testBody d socket) := by
    simp only [advance, test, state]
  rcases testBody_cases d socket with ⟨-, same⟩ | ⟨value, found, rest⟩
  · rw [same] at first
    exact ⟨_, .step first (error_returns fs rfl), rfl, rfl⟩
  · rcases sound.length state value found with length | ⟨n, read, covered⟩
    · exact absurd ⟨value, found, length⟩ noLength
    · rcases rest with ⟨unread, -⟩ | ⟨m, again, ⟨waits, -⟩ | ⟨-, same⟩⟩
      · rw [unread] at read
        cases read
      · obtain rfl := Option.some.inj (again.symm.trans read)
        omega
      · rw [same] at first
        have failed := analyse_post fs socket (d := { d with state := .analysis }) post
        exact ⟨_, .step first (.step rfl (error_returns fs failed)), rfl, failed⟩

/-- Where no fault has occurred, the call that is under way returns. -/
theorem returns_of_standing (fs : FileSystem) (standing : Standing s) : Returns fs s := by
  by_cases malformed : Malformed s
  · by_cases meets : Sane s .advance
    · obtain ⟨s', ⟨n, advances⟩, outside, error⟩ := malformed_error malformed meets
      exact ⟨n, fun _ => ⟨s', advances, outside, fun _ => error⟩⟩
    · exact ⟨1, fun guarded => absurd guarded.1 meets⟩
  · obtain ⟨s', ⟨n, advances⟩, settled⟩ := call_settles fs s
    refine ⟨n, fun guarded => ⟨s', advances, ?_, fun found => absurd found malformed⟩⟩
    rcases settled with outside | ⟨fault, thrown⟩
    · exact outside
    · exact absurd thrown (run_standing standing guarded advances fault)

end Runs

end Corio.Epoll.Faults
