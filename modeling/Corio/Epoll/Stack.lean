import Corio.Epoll.Faults
import Corio.Logging.Records

/-! # The log lines and the stack of `handleRead`

A call gives all of `inBuffer_` to the log, through a line buffer of 4000 bytes that is on its
stack, and it calls itself for the next request of a pipeline. Here are the steps of `handling`
with both: a line that is written past its buffer, and a call that the stack has no room for, are
the last step of the server, like an exception.
-/

namespace Corio.Epoll.Stack

open Faults
open LogStream (FixedBuffer Insertion Inside LogStatement Narrows Throughout Value)

/-- The thread of a connection, as far as its calls depend on it. -/
structure Thread where
  /-- What the lines of the log begin with. -/
  time : { str_t : Bytes // str_t.length < 26 }
  /-- `__FILE__`. -/
  fileName : { name : Bytes // name.length < 2 ^ 31 }
  /-- `fd_`. -/
  fd : Value .int
  /-- How many calls inside of the first one the stack has room for. -/
  room : Nat

/-- `LOG << "Request: " << inBuffer_`. -/
def requestLog (thread : Thread) (inBuffer : Bytes) : LogStatement where
  time := thread.time
  fileName := thread.fileName
  line := ⟨160, by decide, by decide⟩
  values := [.cString (some (bytes "Request: ")), .string inBuffer]

/-- `LOG << "FD = " << fd_ << "," << inBuffer_ << "******"`. -/
def errorLog (thread : Thread) (inBuffer : Bytes) : LogStatement where
  time := thread.time
  fileName := thread.fileName
  line := ⟨196, by decide, by decide⟩
  values := [.cString (some (bytes "FD = ")), .integer thread.fd, .cString (some (bytes ",")),
    .string inBuffer, .cString (some (bytes "******"))]

/-- What a step of `handleRead` logs. -/
def logs (thread : Thread) (s : Handling) : List LogStatement :=
  match s.place, s.d.state with
  | .reading, _ => [requestLog thread (readn s.socket.reads s.d.inBuffer 0).inBuffer]
  | .testing, .parseURI =>
      let (flag, d) := parseURI s.d
      if flag = .error then [errorLog thread d.inBuffer] else []
  | _, _ => []

/-- The line is written past the end of its buffer. -/
def Overruns (log : LogStatement) : Prop :=
  ¬ Inside (LogStream.insert log.beforeNewline (.char 10))

instance (log : LogStatement) : Decidable (Overruns log) := by
  have same (b : FixedBuffer LogStatement.smallBuffer) : Decidable (Inside b) :=
    decidable_of_iff (0 ≤ b.length ∧ b.length ≤ LogStatement.smallBuffer.val ∧
        ∀ write ∈ b.writes, write.2 ≤ LogStatement.smallBuffer.val)
      ⟨fun all => ⟨all.1, all.2.1, all.2.2⟩, fun all => ⟨all.natural, all.atMost, all.writes⟩⟩
  unfold Overruns
  infer_instance

/-- `handleRead` calls itself with this step. -/
def Nests (s : Handling) : Prop := s.place = .ending ∧ (conclude s.d s.socket).place = .reading

instance (s : Handling) : Decidable (Nests s) := by
  unfold Nests
  infer_instance

structure Serving where
  s : Handling
  /-- Calls of `handleRead` inside of the first one. -/
  nested : Nat
  deriving DecidableEq, Repr

/-- The process is gone, or does what is not defined. -/
def Serving.crash (c : Serving) : Serving :=
  { c with s := { c.s with place := .thrown .undefined } }

/-- Where a step comes to that is no crash. -/
def Serving.goTo (c : Serving) (next : Handling) : Serving :=
  ⟨next, if next.place = .outside then 0 else if Nests c.s then c.nested + 1 else c.nested⟩

/-- A step of the call that is under way comes to the end of a line, or of the stack. -/
def Serving.Crashes (thread : Thread) (c : Serving) : Prop :=
  (∃ log ∈ logs thread c.s, Overruns log) ∨ Nests c.s ∧ thread.room ≤ c.nested

instance (thread : Thread) (c : Serving) : Decidable (c.Crashes thread) := by
  unfold Serving.Crashes
  infer_instance

/-- One connection and its handlers on their thread. -/
def serving (fs : FileSystem) (thread : Thread) : Machine Serving Action where
  init := ⟨(handling fs).init, 0⟩
  step c action :=
    ((handling fs).step c.s action).map fun next =>
      if action = .advance ∧ c.Crashes thread then c.crash else c.goTo next

/-- The condition on a step, in the state before it: there are less than 2^31 bytes behind `readn`,
    the test of `state_` is sound, and `handleRead` does not call itself where the stack is full. -/
def Sane (thread : Thread) (c : Serving) (action : Action) : Prop :=
  Faults.Sane c.s action ∧
    (action = .advance →
      (c.s.place = .reading →
        (readn c.s.socket.reads c.s.d.inBuffer 0).inBuffer.length < 2 ^ 31) ∧
      (Nests c.s → c.nested < thread.room))

instance (thread : Thread) (c : Serving) (action : Action) : Decidable (Sane thread c action) := by
  unfold Sane
  infer_instance

/-- The call that is under way returns, if its steps meet the condition. If it has just come upon
    a malformed length, `error_` is then set. -/
def Returns (fs : FileSystem) (thread : Thread) (c : Serving) : Prop :=
  ∃ n, (serving fs thread).Guarded (Sane thread) c (List.replicate n .advance) →
    ∃ c', (serving fs thread).run c (List.replicate n .advance) = some c' ∧
      c'.s.place = .outside ∧ (Malformed c.s → c'.s.d.error = true)

/-! ## Log lines -/

section Lines

variable {log : LogStatement} {thread : Thread} {s : Handling}

/-- Only a string of 2 GiB and more is written past the end. -/
theorem not_overruns (name : log.fileName.length < 2 ^ 31)
    (values : ∀ v ∈ log.values, v.numeric = false → v.text.length < 2 ^ 31) : ¬ Overruns log := by
  have short : ∀ v ∈ log.insertions ++ [.char 10],
      v.numeric = false → v.text.length < 2 ^ 31 := by
    intro v member string
    simp only [LogStatement.insertions, List.cons_append, List.append_assoc, List.nil_append,
      List.mem_cons, List.mem_append, List.not_mem_nil, or_false] at member
    rcases member with rfl | inside | rfl | rfl | rfl | rfl | rfl
    · exact log.time.property.trans (by decide)
    · exact values v inside string
    · exact (by decide : (bytes " -- ").length < 2 ^ 31)
    · exact name
    · exact (by decide : 1 < 2 ^ 31)
    · cases string
    · exact (by decide : 1 < 2 ^ 31)
  have kept : Throughout LogStatement.smallBuffer (fun b v => ¬ Narrows b v)
      (log.insertions ++ [.char 10]) := by
    intro earlier v front narrows
    have member : v ∈ log.insertions ++ [.char 10] :=
      front.subset (List.mem_append_right _ List.mem_cons_self)
    exact absurd narrows.2.1 (Nat.not_le.mpr (short v member narrows.1))
  have bounded := (LogStream.Bounded.inserted kept).inside
  rw [LogStream.inserted_concat] at bounded
  exact not_not.mpr bounded

theorem requestLog_fits {inBuffer : Bytes} (small : inBuffer.length < 2 ^ 31) :
    ¬ Overruns (requestLog thread inBuffer) := by
  refine not_overruns thread.fileName.property fun v member _ => ?_
  simp only [requestLog, List.mem_cons, List.not_mem_nil, or_false] at member
  rcases member with rfl | rfl
  · exact (by decide : (bytes "Request: ").length < 2 ^ 31)
  · exact small

theorem errorLog_fits {inBuffer : Bytes} (small : inBuffer.length < 2 ^ 31) :
    ¬ Overruns (errorLog thread inBuffer) := by
  refine not_overruns thread.fileName.property fun v member string => ?_
  simp only [errorLog, List.mem_cons, List.not_mem_nil, or_false] at member
  rcases member with rfl | rfl | rfl | rfl | rfl
  · exact (by decide : (bytes "FD = ").length < 2 ^ 31)
  · cases string
  · exact (by decide : (bytes ",").length < 2 ^ 31)
  · exact small
  · exact (by decide : (bytes "******").length < 2 ^ 31)

/-- What is tested has come through `readn`. -/
def Fits (s : Handling) : Prop := s.place = .testing → s.d.inBuffer.length < 2 ^ 31

theorem logs_fit (fits : Fits s) (small : s.place = .reading →
      (readn s.socket.reads s.d.inBuffer 0).inBuffer.length < 2 ^ 31) :
    ∀ log ∈ logs thread s, ¬ Overruns log := by
  obtain ⟨place, d, socket⟩ := s
  intro log member
  cases place with
  | outside | ending | thrown => cases member
  | reading =>
      obtain rfl := List.mem_singleton.mp member
      exact requestLog_fits (small rfl)
  | testing =>
      unfold logs at member
      cases state : d.state with simp only [state] at member
      | parseHeaders | recvBody | analysis | finish => cases member
      | parseURI =>
          split at member
          · obtain rfl := List.mem_singleton.mp member
            exact errorLog_fits ((parseURI_le d).trans_lt (fits rfl))
          · cases member

end Lines

/-! ## Runs -/

section Runs

variable {fs : FileSystem} {thread : Thread} {c c' : Serving} {s s' : Handling} {action : Action}
  {acts : List Action}

theorem receive_fits {d : HttpData} {socket : Socket}
    (small : (readn socket.reads d.inBuffer 0).inBuffer.length < 2 ^ 31) :
    Fits (receive d socket) := by
  intro testing
  unfold receive at testing ⊢
  dsimp only at testing ⊢
  split_ifs at testing ⊢ <;> exact small

/-- No test makes the buffer longer. -/
theorem test_fits {d : HttpData} {socket : Socket} (small : d.inBuffer.length < 2 ^ 31) :
    Fits (test fs d socket) := by
  intro testing
  unfold test at testing ⊢
  cases state : d.state with simp only [state] at testing ⊢
  | analysis | finish => cases testing
  | parseURI =>
      have shorter := parseURI_le d
      unfold testURI at testing ⊢
      generalize parseURI d = parsed at testing shorter ⊢
      obtain ⟨flag, mid⟩ := parsed
      cases flag with
      | again | error => cases testing
      | success => exact shorter.trans_lt small
  | parseHeaders =>
      unfold testHeaders at testing ⊢
      cases parsed : parseHeaders d with simp only [parsed] at testing ⊢
      | error fault => cases testing
      | ok result =>
          obtain ⟨flag, mid⟩ := result
          cases flag with
          | again | error => cases testing
          | success => exact (parseHeaders_le parsed).trans_lt small
  | recvBody =>
      rcases testBody_cases d socket with
        ⟨-, same⟩ | ⟨value, -, ⟨-, same⟩ | ⟨n, -, ⟨-, same⟩ | ⟨-, same⟩⟩⟩ <;> rw [same] at testing ⊢
      · cases testing
      · cases testing
      · cases testing
      · exact small

theorem conclude_fits (d : HttpData) (socket : Socket) : Fits (conclude d socket) := by
  intro testing
  simp only [conclude, arrive] at testing
  split at testing <;> cases testing

/-- No fault has occurred, and the buffer is of a size for the log. -/
structure Kept (s : Handling) : Prop where
  standing : Standing s
  fits : Fits s

theorem kept_init (fs : FileSystem) : Kept (handling fs).init := ⟨init_standing fs, nofun⟩

/-- A step that meets the condition is the step of `handling`. -/
theorem step_sane (kept : Kept c.s) (sane : Sane thread c action) :
    (serving fs thread).step c action = ((handling fs).step c.s action).map c.goTo := by
  have calm : ¬ (action = .advance ∧ c.Crashes thread) := by
    rintro ⟨advance, ⟨log, member, overruns⟩ | ⟨nests, full⟩⟩
    · exact logs_fit kept.fits (sane.2 advance).1 log member overruns
    · exact absurd ((sane.2 advance).2 nests) (Nat.not_lt.mpr full)
  simp only [serving, if_neg calm]

theorem kept_step (kept : Kept c.s) (sane : Sane thread c action)
    (taken : (handling fs).step c.s action = some s') : Kept s' := by
  refine ⟨step_standing kept.standing action sane.1 taken, ?_⟩
  cases action with
  | event | conn | close =>
      obtain ⟨outside, same⟩ := Option.ite_none_right_eq_some.mp taken
      obtain rfl := Option.some.inj same
      exact fun testing => absurd (outside.symm.trans testing) (by decide)
  | read | write =>
      obtain ⟨-, same⟩ := Option.ite_none_right_eq_some.mp taken
      obtain rfl := Option.some.inj same
      nofun
  | advance =>
      rw [step_advance] at taken
      unfold advance at taken
      split at taken
      · rename_i reading
        obtain rfl := Option.some.inj taken
        exact receive_fits ((sane.2 rfl).1 reading)
      · rename_i testing
        obtain rfl := Option.some.inj taken
        exact test_fits (kept.fits testing)
      · obtain rfl := Option.some.inj taken
        exact conclude_fits _ _
      · cases taken
      · cases taken

theorem kept_run (kept : Kept c.s) (sane : (serving fs thread).Guarded (Sane thread) c acts)
    (ran : (serving fs thread).run c acts = some c') : Kept c'.s := by
  refine Machine.Guarded.preserves (I := fun c => Kept c.s) ?_ kept sane ran
  intro c action c' kept sane taken
  rw [step_sane kept sane] at taken
  obtain ⟨s', moves, rfl⟩ := Option.map_eq_some_iff.mp taken
  exact kept_step kept sane moves

/-- Steps that meet the condition follow those of `handling`, and meet its condition. -/
theorem run_follows (kept : Kept c.s) (sane : (serving fs thread).Guarded (Sane thread) c acts) :
    (handling fs).Guarded Faults.Sane c.s acts ∧
      ∀ s', (handling fs).run c.s acts = some s' →
        ∃ c', (serving fs thread).run c acts = some c' ∧ c'.s = s' := by
  induction acts generalizing c with
  | nil => exact ⟨trivial, fun s' ran => ⟨c, rfl, Option.some.inj ran⟩⟩
  | cons action rest ih =>
      obtain ⟨here, later⟩ := sane
      have steps : (serving fs thread).step c action =
          ((handling fs).step c.s action).map c.goTo := step_sane kept here
      have onward {next : Handling} (moves : (handling fs).step c.s action = some next) :
          (serving fs thread).step c action = some (c.goTo next) := by
        rw [steps, moves, Option.map_some]
      refine ⟨⟨here.1, fun next moves => ?_⟩, fun s' ran => ?_⟩
      · exact (ih (c := c.goTo next) (kept_step kept here moves) (later _ (onward moves))).1
      · obtain ⟨next, moves, goes⟩ := (Machine.run_cons_some _).mp ran
        obtain ⟨c', ran', same⟩ :=
          (ih (c := c.goTo next) (kept_step kept here moves) (later _ (onward moves))).2 s' goes
        exact ⟨c', (Machine.run_cons_some _).mpr ⟨_, onward moves, ran'⟩, same⟩

end Runs

/-- A run whose steps meet the condition sees no fault, and every call in it returns, with `error_`
    set if it has come upon a malformed length. -/
theorem handleRead_returns (fs : FileSystem) (thread : Thread) (acts : List Action) (c : Serving)
    (ran : (serving fs thread).run (serving fs thread).init acts = some c)
    (sane : (serving fs thread).Guarded (Sane thread) (serving fs thread).init acts) :
    (∀ fault, c.s.place ≠ .thrown fault) ∧ Returns fs thread c := by
  have kept : Kept c.s := kept_run (kept_init fs) sane ran
  refine ⟨kept.standing, ?_⟩
  obtain ⟨n, returns⟩ := returns_of_standing fs kept.standing
  refine ⟨n, fun guarded => ?_⟩
  obtain ⟨meets, follows⟩ := run_follows kept guarded
  obtain ⟨s', ran', outside, error⟩ := returns meets
  obtain ⟨c', served, rfl⟩ := follows s' ran'
  exact ⟨c', served, outside, error⟩

/-- The thread of a loop. With 8 MB there is room for some 2000 calls of 4 kB. -/
def loopThread : Thread where
  time := ⟨bytes "2026-01-01 00:00:00\n", by decide⟩
  fileName := ⟨bytes "HttpData.cpp", by decide⟩
  fd := ⟨7, by decide, by decide⟩
  room := 2000

/-- A POST with this length arrives, and its call takes this many steps. -/
def posted (value : Bytes) (steps : Nat) : List Action :=
  .read (pieceReads (bytes "POST / HTTP/1.1\r\nContent-length: " ++ value ++
    bytes "\r\n\r\n")) [] :: List.replicate steps .advance

theorem handleRead_returns_negative :
    ∃ c, (serving noFiles loopThread).run (serving noFiles loopThread).init
        (posted (bytes "-5") 3) = some c ∧
      Malformed c.s ∧ (∀ fault, c.s.place ≠ .thrown fault) ∧ Returns noFiles loopThread c := by
  have ran : ((serving noFiles loopThread).run (serving noFiles loopThread).init
      (posted (bytes "-5") 3)).any fun c => Malformed c.s := by
    decide +kernel
  obtain ⟨c, ran, malformed⟩ := (Option.any_eq_true _ _).mp ran
  obtain ⟨standing, returns⟩ :=
    handleRead_returns noFiles loopThread (posted (bytes "-5") 3) c ran (by decide +kernel)
  exact ⟨c, ran, of_decide_eq_true malformed, standing, returns⟩

/-- What begins with no number makes `stoi` throw, and what begins with a larger one is waited
    for. -/
theorem letter_thrown :
    ((serving noFiles loopThread).run (serving noFiles loopThread).init
          (posted (bytes "x") 4)).map (·.s.place) = some (.thrown .uncaught) ∧
      ((serving noFiles loopThread).run (serving noFiles loopThread).init
          (posted (bytes "5x") 5)).map (fun c => (c.s.place, c.s.d.error)) =
        some (.outside, false) ∧
        ¬ IsLength (bytes "5x") := by
  decide +kernel

end Corio.Epoll.Stack
