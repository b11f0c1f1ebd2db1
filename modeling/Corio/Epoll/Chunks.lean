import Corio.Epoll.Replies
import Mathlib.Data.Nat.Find

/-! # Cutting a stream into readable events

`parseURI` compares a `size_t` with zero to find out whether the request line is
complete, so it never waits for the rest of one. A stream delivered byte by byte is
refused at its first byte, and only what is refused however it arrives behaves the
same for every cut.
-/

namespace Corio.Epoll

open Find

/-- One readable event. A connection that was closed gets no more of them. -/
def deliver (fs : FileSystem) (connection : HttpData × Bytes) (piece : Bytes) :
    Except Fault (HttpData × Bytes) :=
  if connection.1.connectionState = .disconnected then .ok connection
  else do
    let (d, socket) ← handleReadable fs connection.1 ⟨pieceReads piece, [], connection.2⟩
    .ok (d, socket.wire)

def deliverFrom (fs : FileSystem) (connection : HttpData × Bytes) (pieces : List Bytes) :
    Except Fault (HttpData × Bytes) :=
  pieces.foldlM (deliver fs) connection

/-- A new connection after these pieces. -/
def deliverAll (fs : FileSystem) (pieces : List Bytes) : Except Fault (HttpData × Bytes) :=
  deliverFrom fs ({}, []) pieces

/-- What two ways of delivering a stream are compared by. -/
structure Observed where
  method : HttpMethod
  fileName : Bytes
  version : HttpVersion
  headers : Bytes → Option Bytes
  inBuffer : Bytes
  error : Bool
  wire : Bytes

def observe (connection : HttpData × Bytes) : Observed where
  method := connection.1.method
  fileName := connection.1.fileName
  version := connection.1.version
  headers := connection.1.headers.find?
  inBuffer := connection.1.inBuffer
  error := connection.1.error
  wire := connection.2

structure IsCut (pieces : List Bytes) (stream : Bytes) : Prop where
  nonempty : ∀ piece ∈ pieces, piece ≠ []
  whole : pieces.flatten = stream

def ChunkIndependent (fs : FileSystem) (stream : Bytes) : Prop :=
  ∀ first second, IsCut first stream → IsCut second stream →
    (deliverAll fs first).map observe = (deliverAll fs second).map observe

/-- Less than 2 GiB, and no method before the first carriage return. -/
def NoMethod (stream : Bytes) : Prop :=
  stream.length < 2 ^ 31 ∧ findMethod (requestLine stream 0) = none

section Searches

theorem sfind_symbol {x : UInt8} {mid : Bytes} (absent : x ∉ mid) (front back : Bytes) :
    sfind [x] (front ++ (mid ++ x :: back)) front.length = front.length + mid.length := by
  rw [sfind, List.drop_left, find?_symbol absent]

theorem sfind_absent {x : UInt8} {back : Bytes} (absent : x ∉ back) (front : Bytes) :
    sfind [x] (front ++ back) front.length = npos := by
  have none_ : find? [x] back = none := by
    rw [find?_none_iff]
    intro inside
    exact absent (inside.subset List.mem_cons_self)
  rw [sfind, List.drop_left, none_]

/-- Nothing is found behind the end. -/
theorem sfind_npos {pat s : Bytes} (proper : pat ≠ []) (short : s.length ≤ npos) :
    sfind pat s npos = npos := by
  rw [sfind, List.drop_eq_nil_of_le short, find?, if_neg proper]

theorem take_sfind_zero {x : UInt8} {s : Bytes} (short : s.length ≤ npos) :
    s.take (sfind [x] s 0) = s.takeWhile (· != x) := by
  by_cases member : x ∈ s
  · obtain ⟨front, back, rfl, first⟩ := List.eq_append_cons_of_mem member
    have all : ∀ c ∈ front, (c != x) = true := by
      intro c inside
      simp only [bne_iff_ne, ne_eq]
      rintro rfl
      exact first inside
    have found := sfind_symbol first [] back
    rw [List.nil_append, List.length_nil, Nat.zero_add] at found
    rw [found, List.take_left, List.takeWhile_append_of_pos all]
    simp
  · have all : ∀ c ∈ s, (c != x) = true := by
      intro c inside
      simp only [bne_iff_ne, ne_eq]
      rintro rfl
      exact member inside
    have absent := sfind_absent member []
    rw [List.nil_append, List.length_nil] at absent
    rw [absent, List.takeWhile_eq_self_iff.mpr all, List.take_of_length_le short]

end Searches

section RequestLine

theorem requestLine_eq {str : Bytes} (short : str.length ≤ npos) :
    requestLine str 0 = str.takeWhile (· != 13) :=
  take_sfind_zero short

theorem requestLine_part {part str : Bytes} (short : str.length ≤ npos) (inside : part <+: str) :
    requestLine part 0 <+: requestLine str 0 := by
  obtain ⟨rest, rfl⟩ := inside
  have partShort : part.length ≤ npos := by
    rw [List.length_append] at short
    omega
  rw [requestLine_eq short, requestLine_eq partShort, List.takeWhile_append]
  split
  · exact (List.takeWhile_prefix _).trans (List.prefix_append _ _)
  · exact List.prefix_refl _

theorem sfind_zero {pat line : Bytes} : sfind pat line 0 = (find? pat line).getD npos := by
  rw [sfind, List.drop_zero]
  cases find? pat line with
  | none => rfl
  | some i => exact Nat.zero_add i

/-- A position fits an `int`, and a missing one is negative. -/
theorem position_nonneg (pat : Bytes) {line : Bytes} (short : line.length < 2 ^ 31) :
    toInt (sfind pat line 0) ≥ 0 ↔ find? pat line ≠ none := by
  rw [sfind_zero]
  cases found : find? pat line with
  | none =>
      simp only [Option.getD_none, toInt_npos]
      decide
  | some i =>
      have small : i < 2 ^ 31 := by
        have := (find?_some found).1
        omega
      simp only [Option.getD_some, toInt_small small]
      simp

/-- The three method names, in the order they are looked for. -/
def methodNames : List Bytes := [bytes "GET", bytes "POST", bytes "HEAD"]

theorem findMethod_none {line : Bytes} (short : line.length < 2 ^ 31) :
    findMethod line = none ↔ ∀ name ∈ methodNames, find? name line = none := by
  have get := position_nonneg (bytes "GET") short
  have post := position_nonneg (bytes "POST") short
  have head := position_nonneg (bytes "HEAD") short
  simp only [methodNames, List.forall_mem_cons, List.not_mem_nil, false_implies, implies_true,
    and_true, findMethod, get, post, head]
  split
  · simp_all
  · split
    · simp_all
    · split <;> simp_all

/-- A method that is found was looked for at its own offset. -/
theorem findMethod_some {line : Bytes} {method : HttpMethod} {pos : Nat}
    (short : line.length < 2 ^ 31) (found : findMethod line = some (method, pos)) :
    ∃ name ∈ methodNames, find? name line = some pos := by
  have position {pat : Bytes} (there : toInt (sfind pat line 0) ≥ 0) :
      find? pat line = some (toSize (toInt (sfind pat line 0))) := by
    obtain ⟨i, here⟩ := Option.ne_none_iff_exists'.mp ((position_nonneg _ short).mp there)
    have inside := (find?_some here).1
    rw [sfind_zero, here, Option.getD_some, toInt_small (by omega), toSize_nat (by omega)]
  simp only [findMethod] at found
  split at found
  · rename_i there
    obtain ⟨-, rfl⟩ := Prod.mk.inj (Option.some.inj found)
    exact ⟨_, by simp [methodNames], position there⟩
  · split at found
    · rename_i there
      obtain ⟨-, rfl⟩ := Prod.mk.inj (Option.some.inj found)
      exact ⟨_, by simp [methodNames], position there⟩
    · split at found
      · rename_i there
        obtain ⟨-, rfl⟩ := Prod.mk.inj (Option.some.inj found)
        exact ⟨_, by simp [methodNames], position there⟩
      · cases found

theorem findMethod_none_prefix {part line : Bytes} (short : line.length < 2 ^ 31)
    (inside : part <+: line) (absent : findMethod line = none) : findMethod part = none := by
  obtain ⟨rest, rfl⟩ := inside
  have partShort : part.length < 2 ^ 31 := by
    rw [List.length_append] at short
    omega
  rw [findMethod_none short] at absent
  refine (findMethod_none partShort).mpr fun name member => ?_
  cases found : find? name part with
  | none => rfl
  | some i => exact absurd (find?_append found rest) (by rw [absent name member]; simp)

/-- The shortest part of a line in which a method is found ends with its name. -/
theorem exists_method_end {line : Bytes} (short : line.length < 2 ^ 31)
    (present : findMethod line ≠ none) :
    ∃ part name method, part <+: line ∧ name ∈ methodNames ∧
      findMethod part = some (method, part.length - name.length) ∧
      part.drop (part.length - name.length) = name := by
  have some_ : ∃ n, findMethod (line.take n) ≠ none := ⟨line.length, by rwa [List.take_length]⟩
  have least := Nat.find_spec some_
  have minimal (m : Nat) (before : m < Nat.find some_) : findMethod (line.take m) = none :=
    not_not.mp (Nat.find_min some_ before)
  revert least minimal
  generalize Nat.find some_ = n
  intro least minimal
  obtain ⟨⟨method, pos⟩, found⟩ := Option.ne_none_iff_exists'.mp least
  have partShort : (line.take n).length < 2 ^ 31 := by
    rw [List.length_take]
    omega
  obtain ⟨name, member, here⟩ := findMethod_some partShort found
  obtain ⟨-, occurs⟩ := find?_some here
  obtain ⟨tail, whole⟩ := occurs
  have nonempty : name.length ≠ 0 := by
    simp only [methodNames, List.mem_cons, List.not_mem_nil, or_false] at member
    rcases member with rfl | rfl | rfl <;> decide
  -- Anything behind the name could be left out.
  have atEnd : tail = [] := by
    by_contra more
    have tailLength := List.length_pos_of_ne_nil more
    have dropLength := congrArg List.length whole
    simp only [List.length_append, List.length_drop, List.length_take] at dropLength
    have earlier := minimal (pos + name.length) (by omega)
    have front : line.take (pos + name.length) = (line.take n).take pos ++ name := by
      have cut : (line.take n).take (pos + name.length) = (line.take n).take pos ++ name := by
        rw [List.take_add, ← whole, List.take_left]
      rw [← cut, List.take_take, Nat.min_eq_left (by omega)]
    rw [findMethod_none (by rw [List.length_take]; omega)] at earlier
    refine find?_none_iff.mp (earlier name member) ?_
    rw [front]
    exact (List.suffix_append _ _).isInfix
  subst tail
  rw [List.append_nil] at whole
  have posIs : pos = (line.take n).length - name.length := by
    have := congrArg List.length whole
    simp only [List.length_drop] at this
    omega
  exact ⟨line.take n, name, method, List.take_prefix _ _, member, posIs ▸ found, posIs ▸ whole.symm⟩

end RequestLine

section Refused

variable {fs : FileSystem}

def badRequestPage : Bytes :=
  errorHeader 400 (bytes "Bad Request") ++ errorBody 400 (bytes "Bad Request")

theorem writen_all (reads : List ReadResult) (wire buff : Bytes) :
    writen ⟨reads, [], wire⟩ buff = ⟨reads, [], wire ++ buff⟩ := by
  simp only [writen, writeLoop, Nat.zero_add, List.take_length]

theorem badRequest_all (d : HttpData) (reads : List ReadResult) (wire : Bytes) :
    badRequest d ⟨reads, [], wire⟩ =
      ({ d with error := true }, ⟨reads, [], wire ++ badRequestPage⟩) := by
  simp only [badRequest, refuse, handleError, writen_all, badRequestPage, List.append_assoc]

/-- A pass that is refused ends the connection. -/
theorem handleReadable_refused {d d' : HttpData} {socket socket' : Socket}
    (once : readOnce fs { d with events := {} } socket = .ok (d', socket'))
    (refused : d'.error = true) :
    handleReadable fs d socket = .ok (handleClose d', socket') := by
  have pass : handleReadPass fs { d with events := {} } socket = .ok (false, d', socket') := by
    simp only [handleReadPass, once, bind, Except.bind, afterRead, refused, if_true]
  have conn : handleConn d' = handleClose d' := by
    simp only [handleConn, refused, not_true_eq_false, false_and, if_false]
  simp only [handleReadable, handleRead, handleReadFuel, pass, bind, Except.bind,
    Bool.false_eq_true, if_false, conn]

theorem parseURI_noMethod {d : HttpData}
    (absent : findMethod (requestLine d.inBuffer d.nowReadPos) = none) :
    ∃ inBuffer, parseURI d = (.error, { d with inBuffer := inBuffer }) := by
  refine ⟨(parseURI d).2.inBuffer, ?_⟩
  simp only [parseURI, Nat.not_lt_zero, if_false, absent]

/-- A first piece that names no method is refused, and nothing of it is kept. -/
theorem deliver_noMethod {piece : Bytes} (absent : NoMethod piece) :
    deliver fs ({}, []) piece =
      .ok ({ error := true, connectionState := .disconnected }, badRequestPage) := by
  obtain ⟨short, absent⟩ := absent
  obtain ⟨inBuffer, parsed⟩ := parseURI_noMethod (d := { inBuffer := piece }) absent
  have size : ¬ toInt ((piece.length : Nat) : Int) < 0 := by
    rw [toInt_small short]
    omega
  have once : readOnce fs {} ⟨pieceReads piece, [], []⟩ =
      .ok ({ error := true }, ⟨[], [], badRequestPage⟩) := by
    simp only [readOnce, readn_pieceReads, List.nil_append, reduceCtorEq, if_false, size,
      Bool.false_eq_true, process, readURI, parsed, badRequest_all]
  have readable := handleReadable_refused (d := {}) once rfl
  simp only [deliver, reduceCtorEq, if_false, readable, bind, Except.bind, handleClose]

/-- A piece whose size is negative as an `int` is refused and kept. -/
theorem deliver_oversize {piece : Bytes} (size : piece.length = 2 ^ 31) :
    deliver fs ({}, []) piece =
      .ok ({ inBuffer := piece, error := true, connectionState := .disconnected },
        badRequestPage) := by
  have negative : toInt ((piece.length : Nat) : Int) < 0 := by
    rw [size]
    decide
  have once : readOnce fs {} ⟨pieceReads piece, [], []⟩ =
      .ok ({ inBuffer := piece, error := true }, ⟨[], [], badRequestPage⟩) := by
    simp only [readOnce, readn_pieceReads, List.nil_append, reduceCtorEq, if_false, negative,
      if_true, badRequest_all]
  have readable := handleReadable_refused (d := {}) once rfl
  simp only [deliver, reduceCtorEq, if_false, readable, bind, Except.bind, handleClose]

theorem deliverFrom_cons (connection : HttpData × Bytes) (piece : Bytes) (pieces : List Bytes) :
    deliverFrom fs connection (piece :: pieces) =
      deliver fs connection piece >>= fun next => deliverFrom fs next pieces :=
  List.foldlM_cons

theorem deliverFrom_closed {connection : HttpData × Bytes}
    (closed : connection.1.connectionState = .disconnected) (pieces : List Bytes) :
    deliverFrom fs connection pieces = .ok connection := by
  induction pieces with
  | nil => rfl
  | cons piece pieces ih =>
      rw [deliverFrom_cons, deliver, if_pos closed]
      exact ih

/-- What is left of a connection that was refused at its first piece. -/
def refused : HttpData × Bytes :=
  ({ error := true, connectionState := .disconnected }, badRequestPage)

theorem deliverAll_noMethod {piece : Bytes} (absent : NoMethod piece) (pieces : List Bytes) :
    deliverAll fs (piece :: pieces) = .ok refused := by
  rw [deliverAll, deliverFrom_cons, deliver_noMethod absent]
  exact deliverFrom_closed rfl pieces

theorem noMethod_part {part stream : Bytes} (inside : part <+: stream)
    (absent : NoMethod stream) : NoMethod part := by
  obtain ⟨short, absent⟩ := absent
  have le := inside.length_le
  have lineShort : (requestLine stream 0).length < 2 ^ 31 := by
    exact Nat.lt_of_le_of_lt (List.take_prefix _ _).length_le short
  exact ⟨by omega, findMethod_none_prefix lineShort
    (requestLine_part (by rw [npos]; omega) inside) absent⟩

theorem noMethod_byte (b : UInt8) : NoMethod [b] := by
  refine ⟨by simp, ?_⟩
  have line : requestLine [b] 0 <+: [b] := List.take_prefix _ _
  rw [findMethod_none (Nat.lt_of_le_of_lt line.length_le (by simp))]
  intro name member
  rw [find?_none_iff]
  intro occurs
  have long := occurs.length_le.trans line.length_le
  rw [List.length_singleton] at long
  simp only [methodNames, List.mem_cons, List.not_mem_nil, or_false] at member
  rcases member with rfl | rfl | rfl <;> exact absurd long (by decide)

/-- Byte by byte, every stream is refused. -/
theorem deliverAll_bytes {stream : Bytes} (nonempty : stream ≠ []) :
    IsCut (stream.map fun b => [b]) stream ∧
    deliverAll fs (stream.map fun b => [b]) = .ok refused := by
  obtain ⟨b, rest, rfl⟩ := List.exists_cons_of_ne_nil nonempty
  refine ⟨⟨by simp, ?_⟩, deliverAll_noMethod (noMethod_byte b) _⟩
  rw [← List.flatMap_def]
  simp

/-- A stream without a method is refused however it is cut. -/
theorem chunkIndependent_of_noMethod {stream : Bytes} (absent : NoMethod stream) :
    ChunkIndependent fs stream := by
  have same (pieces : List Bytes) (cut : IsCut pieces stream) (nonempty : stream ≠ []) :
      deliverAll fs pieces = .ok refused := by
    cases pieces with
    | nil => exact absurd cut.whole.symm nonempty
    | cons piece pieces =>
        exact deliverAll_noMethod
          (noMethod_part ⟨pieces.flatten, by rw [← cut.whole]; rfl⟩ absent) pieces
  intro first second firstCut secondCut
  by_cases nonempty : stream = []
  · subst stream
    have none_ {pieces : List Bytes} (cut : IsCut pieces []) : pieces = [] := by
      cases pieces with
      | nil => rfl
      | cons piece pieces =>
          have empty := List.append_eq_nil_iff.mp cut.whole
          exact absurd empty.1 (cut.nonempty piece List.mem_cons_self)
    rw [none_ firstCut, none_ secondCut]
  · rw [same first firstCut nonempty, same second secondCut nonempty]

end Refused

end Corio.Epoll
