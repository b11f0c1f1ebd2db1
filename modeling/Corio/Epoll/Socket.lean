import Corio.Foundation.Text

/-! # `readn` and `writen`

The loops around the system calls. What the calls return is a script; an
exhausted script of reads says `EAGAIN` and an exhausted one of writes accepts
everything. `wire` holds the bytes the kernel has taken for the peer.
-/

namespace Corio.Epoll

inductive ReadResult where
  /-- Nothing is the end of the stream. -/
  | data (chunk : Bytes)
  | interrupted
  | again
  | failed
  deriving DecidableEq, Repr

inductive WriteResult where
  /-- At most this many bytes, and at most those that were offered. -/
  | accepted (n : Nat)
  | interrupted
  | again
  | failed
  deriving DecidableEq, Repr

structure Socket where
  reads : List ReadResult
  writes : List WriteResult
  wire : Bytes
  deriving DecidableEq, Repr

/-- What `readn` returns and what it leaves. -/
structure ReadOutcome where
  readSum : Int
  inBuffer : Bytes
  zero : Bool
  reads : List ReadResult
  deriving DecidableEq, Repr

/-- `readn(int, std::string &, bool &)`. -/
def readn : List ReadResult → Bytes → Nat → ReadOutcome
  | [], inBuffer, readSum => ⟨readSum, inBuffer, false, []⟩
  | .again :: reads, inBuffer, readSum => ⟨readSum, inBuffer, false, reads⟩
  | .interrupted :: reads, inBuffer, readSum => readn reads inBuffer readSum
  | .failed :: reads, inBuffer, _ => ⟨-1, inBuffer, false, reads⟩
  | .data chunk :: reads, inBuffer, readSum =>
      if chunk.length = 0 then ⟨readSum, inBuffer, true, reads⟩
      else readn reads (inBuffer ++ chunk) (readSum + chunk.length)

/-- How the loop of `writen` ended, and how many bytes it wrote. -/
structure WriteOutcome where
  failed : Bool
  writeSum : Nat
  writes : List WriteResult
  deriving DecidableEq, Repr

/-- The loop both variants of `writen` share. -/
def writeLoop : List WriteResult → Nat → Nat → WriteOutcome
  | [], nleft, writeSum => ⟨false, writeSum + nleft, []⟩
  | result :: writes, nleft, writeSum =>
      if nleft = 0 then ⟨false, writeSum, result :: writes⟩
      else
        match result with
        | .accepted n =>
            let nwritten := min n nleft
            writeLoop writes (nleft - nwritten) (writeSum + nwritten)
        | .interrupted => writeLoop writes nleft writeSum
        | .again => ⟨false, writeSum, writes⟩
        | .failed => ⟨true, writeSum, writes⟩

/-- `writen(int, void *, size_t)`. No caller looks at its result. -/
def writen (socket : Socket) (buff : Bytes) : Socket :=
  let outcome := writeLoop socket.writes buff.length 0
  { socket with writes := outcome.writes, wire := socket.wire ++ buff.take outcome.writeSum }

/-- `writen(int, std::string &)`: whether it returned -1, what is left, the socket.
    The total is compared with the size cast to `int`. -/
def writenString (socket : Socket) (sbuff : Bytes) : Bool × Bytes × Socket :=
  let outcome := writeLoop socket.writes sbuff.length 0
  let socket :=
    { socket with writes := outcome.writes, wire := socket.wire ++ sbuff.take outcome.writeSum }
  if outcome.failed then (true, sbuff, socket)
  else if (outcome.writeSum : Int) = toInt sbuff.length then (false, [], socket)
  else (false, sbuff.drop outcome.writeSum, socket)

/-- The largest chunk one `read` delivers. -/
def MAX_BUFF : Nat := 4096

/-- The reads that deliver these bytes, in chunks of at most `MAX_BUFF`. -/
def chunked : Nat → Bytes → List ReadResult
  | 0, _ => [.again]
  | fuel + 1, piece =>
      if piece = [] then [.again]
      else .data (piece.take MAX_BUFF) :: chunked fuel (piece.drop MAX_BUFF)

/-- A readable event that delivers a piece and ends with `EAGAIN`. -/
def pieceReads (piece : Bytes) : List ReadResult := chunked piece.length piece

theorem readn_chunked {fuel : Nat} {piece : Bytes} (enough : piece.length ≤ fuel)
    (inBuffer : Bytes) (readSum : Nat) :
    readn (chunked fuel piece) inBuffer readSum =
      ⟨(readSum + piece.length : Nat), inBuffer ++ piece, false, []⟩ := by
  induction fuel generalizing piece inBuffer readSum with
  | zero =>
      obtain rfl := List.length_eq_zero_iff.mp (Nat.le_zero.mp enough)
      simp [chunked, readn]
  | succ fuel ih =>
      by_cases empty : piece = []
      · subst piece
        simp [chunked, readn]
      · have positive := List.length_pos_of_ne_nil empty
        have maximum : MAX_BUFF = 4096 := rfl
        have some_ : ¬ min MAX_BUFF piece.length = 0 := by omega
        have shorter : (piece.drop MAX_BUFF).length ≤ fuel := by
          rw [List.length_drop]
          omega
        have sum : readSum + min MAX_BUFF piece.length + (piece.length - MAX_BUFF) =
            readSum + piece.length := by
          omega
        simp only [chunked, empty, if_false, readn, some_, ih shorter, List.length_take,
          List.length_drop, sum, List.append_assoc, List.take_append_drop]

/-- The whole piece arrives. -/
theorem readn_pieceReads (piece inBuffer : Bytes) :
    readn (pieceReads piece) inBuffer 0 = ⟨(piece.length : Nat), inBuffer ++ piece, false, []⟩ := by
  rw [pieceReads, readn_chunked (Nat.le_refl _), Nat.zero_add]

end Corio.Epoll
