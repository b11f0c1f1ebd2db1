import Corio.Epoll.Mime
import Corio.Epoll.Socket
import Corio.Foundation.Dict
import Corio.Foundation.Find

/-! # The state of a connection and its parsers

`parseURI` and `parseHeaders` as the source has them, with offsets of type
`size_t` and `int`. The comparisons of a `size_t` with zero are kept: they never
succeed. A `Fault` is undefined behaviour or an exception nobody catches.
-/

namespace Corio.Epoll

inductive ProcessState where
  | parseURI | parseHeaders | recvBody | analysis | finish
  deriving DecidableEq, Repr

inductive URIState where
  | again | error | success
  deriving DecidableEq, Repr

inductive HeaderState where
  | success | again | error
  deriving DecidableEq, Repr

inductive AnalysisState where
  | success | error
  deriving DecidableEq, Repr

inductive ParseState where
  | start | key | colon | spacesAfterColon | value | cr | lf | endCR | endLF
  deriving DecidableEq, Repr

inductive ConnectionState where
  | connected | disconnecting | disconnected
  deriving DecidableEq, Repr

inductive HttpMethod where
  | post | get | head
  deriving DecidableEq, Repr

inductive HttpVersion where
  | http10 | http11
  deriving DecidableEq, Repr

/-- The bits of `events_` the handlers look at. -/
structure Events where
  epollin : Bool := false
  epollout : Bool := false
  epollet : Bool := false
  deriving DecidableEq, Repr

structure HttpData where
  inBuffer : Bytes := []
  outBuffer : Bytes := []
  error : Bool := false
  connectionState : ConnectionState := .connected
  method : HttpMethod := .get
  version : HttpVersion := .http11
  fileName : Bytes := []
  nowReadPos : Int := 0
  state : ProcessState := .parseURI
  hState : ParseState := .start
  keepAlive : Bool := false
  headers : Dict Bytes Bytes := Dict.empty
  events : Events := {}
  deriving DecidableEq, Repr

inductive Fault where
  /-- A pointer or iterator outside its string. -/
  | undefined
  /-- `std::out_of_range` or `std::invalid_argument`. -/
  | uncaught
  /-- More turns than the fuel allows. -/
  | outOfFuel
  deriving DecidableEq, Repr

/-- `s.find(pat, pos)` as a `size_t`. -/
def sfind (pat s : Bytes) (pos : Nat) : Nat :=
  match Find.find? pat (s.drop pos) with
  | some i => pos + i
  | none => npos

/-- The request line: the text before the first carriage return. -/
def requestLine (str : Bytes) (nowReadPos : Int) : Bytes :=
  str.take (sfind [13] str (toSize nowReadPos))

/-- The method named in a request line, and the offset it is named at. -/
def findMethod (line : Bytes) : Option (HttpMethod × Nat) :=
  let posGet := toInt (sfind (bytes "GET") line 0)
  let posPost := toInt (sfind (bytes "POST") line 0)
  let posHead := toInt (sfind (bytes "HEAD") line 0)
  if posGet ≥ 0 then some (.get, toSize posGet)
  else if posPost ≥ 0 then some (.post, toSize posPost)
  else if posHead ≥ 0 then some (.head, toSize posHead)
  else none

def parseURI (d : HttpData) : URIState × HttpData :=
  let str := d.inBuffer
  let pos := sfind [13] str (toSize d.nowReadPos)
  if pos < 0 then (.again, d)
  else
    let line := requestLine str d.nowReadPos
    let behind := wrap64 (pos + 1)
    let d := { d with inBuffer := if str.length > behind then str.drop behind else [] }
    match findMethod line with
    | none => (.error, d)
    | some (method, pos) =>
        let d := { d with method := method }
        let pos := sfind (bytes "/") line pos
        if pos < 0 then
          (.success, { d with fileName := bytes "index.html", version := .http11 })
        else
          let space := sfind (bytes " ") line pos
          if space < 0 then (.error, d)
          else
            let named :=
              if sub64 space pos > 1 then
                let name := substr line (pos + 1) (sub64 (sub64 space pos) 1)
                let question := sfind (bytes "?") name 0
                if question ≥ 0 then name.take question else name
              else bytes "index.html"
            let d := { d with fileName := named }
            let pos := sfind (bytes "/") line space
            if pos < 0 then (.error, d)
            else if sub64 line.length pos ≤ 3 then (.error, d)
            else
              let ver := substr line (wrap64 (pos + 1)) 3
              if ver = bytes "1.0" then (.success, { d with version := .http10 })
              else if ver = bytes "1.1" then (.success, { d with version := .http11 })
              else (.error, d)

/-- The members and the local variables the header loop works on. -/
structure Scan where
  hState : ParseState
  headers : Dict Bytes Bytes
  keyStart : Int := -1
  keyEnd : Int := -1
  valueStart : Int := -1
  valueEnd : Int := -1
  nowReadLineBegin : Int := 0
  notFinish : Bool := true
  deriving DecidableEq

/-- `string(str.begin() + first, str.begin() + last)`. -/
def between (str : Bytes) (first last : Int) : Except Fault Bytes :=
  if 0 ≤ first ∧ first ≤ last ∧ last ≤ str.length then
    .ok (substr str first.toNat (last - first).toNat)
  else .error .undefined

/-- One turn of the header loop. `false` is `return PARSE_HEADER_ERROR`. -/
def scanChar (str : Bytes) (i : Nat) (c : UInt8) (s : Scan) : Except Fault (Bool × Scan) :=
  match s.hState with
  | .start =>
      if c = 10 ∨ c = 13 then .ok (true, s)
      else .ok (true, { s with hState := .key, keyStart := toInt i, nowReadLineBegin := toInt i })
  | .key =>
      if c = 58 then
        let s := { s with keyEnd := toInt i }
        if s.keyEnd - s.keyStart ≤ 0 then .ok (false, s)
        else .ok (true, { s with hState := .colon })
      else if c = 10 ∨ c = 13 then .ok (false, s)
      else .ok (true, s)
  | .colon =>
      if c = 32 then .ok (true, { s with hState := .spacesAfterColon })
      else .ok (false, s)
  | .spacesAfterColon => .ok (true, { s with hState := .value, valueStart := toInt i })
  | .value =>
      if c = 13 then
        let s := { s with hState := .cr, valueEnd := toInt i }
        if s.valueEnd - s.valueStart ≤ 0 then .ok (false, s)
        else .ok (true, s)
      else if sub64 i (toSize s.valueStart) > 255 then .ok (false, s)
      else .ok (true, s)
  | .cr =>
      if c = 10 then do
        let key ← between str s.keyStart s.keyEnd
        let value ← between str s.valueStart s.valueEnd
        .ok (true, { s with
          hState := .lf, headers := s.headers.assign key value, nowReadLineBegin := toInt i })
      else .ok (false, s)
  | .lf =>
      if c = 13 then .ok (true, { s with hState := .endCR })
      else .ok (true, { s with keyStart := toInt i, hState := .key })
  | .endCR =>
      if c = 10 then .ok (true, { s with hState := .endLF })
      else .ok (false, s)
  | .endLF =>
      .ok (true, { s with
        notFinish := false, keyStart := toInt i, nowReadLineBegin := toInt i })

/-- The loop from index `i` on, over the rest of the string: whether it ended without
    an error, the index and the variables. -/
def scan (str : Bytes) : Nat → Bytes → Scan → Except Fault (Bool × Nat × Scan)
  | i, [], s => .ok (true, i, s)
  | i, c :: rest, s =>
      if s.notFinish then do
        let (goOn, s) ← scanChar str i c s
        if goOn then scan str (i + 1) rest s else .ok (false, i, s)
      else .ok (true, i, s)

def parseHeaders (d : HttpData) : Except Fault (HeaderState × HttpData) := do
  let str := d.inBuffer
  let (finished, i, s) ← scan str 0 str { hState := d.hState, headers := d.headers }
  let d := { d with hState := s.hState, headers := s.headers }
  if ¬ finished then .ok (.error, d)
  else if s.hState = .endLF then .ok (.success, { d with inBuffer := str.drop i })
  else if 0 ≤ s.nowReadLineBegin ∧ s.nowReadLineBegin ≤ str.length then
    .ok (.again, { d with inBuffer := str.drop s.nowReadLineBegin.toNat })
  else .error .uncaught

end Corio.Epoll
