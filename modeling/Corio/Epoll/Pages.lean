import Corio.Coroutine.Client
import Corio.Epoll.RequestHead
import Corio.Epoll.Responses

/-! # From a request to the page a client reads

What a well-formed request asks for, what `handleRead` appends to `outBuffer_` for it, and
what the client of the other server makes of that.
-/

namespace Corio.Epoll

open Find
open Coroutine (CR LF Received readMessage readHeader readLength isContentLength fieldLine)

namespace RequestHead

/-- What `parseURI` leaves in `fileName_`. -/
def servedName (h : RequestHead) : Bytes :=
  if h.line.path = [] then bytes "index.html" else h.line.path.takeWhile (· != 63)

/-- The last `Connection` line asks to keep the connection. -/
def keepsAlive (h : RequestHead) : Bool :=
  match h.lines.reverse.lookup (bytes "Connection") with
  | none => false
  | some value => value == bytes "Keep-Alive" || value == bytes "keep-alive"

/-- The page that is asked for: its type, its length and the bytes that are sent of it. There is
    none for the greeting and for the head of the icon, which are not framed. -/
def page? (fs : FileSystem) (h : RequestHead) : Option (Bytes × Nat × Bytes) :=
  if h.servedName = bytes "hello" then none
  else if h.servedName = bytes "favicon.ico" then
    if h.line.method = .head then none else some (bytes "image/png", favicon.length, favicon)
  else
    (fs.stat (cstr h.servedName)).bind fun size =>
      if h.line.method = .head then some (fileType h.servedName, size, [])
      else if fs.openRead (cstr h.servedName) then
        (fs.mmap (cstr h.servedName) size).map fun content =>
          (fileType h.servedName, size, (List.range size).map content)
      else none

/-- What the client is to know of the response. -/
def expected (h : RequestHead) (page : Bytes × Nat × Bytes) : Received where
  status := 200
  reason := bytes "OK"
  headers :=
    (if h.keepsAlive then
        [(bytes "Connection", bytes "Keep-Alive"),
         (bytes "Keep-Alive", bytes "timeout=" ++ toDecimalString DEFAULT_KEEP_ALIVE_TIME)]
      else []) ++
      [(bytes "Content-Type", page.1), (bytes "Server", bytes "LinYa's Web Server")]
  body := page.2.2

/-- The request in the state in which it is analysed. -/
def parsed (h : RequestHead) (d : HttpData) : HttpData :=
  { d with
    inBuffer := [], method := h.line.method, version := h.line.version, fileName := h.servedName,
    state := .analysis, hState := .endLF,
    headers := h.lines.foldl (fun headers e => headers.assign e.1 e.2) Dict.empty }

/-- What `analysisRequest` appends for it. -/
def response (h : RequestHead) (page : Bytes × Nat × Bytes) : Bytes :=
  okHeader (h.parsed {}) ++ restOfHeader (bytes "Content-Type: ") page.1 page.2.1 ++ page.2.2

/-- The request is `GET` or `HEAD`, has a header, and no other method is found in its line. -/
structure Clean (h : RequestHead) : Prop where
  asks : h.line.method ≠ .post
  own : h.line.earlier = none
  some_ : h.lines ≠ []
  small : h.text.length < 2 ^ 31

end RequestHead

section Read

variable {d : HttpData} {h : RequestHead}

theorem length_text (h : RequestHead) :
    h.text.length = h.line.text.length + 1 + h.rest.length := by
  have spelled : h.text = h.line.text ++ 13 :: h.rest := rfl
  rw [spelled, List.length_append, List.length_cons]
  omega

/-- The header loop takes all of the lines. -/
theorem parseHeaders_rest (clean : h.Clean) (buffer : d.inBuffer = h.rest)
    (start : d.hState = .start) (fresh : d.headers = Dict.empty) :
    parseHeaders d = .ok (.success, { d with
      inBuffer := [], hState := .endLF,
      headers := h.lines.foldl (fun headers e => headers.assign e.1 e.2) Dict.empty }) := by
  have small : 1 + (rawLines h.lines).length < 2 ^ 31 + 2 := by
    have text := clean.small
    rw [length_text, h.length_rest] at text
    omega
  have passes : PassAll 1 h.lines :=
    passAll_small h.raw (fun e member => by have := (h.clean e member).short; omega) small
  obtain ⟨s, scanned, stored⟩ := scan_lines clean.some_ passes
  have kept_ : keptAll h.rest 1 h.lines = h.lines := by
    have whole : keptAll h.rest ([10] : Bytes).length h.lines = h.lines :=
      keptAll_small (by rwa [List.length_singleton])
    exact whole
  have all : ([10] ++ rawLines h.lines).length + 2 = h.rest.length := by
    rw [h.length_rest, List.length_append, List.length_singleton]
  simp only [parseHeaders, buffer, start, fresh]
  rw [scanned, stored, kept_, all]
  simp [bind, Except.bind]

/-- Both parsers succeed on a connection that waits for a request. -/
theorem parse_head (clean : h.Clean) (awaits : Awaits d) (buffer : d.inBuffer = h.text) :
    ∃ mid, parseURI d = (.success, mid) ∧ parseHeaders { mid with state := .parseHeaders } =
      .ok (.success, { h.parsed d with state := .parseHeaders }) := by
  have short : d.inBuffer.length ≤ npos := by
    have small := clean.small
    have limit : npos = 2 ^ 64 - 1 := rfl
    rw [buffer]
    omega
  have split_ : d.inBuffer = h.line.text ++ 13 :: h.rest := buffer
  refine ⟨_, RequestLine.parseURI_own split_ awaits.nowReadPos short clean.own, ?_⟩
  exact parseHeaders_rest clean rfl awaits.hState awaits.headers

theorem judgeURI_head (clean : h.Clean) (awaits : Awaits d) (buffer : d.inBuffer = h.text) :
    judgeURI d = .ok (h.parsed d, .analyse) := by
  obtain ⟨mid, line, lines⟩ := parse_head clean awaits buffer
  have answered : ¬ (h.parsed d).method = .post := clean.asks
  simp only [judgeURI, line]
  change judgeHeaders _ = _
  simp only [judgeHeaders, lines, bind, Except.bind, if_neg answered]
  rfl

/-- Both parsers succeed on a new connection, and leave in `d` what the head says. -/
structure TakesHead (h : RequestHead) (d : HttpData) : Prop where
  parsed : ∃ mid, parseURI h.received = (.success, mid) ∧
    parseHeaders { mid with state := .parseHeaders } = .ok (.success, d)
  method : d.method = h.line.method
  version : d.version = h.line.version
  fileName : d.fileName = h.servedName
  headers : ∀ key, d.headers.find? key = h.lines.reverse.lookup key
  inBuffer : d.inBuffer = []

theorem takesHead_own (small : h.text.length < 2 ^ 31) (takes : TakesHead h d) :
    h.line.earlier = none := by
  have short : h.text.length ≤ npos := by
    have limit : npos = 2 ^ 64 - 1 := rfl
    omega
  have split_ : h.received.inBuffer = h.line.text ++ 13 :: h.rest := rfl
  obtain ⟨mid, line, lines⟩ := takes.parsed
  refine (RequestLine.parseURI_method_iff split_ rfl short).mp ?_
  have kept := congrArg HttpData.method (parseHeaders_keeps lines)
  rw [line, ← takes.method]
  exact kept.symm

theorem takesHead_clean (clean : h.Clean) :
    TakesHead h { h.parsed h.received with state := .parseHeaders } := by
  refine ⟨parse_head clean (awaits_received h) rfl, rfl, rfl, rfl, fun key => ?_, rfl⟩
  rw [RequestHead.parsed, find?_assigned, Dict.find?_empty, Option.or_none]

/-- The parsers take a head as it stands exactly if no other method is found in its line. -/
theorem takesHead_iff (asks : h.line.method ≠ .post) (some_ : h.lines ≠ [])
    (small : h.text.length < 2 ^ 31) : (∃ d, TakesHead h d) ↔ h.line.earlier = none := by
  constructor
  · rintro ⟨d, takes⟩
    exact takesHead_own small takes
  · intro own
    exact ⟨_, takesHead_clean ⟨asks, own, some_, small⟩⟩

/-- A whole request is decided on at once. -/
theorem judge_head (clean : h.Clean) (awaits : Awaits d) (state : d.state = .parseURI)
    (empty : d.inBuffer = []) (connected : d.connectionState = .connected)
    {reads rest : List ReadResult}
    (brings : readn reads [] 0 = ⟨h.text.length, h.text, false, rest⟩) :
    judge d reads = .ok (h.parsed d, .analyse) := by
  have positive : ¬ toInt (h.text.length : Nat) < 0 := by
    rw [toInt_small clean.small]
    omega
  have whole : judge d reads = judgeURI { d with inBuffer := h.text } := by
    simp only [judge, empty, brings, connected, reduceCtorEq, if_false, positive,
      Bool.false_eq_true, judgeState, state]
  exact whole.trans (judgeURI_head (d := { d with inBuffer := h.text }) clean
    ⟨awaits.nowReadPos, awaits.hState, awaits.headers⟩ rfl)

end Read

section Reply

variable {fs : FileSystem} {h : RequestHead} {page : Bytes × Nat × Bytes}

theorem wantsKeepAlive_parsed (h : RequestHead) (d : HttpData) :
    wantsKeepAlive (h.parsed d) = h.keepsAlive := by
  simp only [wantsKeepAlive, RequestHead.parsed, find?_assigned, Dict.find?_empty, Option.or_none]
  rfl

/-- What `analysisRequest` makes of the `Connection` lines. -/
theorem TakesHead.keepAlive {d : HttpData} (takes : TakesHead h d) (asks : h.line.method ≠ .post)
    (fs : FileSystem) (socket : Socket) :
    (analysisRequest fs { d with state := .analysis } socket).2.1.keepAlive = h.keepsAlive := by
  obtain ⟨mid, line, lines⟩ := takes.parsed
  obtain ⟨inBuffer, method, fileName, version, frame⟩ := parseURI_frame h.received
  rw [line] at frame
  have fresh : mid.keepAlive = false := congrArg HttpData.keepAlive frame
  have before : d.keepAlive = false :=
    (congrArg HttpData.keepAlive (parseHeaders_keeps lines)).trans fresh
  have wants : wantsKeepAlive { d with state := .analysis } = h.keepsAlive := by
    simp only [wantsKeepAlive, takes.headers]
    rfl
  have raised : (withKeepAlive { d with state := .analysis }).keepAlive = h.keepsAlive := by
    rw [withKeepAlive, wants, before, Bool.false_or]
  have answered : ¬ d.method = .post := by rwa [takes.method]
  rw [analysisRequest_eq]
  cases reply : replyTo fs { d with state := .analysis } with
  | nothing => exact absurd (replyTo_nothing_iff.mp reply) answered
  | hello | page | notFound => exact raised

/-- The page is what the request is answered with, and has the length it is announced with. -/
theorem replyTo_parsed (clean : h.Clean) (paged : h.page? fs = some page) (d : HttpData) :
    replyTo fs (h.parsed d) = .page (h.response page) ∧ (13 : UInt8) ∉ page.1 ∧
      page.2.2.length = if h.line.method = .head then 0 else page.2.1 := by
  have answered : ¬ h.line.method = .post := clean.asks
  have method : (h.parsed d).method = h.line.method := rfl
  have file : (h.parsed d).fileName = h.servedName := rfl
  have header : okHeader (h.parsed d) = okHeader (h.parsed {}) := rfl
  simp only [RequestHead.page?] at paged
  simp only [replyTo, method, file, header, if_neg answered]
  by_cases greeting : h.servedName = bytes "hello"
  · simp [greeting] at paged
  by_cases icon : h.servedName = bytes "favicon.ico"
  · by_cases head : h.line.method = .head
    · simp only [if_neg greeting, if_pos icon, if_pos head, reduceCtorEq] at paged
    · simp only [if_neg greeting, if_pos icon, if_neg head, Option.some.injEq] at paged ⊢
      subst paged
      exact ⟨rfl, by decide, rfl⟩
  simp only [if_neg greeting, if_neg icon] at paged ⊢
  obtain ⟨size, found, paged⟩ := Option.bind_eq_some_iff.mp paged
  simp only [found]
  by_cases head : h.line.method = .head
  · simp only [if_pos head, Option.some.injEq] at paged ⊢
    subst paged
    exact ⟨by simp [RequestHead.response], noCR_fileType _, rfl⟩
  · by_cases opens : fs.openRead (cstr h.servedName) = true
    · simp only [if_neg head, opens, if_true, Option.map_eq_some_iff] at paged
      obtain ⟨content, mapped, rfl⟩ := paged
      simp only [if_neg head, opens, mapped]
      exact ⟨rfl, noCR_fileType _, by simp⟩
    · simp only [if_neg head, opens, Bool.false_eq_true, if_false, reduceCtorEq] at paged

/-- The fields of a page as a client knows them, the length included. -/
def pageFields (keep : Bool) (type : Bytes) (length : Nat) : List (Bytes × Bytes) :=
  (if keep then
      [(bytes "Connection", bytes "Keep-Alive"),
       (bytes "Keep-Alive", bytes "timeout=" ++ toDecimalString DEFAULT_KEEP_ALIVE_TIME)]
    else []) ++
    [(bytes "Content-Type", type), (bytes "Content-Length", toDecimalString length),
     (bytes "Server", bytes "LinYa's Web Server")]

theorem pageLines_fields (d : HttpData) (type : Bytes) (length : Nat) :
    pageLines d type length =
      bytes "HTTP/1.1 200 OK" :: (pageFields (wantsKeepAlive d) type length).map fieldLine := by
  have typed : bytes "Content-Type: " = bytes "Content-Type" ++ bytes ": " := by decide
  have sized : bytes "Content-Length: " = bytes "Content-Length" ++ bytes ": " := by decide
  have server : bytes "Server: LinYa's Web Server" =
      bytes "Server" ++ bytes ": " ++ bytes "LinYa's Web Server" := by decide
  have kept : bytes "Connection: Keep-Alive" =
      bytes "Connection" ++ bytes ": " ++ bytes "Keep-Alive" := by decide
  have timeout : bytes "Keep-Alive: timeout=" =
      bytes "Keep-Alive" ++ bytes ": " ++ bytes "timeout=" := by decide
  simp only [pageLines, okLines, pageFields]
  split <;> simp [fieldLine, typed, sized, server, kept, timeout]

/-- The client of the coroutine server reads a page off the front of any stream. -/
theorem readMessage_page (d : HttpData) {type : Bytes} (noCR : (13 : UInt8) ∉ type) {length : Nat}
    {body : Bytes} (head : Bool) (sized : body.length = if head then 0 else length)
    (rest : Bytes) :
    readMessage head (okHeader d ++ restOfHeader (bytes "Content-Type: ") type length ++ body ++
        rest) =
      some (⟨200, bytes "OK",
        (pageFields (wantsKeepAlive d) type length).filter (! isContentLength ·), body⟩, rest) := by
  have free (keep : Bool) : ∀ field ∈ pageFields keep type length, ¬ [58, 32] <:+: field.1 := by
    cases keep <;> simp only [pageFields, List.forall_mem_append, List.forall_mem_cons] <;>
      simp <;> decide
  have announced (keep : Bool) : readLength (pageFields keep type length) = some length := by
    have one : (pageFields keep type length).filter isContentLength =
        [(bytes "Content-Length", toDecimalString length)] := by
      cases keep <;> rfl
    rw [readLength, one]
    exact Coroutine.readDecimal_toDecimalString length
  have status : Coroutine.readStatusLine (bytes "HTTP/1.1 200 OK") = some (200, bytes "OK") := by
    decide
  have read := block_header d noCR length (body ++ rest)
  rw [← List.append_assoc] at read
  obtain ⟨block, cut, ends⟩ := cut?_double (by decide) read
  have lines : lines 13 10 (block ++ [13, 10]) = (pageLines d type length, []) := by
    rw [ends]
    exact lines_unlines (by decide) fun line member => (pageLines_line d noCR length line member).2
  have head_ : readHeader block = some (⟨200, bytes "OK",
      (pageFields (wantsKeepAlive d) type length).filter (! isContentLength ·), []⟩, length) := by
    simp only [readHeader, CR, LF, lines, pageLines_fields, status,
      Coroutine.HttpResponse.mapM_fieldLine (free _), announced, bind, Option.bind_some]
  simp only [readMessage, CR, LF, cut, bind, Option.bind_some, head_]
  cases head with
  | true =>
      obtain rfl := List.length_eq_zero_iff.mp sized
      simp
  | false =>
      have whole : body.length = length := sized
      simp [← whole]

/-- A client reads back what a request asks for. -/
theorem readMessage_response (clean : h.Clean) (paged : h.page? fs = some page) (rest : Bytes) :
    readMessage (h.line.method == .head) (h.response page ++ rest) =
      some (h.expected page, rest) := by
  obtain ⟨-, noCR, sized⟩ := replyTo_parsed clean paged {}
  have read := readMessage_page (h.parsed {}) noCR (h.line.method == .head)
    (by simpa using sized) rest
  rw [RequestHead.response, read, wantsKeepAlive_parsed]
  cases keep : h.keepsAlive <;> simp only [RequestHead.expected, keep] <;> rfl

end Reply

end Corio.Epoll
