import Corio.Epoll.HttpData

/-! # The event handlers

`handleRead` calls itself at its very end when a request is finished and bytes are
left. `handleReadPass` is one turn of that, and tells whether another one follows.
Timers, logging and the event loop's bookkeeping are left out.
-/

namespace Corio.Epoll

/-- The calls `analysisRequest` makes for a file. -/
structure FileSystem where
  /-- `st_size`, unless `stat` fails. -/
  stat : Bytes → Option Nat
  openRead : Bytes → Bool
  mmap : Bytes → Nat → Option (Nat → UInt8)

def noFiles : FileSystem where
  stat := fun _ => none
  openRead := fun _ => false
  mmap := fun _ _ => none

/-- A `std::string` as a C string. -/
def cstr (s : Bytes) : Bytes := s.takeWhile (· != 0)

def DEFAULT_KEEP_ALIVE_TIME : Nat := 5 * 60 * 1000

def errorBody (errNum : Nat) (shortMsg : Bytes) : Bytes :=
  bytes "<html><title>哎~出错了</title>" ++ bytes "<body bgcolor=\"ffffff\">"
    ++ toDecimalString errNum ++ bytes " " ++ shortMsg
    ++ bytes "<hr><em> LinYa's Web Server</em>\n</body></html>"

def errorHeader (errNum : Nat) (shortMsg : Bytes) : Bytes :=
  bytes "HTTP/1.1 " ++ toDecimalString errNum ++ bytes " " ++ shortMsg ++ bytes "\r\n"
    ++ bytes "Content-Type: text/html\r\n" ++ bytes "Connection: Close\r\n"
    ++ bytes "Content-Length: " ++ toDecimalString (errorBody errNum shortMsg).length
    ++ bytes "\r\n" ++ bytes "Server: LinYa's Web Server\r\n" ++ bytes "\r\n"

/-- Header and body are written at once, past `outBuffer_`. -/
def handleError (socket : Socket) (errNum : Nat) (shortMsg : Bytes) : Socket :=
  writen (writen socket (errorHeader errNum shortMsg)) (errorBody errNum shortMsg)

def helloResponse : Bytes :=
  bytes "HTTP/1.1 200 OK\r\nContent-type: text/plain\r\n\r\nHello World"

def wantsKeepAlive (d : HttpData) : Bool :=
  match d.headers.find? (bytes "Connection") with
  | none => false
  | some value => value == bytes "Keep-Alive" || value == bytes "keep-alive"

def okHeader (d : HttpData) : Bytes :=
  bytes "HTTP/1.1 200 OK\r\n"
    ++ (if wantsKeepAlive d then
          bytes "Connection: Keep-Alive\r\n" ++ bytes "Keep-Alive: timeout="
            ++ toDecimalString DEFAULT_KEEP_ALIVE_TIME ++ bytes "\r\n"
        else [])

def fileType (fileName : Bytes) : Bytes :=
  let dotPos := toInt (sfind (bytes ".") fileName 0)
  if dotPos < 0 then getMime (bytes "default") else getMime (fileName.drop dotPos.toNat)

/-- The rest of a header: type, length and server. -/
def restOfHeader (typeName type : Bytes) (length : Nat) : Bytes :=
  typeName ++ type ++ bytes "\r\n"
    ++ bytes "Content-Length: " ++ toDecimalString length ++ bytes "\r\n"
    ++ bytes "Server: LinYa's Web Server\r\n" ++ bytes "\r\n"

def notFound (d : HttpData) (socket : Socket) : AnalysisState × HttpData × Socket :=
  (.error, d, handleError socket 404 (bytes "Not Found!"))

def analysisRequest (fs : FileSystem) (d : HttpData) (socket : Socket) :
    AnalysisState × HttpData × Socket :=
  match d.method with
  | .post => (.error, d, socket)
  | .get | .head =>
      let header := okHeader d
      let filetype := fileType d.fileName
      let d := { d with keepAlive := d.keepAlive || wantsKeepAlive d }
      if d.fileName = bytes "hello" then
        (.success, { d with outBuffer := helloResponse }, socket)
      else if d.fileName = bytes "favicon.ico" then
        let header := header ++ restOfHeader (bytes "Content-Type: ") (bytes "image/png")
          favicon.length
        (.success, { d with outBuffer := d.outBuffer ++ header ++ favicon }, socket)
      else
        match fs.stat (cstr d.fileName) with
        | none => notFound d socket
        | some size =>
            let header := header ++ restOfHeader (bytes "Content-Type: ") filetype size
            let d := { d with outBuffer := d.outBuffer ++ header }
            if d.method = .head then (.success, d, socket)
            else if ¬ fs.openRead (cstr d.fileName) then
              notFound { d with outBuffer := [] } socket
            else
              match fs.mmap (cstr d.fileName) size with
              | none => notFound { d with outBuffer := [] } socket
              | some content =>
                  let d := { d with outBuffer := d.outBuffer ++ (List.range size).map content }
                  (.success, d, socket)

def reset (d : HttpData) : HttpData :=
  { d with fileName := [], nowReadPos := 0, state := .parseURI, hState := .start,
           headers := Dict.empty }

def handleWrite (d : HttpData) (socket : Socket) : HttpData × Socket :=
  if ¬ d.error ∧ d.connectionState ≠ .disconnected then
    let (failed, outBuffer, socket) := writenString socket d.outBuffer
    let d := { d with outBuffer := outBuffer }
    let d := if failed then { d with events := {}, error := true } else d
    let d :=
      if d.outBuffer.length > 0 then { d with events := { d.events with epollout := true } } else d
    (d, socket)
  else (d, socket)

/-- Give up with an error page. -/
def refuse (d : HttpData) (socket : Socket) (errNum : Nat) (shortMsg : Bytes) : HttpData × Socket :=
  ({ d with error := true }, handleError socket errNum shortMsg)

def badRequest (d : HttpData) (socket : Socket) : HttpData × Socket :=
  refuse d socket 400 (bytes "Bad Request")

def analyse (fs : FileSystem) (d : HttpData) (socket : Socket) : HttpData × Socket :=
  match analysisRequest fs d socket with
  | (.success, d, socket) => ({ d with state := .finish }, socket)
  | (.error, d, socket) => ({ d with error := true }, socket)

def receiveBody (fs : FileSystem) (d : HttpData) (socket : Socket) :
    Except Fault (HttpData × Socket) :=
  match d.headers.find? (bytes "Content-length") with
  | none => .ok (refuse d socket 400 (bytes "Bad Request: Lack of argument (Content-length)"))
  | some value =>
      match stoi value with
      | none => .error .uncaught
      | some contentLength =>
          if toInt d.inBuffer.length < contentLength then .ok (d, socket)
          else .ok (analyse fs { d with state := .analysis } socket)

def readHeaders (fs : FileSystem) (d : HttpData) (socket : Socket) :
    Except Fault (HttpData × Socket) := do
  let (flag, d) ← parseHeaders d
  match flag with
  | .again => .ok (d, socket)
  | .error => .ok (badRequest d socket)
  | .success =>
      if d.method = .post then receiveBody fs { d with state := .recvBody } socket
      else .ok (analyse fs { d with state := .analysis } socket)

def readURI (fs : FileSystem) (d : HttpData) (socket : Socket) :
    Except Fault (HttpData × Socket) :=
  let (flag, d) := parseURI d
  match flag with
  | .again => .ok (d, socket)
  | .error => .ok (badRequest { d with inBuffer := [] } socket)
  | .success => readHeaders fs { d with state := .parseHeaders } socket

/-- The states one after the other, each falling through to the next. -/
def process (fs : FileSystem) (d : HttpData) (socket : Socket) :
    Except Fault (HttpData × Socket) :=
  match d.state with
  | .parseURI => readURI fs d socket
  | .parseHeaders => readHeaders fs d socket
  | .recvBody => receiveBody fs d socket
  | .analysis => .ok (analyse fs d socket)
  | .finish => .ok (d, socket)

/-- The body of the `do` block of `handleRead`. -/
def readOnce (fs : FileSystem) (d : HttpData) (socket : Socket) :
    Except Fault (HttpData × Socket) :=
  let outcome := readn socket.reads d.inBuffer 0
  let readNum := toInt outcome.readSum
  let d := { d with inBuffer := outcome.inBuffer }
  let socket := { socket with reads := outcome.reads }
  if d.connectionState = .disconnecting then .ok ({ d with inBuffer := [] }, socket)
  else if readNum < 0 then .ok (badRequest d socket)
  else if outcome.zero then
    let d := { d with connectionState := .disconnecting }
    if readNum = 0 then .ok (d, socket) else process fs d socket
  else process fs d socket

def flush (d : HttpData) (socket : Socket) : HttpData × Socket :=
  if d.outBuffer.length > 0 then handleWrite d socket else (d, socket)

/-- Make room for the next request, or wait for more of this one. -/
def finishPass (d : HttpData) : Bool × HttpData :=
  if ¬ d.error ∧ d.state = .finish then
    let d := reset d
    (d.inBuffer.length > 0 ∧ d.connectionState ≠ .disconnecting, d)
  else if ¬ d.error ∧ d.connectionState ≠ .disconnected then
    (false, { d with events := { d.events with epollin := true } })
  else (false, d)

/-- What follows the `do` block, up to the recursive call: whether it is made. -/
def afterRead (d : HttpData) (socket : Socket) : Bool × HttpData × Socket :=
  if d.error then (false, d, socket)
  else
    let written := flush d socket
    let ended := finishPass written.1
    (ended.1, ended.2, written.2)

def handleReadPass (fs : FileSystem) (d : HttpData) (socket : Socket) :
    Except Fault (Bool × HttpData × Socket) := do
  let (d, socket) ← readOnce fs d socket
  .ok (afterRead d socket)

def handleReadFuel (fs : FileSystem) : Nat → HttpData → Socket → Except Fault (HttpData × Socket)
  | 0, _, _ => .error .outOfFuel
  | fuel + 1, d, socket => do
      let (again, d, socket) ← handleReadPass fs d socket
      if again then handleReadFuel fs fuel d socket else .ok (d, socket)

/-- The bytes the script of reads still holds. -/
def unread (reads : List ReadResult) : Nat :=
  (reads.map fun result =>
    match result with
    | .data chunk => chunk.length
    | _ => 0).sum

/-- Behind the first one, every finished request takes a byte, so this many turns are
    enough. -/
def handleRead (fs : FileSystem) (d : HttpData) (socket : Socket) :
    Except Fault (HttpData × Socket) :=
  handleReadFuel fs (d.inBuffer.length + unread socket.reads + 2) d socket

def handleClose (d : HttpData) : HttpData := { d with connectionState := .disconnected }

def handleConn (d : HttpData) : HttpData :=
  if ¬ d.error ∧ d.connectionState = .connected then
    if d.events ≠ {} then
      let d :=
        if d.events.epollin ∧ d.events.epollout then
          { d with events := { epollout := true } }
        else d
      { d with events := { d.events with epollet := true } }
    else { d with events := { d.events with epollin := true, epollet := true } }
  else if ¬ d.error ∧ d.connectionState = .disconnecting ∧ d.events.epollout then
    { d with events := { epollout := true, epollet := true } }
  else handleClose d

/-- `Channel::handleEvents` for a readable socket. -/
def handleReadable (fs : FileSystem) (d : HttpData) (socket : Socket) :
    Except Fault (HttpData × Socket) := do
  let (d, socket) ← handleRead fs { d with events := {} } socket
  .ok (handleConn d, socket)

/-- `Channel::handleEvents` for a writable socket. -/
def handleWritable (d : HttpData) (socket : Socket) : HttpData × Socket :=
  let (d, socket) := handleWrite { d with events := {} } socket
  (handleConn d, socket)

/-! ## What the handlers leave alone -/

theorem handleWrite_same (d : HttpData) (socket : Socket) :
    ∃ outBuffer events error, (handleWrite d socket).1 =
      { d with outBuffer := outBuffer, events := events, error := error } := by
  unfold handleWrite
  split
  · generalize writenString socket d.outBuffer = written
    obtain ⟨failed, outBuffer, rest⟩ := written
    dsimp only
    split_ifs <;> exact ⟨_, _, _, rfl⟩
  · exact ⟨_, _, _, rfl⟩

theorem handleWrite_socket (d : HttpData) (socket : Socket) :
    (handleWrite d socket).2 = socket ∨
      (handleWrite d socket).2 = (writenString socket d.outBuffer).2.2 := by
  unfold handleWrite
  split
  · exact .inr rfl
  · exact .inl rfl

theorem flush_same (d : HttpData) (socket : Socket) :
    ∃ outBuffer events error, (flush d socket).1 =
      { d with outBuffer := outBuffer, events := events, error := error } := by
  unfold flush
  split
  · exact handleWrite_same d socket
  · exact ⟨_, _, _, rfl⟩

theorem flush_socket (d : HttpData) (socket : Socket) :
    (flush d socket).2 = socket ∨ (flush d socket).2 = (writenString socket d.outBuffer).2.2 := by
  unfold flush
  split
  · exact handleWrite_socket d socket
  · exact .inl rfl

theorem handleConn_same (d : HttpData) : ∃ connectionState events,
    handleConn d = { d with connectionState := connectionState, events := events } := by
  unfold handleConn handleClose
  dsimp only
  split_ifs <;> exact ⟨_, _, rfl⟩

end Corio.Epoll
