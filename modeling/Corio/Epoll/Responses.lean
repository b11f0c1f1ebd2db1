import Corio.Epoll.Replies
import Corio.Foundation.Number

/-! # Responses on a kept connection

A client that keeps the connection finds the end of a response by the one length its
header block announces, and expects the header block of `HEAD` to be the one of `GET`.
-/

namespace Corio.Epoll

open Find

/-- The name of a header line. -/
def fieldName (line : Bytes) : Bytes := line.takeWhile (· != 58)

def announcesLength (line : Bytes) : Bool :=
  (fieldName line).map tolower == bytes "content-length"

/-- One header block that announces a length once, and so many bytes behind it, or none
    in an answer to `HEAD`. -/
def SelfDelimiting (method : HttpMethod) (out : Bytes) : Prop :=
  ∃ lines body length, block? 13 10 out = some (lines, body) ∧
    lines.filter announcesLength = [bytes "Content-Length: " ++ toDecimalString length] ∧
    body.length = if method = .head then 0 else length

section Lines

/-- The lines of `okHeader`. -/
def okLines (d : HttpData) : List Bytes :=
  if wantsKeepAlive d then
    [bytes "Connection: Keep-Alive",
     bytes "Keep-Alive: timeout=" ++ toDecimalString DEFAULT_KEEP_ALIVE_TIME]
  else []

/-- The lines of a header block. -/
def pageLines (d : HttpData) (type : Bytes) (length : Nat) : List Bytes :=
  bytes "HTTP/1.1 200 OK" :: (okLines d ++
    [bytes "Content-Type: " ++ type, bytes "Content-Length: " ++ toDecimalString length,
     bytes "Server: LinYa's Web Server"])

theorem fieldName_colon {name : Bytes} (noColon : (58 : UInt8) ∉ name) (value : Bytes) :
    fieldName (name ++ 58 :: value) = name := by
  have all : ∀ c ∈ name, (c != 58) = true := by
    intro c member
    rw [bne_iff_ne]
    rintro rfl
    exact noColon member
  rw [fieldName, List.takeWhile_append_of_pos all]
  simp

theorem noBreak_of_noCR {line : Bytes} (noCR : (13 : UInt8) ∉ line) : ¬ [13, 10] <:+: line := by
  rintro ⟨front, back, rfl⟩
  exact noCR (by simp)

theorem noCR_toDecimalString (n : Nat) : (13 : UInt8) ∉ toDecimalString n :=
  fun member => absurd (isdigit_toDecimalString 13 member) (by decide)

theorem noCR_getMime (suffix : Bytes) : (13 : UInt8) ∉ getMime suffix := by
  have table : mime.all (fun entry => ! entry.2.contains 13) = true := by decide
  rw [getMime]
  cases known : mime.lookup suffix with
  | none => decide
  | some type =>
      obtain ⟨before, after, split_, -⟩ := List.lookup_eq_some_iff.mp known
      have entry := List.all_eq_true.mp table (suffix, type) (by simp [split_])
      simpa using entry

theorem noCR_fileType (fileName : Bytes) : (13 : UInt8) ∉ fileType fileName := by
  rw [fileType]
  split <;> exact noCR_getMime _

theorem okLines_line (d : HttpData) : ∀ line ∈ okLines d, line ≠ [] ∧ ¬ [13, 10] <:+: line := by
  intro line member
  rw [okLines] at member
  split at member
  · simp only [List.mem_cons, List.not_mem_nil, or_false] at member
    rcases member with rfl | rfl
    · decide
    · decide
  · cases member

theorem pageLines_line (d : HttpData) {type : Bytes} (noCR : (13 : UInt8) ∉ type) (length : Nat) :
    ∀ line ∈ pageLines d type length, line ≠ [] ∧ ¬ [13, 10] <:+: line := by
  intro line member
  simp only [pageLines, List.mem_cons, List.mem_append, List.not_mem_nil, or_false] at member
  rcases member with rfl | keep | rfl | rfl | rfl
  · decide
  · exact okLines_line d line keep
  · refine ⟨List.append_ne_nil_of_left_ne_nil (by decide) _, noBreak_of_noCR ?_⟩
    rw [List.mem_append]
    exact not_or.mpr ⟨by decide, noCR⟩
  · refine ⟨List.append_ne_nil_of_left_ne_nil (by decide) _, noBreak_of_noCR ?_⟩
    rw [List.mem_append]
    exact not_or.mpr ⟨by decide, noCR_toDecimalString length⟩
  · decide

theorem header_eq (d : HttpData) (type : Bytes) (length : Nat) :
    okHeader d ++ restOfHeader (bytes "Content-Type: ") type length =
      unlines 13 10 (pageLines d type length) ++ [13, 10] := by
  have crlf : bytes "\r\n" = [13, 10] := rfl
  have status : bytes "HTTP/1.1 200 OK\r\n" = bytes "HTTP/1.1 200 OK" ++ [13, 10] := by decide
  have keep : bytes "Connection: Keep-Alive\r\n" = bytes "Connection: Keep-Alive" ++ [13, 10] := by
    decide
  have server : bytes "Server: LinYa's Web Server\r\n" =
      bytes "Server: LinYa's Web Server" ++ [13, 10] := by decide
  simp only [okHeader, restOfHeader, pageLines, okLines, crlf, status, keep, server]
  split <;> simp [unlines]

/-- Behind the header block is what was put behind it. -/
theorem block_header (d : HttpData) {type : Bytes} (noCR : (13 : UInt8) ∉ type) (length : Nat)
    (body : Bytes) :
    block? 13 10 (okHeader d ++ restOfHeader (bytes "Content-Type: ") type length ++ body) =
      some (pageLines d type length, body) := by
  obtain ⟨first, others⟩ := List.forall_mem_cons.mp (pageLines_line d noCR length)
  rw [header_eq]
  exact block?_unlines (by decide) first.2 others body

/-- A header block announces exactly one length. -/
theorem filter_pageLines (d : HttpData) (type : Bytes) (length : Nat) :
    (pageLines d type length).filter announcesLength =
      [bytes "Content-Length: " ++ toDecimalString length] := by
  have status : announcesLength (bytes "HTTP/1.1 200 OK") = false := by decide
  have keep : (okLines d).filter announcesLength = [] := by
    rw [okLines]
    split <;> decide
  have server : announcesLength (bytes "Server: LinYa's Web Server") = false := by decide
  have typeLine : announcesLength (bytes "Content-Type: " ++ type) = false := by
    have spelled : bytes "Content-Type: " ++ type = bytes "Content-Type" ++ 58 :: (32 :: type) :=
      rfl
    rw [announcesLength, spelled, fieldName_colon (by decide)]
    decide
  have lengthLine :
      announcesLength (bytes "Content-Length: " ++ toDecimalString length) = true := by
    have spelled : bytes "Content-Length: " ++ toDecimalString length =
      bytes "Content-Length" ++ 58 :: (32 :: toDecimalString length) := rfl
    rw [announcesLength, spelled, fieldName_colon (by decide)]
    decide
  simp only [pageLines, List.filter_cons, List.filter_append, List.filter_nil, status, keep,
    typeLine, lengthLine, server, Bool.false_eq_true, if_false, if_true, List.nil_append]

end Lines

section Delimited

variable {fs : FileSystem} {d d' : HttpData} {socket socket' : Socket}

theorem selfDelimiting_header (d : HttpData) {type : Bytes} (noCR : (13 : UInt8) ∉ type)
    {length : Nat} {body : Bytes}
    (sized : body.length = if d.method = .head then 0 else length) :
    SelfDelimiting d.method
      (okHeader d ++ restOfHeader (bytes "Content-Type: ") type length ++ body) :=
  ⟨_, body, length, block_header d noCR length body, filter_pageLines d type length, sized⟩

theorem hello_undelimited (method : HttpMethod) : ¬ SelfDelimiting method helloResponse := by
  rintro ⟨lines, body, length, block, announced, -⟩
  have read : block? 13 10 helloResponse =
      some ([bytes "HTTP/1.1 200 OK", bytes "Content-type: text/plain"], bytes "Hello World") := by
    decide +kernel
  rw [read] at block
  obtain ⟨rfl, -⟩ := Prod.mk.inj (Option.some.inj block)
  have nothing : [bytes "HTTP/1.1 200 OK", bytes "Content-type: text/plain"].filter announcesLength
      = [] := by decide
  rw [nothing] at announced
  cases announced

/-- `HEAD` of the icon comes with the icon. -/
theorem icon_delimited (d : HttpData) (answered : d.method ≠ .post) :
    SelfDelimiting d.method (okHeader d ++ restOfHeader (bytes "Content-Type: ")
      (bytes "image/png") favicon.length ++ favicon) ↔ d.method = .get := by
  have noCR : (13 : UInt8) ∉ bytes "image/png" := by decide
  constructor
  · rintro ⟨lines, body, length, block, -, sized⟩
    rw [block_header d noCR] at block
    obtain ⟨-, rfl⟩ := Prod.mk.inj (Option.some.inj block)
    cases method : d.method with
    | get => rfl
    | post => exact absurd method answered
    | head =>
        rw [if_pos method] at sized
        exact absurd sized (by decide +kernel)
  · intro get
    exact selfDelimiting_header d noCR (by rw [get]; rfl)

/-- A response that `analysisRequest` leaves in an empty `outBuffer_` is self-delimiting,
    unless it is the greeting, or the icon in answer to `HEAD`. -/
theorem selfDelimiting_iff (empty : d.outBuffer = [])
    (done : analysisRequest fs d socket = (.success, d', socket')) :
    SelfDelimiting d.method d'.outBuffer ↔
      d.fileName ≠ bytes "hello" ∧ (d.method = .get ∨ d.fileName ≠ bytes "favicon.ico") := by
  rw [analysisRequest_eq] at done
  cases replied : replyTo fs d with
  | nothing => simp [replied] at done
  | notFound cleared => simp [replied] at done
  | hello =>
      simp only [replied, Prod.mk.injEq, true_and] at done
      obtain ⟨rfl, -⟩ := done
      simp only [hello_named replied, ne_eq, not_true, false_and, iff_false]
      exact hello_undelimited d.method
  | page response =>
      simp only [replied, Prod.mk.injEq, true_and] at done
      obtain ⟨rfl, -⟩ := done
      change SelfDelimiting d.method (d.outBuffer ++ response) ↔ _
      rw [empty, List.nil_append]
      obtain ⟨answered, greeting, ⟨icon, rfl⟩ | ⟨icon, size, body, rfl, sized⟩⟩ :=
        page_cases replied
      · rw [icon_delimited d answered]
        constructor
        · intro get
          exact ⟨greeting, .inl get⟩
        · intro expected
          exact expected.2.resolve_right (not_not_intro icon)
      · refine iff_of_true ?_ ⟨greeting, .inr icon⟩
        exact selfDelimiting_header d (noCR_fileType d.fileName) sized

/-- One file of three bytes. -/
def threeBytes : FileSystem where
  stat := fun _ => some 3
  openRead := fun _ => true
  mmap := fun _ _ => some fun i => UInt8.ofNat (97 + i)

def fileRequest : HttpData := { fileName := bytes "a.txt" }

def helloRequest : HttpData := { fileName := bytes "hello" }

def quiet : Socket := ⟨[], [], []⟩

theorem file_delimited : fileRequest.outBuffer = [] ∧ ∃ d',
    analysisRequest threeBytes fileRequest quiet = (.success, d', quiet) ∧
      SelfDelimiting fileRequest.method d'.outBuffer := by
  have done : analysisRequest threeBytes fileRequest quiet =
      (.success, (analysisRequest threeBytes fileRequest quiet).2.1, quiet) := rfl
  exact ⟨rfl, _, done, (selfDelimiting_iff rfl done).mpr ⟨by decide, .inl rfl⟩⟩

/-- The greeting announces no length. -/
theorem greeting_fails : helloRequest.outBuffer = [] ∧ ∃ d',
    analysisRequest noFiles helloRequest quiet = (.success, d', quiet) ∧
      ¬ SelfDelimiting helloRequest.method d'.outBuffer :=
  ⟨rfl, _, rfl, hello_undelimited .get⟩

end Delimited

section HeadAndGet

variable {fs : FileSystem} {d : HttpData} {socket : Socket}

/-- What stands behind the earlier responses, if they are still there. -/
def appended (earlier out : Bytes) : Bytes :=
  if earlier <+: out then out.drop earlier.length else out

/-- The answer to the request if it came with this method. -/
def answerTo (fs : FileSystem) (d : HttpData) (socket : Socket) (method : HttpMethod) :
    AnalysisState × HttpData × Socket :=
  analysisRequest fs { d with method := method } socket

/-- Status line and headers of the response in `outBuffer_`. -/
def headLines (d : HttpData) (answer : AnalysisState × HttpData × Socket) : Option (List Bytes) :=
  (block? 13 10 (appended d.outBuffer answer.2.1.outBuffer)).map Prod.fst

/-- The same result and the same head, be it in `outBuffer_` or, of an error page, already
    on the wire. -/
structure HeadAgrees (fs : FileSystem) (d : HttpData) (socket : Socket) : Prop where
  result : (answerTo fs d socket .head).1 = (answerTo fs d socket .get).1
  lines : headLines d (answerTo fs d socket .head) = headLines d (answerTo fs d socket .get)
  wire : (answerTo fs d socket .head).2.2 = (answerTo fs d socket .get).2.2

/-- The file cannot be found, or it can be opened and mapped. -/
def Servable (fs : FileSystem) (fileName : Bytes) : Prop :=
  ∀ size, fs.stat (cstr fileName) = some size →
    fs.openRead (cstr fileName) ∧ (fs.mmap (cstr fileName) size).isSome

@[simp]
theorem okHeader_method (d : HttpData) (method : HttpMethod) :
    okHeader { d with method := method } = okHeader d := rfl

theorem appended_append (earlier response : Bytes) :
    appended earlier (earlier ++ response) = response := by
  rw [appended, if_pos (List.prefix_append _ _), List.drop_left]

/-- The same reply to both methods is the same answer. -/
theorem headAgrees_of_reply
    (same : replyTo fs { d with method := .head } = replyTo fs { d with method := .get }) :
    HeadAgrees fs d socket := by
  have answers : answerTo fs d socket .head =
      ((answerTo fs d socket .get).1, { (answerTo fs d socket .get).2.1 with
        method := (answerTo fs d socket .head).2.1.method }, (answerTo fs d socket .get).2.2) := by
    simp only [answerTo, analysisRequest_eq, same]
    cases replyTo fs { d with method := .get } <;> rfl
  refine ⟨?_, ?_, ?_⟩
  · rw [answers]
  · rw [answers, headLines, headLines]
  · rw [answers]

/-- `HEAD` and `GET` of a file that can be found: the header without or with the content,
    and the error page if there is none. -/
theorem replyTo_file {size : Nat} (greeting : d.fileName ≠ bytes "hello")
    (icon : d.fileName ≠ bytes "favicon.ico") (found : fs.stat (cstr d.fileName) = some size) :
    replyTo fs { d with method := .head } = .page (okHeader d ++
        restOfHeader (bytes "Content-Type: ") (fileType d.fileName) size ++ []) ∧
      replyTo fs { d with method := .get } =
        if fs.openRead (cstr d.fileName) then
          match fs.mmap (cstr d.fileName) size with
          | none => .notFound true
          | some content => .page (okHeader d ++
              restOfHeader (bytes "Content-Type: ") (fileType d.fileName) size ++
                (List.range size).map content)
        else .notFound true := by
  simp only [replyTo, reduceCtorEq, if_false, if_true, greeting, icon, found, List.append_nil,
    okHeader_method, true_and]
  cases fs.openRead (cstr d.fileName) <;> rfl

/-- A page in answer to one method and an error page in answer to the other. -/
theorem not_headAgrees {response : Bytes} {cleared : Bool}
    (head : replyTo fs { d with method := .head } = .page response)
    (get : replyTo fs { d with method := .get } = .notFound cleared) :
    ¬ HeadAgrees fs d socket := by
  intro agrees
  have result := agrees.result
  simp only [answerTo, analysisRequest_eq, head, get] at result
  cases result

/-- Two pages with the same header. -/
theorem headAgrees_of_header {size : Nat} {first second : Bytes}
    (head : replyTo fs { d with method := .head } = .page (okHeader d ++
      restOfHeader (bytes "Content-Type: ") (fileType d.fileName) size ++ first))
    (get : replyTo fs { d with method := .get } = .page (okHeader d ++
      restOfHeader (bytes "Content-Type: ") (fileType d.fileName) size ++ second)) :
    HeadAgrees fs d socket := by
  have block (body : Bytes) := block_header d (noCR_fileType d.fileName) size body
  refine ⟨?_, ?_, ?_⟩
  · simp only [answerTo, analysisRequest_eq, head, get]
  · simp only [headLines, answerTo, analysisRequest_eq, head, get, appended_append, block,
      Option.map_some]
  · simp only [answerTo, analysisRequest_eq, head, get]

/-- `HEAD` agrees with `GET` on the greeting, on the icon, and on a file that can be
    opened and mapped if it is there. -/
theorem headAgrees_iff (fs : FileSystem) (d : HttpData) (socket : Socket) :
    HeadAgrees fs d socket ↔
      d.fileName = bytes "hello" ∨ d.fileName = bytes "favicon.ico" ∨
        Servable fs d.fileName := by
  by_cases greeting : d.fileName = bytes "hello"
  · refine iff_of_true (headAgrees_of_reply ?_) (.inl greeting)
    simp [replyTo, greeting]
  by_cases icon : d.fileName = bytes "favicon.ico"
  · refine iff_of_true (headAgrees_of_reply ?_) (.inr (.inl icon))
    simp only [replyTo, reduceCtorEq, if_false, if_neg greeting, if_pos icon, okHeader_method]
  simp only [greeting, icon, false_or]
  cases found : fs.stat (cstr d.fileName) with
  | none =>
      refine iff_of_true (headAgrees_of_reply ?_) (by simp [Servable, found])
      simp [replyTo, greeting, icon, found]
  | some size =>
      have servable : Servable fs d.fileName ↔
          fs.openRead (cstr d.fileName) ∧ (fs.mmap (cstr d.fileName) size).isSome := by
        simp [Servable, found]
      obtain ⟨head, get⟩ := replyTo_file greeting icon found
      rw [servable]
      cases opens : fs.openRead (cstr d.fileName) with
      | false =>
          rw [opens, if_neg (by decide)] at get
          refine iff_of_false (not_headAgrees head get) (by simp)
      | true =>
          rw [opens, if_pos rfl] at get
          cases mapped : fs.mmap (cstr d.fileName) size with
          | none =>
              rw [mapped] at get
              refine iff_of_false (not_headAgrees head get) (by simp)
          | some content =>
              rw [mapped] at get
              exact iff_of_true (headAgrees_of_header head get) ⟨rfl, rfl⟩

/-- One empty file, which `mmap` refuses. -/
def emptyFile : FileSystem where
  stat := fun _ => some 0
  openRead := fun _ => true
  mmap := fun _ length => if length = 0 then none else some fun _ => 0

theorem head_fails : ¬ HeadAgrees emptyFile fileRequest quiet := by
  intro agrees
  have result := agrees.result
  exact absurd result (by decide)

end HeadAndGet

end Corio.Epoll
