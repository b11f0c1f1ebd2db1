import Corio.Epoll.Handlers

/-! # What a request is answered with

`replyTo` says how `analysisRequest` answers without carrying the answer out. The
other lemmas are the frame of the handlers: what each of them leaves alone, and
that bytes on the wire stay there.
-/

namespace Corio.Epoll

theorem bind_ok {ε α β : Type} {x : Except ε α} {f : α → Except ε β} {r : β} :
    (x >>= f) = .ok r ↔ ∃ a, x = .ok a ∧ f a = .ok r := by
  cases x with
  | error fault => simp [bind, Except.bind]
  | ok a => simp [bind, Except.bind]

theorem bind_error {ε α β : Type} {x : Except ε α} {f : α → Except ε β} {e : ε} :
    (x >>= f) = .error e ↔ x = .error e ∨ ∃ a, x = .ok a ∧ f a = .error e := by
  cases x with
  | error fault => simp [bind, Except.bind]
  | ok a => simp [bind, Except.bind]

inductive Reply where
  /-- `POST` gets no answer at all. -/
  | nothing
  /-- The greeting replaces whatever waits in `outBuffer_`. -/
  | hello
  /-- The response is appended to `outBuffer_`. -/
  | page (response : Bytes)
  /-- The 404 page is written directly, with `outBuffer_` cleared before or not. -/
  | notFound (cleared : Bool)
  deriving DecidableEq, Repr

def replyTo (fs : FileSystem) (d : HttpData) : Reply :=
  if d.method = .post then .nothing
  else if d.fileName = bytes "hello" then .hello
  else if d.fileName = bytes "favicon.ico" then
    .page (okHeader d ++ restOfHeader (bytes "Content-Type: ") (bytes "image/png") favicon.length
      ++ favicon)
  else
    match fs.stat (cstr d.fileName) with
    | none => .notFound false
    | some size =>
        let header := okHeader d ++
          restOfHeader (bytes "Content-Type: ") (fileType d.fileName) size
        if d.method = .head then .page header
        else if ¬ fs.openRead (cstr d.fileName) then .notFound true
        else
          match fs.mmap (cstr d.fileName) size with
          | none => .notFound true
          | some content => .page (header ++ (List.range size).map content)

theorem replyTo_nothing_iff {fs : FileSystem} {d : HttpData} :
    replyTo fs d = .nothing ↔ d.method = .post := by
  refine ⟨fun replied => ?_, fun post => if_pos post⟩
  by_contra answered
  simp only [replyTo, if_neg answered] at replied
  split at replied
  · cases replied
  split at replied
  · cases replied
  split at replied
  · cases replied
  split at replied
  · cases replied
  split at replied
  · cases replied
  split at replied <;> cases replied

/-- A request for a file or the icon sets `keepAlive_` before it is answered. -/
def withKeepAlive (d : HttpData) : HttpData :=
  { d with keepAlive := d.keepAlive || wantsKeepAlive d }

theorem analysisRequest_eq (fs : FileSystem) (d : HttpData) (socket : Socket) :
    analysisRequest fs d socket =
      match replyTo fs d with
      | .nothing => (.error, d, socket)
      | .hello => (.success, { withKeepAlive d with outBuffer := helloResponse }, socket)
      | .page response =>
          (.success, { withKeepAlive d with outBuffer := d.outBuffer ++ response }, socket)
      | .notFound cleared =>
          (.error, { withKeepAlive d with outBuffer := if cleared then [] else d.outBuffer },
            handleError socket 404 (bytes "Not Found!")) := by
  cases method : d.method with
  | post => simp only [analysisRequest, replyTo, method, if_true]
  | get | head =>
      simp only [analysisRequest, replyTo, method, reduceCtorEq, if_false, withKeepAlive]
      by_cases hello : d.fileName = bytes "hello"
      · simp only [if_pos hello]
      · by_cases icon : d.fileName = bytes "favicon.ico"
        · simp only [if_neg hello, if_pos icon, List.append_assoc]
        · simp only [if_neg hello, if_neg icon]
          cases fs.stat (cstr d.fileName) with
          | none => rfl
          | some size =>
              by_cases opens : fs.openRead (cstr d.fileName) = true
              · cases mapped : fs.mmap (cstr d.fileName) size with
                | none => simp [opens, mapped, notFound]
                | some content => simp [opens, mapped]
              · simp [opens, notFound]

/-- The beginning of every answer that is not an error page. -/
def ok200 : Bytes := bytes "HTTP/1.1 200 OK\r\n"

/-- Only the greeting is answered with the greeting. -/
theorem hello_named {fs : FileSystem} {d : HttpData} (replied : replyTo fs d = .hello) :
    d.fileName = bytes "hello" := by
  simp only [replyTo] at replied
  split at replied
  · cases replied
  split at replied
  · rename_i greeting
    exact greeting
  split at replied
  · cases replied
  split at replied
  · cases replied
  split at replied
  · cases replied
  split at replied
  · cases replied
  split at replied <;> cases replied

/-- A page is the icon or a file, and holds the content unless the request was `HEAD`. -/
theorem page_cases {fs : FileSystem} {d : HttpData} {response : Bytes}
    (replied : replyTo fs d = .page response) :
    d.method ≠ .post ∧ d.fileName ≠ bytes "hello" ∧
      (d.fileName = bytes "favicon.ico" ∧
          response = okHeader d ++ restOfHeader (bytes "Content-Type: ") (bytes "image/png")
            favicon.length ++ favicon ∨
        d.fileName ≠ bytes "favicon.ico" ∧ ∃ size body,
          response = okHeader d ++ restOfHeader (bytes "Content-Type: ") (fileType d.fileName)
            size ++ body ∧
          body.length = if d.method = .head then 0 else size) := by
  simp only [replyTo] at replied
  split at replied
  · cases replied
  rename_i answered
  split at replied
  · cases replied
  rename_i greeting
  refine ⟨answered, greeting, ?_⟩
  split at replied
  · rename_i icon
    exact .inl ⟨icon, (Reply.page.inj replied).symm⟩
  rename_i icon
  refine .inr ⟨icon, ?_⟩
  split at replied
  · cases replied
  rename_i size _
  split at replied
  · rename_i head
    refine ⟨size, [], ?_, by simp [head]⟩
    rw [List.append_nil]
    exact (Reply.page.inj replied).symm
  rename_i get
  split at replied
  · cases replied
  split at replied
  · cases replied
  rename_i content _
  exact ⟨size, (List.range size).map content, (Reply.page.inj replied).symm, by simp [get]⟩

theorem page_ok200 {fs : FileSystem} {d : HttpData} {response : Bytes}
    (replied : replyTo fs d = .page response) : ok200 <+: response := by
  have header (rest : Bytes) : ok200 <+: okHeader d ++ rest := by
    rw [okHeader, List.append_assoc]
    exact List.prefix_append _ _
  obtain ⟨-, -, ⟨-, rfl⟩ | ⟨-, size, body, rfl, -⟩⟩ := page_cases replied
  · rw [List.append_assoc]
    exact header _
  · rw [List.append_assoc]
    exact header _

theorem hello_ok200 : ok200 <+: helloResponse := by decide

/-- The parser of the request line only touches its own four members. -/
theorem parseURI_frame (d : HttpData) :
    ∃ inBuffer method fileName version,
      (parseURI d).2 = { d with
        inBuffer := inBuffer, method := method, fileName := fileName, version := version } := by
  simp only [parseURI, Nat.not_lt_zero, if_false]
  split
  · exact ⟨_, _, _, _, rfl⟩
  · split
    · exact ⟨_, _, _, _, rfl⟩
    · split
      · exact ⟨_, _, _, _, rfl⟩
      · split <;> exact ⟨_, _, _, _, rfl⟩

/-- The header parser only touches its own three members. -/
theorem parseHeaders_keeps {d d' : HttpData} {flag : HeaderState}
    (parsed : parseHeaders d = .ok (flag, d')) :
    d' = { d with inBuffer := d'.inBuffer, hState := d'.hState, headers := d'.headers } := by
  simp only [parseHeaders] at parsed
  obtain ⟨⟨finished, i, s⟩, -, parsed⟩ := bind_ok.mp parsed
  simp only at parsed
  split at parsed
  · obtain ⟨-, rfl⟩ := Prod.mk.inj (Except.ok.inj parsed)
    rfl
  · split at parsed
    · obtain ⟨-, rfl⟩ := Prod.mk.inj (Except.ok.inj parsed)
      rfl
    · split at parsed
      · obtain ⟨-, rfl⟩ := Prod.mk.inj (Except.ok.inj parsed)
        rfl
      · cases parsed

section Wire

variable {fs : FileSystem} {d d' : HttpData} {socket socket' : Socket}

theorem writen_wire (socket : Socket) (buff : Bytes) : socket.wire <+: (writen socket buff).wire :=
  List.prefix_append _ _

theorem handleError_wire (socket : Socket) (errNum : Nat) (shortMsg : Bytes) :
    socket.wire <+: (handleError socket errNum shortMsg).wire :=
  (writen_wire _ _).trans (writen_wire _ _)

theorem refuse_wire (d : HttpData) (socket : Socket) (errNum : Nat) (shortMsg : Bytes) :
    socket.wire <+: (refuse d socket errNum shortMsg).2.wire :=
  handleError_wire socket errNum shortMsg

theorem badRequest_wire (d : HttpData) (socket : Socket) :
    socket.wire <+: (badRequest d socket).2.wire :=
  refuse_wire d socket 400 _

theorem writenString_wire (socket : Socket) (sbuff : Bytes) :
    socket.wire <+: (writenString socket sbuff).2.2.wire := by
  simp only [writenString]
  split
  · exact List.prefix_append _ _
  · split <;> exact List.prefix_append _ _

theorem analyse_wire (fs : FileSystem) (d : HttpData) (socket : Socket) :
    socket.wire <+: (analyse fs d socket).2.wire := by
  simp only [analyse, analysisRequest_eq]
  cases replyTo fs d with
  | nothing | hello | page => exact List.prefix_refl _
  | notFound => exact handleError_wire _ _ _

/-- The wire of a result that is known. -/
theorem ok_wire {result : HttpData × Socket} {wire : Bytes}
    (done : (.ok result : Except Fault (HttpData × Socket)) = .ok (d', socket'))
    (grows : wire <+: result.2.wire) : wire <+: socket'.wire := by
  rw [Except.ok.inj done] at grows
  exact grows

theorem receiveBody_wire (done : receiveBody fs d socket = .ok (d', socket')) :
    socket.wire <+: socket'.wire := by
  simp only [receiveBody] at done
  split at done
  · exact ok_wire done (refuse_wire _ _ _ _)
  · split at done
    · cases done
    · split at done
      · exact ok_wire done (List.prefix_refl _)
      · exact ok_wire done (analyse_wire _ _ _)

theorem readHeaders_wire (done : readHeaders fs d socket = .ok (d', socket')) :
    socket.wire <+: socket'.wire := by
  simp only [readHeaders] at done
  obtain ⟨⟨flag, mid⟩, -, done⟩ := bind_ok.mp done
  cases flag with
  | again => exact ok_wire done (List.prefix_refl _)
  | error => exact ok_wire done (badRequest_wire _ _)
  | success =>
      simp only at done
      split at done
      · exact receiveBody_wire done
      · exact ok_wire done (analyse_wire _ _ _)

theorem readURI_wire (done : readURI fs d socket = .ok (d', socket')) :
    socket.wire <+: socket'.wire := by
  simp only [readURI] at done
  generalize parseURI d = parsed at done
  obtain ⟨flag, mid⟩ := parsed
  cases flag with simp only at done
  | again => exact ok_wire done (List.prefix_refl _)
  | error => exact ok_wire done (badRequest_wire { mid with inBuffer := [] } socket)
  | success => exact readHeaders_wire done

theorem process_wire (done : process fs d socket = .ok (d', socket')) :
    socket.wire <+: socket'.wire := by
  simp only [process] at done
  split at done
  · exact readURI_wire done
  · exact readHeaders_wire done
  · exact receiveBody_wire done
  · exact ok_wire done (analyse_wire _ _ _)
  · exact ok_wire done (List.prefix_refl _)

theorem readOnce_wire (done : readOnce fs d socket = .ok (d', socket')) :
    socket.wire <+: socket'.wire := by
  simp only [readOnce] at done
  generalize readn socket.reads d.inBuffer 0 = outcome at done
  split at done
  · exact ok_wire done (List.prefix_refl _)
  · split at done
    · exact ok_wire done (badRequest_wire { d with inBuffer := outcome.inBuffer }
        { socket with reads := outcome.reads })
    · split at done
      · split at done
        · exact ok_wire done (List.prefix_refl _)
        · have processed := process_wire done
          exact processed
      · have processed := process_wire done
        exact processed

theorem flush_wire (d : HttpData) (socket : Socket) :
    socket.wire <+: (flush d socket).2.wire := by
  rcases flush_socket d socket with same | same <;> rw [same]
  exact writenString_wire socket d.outBuffer

theorem afterRead_ok (noError : d.error = false) :
    afterRead d socket =
      ((finishPass (flush d socket).1).1, (finishPass (flush d socket).1).2,
        (flush d socket).2) := by
  rw [afterRead, if_neg (by rw [noError]; decide)]

theorem afterRead_wire (d : HttpData) (socket : Socket) :
    socket.wire <+: (afterRead d socket).2.2.wire := by
  unfold afterRead
  split
  · exact List.prefix_refl _
  · exact flush_wire d socket

theorem handleReadPass_wire {again : Bool}
    (done : handleReadPass fs d socket = .ok (again, d', socket')) :
    socket.wire <+: socket'.wire := by
  obtain ⟨⟨mid, midSocket⟩, once, after⟩ := bind_ok.mp done
  have grows := afterRead_wire mid midSocket
  rw [Except.ok.inj after] at grows
  exact (readOnce_wire once).trans grows

/-- What every turn of a call brings about, and lets the next one begin, the call does. -/
theorem handleReadFuel_keeps {I J : HttpData × Socket → Prop} {fuel : Nat}
    (turn : ∀ {d socket again r}, I (d, socket) → handleReadPass fs d socket = .ok (again, r) → J r)
    (next : ∀ {r}, J r → I r) (start : I (d, socket))
    (done : handleReadFuel fs fuel d socket = .ok (d', socket')) : J (d', socket') := by
  induction fuel generalizing d socket with
  | zero => cases done
  | succ fuel ih =>
      obtain ⟨⟨again, mid, midSocket⟩, pass, later⟩ := bind_ok.mp done
      have here := turn start pass
      simp only at later
      split at later
      · exact ih (next here) later
      · obtain ⟨rfl, rfl⟩ := Prod.mk.inj (Except.ok.inj later)
        exact here

theorem handleReadFuel_wire {fuel : Nat}
    (done : handleReadFuel fs fuel d socket = .ok (d', socket')) :
    socket.wire <+: socket'.wire :=
  handleReadFuel_keeps (J := fun r => socket.wire <+: r.2.wire)
    (fun before pass => before.trans (handleReadPass_wire pass)) id (List.prefix_refl _) done

theorem handleReadable_wire (done : handleReadable fs d socket = .ok (d', socket')) :
    socket.wire <+: socket'.wire := by
  obtain ⟨⟨mid, midSocket⟩, read, same⟩ := bind_ok.mp done
  obtain ⟨-, rfl⟩ := Prod.mk.inj (Except.ok.inj same)
  exact handleReadFuel_wire read

end Wire

end Corio.Epoll
