import Corio.Epoll.Replies

/-! # Deciding before acting

A turn of `handleRead` first finds out what to do about the request and then does
it. `judge` is the first half, without a socket; `readOnce_judge` puts the two
halves together again.
-/

namespace Corio.Epoll

inductive Verdict where
  /-- The request is not complete, or the peer has gone. -/
  | wait
  | refuse (shortMsg : Bytes)
  | analyse
  deriving DecidableEq, Repr

def judgeBody (d : HttpData) : Except Fault (HttpData × Verdict) :=
  match d.headers.find? (bytes "Content-length") with
  | none => .ok (d, .refuse (bytes "Bad Request: Lack of argument (Content-length)"))
  | some value =>
      match stoi value with
      | none => .error .uncaught
      | some contentLength =>
          if toInt d.inBuffer.length < contentLength then .ok (d, .wait)
          else .ok ({ d with state := .analysis }, .analyse)

def judgeHeaders (d : HttpData) : Except Fault (HttpData × Verdict) := do
  let (flag, d) ← parseHeaders d
  match flag with
  | .again => .ok (d, .wait)
  | .error => .ok (d, .refuse (bytes "Bad Request"))
  | .success =>
      if d.method = .post then judgeBody { d with state := .recvBody }
      else .ok ({ d with state := .analysis }, .analyse)

def judgeURI (d : HttpData) : Except Fault (HttpData × Verdict) :=
  let (flag, d) := parseURI d
  match flag with
  | .again => .ok (d, .wait)
  | .error => .ok ({ d with inBuffer := [] }, .refuse (bytes "Bad Request"))
  | .success => judgeHeaders { d with state := .parseHeaders }

def judgeState (d : HttpData) : Except Fault (HttpData × Verdict) :=
  match d.state with
  | .parseURI => judgeURI d
  | .parseHeaders => judgeHeaders d
  | .recvBody => judgeBody d
  | .analysis => .ok (d, .analyse)
  | .finish => .ok (d, .wait)

/-- What a turn that reads this will do, and the state it does it in. -/
def judge (d : HttpData) (reads : List ReadResult) : Except Fault (HttpData × Verdict) :=
  let outcome := readn reads d.inBuffer 0
  let readNum := toInt outcome.readSum
  let d := { d with inBuffer := outcome.inBuffer }
  if d.connectionState = .disconnecting then .ok ({ d with inBuffer := [] }, .wait)
  else if readNum < 0 then .ok (d, .refuse (bytes "Bad Request"))
  else if outcome.zero then
    let d := { d with connectionState := .disconnecting }
    if readNum = 0 then .ok (d, .wait) else judgeState d
  else judgeState d

def carryOut (fs : FileSystem) (socket : Socket) (decided : HttpData × Verdict) :
    HttpData × Socket :=
  match decided.2 with
  | .wait => (decided.1, socket)
  | .refuse shortMsg => refuse decided.1 socket 400 shortMsg
  | .analyse => analyse fs decided.1 socket

variable {fs : FileSystem} {d : HttpData} {socket : Socket}

theorem receiveBody_judge : receiveBody fs d socket = (judgeBody d).map (carryOut fs socket) := by
  simp only [receiveBody, judgeBody]
  cases d.headers.find? (bytes "Content-length") with
  | none => rfl
  | some value =>
      dsimp only
      cases stoi value with
      | none => rfl
      | some contentLength =>
          by_cases missing : toInt d.inBuffer.length < contentLength
          · simp only [missing, if_true]
            rfl
          · simp only [missing, if_false]
            rfl

theorem readHeaders_judge :
    readHeaders fs d socket = (judgeHeaders d).map (carryOut fs socket) := by
  simp only [readHeaders, judgeHeaders]
  cases parseHeaders d with
  | error fault => rfl
  | ok parsed =>
      obtain ⟨flag, mid⟩ := parsed
      cases flag with
      | again => rfl
      | error => rfl
      | success =>
          simp only [bind, Except.bind]
          by_cases post : mid.method = .post
          · simp only [post, if_true]
            exact receiveBody_judge
          · simp only [post, if_false]
            rfl

theorem readURI_judge : readURI fs d socket = (judgeURI d).map (carryOut fs socket) := by
  simp only [readURI, judgeURI]
  generalize parseURI d = parsed
  obtain ⟨flag, mid⟩ := parsed
  cases flag with
  | again => rfl
  | error => rfl
  | success => exact readHeaders_judge

theorem process_judge : process fs d socket = (judgeState d).map (carryOut fs socket) := by
  simp only [process, judgeState]
  generalize d.state = state
  cases state with
  | parseURI => exact readURI_judge
  | parseHeaders => exact readHeaders_judge
  | recvBody => exact receiveBody_judge
  | analysis => rfl
  | finish => rfl

/-- A turn is its decision, carried out on what the reads left of the socket. -/
theorem readOnce_judge :
    readOnce fs d socket = (judge d socket.reads).map
      (carryOut fs { socket with reads := (readn socket.reads d.inBuffer 0).reads }) := by
  simp only [readOnce, judge]
  generalize readn socket.reads d.inBuffer 0 = outcome
  by_cases closing : d.connectionState = .disconnecting
  · simp only [if_pos closing]
    rfl
  · by_cases negative : toInt outcome.readSum < 0
    · simp only [if_neg closing, if_pos negative]
      rfl
    · by_cases ended : outcome.zero = true
      · by_cases empty : toInt outcome.readSum = 0
        · simp only [if_neg closing, if_neg negative, if_pos ended, if_pos empty]
          rfl
        · simp only [if_neg closing, if_neg negative, if_pos ended, if_neg empty]
          exact process_judge
      · simp only [if_neg closing, if_neg negative, if_neg ended]
        exact process_judge

theorem handleReadPass_judged {decided : HttpData × Verdict}
    (judged : judge d socket.reads = .ok decided) :
    handleReadPass fs d socket =
      let carried :=
        carryOut fs { socket with reads := (readn socket.reads d.inBuffer 0).reads } decided
      .ok (afterRead carried.1 carried.2) := by
  rw [handleReadPass, readOnce_judge, judged]
  rfl

/-- What a turn that returns has decided, and what it has come to by that. -/
theorem handleReadPass_decides {r : Bool × HttpData × Socket}
    (done : handleReadPass fs d socket = .ok r) :
    ∃ decided mid rest, judge d socket.reads = .ok decided ∧
      carryOut fs { socket with reads := (readn socket.reads d.inBuffer 0).reads } decided =
        (mid, rest) ∧ afterRead mid rest = r := by
  cases judged : judge d socket.reads with
  | error fault =>
      rw [handleReadPass, readOnce_judge, judged] at done
      cases done
  | ok decided =>
      rw [handleReadPass_judged judged] at done
      exact ⟨decided, _, _, rfl, rfl, Except.ok.inj done⟩

/-- Deciding leaves the output and the error flag alone and does not close the connection. -/
structure Decided (d d' : HttpData) : Prop where
  outBuffer : d'.outBuffer = d.outBuffer
  error : d'.error = d.error
  stillOpen : d'.connectionState = .disconnected → d.connectionState = .disconnected

theorem Decided.refl (d : HttpData) : Decided d d := ⟨rfl, rfl, id⟩

theorem Decided.trans {d d' d'' : HttpData} (first : Decided d d') (second : Decided d' d'') :
    Decided d d'' :=
  ⟨second.outBuffer.trans first.outBuffer, second.error.trans first.error,
    first.stillOpen ∘ second.stillOpen⟩

theorem parseURI_decided (d : HttpData) : Decided d (parseURI d).2 := by
  obtain ⟨inBuffer, method, fileName, version, parsed⟩ := parseURI_frame d
  rw [parsed]
  exact ⟨rfl, rfl, id⟩

theorem judgeBody_decided {r : HttpData × Verdict} (done : judgeBody d = .ok r) :
    Decided d r.1 := by
  simp only [judgeBody] at done
  split at done
  · obtain rfl := Except.ok.inj done
    exact .refl d
  · split at done
    · cases done
    · split at done
      · obtain rfl := Except.ok.inj done
        exact .refl d
      · obtain rfl := Except.ok.inj done
        exact ⟨rfl, rfl, id⟩

theorem judgeHeaders_decided {r : HttpData × Verdict} (done : judgeHeaders d = .ok r) :
    Decided d r.1 := by
  obtain ⟨⟨flag, mid⟩, parsed, done⟩ := bind_ok.mp done
  have kept := parseHeaders_keeps parsed
  have still : Decided d mid := by
    rw [kept]
    exact ⟨rfl, rfl, id⟩
  cases flag with simp only at done
  | again =>
      obtain rfl := Except.ok.inj done
      exact still
  | error =>
      obtain rfl := Except.ok.inj done
      exact still
  | success =>
      split at done
      · exact still.trans
          ((⟨rfl, rfl, id⟩ : Decided mid { mid with state := .recvBody }).trans
            (judgeBody_decided done))
      · obtain rfl := Except.ok.inj done
        exact still.trans ⟨rfl, rfl, id⟩

theorem judgeState_decided {r : HttpData × Verdict} (done : judgeState d = .ok r) :
    Decided d r.1 := by
  simp only [judgeState] at done
  split at done
  · simp only [judgeURI] at done
    have still := parseURI_decided d
    revert done still
    generalize parseURI d = parsed
    obtain ⟨flag, mid⟩ := parsed
    intro done still
    cases flag with simp only at done
    | again =>
        obtain rfl := Except.ok.inj done
        exact still
    | error =>
        obtain rfl := Except.ok.inj done
        exact still.trans ⟨rfl, rfl, id⟩
    | success =>
        exact still.trans ((⟨rfl, rfl, id⟩ : Decided mid { mid with state := .parseHeaders }).trans
          (judgeHeaders_decided done))
  · exact judgeHeaders_decided done
  · exact judgeBody_decided done
  · obtain rfl := Except.ok.inj done
    exact .refl d
  · obtain rfl := Except.ok.inj done
    exact .refl d

theorem judge_decided {reads : List ReadResult} {r : HttpData × Verdict}
    (done : judge d reads = .ok r) : Decided d r.1 := by
  simp only [judge] at done
  generalize readn reads d.inBuffer 0 = outcome at done
  split at done
  · obtain rfl := Except.ok.inj done
    exact ⟨rfl, rfl, id⟩
  · split at done
    · obtain rfl := Except.ok.inj done
      exact ⟨rfl, rfl, id⟩
    · split at done
      · split at done
        · obtain rfl := Except.ok.inj done
          exact ⟨rfl, rfl, nofun⟩
        · have later := judgeState_decided done
          exact ⟨later.outBuffer, later.error, fun closed => nomatch later.stillOpen closed⟩
      · have later := judgeState_decided done
        exact ⟨later.outBuffer, later.error, later.stillOpen⟩

end Corio.Epoll
