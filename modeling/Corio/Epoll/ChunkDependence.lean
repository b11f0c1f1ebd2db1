import Corio.Epoll.Chunks

/-! # Streams whose cut matters

Cut behind the first method name, a request gets past `parseURI` or is refused with
a file name set. From then on it can only be answered, refused with that name, or
left waiting with it, and none of these is what the byte-wise delivery leaves.
-/

namespace Corio.Epoll

open Find

/-- A request has been begun and nothing has been answered. -/
structure Begun (d : HttpData) : Prop where
  noError : d.error = false
  quiet : d.outBuffer = []
  open_ : d.connectionState = .connected
  named : d.fileName ≠ []

/-- The states in which a begun request waits for more bytes. -/
def Resting (d : HttpData) : Prop := d.state = .parseHeaders ∨ d.state = .recvBody

/-- How one pass over a begun request ends, before the tail of `handleRead`. -/
inductive PassEnd : HttpData × Socket → Prop
  | waits {d reads} (begun : Begun d) (resting : Resting d) : PassEnd (d, ⟨reads, [], []⟩)
  | fails {d socket} (error : d.error = true) (named : d.fileName ≠ []) : PassEnd (d, socket)
  | answers {d reads} (noError : d.error = false) (open_ : d.connectionState = .connected)
      (finished : d.state = .finish) (answer : ok200 <+: d.outBuffer) :
      PassEnd (d, ⟨reads, [], []⟩)

variable {fs : FileSystem} {d : HttpData} {reads : List ReadResult}

theorem badRequest_end (named : d.fileName ≠ []) (socket : Socket) :
    PassEnd (badRequest d socket) :=
  .fails rfl named

theorem analyse_end (begun : Begun d) : PassEnd (analyse fs d ⟨reads, [], []⟩) := by
  simp only [analyse, analysisRequest_eq]
  cases replied : replyTo fs d with
  | nothing => exact .fails rfl begun.named
  | hello => exact .answers begun.noError begun.open_ rfl hello_ok200
  | page response =>
      refine .answers begun.noError begun.open_ rfl ?_
      simpa only [begun.quiet, List.nil_append] using page_ok200 replied
  | notFound cleared => exact .fails rfl begun.named

theorem receiveBody_end {result : HttpData × Socket} (begun : Begun d) (state : d.state = .recvBody)
    (done : receiveBody fs d ⟨reads, [], []⟩ = .ok result) : PassEnd result := by
  simp only [receiveBody] at done
  split at done
  · obtain rfl := Except.ok.inj done
    exact .fails rfl begun.named
  · split at done
    · cases done
    · split at done
      · obtain rfl := Except.ok.inj done
        exact .waits begun (.inr state)
      · obtain rfl := Except.ok.inj done
        exact analyse_end ⟨begun.noError, begun.quiet, begun.open_, begun.named⟩

theorem readHeaders_end {result : HttpData × Socket} (begun : Begun d)
    (state : d.state = .parseHeaders) (done : readHeaders fs d ⟨reads, [], []⟩ = .ok result) :
    PassEnd result := by
  simp only [readHeaders] at done
  obtain ⟨⟨flag, mid⟩, parsed, done⟩ := bind_ok.mp done
  have kept := parseHeaders_keeps parsed
  have still : Begun mid := by
    rw [kept]
    exact ⟨begun.noError, begun.quiet, begun.open_, begun.named⟩
  cases flag with simp only at done
  | again =>
      obtain rfl := Except.ok.inj done
      exact .waits still (.inl (by rw [kept]; exact state))
  | error =>
      obtain rfl := Except.ok.inj done
      exact badRequest_end still.named _
  | success =>
      split at done
      · exact receiveBody_end (d := { mid with state := .recvBody })
          ⟨still.noError, still.quiet, still.open_, still.named⟩ rfl done
      · obtain rfl := Except.ok.inj done
        exact analyse_end ⟨still.noError, still.quiet, still.open_, still.named⟩

theorem readOnce_piece {piece wire : Bytes} (open_ : d.connectionState = .connected) :
    readOnce fs d ⟨pieceReads piece, [], wire⟩ =
      if toInt ((piece.length : Nat) : Int) < 0 then
        .ok (badRequest { d with inBuffer := d.inBuffer ++ piece } ⟨[], [], wire⟩)
      else process fs { d with inBuffer := d.inBuffer ++ piece } ⟨[], [], wire⟩ := by
  have notClosing : d.connectionState ≠ .disconnecting := by simp only [open_, ne_eq, reduceCtorEq,
    not_false_eq_true]
  simp only [readOnce, readn_pieceReads, notClosing, if_false, Bool.false_eq_true]

theorem process_parseHeaders {socket : Socket} (state : d.state = .parseHeaders) :
    process fs d socket = readHeaders fs d socket := by rw [process, state]

theorem process_recvBody {socket : Socket} (state : d.state = .recvBody) :
    process fs d socket = receiveBody fs d socket := by rw [process, state]

/-- A further piece of a request that is under way. -/
theorem readOnce_resting {piece : Bytes} {result : HttpData × Socket} (begun : Begun d)
    (resting : Resting d) (done : readOnce fs d ⟨pieceReads piece, [], []⟩ = .ok result) :
    PassEnd result := by
  have still : Begun { d with inBuffer := d.inBuffer ++ piece } :=
    ⟨begun.noError, begun.quiet, begun.open_, begun.named⟩
  rw [readOnce_piece begun.open_] at done
  split at done
  · obtain rfl := Except.ok.inj done
    exact badRequest_end still.named _
  · rcases resting with state | state
    · rw [process_parseHeaders (d := { d with inBuffer := d.inBuffer ++ piece }) state] at done
      exact readHeaders_end still state done
    · rw [process_recvBody (d := { d with inBuffer := d.inBuffer ++ piece }) state] at done
      exact receiveBody_end still state done

/-- A line that ends with its method: there is no slash behind it, and the
    arithmetic on `npos` takes the beginning of the line for the version. -/
theorem parseURI_methodEnd {part name : Bytes} {method : HttpMethod} (short : part.length < 2 ^ 31)
    (noReturn : (13 : UInt8) ∉ part) (member : name ∈ methodNames)
    (found : findMethod part = some (method, part.length - name.length))
    (ends : part.drop (part.length - name.length) = name) :
    ∃ flag version, flag ≠ .again ∧ parseURI { inBuffer := part } =
      (flag, { inBuffer := part, method := method, fileName := bytes "index.html",
               version := version }) := by
  have nameLong : 3 ≤ name.length ∧ find? (bytes "/") name = none := by
    simp only [methodNames, List.mem_cons, List.not_mem_nil, or_false] at member
    rcases member with rfl | rfl | rfl <;> decide
  have long : name.length ≤ part.length := by
    have := congrArg List.length ends
    rw [List.length_drop] at this
    omega
  have zero : toSize 0 = 0 := by decide
  have noLine : sfind [13] part 0 = npos := by
    have absent : find? [13] part = none := by
      refine find?_none_iff.mpr ?_
      rintro ⟨front, back, same⟩
      exact noReturn (same ▸ by simp)
    rw [sfind_zero, absent]
    rfl
  have lineIs : requestLine part 0 = part := by
    rw [requestLine, zero, noLine]
    exact List.take_of_length_le (by rw [npos]; omega)
  have behind : wrap64 (npos + 1) = 0 := by decide
  have nonempty : part.length > 0 := by omega
  have noSlash : sfind (bytes "/") part (part.length - name.length) = npos := by
    rw [sfind, ends, nameLong.2]
  have beyond {pat : Bytes} (proper : pat ≠ []) : sfind pat part npos = npos := by
    have past : part.drop npos = [] := List.drop_eq_nil_of_le (by rw [npos]; omega)
    rw [sfind, past, find?, if_neg proper]
  have noSpace : sfind (bytes " ") part npos = npos := beyond (by decide)
  have noVersion : sfind (bytes "/") part npos = npos := beyond (by decide)
  have same : ¬ sub64 npos npos > 1 := by decide
  have wide : ¬ sub64 part.length npos ≤ 3 := by
    rw [sub64_npos (by rw [npos]; omega)]
    omega
  simp only [parseURI, zero, noLine, lineIs, behind, List.drop_zero, nonempty, if_true,
    Nat.not_lt_zero, if_false, found, noSlash, noSpace, noVersion, same, wide]
  split
  · exact ⟨_, _, by decide, rfl⟩
  · split
    · exact ⟨_, _, by decide, rfl⟩
    · exact ⟨_, _, by decide, rfl⟩

/-- The piece that ends with the first method begins a request. -/
theorem readOnce_methodEnd {part name : Bytes} {method : HttpMethod}
    {result : HttpData × Socket} (short : part.length < 2 ^ 31)
    (noReturn : (13 : UInt8) ∉ part) (member : name ∈ methodNames)
    (found : findMethod part = some (method, part.length - name.length))
    (ends : part.drop (part.length - name.length) = name)
    (done : readOnce fs {} ⟨pieceReads part, [], []⟩ = .ok result) : PassEnd result := by
  obtain ⟨flag, version, notAgain, parsed⟩ := parseURI_methodEnd short noReturn member found ends
  have size : ¬ toInt ((part.length : Nat) : Int) < 0 := by
    rw [toInt_small short]
    omega
  have named : bytes "index.html" ≠ [] := by decide
  have started :
      Begun { inBuffer := part, method := method, fileName := bytes "index.html",
              version := version, state := .parseHeaders } :=
    ⟨rfl, rfl, rfl, named⟩
  rw [readOnce_piece rfl, if_neg size] at done
  simp only [process, readURI, List.nil_append, parsed] at done
  cases flag with simp only at done
  | again => exact absurd rfl notAgain
  | error =>
      obtain rfl := Except.ok.inj done
      exact badRequest_end named _
  | success => exact readHeaders_end started rfl done

theorem writenString_all (reads : List ReadResult) (wire sbuff : Bytes) :
    writenString ⟨reads, [], wire⟩ sbuff = (false, [], ⟨reads, [], wire ++ sbuff⟩) := by
  simp only [writenString, writeLoop, Nat.zero_add, List.take_length, Bool.false_eq_true, if_false,
    List.drop_length, ite_self]

/-- Between two events, a connection that is not the refused one. -/
def Distinct (connection : HttpData × Bytes) : Prop :=
  ok200 <+: connection.2 ∨
  (connection.1.connectionState = .disconnected ∧ connection.1.fileName ≠ []) ∨
  (Begun connection.1 ∧ Resting connection.1 ∧ connection.2 = [])

theorem handleConn_begun (begun : Begun d) : Begun (handleConn d) := by
  have stays : ¬ d.error = true ∧ d.connectionState = .connected :=
    ⟨by simp only [begun.noError, Bool.false_eq_true, not_false_eq_true], begun.open_⟩
  rw [handleConn, if_pos stays]
  split
  · split <;> exact ⟨begun.noError, begun.quiet, begun.open_, begun.named⟩
  · exact ⟨begun.noError, begun.quiet, begun.open_, begun.named⟩

theorem handleConn_resting (resting : Resting d) : Resting (handleConn d) := by
  obtain ⟨connectionState, events, same⟩ := handleConn_same d
  rw [same]
  exact resting

/-- The tail of `handleRead` and `handleConn` keep the three cases apart. -/
theorem deliver_of_passEnd {connection connection' : HttpData × Bytes} {piece : Bytes}
    (open_ : connection.1.connectionState ≠ .disconnected)
    (ends : ∀ result, readOnce fs { connection.1 with events := {} }
      ⟨pieceReads piece, [], connection.2⟩ = .ok result → PassEnd result)
    (done : deliver fs connection piece = .ok connection') : Distinct connection' := by
  rw [deliver, if_neg open_] at done
  obtain ⟨⟨last, lastSocket⟩, readable, done⟩ := bind_ok.mp done
  obtain rfl := Except.ok.inj done
  obtain ⟨⟨mid, midSocket⟩, read, readable⟩ := bind_ok.mp readable
  obtain ⟨rfl, rfl⟩ := Prod.mk.inj (Except.ok.inj readable)
  obtain ⟨⟨again, next, nextSocket⟩, pass, later⟩ := bind_ok.mp read
  obtain ⟨result, once, after⟩ := bind_ok.mp pass
  have passEnd := ends result once
  have tail : afterRead result.1 result.2 = (again, next, nextSocket) := Except.ok.inj after
  simp only at later
  cases passEnd with
  | @waits d reads begun resting =>
      have quiet : flush d ⟨reads, [], []⟩ = (d, ⟨reads, [], []⟩) := by
        rw [flush, if_neg (by
          simp only [begun.quiet, List.length_nil, Nat.lt_irrefl, not_false_eq_true])]
      have waits : finishPass d =
          (false, { d with events := { d.events with epollin := true } }) := by
        have notFinished : ¬ d.state = .finish := by
          rcases resting with state | state <;> rw [state] <;> decide
        rw [finishPass, if_neg fun both => notFinished both.2, if_pos]
        exact ⟨by rw [begun.noError]; decide, by rw [begun.open_]; decide⟩
      change afterRead d ⟨reads, [], []⟩ = _ at tail
      rw [afterRead_ok begun.noError, quiet, waits] at tail
      obtain ⟨rfl, rest⟩ := Prod.mk.inj tail
      obtain ⟨rfl, rfl⟩ := Prod.mk.inj rest
      obtain ⟨rfl, rfl⟩ := Prod.mk.inj (Except.ok.inj later)
      refine .inr (.inr ⟨?_, ?_, rfl⟩)
      · exact handleConn_begun ⟨begun.noError, begun.quiet, begun.open_, begun.named⟩
      · exact handleConn_resting resting
  | @fails d socket error named =>
      have ended : afterRead d socket = (false, d, socket) := by rw [afterRead, if_pos error]
      obtain ⟨rfl, rest⟩ := Prod.mk.inj (ended.symm.trans tail)
      obtain ⟨rfl, rfl⟩ := Prod.mk.inj rest
      obtain ⟨rfl, rfl⟩ := Prod.mk.inj (Except.ok.inj later)
      have closes : handleConn d = handleClose d := by
        simp only [handleConn, error, not_true_eq_false, false_and, if_false]
      refine .inr (.inl ?_)
      simp only [closes]
      exact ⟨rfl, named⟩
  | @answers d reads noError open_ finished answer =>
      have waiting : d.outBuffer.length > 0 := by
        have := answer.length_le
        have positive : 0 < ok200.length := by decide
        omega
      have sent : (flush d ⟨reads, [], []⟩).2.wire = d.outBuffer := by
        have ready : ¬ d.error = true ∧ d.connectionState ≠ .disconnected :=
          ⟨by rw [noError]; decide, by rw [open_]; decide⟩
        rw [flush, if_pos waiting, handleWrite, if_pos ready, writenString_all]
        rfl
      have wires : (flush d ⟨reads, [], []⟩).2 = nextSocket := by
        change afterRead d ⟨reads, [], []⟩ = _ at tail
        rw [afterRead_ok noError] at tail
        exact (Prod.mk.inj (Prod.mk.inj tail).2).2
      rw [← sent, wires] at answer
      refine .inl (answer.trans ?_)
      split at later
      · exact handleReadFuel_wire later
      · obtain ⟨-, rfl⟩ := Prod.mk.inj (Except.ok.inj later)
        exact List.prefix_refl _

theorem deliver_distinct {connection connection' : HttpData × Bytes} {piece : Bytes}
    (distinct : Distinct connection) (done : deliver fs connection piece = .ok connection') :
    Distinct connection' := by
  rcases distinct with answered | closed | ⟨begun, resting, silent⟩
  · refine .inl (answered.trans ?_)
    rw [deliver] at done
    split at done
    · obtain rfl := Except.ok.inj done
      exact List.prefix_refl _
    · obtain ⟨⟨last, lastSocket⟩, readable, done⟩ := bind_ok.mp done
      obtain rfl := Except.ok.inj done
      exact handleReadable_wire readable
  · rw [deliver, if_pos closed.1] at done
    obtain rfl := Except.ok.inj done
    exact .inr (.inl closed)
  · have open_ : connection.1.connectionState ≠ .disconnected := by
      rw [begun.open_]
      decide
    refine deliver_of_passEnd open_ (fun result once => ?_) done
    rw [silent] at once
    exact readOnce_resting (d := { connection.1 with events := {} })
      ⟨begun.noError, begun.quiet, begun.open_, begun.named⟩ resting once

theorem deliverFrom_distinct {connection connection' : HttpData × Bytes} {pieces : List Bytes}
    (distinct : Distinct connection) (done : deliverFrom fs connection pieces = .ok connection') :
    Distinct connection' := by
  induction pieces generalizing connection with
  | nil =>
      obtain rfl := Except.ok.inj done
      exact distinct
  | cons piece pieces ih =>
      rw [deliverFrom_cons] at done
      obtain ⟨next, first, later⟩ := bind_ok.mp done
      exact ih (deliver_distinct distinct first) later

theorem refused_notOk200 : ¬ ok200 <+: badRequestPage := by decide

/-- The refused connection is observably none of the distinct ones. -/
theorem observe_distinct {connection : HttpData × Bytes} (distinct : Distinct connection) :
    observe connection ≠ observe refused := by
  intro same
  have wire : connection.2 = badRequestPage := congrArg Observed.wire same
  have name : connection.1.fileName = [] := congrArg Observed.fileName same
  rcases distinct with answered | ⟨-, named⟩ | ⟨begun, -, -⟩
  · exact refused_notOk200 (wire ▸ answered)
  · exact named name
  · exact begun.named name

/-- A cut right behind a front part. -/
theorem isCut_front {front : Bytes} (nonempty : front ≠ []) (back : Bytes) :
    IsCut (front :: if back = [] then [] else [back]) (front ++ back) := by
  by_cases empty : back = []
  · subst back
    exact ⟨by simpa using nonempty, by simp⟩
  · exact ⟨by simp [nonempty, empty], by simp [empty]⟩

theorem noMethod_of_chunkIndependent {stream : Bytes} (independent : ChunkIndependent fs stream) :
    NoMethod stream := by
  by_contra named
  by_cases nonempty : stream = []
  · subst stream
    exact named ⟨by simp, by decide⟩
  obtain ⟨bytewise, refusedBytes⟩ := @deliverAll_bytes fs stream nonempty
  by_cases short : stream.length < 2 ^ 31
  · let line := requestLine stream 0
    have lineInside : line <+: stream := List.take_prefix _ _
    have lineShort : line.length < 2 ^ 31 := Nat.lt_of_le_of_lt lineInside.length_le short
    obtain ⟨part, name, method, inside, member, found, ends⟩ :=
      exists_method_end lineShort fun absent => named ⟨short, absent⟩
    have noReturn : (13 : UInt8) ∉ part := by
      intro there
      have inLine : (13 : UInt8) ∈ stream.takeWhile (· != 13) := by
        rw [← requestLine_eq (by rw [npos]; omega)]
        exact inside.subset there
      simpa using List.mem_takeWhile_imp inLine
    obtain ⟨back, rfl⟩ := inside.trans lineInside
    have partNonempty : part ≠ [] := by
      rintro rfl
      simp only [List.length_nil, Nat.zero_sub, List.drop_zero] at ends
      subst name
      exact absurd member (by decide)
    have partShort : part.length < 2 ^ 31 := Nat.lt_of_le_of_lt inside.length_le lineShort
    have same := independent _ _ (isCut_front partNonempty back) bytewise
    rw [refusedBytes, deliverAll, deliverFrom_cons] at same
    obtain ⟨observed, delivered, eq⟩ : ∃ last,
        (deliver fs ({}, []) part >>= fun next =>
          deliverFrom fs next (if back = [] then [] else [back])) = .ok last ∧
        observe last = observe refused := by
      revert same
      cases (deliver fs ({}, []) part >>= fun next =>
        deliverFrom fs next (if back = [] then [] else [back])) with
      | error fault => intro same; cases same
      | ok last => exact fun same => ⟨last, rfl, Except.ok.inj same⟩
    obtain ⟨next, first, later⟩ := bind_ok.mp delivered
    have distinct : Distinct next := deliver_of_passEnd (by decide) (fun result once =>
      readOnce_methodEnd partShort noReturn member found ends once) first
    exact observe_distinct (deliverFrom_distinct distinct later) eq
  · -- A piece of 2 GiB is refused too, but stays in the buffer.
    have size : (stream.take (2 ^ 31)).length = 2 ^ 31 := by
      rw [List.length_take]
      omega
    have frontNonempty : stream.take (2 ^ 31) ≠ [] := by
      intro empty
      rw [empty] at size
      simp at size
    have cut := isCut_front frontNonempty (stream.drop (2 ^ 31))
    rw [List.take_append_drop] at cut
    have same := independent _ _ cut bytewise
    rw [refusedBytes, deliverAll, deliverFrom_cons, deliver_oversize size] at same
    simp only [bind, Except.bind] at same
    rw [deliverFrom_closed rfl] at same
    have kept := congrArg Observed.inBuffer (Except.ok.inj same)
    exact frontNonempty kept

/-- Exactly the streams that name no method in time are delivered alike by all cuts. -/
theorem chunkIndependent_iff (fs : FileSystem) (stream : Bytes) :
    ChunkIndependent fs stream ↔ NoMethod stream :=
  ⟨noMethod_of_chunkIndependent, chunkIndependent_of_noMethod⟩

def getHello : Bytes := bytes "GET /hello HTTP/1.1\r\nHost: a\r\n\r\n"

/-- In one piece the greeting is served; cut behind the first byte it is refused. -/
theorem getHello_chunkDependent :
    (deliverAll noFiles [getHello]).map Prod.snd = .ok helloResponse ∧
    (deliverAll noFiles [getHello.take 1, getHello.drop 1]).map Prod.snd = .ok badRequestPage ∧
    ¬ ChunkIndependent noFiles getHello := by
  have atOnce : (deliverAll noFiles [getHello]).map Prod.snd = .ok helloResponse := by
    decide +kernel
  have cut : (deliverAll noFiles [getHello.take 1, getHello.drop 1]).map Prod.snd =
      .ok badRequestPage := by
    decide +kernel
  refine ⟨atOnce, cut, fun independent => ?_⟩
  have same := independent [getHello] [getHello.take 1, getHello.drop 1]
    ⟨by decide, by decide⟩ ⟨by decide, by decide⟩
  have wires := congrArg (fun r => r.map Observed.wire) same
  have onlyWire (r : Except Fault (HttpData × Bytes)) :
      (r.map observe).map Observed.wire = r.map Prod.snd := by
    cases r <;> rfl
  simp only [onlyWire, atOnce, cut] at wires
  exact absurd wires (by decide)

end Corio.Epoll
