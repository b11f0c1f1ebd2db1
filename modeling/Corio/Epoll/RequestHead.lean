import Corio.Epoll.HeaderBlock
import Corio.Epoll.RequestLine
import Corio.Epoll.Verdict

/-! # Reading a complete request head

`parseURI` leaves the line feed of the request line to the header loop, which cannot tell
it from the blank line when no header comes between.
-/

namespace Corio.Epoll

/-- A well-formed header line. -/
structure CleanEntry (e : Entry) : Prop where
  key : e.1 ≠ [] ∧ ∀ c ∈ e.1, c ≠ 58 ∧ c ≠ 10 ∧ c ≠ 13
  value : e.2 ≠ [] ∧ ∀ c ∈ e.2, c ≠ 10 ∧ c ≠ 13
  short : e.2.length ≤ 255

structure RequestHead where
  line : RequestLine
  lines : List Entry
  clean : ∀ e ∈ lines, CleanEntry e

def RequestHead.text (h : RequestHead) : Bytes :=
  h.line.text ++ 13 :: ([10] ++ rawLines h.lines ++ [13, 10])

/-- A connection that waits for a request. -/
structure Awaits (d : HttpData) : Prop where
  nowReadPos : d.nowReadPos = 0
  hState : d.hState = .start
  headers : d.headers = Dict.empty

/-- Both parsers succeed, and of each key the last value is in `headers_`. -/
def ReadsHead (d : HttpData) (h : RequestHead) : Prop :=
  (parseURI d).1 = .success ∧
    ∃ d', parseHeaders (parseURI d).2 = .ok (.success, d') ∧
      ∀ key, d'.headers.find? key = h.lines.reverse.lookup key

section Lines

variable {str rest : Bytes} {es : List Entry} {offset i j : Nat} {s last : Scan}

theorem CleanEntry.raw {e : Entry} (clean : CleanEntry e) : RawEntry e where
  key := by
    obtain ⟨k, ks, key⟩ := List.exists_cons_of_ne_nil clean.key.1
    have all := clean.key.2
    rw [key, List.forall_mem_cons] at all
    exact ⟨k, ks, key, all.1.2.2, all.2⟩
  value := by
    obtain ⟨v, vs, value⟩ := List.exists_cons_of_ne_nil clean.value.1
    have all := clean.value.2
    rw [value, List.forall_mem_cons] at all
    exact ⟨v, vs, value, fun member => (all.2 13 member).2 rfl⟩

theorem CleanEntry.first {e : Entry} (clean : CleanEntry e) : e.1.head? ≠ some 10 := by
  intro first
  exact (clean.key.2 10 (List.mem_of_mem_head? first)).2.1 rfl

/-- The last of several assignments to a key counts. -/
theorem find?_assigned (es : List Entry) (headers : Dict Bytes Bytes) (key : Bytes) :
    (es.foldl (fun headers e => headers.assign e.1 e.2) headers).find? key =
      (es.reverse.lookup key).or (headers.find? key) := by
  induction es generalizing headers with
  | nil => rfl
  | cons e es ih =>
      rw [List.foldl_cons, ih, Dict.find?_assign, List.reverse_cons, List.lookup_append,
        Option.or_assoc, List.lookup_cons, List.lookup_nil]
      by_cases same : key = e.1
      · simp [same]
      · simp [same, beq_false_of_ne same]

/-- The blank line behind the last header. -/
theorem scan_blankLine (state : s.hState = .lf) (go : s.notFinish = true) :
    scan str i [13, 10] s = .ok (true, i + 2, { s with hState := .endLF }) := by
  have cr : scanChar str i 13 s = .ok (true, { s with hState := .endCR }) := by
    simp only [scanChar, state, if_true]
  have lf : scanChar str (i + 1) 10 { s with hState := .endCR } =
      .ok (true, { s with hState := .endLF }) := by
    simp only [scanChar, if_true]
  rw [scan_turn go cr, scan_turn (by exact go) lf]
  rfl

/-- Lines the loop gets behind pass. -/
theorem passAll_of_scan (scanned : scan str offset (rawLines es ++ rest) s = .ok (true, j, last))
    (raw : ∀ e ∈ es, RawEntry e) (begins : ∀ e ∈ es.head?, BeginsLine s e)
    (go : s.notFinish = true) (inside : offset + (rawLines es).length ≤ str.length) :
    PassAll offset es := by
  induction es generalizing offset s with
  | nil => trivial
  | cons e es ih =>
      obtain ⟨rawHere, rawLater⟩ := List.forall_mem_cons.mp raw
      rw [rawLines_cons, List.append_assoc] at scanned
      rw [rawLines_cons, List.length_append] at inside
      have passes := passes_of_scan scanned rawHere (begins e rfl) go
      obtain ⟨s', line, state, goOn, -⟩ := scan_rawLine (rawLines es ++ rest) rawHere passes
        (begins e rfl) go (by omega : offset + (rawLine e).length ≤ str.length)
      rw [line] at scanned
      exact ⟨passes, ih scanned rawLater (fun _ _ => .inl state) goOn (by omega)⟩

/-- A key that is stored is as long as an `int` can say. -/
theorem keptAll_keys (passes : PassAll offset es) :
    ∀ e ∈ keptAll str offset es, e.1.length < 2 ^ 31 := by
  induction es generalizing offset with
  | nil => simp [keptAll]
  | cons e es ih =>
      obtain ⟨here, later⟩ := passes
      rw [keptAll, List.forall_mem_cons]
      refine ⟨?_, ih later⟩
      have fits := toInt_lt (offset + e.1.length : Nat)
      have start := here.keyStart
      simp only [kept, substr, List.length_take]
      omega

/-- Lines that pass end at a small offset, unless a key is huge. -/
theorem small_of_passAll (passes : PassAll offset es) (small : offset < 2 ^ 31 + 2)
    (short : ∀ e ∈ es, e.2.length ≤ 255 ∧ e.1.length < 2 ^ 31) :
    offset + (rawLines es).length < 2 ^ 31 + 2 := by
  induction es generalizing offset with
  | nil => simpa using small
  | cons e es ih =>
      obtain ⟨here, later⟩ := passes
      obtain ⟨⟨shortValue, shortKey⟩, others⟩ := List.forall_mem_cons.mp short
      have behind := small_of_passes here (by omega) small shortKey
      have further := ih later behind others
      rwa [rawLines_cons, List.length_append, ← Nat.add_assoc]

end Lines

section Head

variable {d : HttpData} {h : RequestHead}

/-- What `parseURI` leaves of a head. -/
def RequestHead.rest (h : RequestHead) : Bytes := [10] ++ rawLines h.lines ++ [13, 10]

theorem RequestHead.raw (h : RequestHead) : ∀ e ∈ h.lines, RawEntry e :=
  fun e member => (h.clean e member).raw

theorem RequestHead.first (h : RequestHead) : ∀ e ∈ h.lines.head?, e.1.head? ≠ some 10 :=
  fun e member => (h.clean e (List.mem_of_mem_head? member)).first

theorem RequestHead.length_rest (h : RequestHead) :
    h.rest.length = 1 + (rawLines h.lines).length + 2 := by
  simp only [rest, List.length_append, List.length_cons, List.length_nil]

/-- The line feed that `parseURI` leaves is skipped. -/
theorem scan_rest (h : RequestHead) (s : Scan) (state : s.hState = .start)
    (go : s.notFinish = true) :
    scan h.rest 0 h.rest s = scan h.rest 1 (rawLines h.lines ++ [13, 10]) s := by
  have blank : ∀ c ∈ ([10] : Bytes), c = 10 ∨ c = 13 := by simp
  have skipped : scan h.rest 0 ([10] ++ (rawLines h.lines ++ [13, 10])) s =
      scan h.rest (0 + 1) (rawLines h.lines ++ [13, 10]) s := scan_breaks blank state go 0
  rwa [← List.append_assoc, Nat.zero_add] at skipped

/-- What the header loop does with the lines of a head. -/
theorem scan_lines (some_ : h.lines ≠ []) (passes : PassAll 1 h.lines) :
    ∃ s : Scan, scan h.rest 0 h.rest { hState := .start, headers := Dict.empty } =
        .ok (true, ([10] ++ rawLines h.lines).length + 2, { s with hState := .endLF }) ∧
      s.headers = (keptAll h.rest 1 h.lines).foldl
        (fun headers e => headers.assign e.1 e.2) Dict.empty := by
  have layout : Layout [10] h.lines := ⟨by simp, h.raw, h.first, passes⟩
  obtain ⟨s, scanned, state, go, stored⟩ := scan_layout layout rfl Dict.empty [13, 10]
  rw [if_neg some_] at state
  rw [scan_blankLine state go] at scanned
  exact ⟨s, scanned, stored⟩

/-- The header loop reads the lines exactly if there are any and the last one ends at an
    offset that fits an `int`. -/
theorem parseHeaders_iff (buffer : d.inBuffer = h.rest) (start : d.hState = .start)
    (fresh : d.headers = Dict.empty) :
    (∃ d', parseHeaders d = .ok (.success, d') ∧
      ∀ key, d'.headers.find? key = h.lines.reverse.lookup key) ↔
        h.lines ≠ [] ∧ (rawLines h.lines).length ≤ 2 ^ 31 := by
  constructor
  · rintro ⟨d', parsed, read⟩
    obtain ⟨j, last, scanned, ended, rfl⟩ := parseHeaders_success parsed
    rw [buffer, start, fresh] at scanned
    have lines := scanned
    rw [scan_rest h _ rfl rfl] at lines
    have some_ : h.lines ≠ [] := by
      intro none_
      have skipped : scan h.rest 1 ([13, 10] ++ []) { hState := .start, headers := Dict.empty } =
          scan h.rest (1 + 2) [] { hState := .start, headers := Dict.empty } :=
        scan_breaks (by simp) rfl rfl 1
      rw [List.append_nil] at skipped
      rw [none_, rawLines_nil, List.nil_append, skipped] at lines
      obtain ⟨-, -, rfl⟩ := Prod.mk.inj (Except.ok.inj lines)
      cases ended
    have inside : 1 + (rawLines h.lines).length ≤ h.rest.length := by
      rw [h.length_rest]
      omega
    have passes := passAll_of_scan lines h.raw (fun e member => .inr ⟨rfl, h.first e member⟩) rfl
      inside
    obtain ⟨s, whole, stored⟩ := scan_lines some_ passes
    rw [whole] at scanned
    obtain ⟨-, -, rfl⟩ := Prod.mk.inj (Except.ok.inj scanned)
    have keys : ∀ e ∈ h.lines, e.1.length < 2 ^ 31 := by
      intro e member
      have found : h.lines.reverse.lookup e.1 ≠ none := by
        intro absent
        have other := List.lookup_eq_none_iff.mp absent e (List.mem_reverse.mpr member)
        simp at other
      have readKey := read e.1
      rw [stored, find?_assigned, Dict.find?_empty, Option.or_none] at readKey
      obtain ⟨value, found⟩ := Option.ne_none_iff_exists'.mp (readKey ▸ found)
      obtain ⟨before, after, split_, -⟩ := List.lookup_eq_some_iff.mp found
      have held : (e.1, value) ∈ keptAll h.rest 1 h.lines := by
        rw [← List.mem_reverse, split_]
        exact List.mem_append_right _ List.mem_cons_self
      exact keptAll_keys passes (e.1, value) held
    have small := small_of_passAll passes (by decide) fun e member =>
      ⟨(h.clean e member).short, keys e member⟩
    exact ⟨some_, by omega⟩
  · rintro ⟨some_, small⟩
    have passes : PassAll 1 h.lines :=
      passAll_small h.raw (fun e member => by have := (h.clean e member).short; omega) (by omega)
    obtain ⟨s, scanned, stored⟩ := scan_lines some_ passes
    have kept_ : keptAll h.rest 1 h.lines = h.lines := by
      have kept_ : keptAll h.rest ([10] : Bytes).length h.lines = h.lines :=
        keptAll_small (by rw [List.length_singleton]; omega)
      exact kept_
    refine ⟨{ d with hState := .endLF, headers := s.headers,
                     inBuffer := h.rest.drop (([10] ++ rawLines h.lines).length + 2) }, ?_, ?_⟩
    · simp only [parseHeaders, buffer, start, fresh]
      rw [scanned]
      rfl
    · intro key
      rw [stored, kept_, find?_assigned, Dict.find?_empty, Option.or_none]

/-- A head is read exactly if its request line is, it has a header, and the headers are less
    than 2 GiB. -/
theorem readsHead_iff (buffer : d.inBuffer = h.text) (awaits : Awaits d)
    (short : d.inBuffer.length ≤ npos) :
    ReadsHead d h ↔ h.line.Located ∧ h.lines ≠ [] ∧ (rawLines h.lines).length ≤ 2 ^ 31 := by
  have line : d.inBuffer = h.line.text ++ 13 :: h.rest := buffer
  obtain ⟨rest, hState, headers⟩ :=
    RequestLine.parseURI_rest line awaits.nowReadPos short
  rw [ReadsHead, RequestLine.parseURI_success_iff line awaits.nowReadPos short,
    parseHeaders_iff rest (hState.trans awaits.hState) (headers.trans awaits.headers)]

/-- A connection that got this head. -/
def RequestHead.received (h : RequestHead) : HttpData := { inBuffer := h.text }

theorem awaits_received (h : RequestHead) : Awaits h.received := ⟨rfl, rfl, rfl⟩

def getSlash : RequestLine where
  method := .get
  path := []
  version := .http11
  noSpace := by simp
  noReturn := by simp

/-- Two values for one key. -/
def twice : RequestHead where
  line := getSlash
  lines := [(bytes "Host", bytes "a"), (bytes "Host", bytes "b")]
  clean := by
    rw [List.forall_mem_cons, List.forall_mem_singleton]
    exact ⟨⟨by decide +kernel, by decide +kernel, by decide⟩,
      ⟨by decide +kernel, by decide +kernel, by decide⟩⟩

theorem twice_read : ReadsHead twice.received twice := by
  have located : twice.line.Located := by
    intro method pos earlier
    cases earlier
  exact (readsHead_iff rfl (awaits_received _) (by decide +kernel)).mpr
    ⟨located, by simp [twice], by decide +kernel⟩

/-- A request without headers. -/
def bare : RequestHead where
  line := getSlash
  lines := []
  clean := by simp

theorem bare_waits :
    parseURI bare.received = (.success, (parseURI bare.received).2) ∧
      parseHeaders (parseURI bare.received).2 = .ok (.again, (parseURI bare.received).2) ∧
      ¬ ReadsHead bare.received bare := by
  have waits : parseHeaders (parseURI bare.received).2 =
      .ok (.again, (parseURI bare.received).2) := by
    decide +kernel
  refine ⟨by decide +kernel, waits, ?_⟩
  rintro ⟨-, d', parsed, -⟩
  rw [waits] at parsed
  cases parsed

end Head

section Ready

variable {fs : FileSystem} {d d' : HttpData} {socket socket' : Socket} {r : HttpData × Verdict}

/-- Whenever a request line is looked for, nothing is left of the last request. -/
structure Ready (d : HttpData) : Prop where
  nowReadPos : d.nowReadPos = 0
  awaits : d.state = .parseURI → Awaits d

theorem ready_begin : Ready {} := ⟨rfl, fun _ => ⟨rfl, rfl, rfl⟩⟩

/-- A request under way. -/
theorem Ready.of_state (position : d.nowReadPos = 0) (state : d.state ≠ .parseURI) : Ready d :=
  ⟨position, fun awaits => absurd awaits state⟩

/-- Other members do not matter. -/
theorem Ready.of_same (ready : Ready d) (nowReadPos : d'.nowReadPos = d.nowReadPos)
    (state : d'.state = d.state) (hState : d'.hState = d.hState)
    (headers : d'.headers = d.headers) : Ready d' where
  nowReadPos := nowReadPos.trans ready.nowReadPos
  awaits := by
    intro waits
    have before := ready.awaits (state.symm.trans waits)
    exact ⟨nowReadPos.trans before.nowReadPos, hState.trans before.hState,
      headers.trans before.headers⟩

theorem judgeBody_ready (position : d.nowReadPos = 0) (state : d.state ≠ .parseURI)
    (done : judgeBody d = .ok r) : Ready r.1 := by
  simp only [judgeBody] at done
  split at done
  · obtain rfl := Except.ok.inj done
    exact .of_state position state
  · split at done
    · cases done
    · split at done
      · obtain rfl := Except.ok.inj done
        exact .of_state position state
      · obtain rfl := Except.ok.inj done
        exact .of_state position (by simp)

theorem judgeHeaders_ready (position : d.nowReadPos = 0) (state : d.state ≠ .parseURI)
    (done : judgeHeaders d = .ok r) : Ready r.1 := by
  obtain ⟨⟨flag, mid⟩, parsed, done⟩ := bind_ok.mp done
  have kept_ := parseHeaders_keeps parsed
  have still : mid.nowReadPos = 0 ∧ mid.state ≠ .parseURI := by
    rw [kept_]
    exact ⟨position, state⟩
  cases flag with simp only at done
  | again | error =>
      obtain rfl := Except.ok.inj done
      exact .of_state still.1 still.2
  | success =>
      split at done
      · exact judgeBody_ready (d := { mid with state := .recvBody }) still.1 (by simp) done
      · obtain rfl := Except.ok.inj done
        exact .of_state still.1 (by simp)

theorem judgeURI_ready (ready : Ready d) (done : judgeURI d = .ok r) : Ready r.1 := by
  obtain ⟨inBuffer, method, fileName, version, parsed⟩ := parseURI_frame d
  have still : Ready (parseURI d).2 := by
    rw [parsed]
    exact ready.of_same rfl rfl rfl rfl
  simp only [judgeURI] at done
  split at done
  · obtain rfl := Except.ok.inj done
    exact still
  · obtain rfl := Except.ok.inj done
    exact still.of_same rfl rfl rfl rfl
  · exact judgeHeaders_ready (d := { (parseURI d).2 with state := .parseHeaders })
      still.nowReadPos (by simp) done

theorem judgeState_ready (ready : Ready d) (done : judgeState d = .ok r) : Ready r.1 := by
  unfold judgeState at done
  split at done
  · exact judgeURI_ready ready done
  · rename_i state
    exact judgeHeaders_ready ready.nowReadPos (by simp [state]) done
  · rename_i state
    exact judgeBody_ready ready.nowReadPos (by simp [state]) done
  · obtain rfl := Except.ok.inj done
    exact ready
  · obtain rfl := Except.ok.inj done
    exact ready

theorem judge_ready {reads : List ReadResult} (ready : Ready d) (done : judge d reads = .ok r) :
    Ready r.1 := by
  simp only [judge] at done
  split_ifs at done
  · obtain rfl := Except.ok.inj done
    exact ready.of_same rfl rfl rfl rfl
  · obtain rfl := Except.ok.inj done
    exact ready.of_same rfl rfl rfl rfl
  · obtain rfl := Except.ok.inj done
    exact ready.of_same rfl rfl rfl rfl
  · refine judgeState_ready ?_ done
    exact ready.of_same rfl rfl rfl rfl
  · refine judgeState_ready ?_ done
    exact ready.of_same rfl rfl rfl rfl

theorem carryOut_ready (fs : FileSystem) (socket : Socket) (ready : Ready r.1) :
    Ready (carryOut fs socket r).1 := by
  unfold carryOut
  cases r.2 with
  | wait => exact ready
  | refuse => exact ready.of_same rfl rfl rfl rfl
  | analyse =>
      simp only [analyse, analysisRequest_eq]
      cases replyTo fs r.1 with
      | nothing | notFound => exact ready.of_same rfl rfl rfl rfl
      | hello | page => exact .of_state ready.nowReadPos (by simp)

theorem handleWrite_ready (socket : Socket) (ready : Ready d) :
    Ready (handleWrite d socket).1 := by
  obtain ⟨outBuffer, events, error, same⟩ := handleWrite_same d socket
  rw [same]
  exact ready.of_same rfl rfl rfl rfl

theorem afterRead_ready (socket : Socket) (ready : Ready d) : Ready (afterRead d socket).2.1 := by
  have flushed : Ready (flush d socket).1 := by
    obtain ⟨outBuffer, events, error, same⟩ := flush_same d socket
    rw [same]
    exact ready.of_same rfl rfl rfl rfl
  unfold afterRead
  split
  · exact ready
  · simp only [finishPass]
    split_ifs
    · exact ⟨rfl, fun _ => ⟨rfl, rfl, rfl⟩⟩
    · exact flushed.of_same rfl rfl rfl rfl
    · exact flushed

/-- Every turn of `handleRead` is ready for a request line when it looks for one. -/
theorem handleReadPass_ready {again : Bool} (ready : Ready d)
    (done : handleReadPass fs d socket = .ok (again, d', socket')) : Ready d' := by
  obtain ⟨decided, mid, rest, judged, carried, ended⟩ := handleReadPass_decides done
  have kept := carryOut_ready fs
    { socket with reads := (readn socket.reads d.inBuffer 0).reads } (judge_ready ready judged)
  rw [carried] at kept
  have after := afterRead_ready rest kept
  rwa [ended] at after

theorem handleReadFuel_ready {fuel : Nat} (ready : Ready d)
    (done : handleReadFuel fs fuel d socket = .ok (d', socket')) : Ready d' :=
  handleReadFuel_keeps (J := fun r => Ready r.1)
    (fun ready pass => handleReadPass_ready ready pass) id ready done

theorem handleConn_ready (ready : Ready d) : Ready (handleConn d) := by
  obtain ⟨connectionState, events, same⟩ := handleConn_same d
  rw [same]
  exact ready.of_same rfl rfl rfl rfl

end Ready

end Corio.Epoll
