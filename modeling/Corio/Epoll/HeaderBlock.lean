import Corio.Epoll.HeaderLines

/-! # Where the header loop stands

The text the loop has read is line breaks, lines and the beginning of another line or of
the blank line. From this follow where the block ends for the loop, and what can get into
`headers_`.
-/

namespace Corio.Epoll

open Find

/-- The beginning of a line behind these lines. -/
structure KeyBegun (es : List Entry) (key : Bytes) : Prop where
  raw : RawKey key
  first : es = [] → key.head? ≠ some 10

/-- A state of the loop behind some text. The offsets it holds are those of the text, as
    `int`s, and the checks made so far were passed. -/
inductive At (breaks : Bytes) (es : List Entry) (offset : Nat) : Bytes → Scan → Prop where
  | start {s : Scan} (state : s.hState = .start) (go : s.notFinish = true) (none_ : es = []) :
      At breaks es offset breaks s
  | key {s : Scan} {key : Bytes} (state : s.hState = .key) (go : s.notFinish = true)
      (begun : KeyBegun es key) (keyStart : s.keyStart = toInt offset) :
      At breaks es offset (breaks ++ rawLines es ++ key) s
  | colon {s : Scan} {key : Bytes} (state : s.hState = .colon) (go : s.notFinish = true)
      (begun : KeyBegun es key) (keyStart : s.keyStart = toInt offset)
      (keyEnd : s.keyEnd = toInt (offset + key.length : Nat)) (ordered : s.keyStart < s.keyEnd) :
      At breaks es offset (breaks ++ rawLines es ++ key ++ [58]) s
  | spaces {s : Scan} {key : Bytes} (state : s.hState = .spacesAfterColon)
      (go : s.notFinish = true) (begun : KeyBegun es key) (keyStart : s.keyStart = toInt offset)
      (keyEnd : s.keyEnd = toInt (offset + key.length : Nat)) (ordered : s.keyStart < s.keyEnd) :
      At breaks es offset (breaks ++ rawLines es ++ key ++ [58, 32]) s
  | value {s : Scan} {key value : Bytes} (state : s.hState = .value) (go : s.notFinish = true)
      (begun : KeyBegun es key) (keyStart : s.keyStart = toInt offset)
      (keyEnd : s.keyEnd = toInt (offset + key.length : Nat)) (ordered : s.keyStart < s.keyEnd)
      (raw : RawValue value) (valueStart : s.valueStart = toInt (offset + key.length + 2 : Nat))
      (checked : ∀ n < value.length, 0 < n →
        sub64 (offset + key.length + 2 + n) (toSize s.valueStart) ≤ 255) :
      At breaks es offset (breaks ++ rawLines es ++ key ++ [58, 32] ++ value) s
  | cr {s : Scan} {key value : Bytes} (state : s.hState = .cr) (go : s.notFinish = true)
      (begun : KeyBegun es key) (keyStart : s.keyStart = toInt offset)
      (keyEnd : s.keyEnd = toInt (offset + key.length : Nat)) (ordered : s.keyStart < s.keyEnd)
      (raw : RawValue value) (valueStart : s.valueStart = toInt (offset + key.length + 2 : Nat))
      (checked : ∀ n < value.length, 0 < n →
        sub64 (offset + key.length + 2 + n) (toSize s.valueStart) ≤ 255)
      (valueEnd : s.valueEnd = toInt (offset + key.length + 2 + value.length : Nat))
      (valueOrdered : s.valueStart < s.valueEnd) :
      At breaks es offset (breaks ++ rawLines es ++ key ++ [58, 32] ++ value ++ [13]) s
  | lf {s : Scan} (state : s.hState = .lf) (go : s.notFinish = true) (some_ : es ≠ []) :
      At breaks es offset (breaks ++ rawLines es) s
  | endCR {s : Scan} (state : s.hState = .endCR) (go : s.notFinish = true) (some_ : es ≠ []) :
      At breaks es offset (breaks ++ rawLines es ++ [13]) s
  | endLF {s : Scan} (state : s.hState = .endLF) (go : s.notFinish = true) (some_ : es ≠ []) :
      At breaks es offset (breaks ++ rawLines es ++ [13, 10]) s
  /-- The turn that ends the loop takes one more character. -/
  | past {s : Scan} {c : UInt8} (state : s.hState = .endLF) (done : s.notFinish = false)
      (some_ : es ≠ []) : At breaks es offset (breaks ++ rawLines es ++ [13, 10] ++ [c]) s

/-- Line breaks and lines that the loop has read. -/
structure Layout (breaks : Bytes) (es : List Entry) : Prop where
  blank : ∀ c ∈ breaks, c = 10 ∨ c = 13
  raw : ∀ e ∈ es, RawEntry e
  first : ∀ e ∈ es.head?, e.1.head? ≠ some 10
  passes : PassAll breaks.length es

/-- What the text is made of, and what of it is in `headers_`. -/
structure Stands (str : Bytes) (init : Dict Bytes Bytes) (breaks : Bytes) (es : List Entry)
    (front : Bytes) (s : Scan) : Prop where
  position : At breaks es (breaks.length + (rawLines es).length) front s
  layout : Layout breaks es
  stored : ∀ key value, s.headers.find? key = some value →
    (key, value) ∈ keptAll str breaks.length es ∨ init.find? key = some value

section Turn

variable {str front breaks : Bytes} {init : Dict Bytes Bytes} {es : List Entry} {c : UInt8}
  {s s' : Scan}

/-- A turn that stores nothing. -/
theorem Stands.moved (stands : Stands str init breaks es front s) {front' : Bytes}
    (position : At breaks es (breaks.length + (rawLines es).length) front' s')
    (same : s'.headers = s.headers) : Stands str init breaks es front' s' :=
  ⟨position, stands.layout, same ▸ stands.stored⟩

/-- One more line. -/
theorem Layout.concat {e : Entry} (layout : Layout breaks es) (raw : RawEntry e)
    (begun : KeyBegun es e.1) (passes : Passes (breaks.length + (rawLines es).length) e) :
    Layout breaks (es ++ [e]) where
  blank := layout.blank
  raw := by
    rw [List.forall_mem_append]
    exact ⟨layout.raw, by simpa using raw⟩
  first := by
    intro e' member
    cases es with
    | nil =>
        obtain rfl := Option.some.inj member
        exact begun.first rfl
    | cons e'' es => exact layout.first e' member
  passes := passAll_concat.mpr ⟨layout.passes, passes⟩

/-- A turn that stores the line that stands there. -/
theorem Stands.store {e : Entry} (stands : Stands str init breaks es front s)
    (raw : RawEntry e) (begun : KeyBegun es e.1)
    (passes : Passes (breaks.length + (rawLines es).length) e) {front' : Bytes}
    (position : At breaks (es ++ [e]) (breaks.length + (rawLines (es ++ [e])).length) front' s')
    (stored : s'.headers = s.headers.assign
      (kept str (breaks.length + (rawLines es).length) e).1
      (kept str (breaks.length + (rawLines es).length) e).2) :
    Stands str init breaks (es ++ [e]) front' s' where
  position := position
  layout := stands.layout.concat raw begun passes
  stored := by
    intro key value found
    rw [stored, Dict.find?_assign] at found
    rw [keptAll_concat, List.mem_append, List.mem_singleton]
    split at found
    · rename_i same
      exact .inl (.inr (Prod.ext same (Option.some.inj found).symm))
    · exact (stands.stored key value found).imp_left .inl

theorem KeyBegun.more {key : Bytes} (begun : KeyBegun es key)
    (inside : c ≠ 58 ∧ c ≠ 10 ∧ c ≠ 13) : KeyBegun es (key ++ [c]) := by
  obtain ⟨⟨k, ks, rfl, notCR, tail⟩, first⟩ := begun
  refine ⟨⟨k, ks ++ [c], rfl, notCR, ?_⟩, first⟩
  rw [RawTail, List.forall_mem_append]
  exact ⟨tail, by simpa using inside⟩

theorem RawValue.more {value : Bytes} (raw : RawValue value) (notCR : c ≠ 13) :
    RawValue (value ++ [c]) := by
  obtain ⟨v, vs, rfl, noCR⟩ := raw
  exact ⟨v, vs ++ [c], rfl, by simp [noCR, notCR.symm]⟩

/-- What was read of a line is what is kept of it, and the line passes. -/
theorem read_line {offset : Nat} {key value keyRead valueRead : Bytes}
    (keyStart : s.keyStart = toInt offset) (keyEnd : s.keyEnd = toInt (offset + key.length : Nat))
    (ordered : s.keyStart < s.keyEnd)
    (valueStart : s.valueStart = toInt (offset + key.length + 2 : Nat))
    (checked : ∀ n < value.length, 0 < n →
      sub64 (offset + key.length + 2 + n) (toSize s.valueStart) ≤ 255)
    (valueEnd : s.valueEnd = toInt (offset + key.length + 2 + value.length : Nat))
    (valueOrdered : s.valueStart < s.valueEnd)
    (readKey : between str s.keyStart s.keyEnd = .ok keyRead)
    (readValue : between str s.valueStart s.valueEnd = .ok valueRead) :
    Passes offset (key, value) ∧ (keyRead, valueRead) = kept str offset (key, value) := by
  obtain ⟨fromKey, keyIs⟩ := between_ok readKey
  obtain ⟨fromValue, valueIs⟩ := between_ok readValue
  rw [keyStart] at fromKey
  rw [valueStart] at fromValue checked
  rw [keyStart, keyEnd] at ordered keyIs
  rw [valueStart, valueEnd] at valueOrdered valueIs
  refine ⟨⟨fromKey, ordered, fromValue, valueOrdered, checked⟩, ?_⟩
  rw [kept, keyIs, valueIs]

section Line

variable {key value : Bytes} (go : s.notFinish = true) (begun : KeyBegun es key)
  (keyStart : s.keyStart = toInt (breaks.length + (rawLines es).length : Nat))

include go

/-- A turn in front of the first line. -/
theorem Stands.turnStart (stands : Stands str init front [] front s) (state : s.hState = .start)
    (turn : scanChar str front.length c s = .ok (true, s')) :
    ∃ breaks' es', Stands str init breaks' es' (front ++ [c]) s' := by
  simp only [scanChar, state] at turn
  split at turn
  · rename_i isBreak
    obtain ⟨-, rfl⟩ := Prod.mk.inj (Except.ok.inj turn)
    refine ⟨front ++ [c], [], .start state go rfl, ⟨?_, by simp, by simp, trivial⟩, stands.stored⟩
    rw [List.forall_mem_append]
    exact ⟨stands.layout.blank, by simpa using isBreak⟩
  · rename_i notBreak
    obtain ⟨notLF, notCR⟩ := not_or.mp notBreak
    obtain ⟨-, rfl⟩ := Prod.mk.inj (Except.ok.inj turn)
    have begun : KeyBegun [] [c] :=
      ⟨⟨c, [], rfl, notCR, by simp [RawTail]⟩, fun _ => by simpa using notLF⟩
    have position : At front [] front.length (front ++ rawLines [] ++ [c]) { s with
        hState := .key, keyStart := toInt front.length,
        nowReadLineBegin := toInt front.length } :=
      .key rfl go begun rfl
    rw [rawLines_nil, List.append_nil] at position
    exact ⟨front, [], stands.moved position rfl⟩

include begun keyStart

/-- A turn in a key. -/
theorem Stands.turnKey (stands : Stands str init breaks es (breaks ++ rawLines es ++ key) s)
    (state : s.hState = .key)
    (turn : scanChar str (breaks ++ rawLines es ++ key).length c s = .ok (true, s')) :
    Stands str init breaks es (breaks ++ rawLines es ++ key ++ [c]) s' := by
  simp only [scanChar, state] at turn
  split at turn
  · rename_i isColon
    split at turn
    · cases turn
    · rename_i ordered
      obtain ⟨-, rfl⟩ := Prod.mk.inj (Except.ok.inj turn)
      subst isColon
      refine stands.moved (.colon rfl go begun keyStart ?_ ?_) rfl
      · simp only [List.length_append]
      · simp only at ordered ⊢
        omega
  · rename_i notColon
    split at turn
    · cases turn
    · rename_i notBreak
      obtain ⟨notLF, notCR⟩ := not_or.mp notBreak
      obtain ⟨-, rfl⟩ := Prod.mk.inj (Except.ok.inj turn)
      have position : At breaks es (breaks.length + (rawLines es).length)
          (breaks ++ rawLines es ++ (key ++ [c])) s :=
        .key state go (begun.more ⟨notColon, notLF, notCR⟩) keyStart
      rw [← List.append_assoc] at position
      exact stands.moved position rfl

variable (keyEnd : s.keyEnd = toInt (breaks.length + (rawLines es).length + key.length : Nat))
  (ordered : s.keyStart < s.keyEnd) (raw : RawValue value)
  (valueStart :
    s.valueStart = toInt (breaks.length + (rawLines es).length + key.length + 2 : Nat))
  (checked : ∀ n < value.length, 0 < n →
    sub64 (breaks.length + (rawLines es).length + key.length + 2 + n) (toSize s.valueStart) ≤ 255)

include keyEnd ordered raw valueStart checked

/-- A turn in a value. -/
theorem Stands.turnValue
    (stands : Stands str init breaks es (breaks ++ rawLines es ++ key ++ [58, 32] ++ value) s)
    (state : s.hState = .value)
    (turn : scanChar str (breaks ++ rawLines es ++ key ++ [58, 32] ++ value).length c s =
      .ok (true, s')) :
    Stands str init breaks es (breaks ++ rawLines es ++ key ++ [58, 32] ++ value ++ [c]) s' := by
  simp only [scanChar, state] at turn
  have length : (breaks ++ rawLines es ++ key ++ [58, 32] ++ value).length =
      breaks.length + (rawLines es).length + key.length + 2 + value.length := by
    simp only [List.length_append, List.length_cons, List.length_nil]
  rw [length] at turn
  split at turn
  · rename_i isCR
    split at turn
    · cases turn
    · rename_i valueOrdered
      obtain ⟨-, rfl⟩ := Prod.mk.inj (Except.ok.inj turn)
      subst isCR
      refine stands.moved (.cr rfl go begun keyStart keyEnd ordered raw valueStart checked rfl ?_)
        rfl
      simp only at valueOrdered ⊢
      omega
  · rename_i notCR
    split at turn
    · cases turn
    · rename_i check
      obtain ⟨-, rfl⟩ := Prod.mk.inj (Except.ok.inj turn)
      have position : At breaks es (breaks.length + (rawLines es).length)
          (breaks ++ rawLines es ++ key ++ [58, 32] ++ (value ++ [c])) s := by
        refine .value state go begun keyStart keyEnd ordered (raw.more notCR) valueStart ?_
        intro n below positive
        simp only [List.length_append, List.length_cons, List.length_nil] at below
        rcases Nat.lt_or_eq_of_le (Nat.le_of_lt_succ below) with inside | rfl
        · exact checked n inside positive
        · exact Nat.not_lt.mp check
      rw [← List.append_assoc] at position
      exact stands.moved position rfl

/-- The turn that ends a line and stores it. -/
theorem Stands.turnCR
    (valueEnd : s.valueEnd =
      toInt (breaks.length + (rawLines es).length + key.length + 2 + value.length : Nat))
    (valueOrdered : s.valueStart < s.valueEnd)
    (stands : Stands str init breaks es
      (breaks ++ rawLines es ++ key ++ [58, 32] ++ value ++ [13]) s)
    (state : s.hState = .cr)
    (turn : scanChar str (breaks ++ rawLines es ++ key ++ [58, 32] ++ value ++ [13]).length c s =
      .ok (true, s')) :
    Stands str init breaks (es ++ [(key, value)])
      (breaks ++ rawLines es ++ key ++ [58, 32] ++ value ++ [13] ++ [c]) s' := by
  simp only [scanChar, state] at turn
  split at turn
  · rename_i isLF
    subst isLF
    obtain ⟨keyRead, readKey, turn⟩ := bind_ok.mp turn
    obtain ⟨valueRead, readValue, turn⟩ := bind_ok.mp turn
    obtain ⟨-, rfl⟩ := Prod.mk.inj (Except.ok.inj turn)
    obtain ⟨passes, same⟩ := read_line keyStart keyEnd ordered valueStart checked valueEnd
      valueOrdered readKey readValue
    have line : breaks ++ rawLines es ++ key ++ [58, 32] ++ value ++ [13] ++ [10] =
        breaks ++ rawLines (es ++ [(key, value)]) := by
      simp [rawLines_concat, rawLine]
    rw [line]
    refine stands.store ⟨begun.raw, raw⟩ begun passes (.lf rfl go (by simp)) ?_
    rw [← same]
  · cases turn

end Line

/-- One turn of the loop. -/
theorem Stands.turn (stands : Stands str init breaks es front s)
    (go : s.notFinish = true) (turn : scanChar str front.length c s = .ok (true, s')) :
    ∃ breaks' es', Stands str init breaks' es' (front ++ [c]) s' := by
  cases stands.position with
  | start state _ none_ =>
      subst none_
      exact stands.turnStart go state turn
  | key state _ begun keyStart => exact ⟨breaks, es, stands.turnKey go begun keyStart state turn⟩
  | @colon _ key state _ begun keyStart keyEnd ordered =>
      simp only [scanChar, state] at turn
      split at turn
      · rename_i isSpace
        obtain ⟨-, rfl⟩ := Prod.mk.inj (Except.ok.inj turn)
        subst isSpace
        have position : At breaks es (breaks.length + (rawLines es).length)
            (breaks ++ rawLines es ++ key ++ [58, 32]) { s with hState := .spacesAfterColon } :=
          .spaces rfl go begun keyStart keyEnd ordered
        rw [show ([58, 32] : Bytes) = [58] ++ [32] from rfl, ← List.append_assoc] at position
        exact ⟨breaks, es, stands.moved position rfl⟩
      · cases turn
  | @spaces _ key state _ begun keyStart keyEnd ordered =>
      simp only [scanChar, state] at turn
      obtain ⟨-, rfl⟩ := Prod.mk.inj (Except.ok.inj turn)
      refine ⟨breaks, es, stands.moved (.value rfl go begun keyStart keyEnd ordered
        ⟨c, [], rfl, by simp⟩ ?_ ?_) rfl⟩
      · simp only [List.length_append, List.length_cons, List.length_nil]
      · intro n below positive
        simp only [List.length_cons, List.length_nil] at below
        omega
  | value state _ begun keyStart keyEnd ordered raw valueStart checked =>
      exact ⟨breaks, es,
        stands.turnValue go begun keyStart keyEnd ordered raw valueStart checked state turn⟩
  | cr state _ begun keyStart keyEnd ordered raw valueStart checked valueEnd valueOrdered =>
      exact ⟨breaks, _, stands.turnCR go begun keyStart keyEnd ordered raw valueStart checked
        valueEnd valueOrdered state turn⟩
  | lf state _ some_ =>
      simp only [scanChar, state] at turn
      split at turn
      · rename_i isCR
        obtain ⟨-, rfl⟩ := Prod.mk.inj (Except.ok.inj turn)
        subst isCR
        exact ⟨breaks, es, stands.moved (.endCR rfl go some_) rfl⟩
      · rename_i notCR
        obtain ⟨-, rfl⟩ := Prod.mk.inj (Except.ok.inj turn)
        have begun : KeyBegun es [c] :=
          ⟨⟨c, [], rfl, notCR, by simp [RawTail]⟩, fun none_ => absurd none_ some_⟩
        refine ⟨breaks, es, stands.moved (.key rfl go begun ?_) rfl⟩
        simp only [List.length_append]
  | endCR state _ some_ =>
      simp only [scanChar, state] at turn
      split at turn
      · rename_i isLF
        obtain ⟨-, rfl⟩ := Prod.mk.inj (Except.ok.inj turn)
        subst isLF
        have position : At breaks es (breaks.length + (rawLines es).length)
            (breaks ++ rawLines es ++ [13, 10]) { s with hState := .endLF } := .endLF rfl go some_
        rw [show ([13, 10] : Bytes) = [13] ++ [10] from rfl, ← List.append_assoc] at position
        exact ⟨breaks, es, stands.moved position rfl⟩
      · cases turn
  | endLF state _ some_ =>
      simp only [scanChar, state] at turn
      obtain ⟨-, rfl⟩ := Prod.mk.inj (Except.ok.inj turn)
      exact ⟨breaks, es, stands.moved (.past rfl rfl some_) rfl⟩
  | past state done some_ => exact absurd (go.symm.trans done) (by decide)

/-- The whole loop. It ends with the text, or with the character behind the blank line. -/
theorem Stands.scan {rest : Bytes} {j : Nat} {last : Scan}
    (stands : Stands str init breaks es front s)
    (scanned : scan str front.length rest s = .ok (true, j, last)) :
    ∃ front' breaks' es', Stands str init breaks' es' front' last ∧ j = front'.length ∧
      front' <+: front ++ rest ∧ (front' = front ++ rest ∨ last.notFinish = false) := by
  induction rest generalizing front breaks es s with
  | nil =>
      obtain ⟨-, rfl, rfl⟩ := Prod.mk.inj (Except.ok.inj scanned)
      rw [List.append_nil]
      exact ⟨front, breaks, es, stands, rfl, List.prefix_rfl, .inl rfl⟩
  | cons c rest ih =>
      cases go : s.notFinish with
      | false =>
          rw [Epoll.scan, if_neg (by simp [go])] at scanned
          obtain ⟨-, rfl, rfl⟩ := Prod.mk.inj (Except.ok.inj scanned)
          exact ⟨front, breaks, es, stands, rfl, List.prefix_append _ _, .inr go⟩
      | true =>
          obtain ⟨s', turned, later⟩ := scan_cons_inv scanned go
          have split_ : front ++ c :: rest = front ++ [c] ++ rest := by simp
          rw [split_]
          obtain ⟨breaks', es', next⟩ := stands.turn go turned
          exact ih next (by rwa [List.length_append])

end Turn

/-- Before the first character. -/
theorem stands_begin (str : Bytes) (headers : Dict Bytes Bytes) :
    Stands str headers [] [] [] { hState := .start, headers := headers } where
  position := .start rfl rfl rfl
  layout := ⟨by simp, by simp, by simp, trivial⟩
  stored := fun _ _ found => .inr found

section Consumed

/-- What follows the first blank line. -/
def afterBlock (s : Bytes) : Option Bytes :=
  (find? [13, 10, 13, 10] s).map fun p => s.drop (p + 4)

/-- A blank line behind lines. -/
theorem blankLine_behind (breaks : Bytes) {es : List Entry} (some_ : es ≠ []) :
    ∃ before, breaks ++ rawLines es ++ [13, 10] = before ++ [13, 10, 13, 10] := by
  obtain ⟨others, e, rfl⟩ := List.eq_nil_or_concat es |>.resolve_left some_
  refine ⟨breaks ++ rawLines others ++ (e.1 ++ [58, 32] ++ e.2), ?_⟩
  rw [List.concat_eq_append, rawLines_concat]
  simp [rawLine]

/-- The first blank line comes no later than any other. -/
theorem afterBlock_some (before after : Bytes) :
    ∃ p ≤ before.length, find? [13, 10, 13, 10] (before ++ [13, 10, 13, 10] ++ after) = some p := by
  cases found : find? [13, 10, 13, 10] (before ++ [13, 10, 13, 10] ++ after) with
  | none =>
      rw [find?_none_iff] at found
      exact absurd ⟨before, after, rfl⟩ found
  | some p =>
      refine ⟨p, ?_, rfl⟩
      by_contra later
      refine find?_first found (Nat.not_le.mp later) ?_
      rw [List.append_assoc, List.drop_left]
      exact List.prefix_append _ _

theorem parseHeaders_success {d d' : HttpData} (parsed : parseHeaders d = .ok (.success, d')) :
    ∃ j last, scan d.inBuffer 0 d.inBuffer { hState := d.hState, headers := d.headers }
        = .ok (true, j, last) ∧ last.hState = .endLF ∧
      d' = { d with hState := last.hState, headers := last.headers,
                    inBuffer := d.inBuffer.drop j } := by
  simp only [parseHeaders] at parsed
  obtain ⟨⟨finished, j, last⟩, scanned, parsed⟩ := bind_ok.mp parsed
  cases finished with
  | false => cases parsed
  | true =>
      simp only [not_true_eq_false, if_false] at parsed
      split at parsed
      · rename_i ended
        obtain ⟨-, rfl⟩ := Prod.mk.inj (Except.ok.inj parsed)
        exact ⟨j, last, scanned, ended, rfl⟩
      · split at parsed <;> cases parsed

/-- The rest is what follows the block exactly if nothing does: the turn that ends the loop
    takes one character more. -/
theorem consumes_block_iff {d d' : HttpData} (start : d.hState = .start)
    (parsed : parseHeaders d = .ok (.success, d')) :
    afterBlock d.inBuffer = some d'.inBuffer ↔ afterBlock d.inBuffer = some [] := by
  obtain ⟨j, last, scanned, ended, rfl⟩ := parseHeaders_success parsed
  rw [start] at scanned
  obtain ⟨front, breaks, es, stands, rfl, inside, stop⟩ :=
    (stands_begin d.inBuffer d.headers).scan scanned
  change _ = some (d.inBuffer.drop front.length) ↔ _
  cases stands.position with
  | start state | key state | colon state | spaces state | value state | cr state | lf state
  | endCR state =>
      rw [state] at ended
      cases ended
  | endLF _ go some_ =>
      -- The loop ended with the text.
      have whole := stop.resolve_right (by simp [go])
      rw [List.nil_append] at whole
      rw [whole, List.drop_length]
  | past _ _ some_ =>
      obtain ⟨before, blank⟩ := blankLine_behind breaks some_
      obtain ⟨rest, whole⟩ := inside
      rw [List.nil_append, blank] at whole
      obtain ⟨p, le, found⟩ := afterBlock_some before ([_] ++ rest)
      rw [← List.append_assoc, whole] at found
      have size : _ = d.inBuffer.length := congrArg List.length whole
      rw [blank]
      simp only [afterBlock, found, Option.map_some, Option.some.injEq]
      simp only [List.length_append, List.length_cons, List.length_nil] at size ⊢
      constructor
      · intro same
        have same := congrArg List.length same
        simp only [List.length_drop] at same
        omega
      · intro nothing
        have nothing := List.drop_eq_nil_iff.mp nothing
        omega

/-- One header with something behind the block, before and after it was parsed. -/
def unparsed (body : Bytes) : HttpData := { inBuffer := bytes "\nHost: a\r\n\r\n" ++ body }

def parsedTo (rest : Bytes) : HttpData :=
  { inBuffer := rest, hState := .endLF, headers := Dict.empty.assign (bytes "Host") (bytes "a") }

theorem consumes_block_alone :
    parseHeaders (unparsed []) = .ok (.success, parsedTo []) ∧
      afterBlock (unparsed []).inBuffer = some (parsedTo []).inBuffer := by
  have parsed : parseHeaders (unparsed []) = .ok (.success, parsedTo []) := by decide +kernel
  exact ⟨parsed, (consumes_block_iff rfl parsed).mpr (by decide)⟩

/-- Of the body `ab` the first byte is gone. -/
theorem body_bitten :
    parseHeaders (unparsed (bytes "ab")) = .ok (.success, parsedTo (bytes "b")) ∧
      afterBlock (unparsed (bytes "ab")).inBuffer ≠ some (parsedTo (bytes "b")).inBuffer := by
  decide +kernel

end Consumed

section Smuggling

def OneLine (s : Bytes) : Prop := (13 : UInt8) ∉ s ∧ (10 : UInt8) ∉ s

/-- Whatever came into `headers_` in any number of turns over this buffer has no line break
    in it. -/
def NeverSmuggles (str : Bytes) : Prop :=
  ∀ headers front j s, front <+: str →
    scan str 0 front { hState := .start, headers := headers } = .ok (true, j, s) →
      ∀ key value, s.headers.find? key = some value →
        headers.find? key = some value ∨ OneLine key ∧ OneLine value

/-- The buffer begins with lines that pass, and of the last one a line break is stored. -/
def SmugglesLine (str : Bytes) : Prop :=
  ∃ breaks es e rest, str = breaks ++ rawLines (es ++ [e]) ++ rest ∧ Layout breaks (es ++ [e]) ∧
    ¬ (OneLine (kept str (breaks.length + (rawLines es).length) e).1 ∧
      OneLine (kept str (breaks.length + (rawLines es).length) e).2)

variable {str breaks : Bytes} {es : List Entry}

theorem mem_keptAll {offset : Nat} {x : Entry} (member : x ∈ keptAll str offset es) :
    ∃ before e after, es = before ++ [e] ++ after ∧
      x = kept str (offset + (rawLines before).length) e := by
  induction es generalizing offset with
  | nil => cases member
  | cons e es ih =>
      rcases List.mem_cons.mp member with rfl | later
      · exact ⟨[], e, es, rfl, rfl⟩
      · obtain ⟨before, e', after, rfl, same⟩ := ih later
        refine ⟨e :: before, e', after, rfl, ?_⟩
        rw [same, rawLines_cons, List.length_append, Nat.add_assoc]

theorem Layout.front {after : List Entry} (layout : Layout breaks (es ++ after)) :
    Layout breaks es := by
  induction after using List.reverseRecOn with
  | nil => rwa [List.append_nil] at layout
  | append_singleton after e ih =>
      refine ih ?_
      rw [← List.append_assoc] at layout
      refine ⟨layout.blank, (List.forall_mem_append.mp layout.raw).1, ?_,
        (passAll_concat.mp layout.passes).1⟩
      intro first member
      refine layout.first first ?_
      rw [List.head?_append, Option.mem_def.mp member]
      rfl

/-- Whole lines come first in the text. -/
theorem At.lines {offset : Nat} {front : Bytes} {s : Scan}
    (position : At breaks es offset front s) :
    breaks ++ rawLines es <+: front := by
  cases position with
  | start _ _ none_ =>
      rw [none_, rawLines_nil, List.append_nil]
  | lf => exact List.prefix_rfl
  | key | endCR | endLF => exact List.prefix_append _ _
  | colon | spaces | past =>
      simp only [List.append_assoc]
      rw [← List.append_assoc]
      exact List.prefix_append _ _
  | value | cr =>
      simp only [List.append_assoc]
      rw [← List.append_assoc]
      exact List.prefix_append _ _

/-- Line breaks before the first line. -/
theorem scan_breaks {rest : Bytes} {s : Scan} (blank : ∀ c ∈ breaks, c = 10 ∨ c = 13)
    (state : s.hState = .start) (go : s.notFinish = true) (i : Nat) :
    scan str i (breaks ++ rest) s = scan str (i + breaks.length) rest s := by
  refine scan_over go fun n c here => ?_
  simp only [scanChar, state, blank c (List.mem_of_getElem? here), if_true]

/-- Lines that pass are all stored. -/
theorem scan_layout {rest : Bytes} (layout : Layout breaks es)
    (whole : str = breaks ++ rawLines es ++ rest) (headers : Dict Bytes Bytes) (later : Bytes) :
    ∃ s, scan str 0 (breaks ++ rawLines es ++ later) { hState := .start, headers := headers } =
        scan str (breaks ++ rawLines es).length later s ∧
      s.hState = (if es = [] then .start else .lf) ∧ s.notFinish = true ∧
      s.headers = (keptAll str breaks.length es).foldl (fun headers e => headers.assign e.1 e.2)
        headers := by
  have inside : breaks.length + (rawLines es).length ≤ str.length := by
    rw [whole, List.length_append, List.length_append]
    omega
  let begin_ : Scan := { hState := .start, headers := headers }
  obtain ⟨s, scanned, state, go, stored⟩ : ∃ s,
      scan str breaks.length (rawLines es ++ later) begin_ =
        scan str (breaks.length + (rawLines es).length) later s ∧
      s.hState = (if es = [] then begin_.hState else .lf) ∧ s.notFinish = true ∧
      s.headers = (keptAll str breaks.length es).foldl (fun headers e => headers.assign e.1 e.2)
        begin_.headers :=
    scan_rawLines later layout.raw layout.passes
      (fun e member => .inr ⟨rfl, layout.first e member⟩) rfl inside
  refine ⟨s, ?_, state, go, stored⟩
  rw [List.append_assoc, scan_breaks layout.blank rfl rfl, Nat.zero_add, scanned,
    List.length_append]

theorem neverSmuggles_iff_smugglesLine (str : Bytes) :
    NeverSmuggles str ↔ ¬ SmugglesLine str := by
  constructor
  · rintro never ⟨breaks, es, e, rest, whole, layout, dirty⟩
    obtain ⟨s, scanned, -, -, stored⟩ := scan_layout layout whole Dict.empty []
    rw [List.append_nil] at scanned
    have found : s.headers.find? (kept str (breaks.length + (rawLines es).length) e).1 =
        some (kept str (breaks.length + (rawLines es).length) e).2 := by
      rw [stored, keptAll_concat, List.foldl_append, List.foldl_cons, List.foldl_nil,
        Dict.find?_assign, if_pos rfl]
    rcases never Dict.empty _ _ s ⟨rest, whole.symm⟩ scanned _ _ found with before | clean
    · cases before
    · exact dirty clean
  · intro clean headers front j s inside scanned key value found
    obtain ⟨front', breaks, es, stands, -, within, -⟩ := (stands_begin str headers).scan scanned
    rcases stands.stored key value found with kept_ | before
    · by_contra dirty
      obtain ⟨lines, e, after, rfl, same⟩ := mem_keptAll kept_
      obtain ⟨rest, whole⟩ := (stands.position.lines.trans within).trans inside
      refine clean ⟨breaks, lines, e, rawLines after ++ rest, ?_, stands.layout.front, ?_⟩
      · rw [← whole]
        simp [rawLines]
      · rw [← same]
        exact fun stored => dirty (.inr stored)
    · exact .inl before

/-- The buffer begins with lines the loop accepts. The key of the last one begins with a line
    feed, or its value begins with a line break or has a line feed further on. -/
def HidesBreak (str : Bytes) : Prop :=
  ∃ breaks es e rest, str = breaks ++ rawLines (es ++ [e]) ++ rest ∧
    (∀ c ∈ breaks, c = 10 ∨ c = 13) ∧
    (∀ e' ∈ es ++ [e], RawEntry e' ∧ e'.2.length ≤ 256) ∧
    (∀ e' ∈ (es ++ [e]).head?, e'.1.head? ≠ some 10) ∧
    (e.1.head? = some 10 ∨ e.2.head? = some 13 ∨ 10 ∈ e.2)

/-- Where a line the loop accepts can have a line break. -/
theorem RawEntry.break_iff {e : Entry} (raw : RawEntry e) :
    ¬ (OneLine e.1 ∧ OneLine e.2) ↔ e.1.head? = some 10 ∨ e.2.head? = some 13 ∨ 10 ∈ e.2 := by
  obtain ⟨key, value⟩ := e
  obtain ⟨⟨k, ks, rfl, notCR, tail⟩, ⟨v, vs, rfl, noCR⟩⟩ := raw
  have keyLF : (10 : UInt8) ∉ ks := fun member => (tail 10 member).2.1 rfl
  have keyCR : (13 : UInt8) ∉ ks := fun member => (tail 13 member).2.2 rfl
  simp only [OneLine, List.mem_cons, List.head?_cons, Option.some.injEq, not_and_or, not_not,
    noCR, keyLF, keyCR, or_false, Ne.symm notCR, false_or, eq_comm]

/-- In a buffer of this size the text between the offsets is the key and the value. -/
theorem smugglesLine_iff_hidesBreak {str : Bytes} (small : str.length < 2 ^ 31) :
    SmugglesLine str ↔ HidesBreak str := by
  refine exists_congr fun breaks => exists_congr fun es => exists_congr fun e =>
    exists_congr fun rest => and_congr_right fun whole => ?_
  have size : str.length =
      breaks.length + ((rawLines es).length + (rawLine e).length) + rest.length := by
    rw [whole, List.length_append, List.length_append, length_rawLines_concat]
  have behind : (breaks ++ rawLines es).length = breaks.length + (rawLines es).length :=
    List.length_append
  have read : kept str (breaks.length + (rawLines es).length) e = e := by
    have text : str = breaks ++ rawLines es ++ rawLine e ++ rest := by
      simp only [whole, rawLines_concat, List.append_assoc]
    rw [text, ← behind]
    exact kept_small (by omega)
  have fits : breaks.length + (rawLines (es ++ [e])).length < 2 ^ 31 := by
    rw [length_rawLines_concat]
    omega
  rw [read]
  constructor
  · rintro ⟨layout, dirty⟩
    have short := (passAll_small_iff layout.raw fits).mp layout.passes
    exact ⟨layout.blank, fun e' member => ⟨layout.raw e' member, short e' member⟩, layout.first,
      (layout.raw e (by simp)).break_iff.mp dirty⟩
  · rintro ⟨blank, lines, first, dirty⟩
    have raw : ∀ e' ∈ es ++ [e], RawEntry e' := fun e' member => (lines e' member).1
    have passes := (passAll_small_iff raw fits).mpr fun e' member => (lines e' member).2
    exact ⟨⟨blank, raw, first, passes⟩, (raw e (by simp)).break_iff.mpr dirty⟩

/-- No line break gets into `headers_` exactly if the buffer does not begin with lines of
    which one hides it. -/
theorem neverSmuggles_iff (str : Bytes) :
    (NeverSmuggles str ↔ ¬ SmugglesLine str) ∧
      (str.length < 2 ^ 31 → (NeverSmuggles str ↔ ¬ HidesBreak str)) := by
  refine ⟨neverSmuggles_iff_smugglesLine str, fun small => ?_⟩
  rw [neverSmuggles_iff_smugglesLine, smugglesLine_iff_hidesBreak small]

/-- A value that is a line feed and the next line. -/
def twoLines : HttpData := { inBuffer := bytes "A: \nX: b\r\n\r\n" }

theorem twoLines_smuggled :
    parseHeaders twoLines = .ok (.success, { twoLines with
        inBuffer := [], hState := .endLF,
        headers := Dict.empty.assign (bytes "A") (bytes "\nX: b") }) ∧
      ¬ NeverSmuggles twoLines.inBuffer := by
  have front : bytes "A: \nX: b\r\n" <+: twoLines.inBuffer := by decide +kernel
  have scanned : scan twoLines.inBuffer 0 (bytes "A: \nX: b\r\n")
      { hState := .start, headers := Dict.empty } =
        .ok (true, 10, {
          hState := .lf, headers := Dict.empty.assign (bytes "A") (bytes "\nX: b"),
          keyStart := 0, keyEnd := 1, valueStart := 3, valueEnd := 8, nowReadLineBegin := 9 }) := by
    decide +kernel
  refine ⟨by decide +kernel, fun never => ?_⟩
  rcases never Dict.empty _ _ _ front scanned (bytes "A") (bytes "\nX: b") (by decide +kernel)
    with before | clean
  · cases before
  · exact clean.2.2 (by decide)

end Smuggling

end Corio.Epoll
