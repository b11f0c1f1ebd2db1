import Corio.Epoll.Replies

/-! # Lines of a header block

What the header loop takes for a line: the first character of a key and of a value is not
looked at. Offsets are stored in `int`s, so a line is read as it stands there only as long
as it ends below 2^31.
-/

namespace Corio.Epoll

/-- Key and value of a header line. -/
abbrev Entry := Bytes × Bytes

def rawLine (e : Entry) : Bytes := e.1 ++ [58, 32] ++ e.2 ++ [13, 10]

def rawLines (es : List Entry) : Bytes := es.flatMap rawLine

/-- Text that the loop passes over in `H_KEY`. -/
def RawTail (cs : Bytes) : Prop := ∀ c ∈ cs, c ≠ 58 ∧ c ≠ 10 ∧ c ≠ 13

/-- What is taken for a key. -/
def RawKey (key : Bytes) : Prop := ∃ c cs, key = c :: cs ∧ c ≠ 13 ∧ RawTail cs

/-- What is taken for a value, apart from its length. -/
def RawValue (value : Bytes) : Prop := ∃ c cs, value = c :: cs ∧ (13 : UInt8) ∉ cs

/-- A line, for the loop. -/
structure RawEntry (e : Entry) : Prop where
  key : RawKey e.1
  value : RawValue e.2

/-- The loop gets behind a line at this offset: the offsets are in order as `int`s, and the
    value is not too long. -/
structure Passes (offset : Nat) (e : Entry) : Prop where
  keyStart : 0 ≤ toInt offset
  keyEnd : toInt offset < toInt (offset + e.1.length : Nat)
  valueStart : 0 ≤ toInt (offset + e.1.length + 2 : Nat)
  valueEnd : toInt (offset + e.1.length + 2 : Nat) <
    toInt (offset + e.1.length + 2 + e.2.length : Nat)
  length : ∀ n < e.2.length, 0 < n →
    sub64 (offset + e.1.length + 2 + n) (toSize (toInt (offset + e.1.length + 2 : Nat))) ≤ 255

/-- What is stored of a line at this offset: the text between its offsets, as `int`s. -/
def kept (str : Bytes) (offset : Nat) (e : Entry) : Entry :=
  let between (first last : Int) := substr str first.toNat (last - first).toNat
  (between (toInt offset) (toInt (offset + e.1.length : Nat)),
    between (toInt (offset + e.1.length + 2 : Nat))
      (toInt (offset + e.1.length + 2 + e.2.length : Nat)))

/-- The loop gets behind lines that begin at this offset. -/
def PassAll : Nat → List Entry → Prop
  | _, [] => True
  | offset, e :: es => Passes offset e ∧ PassAll (offset + (rawLine e).length) es

/-- What is stored of lines that begin at this offset. -/
def keptAll (str : Bytes) : Nat → List Entry → List Entry
  | _, [] => []
  | offset, e :: es => kept str offset e :: keptAll str (offset + (rawLine e).length) es

/-- Where the loop can begin with a line: anywhere behind a line, and at the very start
    unless the line begins with a line feed. -/
def BeginsLine (s : Scan) (e : Entry) : Prop :=
  s.hState = .lf ∨ s.hState = .start ∧ e.1.head? ≠ some 10

@[simp]
theorem rawLines_nil : rawLines [] = [] := rfl

theorem rawLines_cons (e : Entry) (es : List Entry) :
    rawLines (e :: es) = rawLine e ++ rawLines es := by
  simp only [rawLines, List.flatMap_cons]

theorem rawLines_concat (es : List Entry) (e : Entry) :
    rawLines (es ++ [e]) = rawLines es ++ rawLine e := by
  simp only [rawLines, List.flatMap_append, List.flatMap_cons, List.flatMap_nil, List.append_nil]

theorem length_rawLine (e : Entry) : (rawLine e).length = e.1.length + e.2.length + 4 := by
  simp only [rawLine, List.length_append, List.length_cons, List.length_nil]
  omega

theorem length_rawLines_concat (es : List Entry) (e : Entry) :
    (rawLines (es ++ [e])).length = (rawLines es).length + (rawLine e).length := by
  rw [rawLines_concat, List.length_append]

theorem passAll_concat {offset : Nat} {es : List Entry} {e : Entry} :
    PassAll offset (es ++ [e]) ↔
      PassAll offset es ∧ Passes (offset + (rawLines es).length) e := by
  induction es generalizing offset with
  | nil => simp [PassAll]
  | cons e' es ih =>
      simp only [List.cons_append, PassAll, ih, rawLines_cons, List.length_append, Nat.add_assoc,
        and_assoc]

theorem keptAll_concat (str : Bytes) (offset : Nat) (es : List Entry) (e : Entry) :
    keptAll str offset (es ++ [e]) =
      keptAll str offset es ++ [kept str (offset + (rawLines es).length) e] := by
  induction es generalizing offset with
  | nil => simp [keptAll]
  | cons e' es ih =>
      simp only [List.cons_append, keptAll, ih, rawLines_cons, List.length_append, Nat.add_assoc]

section Offsets

theorem between_eq {str : Bytes} {first last : Nat} (positive : 0 ≤ toInt first)
    (le : toInt first ≤ toInt last) (inside : last ≤ str.length) :
    between str (toInt first) (toInt last) =
      .ok (substr str (toInt first).toNat (toInt last - toInt first).toNat) := by
  have lastLe := toInt_le last
  rw [between, if_pos ⟨positive, le, by omega⟩]

theorem between_ok {str : Bytes} {first last : Int} {word : Bytes}
    (read : between str first last = .ok word) :
    0 ≤ first ∧ word = substr str first.toNat (last - first).toNat := by
  unfold between at read
  split at read
  · rename_i inside
    exact ⟨inside.1, (Except.ok.inj read).symm⟩
  · cases read

/-- The difference that is checked, while offsets are small. -/
theorem sub64_small {start n : Nat} (small : start + n < 2 ^ 31) :
    sub64 (start + n) (toSize (toInt start)) = n := by
  rw [toInt_small (by omega), toSize_nat (by omega), sub64, toSize, BitVec.toNat_ofInt]
  omega

/-- A line that ends at a small offset. -/
theorem passes_small {offset : Nat} {e : Entry} (raw : RawEntry e) (short : e.2.length ≤ 256)
    (small : offset + (rawLine e).length < 2 ^ 31 + 2) : Passes offset e := by
  obtain ⟨⟨k, ks, key, -, -⟩, ⟨v, vs, value, -⟩⟩ := raw
  have keyLength : 0 < e.1.length := by simp [key]
  have valueLength : 0 < e.2.length := by simp [value]
  rw [length_rawLine] at small
  have whole (n : Nat) (below : n < 2 ^ 31) : toInt n = n := toInt_small below
  refine ⟨?_, ?_, ?_, ?_, fun n inside positive => ?_⟩
  · rw [whole _ (by omega)]
    omega
  · rw [whole _ (by omega), whole _ (by omega)]
    omega
  · rw [whole _ (by omega)]
    omega
  · rw [whole _ (by omega), whole _ (by omega)]
    omega
  · rw [sub64_small (by omega)]
    omega

/-- Of a line that ends at a small offset the key and the value are stored. -/
theorem kept_small {front rest : Bytes} {e : Entry}
    (small : front.length + (rawLine e).length < 2 ^ 31 + 2) :
    kept (front ++ rawLine e ++ rest) front.length e = e := by
  obtain ⟨key, value⟩ := e
  simp only [length_rawLine] at small
  have whole (n : Nat) (below : n < 2 ^ 31) : toInt n = n := toInt_small below
  have keyText : front ++ rawLine (key, value) ++ rest =
      front ++ (key ++ ([58, 32] ++ value ++ [13, 10] ++ rest)) := by
    simp [rawLine]
  have valueText : front ++ rawLine (key, value) ++ rest =
      front ++ key ++ [58, 32] ++ (value ++ ([13, 10] ++ rest)) := by
    simp [rawLine]
  have valueBegin : front.length + key.length + 2 = (front ++ key ++ [58, 32]).length := by
    simp only [List.length_append, List.length_cons, List.length_nil]
  have slice (before word after : Bytes) :
      substr (before ++ (word ++ after)) (before.length : Int).toNat
        (((before.length + word.length : Nat) : Int) - before.length).toNat = word := by
    simp [substr]
  simp only [kept, Prod.mk.injEq]
  rw [whole _ (by omega), whole _ (by omega), whole _ (by omega), whole _ (by omega)]
  constructor
  · rw [keyText]
    exact slice front key _
  · rw [valueText, valueBegin]
    exact slice _ value _

theorem passAll_small {offset : Nat} {es : List Entry} (raw : ∀ e ∈ es, RawEntry e)
    (short : ∀ e ∈ es, e.2.length ≤ 256)
    (small : offset + (rawLines es).length < 2 ^ 31 + 2) : PassAll offset es := by
  induction es generalizing offset with
  | nil => trivial
  | cons e es ih =>
      obtain ⟨rawHere, rawLater⟩ := List.forall_mem_cons.mp raw
      obtain ⟨shortHere, shortLater⟩ := List.forall_mem_cons.mp short
      rw [rawLines_cons, List.length_append] at small
      exact ⟨passes_small rawHere shortHere (by omega), ih rawLater shortLater (by omega)⟩

/-- The value of a line at a small offset is not longer than the check allows. -/
theorem short_of_passes {offset : Nat} {e : Entry} (passes : Passes offset e)
    (small : offset + (rawLine e).length < 2 ^ 31) : e.2.length ≤ 256 := by
  rw [length_rawLine] at small
  by_contra long
  have check := passes.length 256 (by omega) (by omega)
  rw [sub64_small (by omega)] at check
  omega

theorem passAll_small_iff {offset : Nat} {es : List Entry} (raw : ∀ e ∈ es, RawEntry e)
    (small : offset + (rawLines es).length < 2 ^ 31) :
    PassAll offset es ↔ ∀ e ∈ es, e.2.length ≤ 256 := by
  constructor
  · intro passes
    induction es generalizing offset with
    | nil => simp
    | cons e es ih =>
        obtain ⟨-, rawLater⟩ := List.forall_mem_cons.mp raw
        obtain ⟨passesHere, passesLater⟩ := passes
        rw [rawLines_cons, List.length_append] at small
        rw [List.forall_mem_cons]
        exact ⟨short_of_passes passesHere (by omega), ih rawLater (by omega) passesLater⟩
  · intro short
    exact passAll_small raw short (by omega)

theorem keptAll_small {front rest : Bytes} {es : List Entry}
    (small : front.length + (rawLines es).length < 2 ^ 31 + 2) :
    keptAll (front ++ rawLines es ++ rest) front.length es = es := by
  induction es generalizing front with
  | nil => rfl
  | cons e es ih =>
      rw [rawLines_cons, List.length_append] at small
      have one : front ++ (rawLine e ++ rawLines es) ++ rest =
          front ++ rawLine e ++ (rawLines es ++ rest) := by
        simp only [List.append_assoc]
      have others : front ++ rawLine e ++ (rawLines es ++ rest) =
          (front ++ rawLine e) ++ rawLines es ++ rest := by
        simp only [List.append_assoc]
      have smallLater : (front ++ rawLine e).length + (rawLines es).length < 2 ^ 31 + 2 := by
        rw [List.length_append]
        omega
      have later := ih smallLater
      rw [List.length_append] at later
      rw [keptAll, rawLines_cons, one, kept_small (by omega), others, later]

end Offsets

section Turns

variable {str rest : Bytes} {i : Nat} {c : UInt8} {s s' : Scan}

/-- One turn of the loop. -/
theorem scan_turn (go : s.notFinish = true) (turn : scanChar str i c s = .ok (true, s')) :
    scan str i (c :: rest) s = scan str (i + 1) rest s' := by
  rw [scan, if_pos go, turn]
  rfl

/-- Characters that change nothing. -/
theorem scan_over {cs : Bytes} (go : s.notFinish = true)
    (same : ∀ n c, cs[n]? = some c → scanChar str (i + n) c s = .ok (true, s)) :
    scan str i (cs ++ rest) s = scan str (i + cs.length) rest s := by
  induction cs generalizing i with
  | nil => rfl
  | cons c cs ih =>
      have later (n : Nat) (c' : UInt8) (here : cs[n]? = some c') :
          scanChar str (i + 1 + n) c' s = .ok (true, s) := by
        rw [Nat.add_assoc, Nat.add_comm 1 n]
        exact same (n + 1) c' here
      have first : scanChar str i c s = .ok (true, s) := same 0 c rfl
      rw [List.cons_append, scan_turn go first, ih later, List.length_cons]
      congr 1
      omega

/-- The loop goes on behind a character, or fails. -/
theorem scan_cons_inv {j : Nat} {last : Scan}
    (scanned : scan str i (c :: rest) s = .ok (true, j, last)) (go : s.notFinish = true) :
    ∃ s', scanChar str i c s = .ok (true, s') ∧ scan str (i + 1) rest s' = .ok (true, j, last) := by
  rw [scan, if_pos go] at scanned
  obtain ⟨⟨goOn, s'⟩, turn, later⟩ := bind_ok.mp scanned
  cases goOn with
  | true => exact ⟨s', turn, later⟩
  | false => cases later

/-- The first character of a key. -/
theorem scanChar_begin (str : Bytes) (i : Nat) {e : Entry} (begins : BeginsLine s e)
    (first : e.1.head? = some c) (notCR : c ≠ 13) :
    ∃ s', scanChar str i c s = .ok (true, s') ∧ s'.hState = .key ∧ s'.keyStart = toInt i ∧
      s'.headers = s.headers ∧ s'.notFinish = s.notFinish := by
  rcases begins with lf | ⟨start, notLF⟩
  · refine ⟨{ s with keyStart := toInt i, hState := .key }, ?_, rfl, rfl, rfl, rfl⟩
    simp only [scanChar, lf, if_neg notCR]
  · have notBreak : ¬ (c = 10 ∨ c = 13) := by
      rintro (rfl | rfl)
      · exact notLF first
      · exact notCR rfl
    refine ⟨{ s with hState := .key, keyStart := toInt i, nowReadLineBegin := toInt i }, ?_,
      rfl, rfl, rfl, rfl⟩
    simp only [scanChar, start, if_neg notBreak]

/-- The rest of a key. -/
theorem scan_keyTail {cs : Bytes} (tail : RawTail cs) (state : s.hState = .key)
    (go : s.notFinish = true) :
    scan str i (cs ++ rest) s = scan str (i + cs.length) rest s := by
  refine scan_over go fun n c here => ?_
  obtain ⟨notColon, notLF, notCR⟩ := tail c (List.mem_of_getElem? here)
  simp only [scanChar, state, if_neg notColon, notLF, notCR, or_self, if_false]

/-- A key. -/
theorem scan_key {k : UInt8} {ks value : Bytes} (begins : BeginsLine s (k :: ks, value))
    (notCR : k ≠ 13) (tail : RawTail ks) (go : s.notFinish = true) :
    ∃ s', scan str i (k :: (ks ++ rest)) s = scan str (i + (k :: ks).length) rest s' ∧
      s'.hState = .key ∧ s'.keyStart = toInt i ∧ s'.headers = s.headers ∧
      s'.notFinish = true := by
  obtain ⟨s', first, state, keyStart, headers, notFinish⟩ := scanChar_begin str i begins rfl notCR
  have goOn : s'.notFinish = true := notFinish.trans go
  refine ⟨s', ?_, state, keyStart, headers, goOn⟩
  rw [scan_turn go first, scan_keyTail tail state goOn, List.length_cons]
  congr 1
  omega

/-- From the colon to the first character of the value. -/
theorem scan_colon (state : s.hState = .key) (go : s.notFinish = true)
    (nonempty : s.keyStart < toInt i) :
    scan str i (58 :: 32 :: c :: rest) s =
      scan str (i + 2 + 1) rest
        { s with hState := .value, keyEnd := toInt i, valueStart := toInt (i + 2 : Nat) } := by
  have colon : scanChar str i 58 s =
      .ok (true, { s with keyEnd := toInt i, hState := .colon }) := by
    simp only [scanChar, state, if_true]
    rw [if_neg (by omega)]
  have space : scanChar str (i + 1) 32 { s with keyEnd := toInt i, hState := .colon } =
      .ok (true, { s with keyEnd := toInt i, hState := .spacesAfterColon }) := rfl
  have first :
      scanChar str (i + 1 + 1) c { s with keyEnd := toInt i, hState := .spacesAfterColon } =
        .ok (true,
          { s with keyEnd := toInt i, hState := .value, valueStart := toInt (i + 2 : Nat) }) :=
    rfl
  rw [scan_turn go colon, scan_turn (by exact go) space, scan_turn (by exact go) first]

theorem colon_inv {j : Nat} {last : Scan}
    (scanned : scan str i (58 :: rest) s = .ok (true, j, last)) (state : s.hState = .key)
    (go : s.notFinish = true) : s.keyStart < toInt i := by
  obtain ⟨s', turn, -⟩ := scan_cons_inv scanned go
  simp only [scanChar, state, if_true] at turn
  split at turn
  · cases turn
  · omega

/-- The rest of a value that passes the check of its length. -/
theorem scan_valueTail {cs : Bytes} {start : Nat} (noCR : (13 : UInt8) ∉ cs)
    (state : s.hState = .value) (go : s.notFinish = true)
    (checks : ∀ n < cs.length, sub64 (start + (n + 1)) (toSize s.valueStart) ≤ 255) :
    scan str (start + 1) (cs ++ rest) s = scan str (start + (cs.length + 1)) rest s := by
  rw [Nat.add_comm cs.length, ← Nat.add_assoc]
  refine scan_over go fun n c here => ?_
  have inside : n < cs.length := (List.getElem?_eq_some_iff.mp here).1
  have notCR : c ≠ 13 := fun same => noCR (same ▸ List.mem_of_getElem? here)
  have check := checks n inside
  rw [Nat.add_comm n, ← Nat.add_assoc] at check
  simp only [scanChar, state, if_neg notCR]
  rw [if_neg (by omega)]

theorem scan_valueTail_inv {cs : Bytes} {start j : Nat} {last : Scan}
    (scanned : scan str (start + 1) (cs ++ rest) s = .ok (true, j, last))
    (noCR : (13 : UInt8) ∉ cs) (state : s.hState = .value) (go : s.notFinish = true) :
    ∀ n < cs.length, sub64 (start + (n + 1)) (toSize s.valueStart) ≤ 255 := by
  induction cs generalizing start with
  | nil => simp
  | cons c cs ih =>
      obtain ⟨notCR, others⟩ := not_or.mp (mt List.mem_cons.mpr noCR)
      obtain ⟨s', turn, later⟩ := scan_cons_inv scanned go
      simp only [scanChar, state, if_neg (Ne.symm notCR)] at turn
      split at turn
      · cases turn
      · rename_i check
        obtain ⟨-, rfl⟩ := Prod.mk.inj (Except.ok.inj turn)
        intro n inside
        cases n with
        | zero => exact Nat.not_lt.mp check
        | succ n =>
            have check := ih later others n (Nat.lt_of_succ_lt_succ inside)
            rwa [Nat.add_assoc, Nat.add_comm 1] at check

/-- The end of a line. -/
theorem scan_crlf {key value : Bytes} (state : s.hState = .value) (go : s.notFinish = true)
    (nonempty : s.valueStart < toInt i) (readKey : between str s.keyStart s.keyEnd = .ok key)
    (readValue : between str s.valueStart (toInt i) = .ok value) :
    scan str i (13 :: 10 :: rest) s =
      scan str (i + 2) rest
        { s with hState := .lf, valueEnd := toInt i, headers := s.headers.assign key value,
                 nowReadLineBegin := toInt (i + 1 : Nat) } := by
  have cr : scanChar str i 13 s = .ok (true, { s with hState := .cr, valueEnd := toInt i }) := by
    simp only [scanChar, state, if_true]
    rw [if_neg (by omega)]
  have lf : scanChar str (i + 1) 10 { s with hState := .cr, valueEnd := toInt i } =
      .ok (true, { s with hState := .lf, valueEnd := toInt i, headers := s.headers.assign key value,
                          nowReadLineBegin := toInt (i + 1 : Nat) }) := by
    simp only [scanChar, if_true, readKey, readValue]
    rfl
  rw [scan_turn go cr, scan_turn (by exact go) lf]

theorem crlf_inv {j : Nat} {last : Scan}
    (scanned : scan str i (13 :: 10 :: rest) s = .ok (true, j, last)) (state : s.hState = .value)
    (go : s.notFinish = true) :
    0 ≤ s.keyStart ∧ 0 ≤ s.valueStart ∧ s.valueStart < toInt i := by
  obtain ⟨s₁, cr, later⟩ := scan_cons_inv scanned go
  simp only [scanChar, state, if_true] at cr
  split at cr
  · cases cr
  rename_i notNegative
  obtain ⟨-, rfl⟩ := Prod.mk.inj (Except.ok.inj cr)
  obtain ⟨s₂, lf, -⟩ := scan_cons_inv later go
  simp only [scanChar, if_true] at lf
  obtain ⟨key, readKey, lf⟩ := bind_ok.mp lf
  obtain ⟨value, readValue, -⟩ := bind_ok.mp lf
  exact ⟨(between_ok readKey).1, (between_ok readValue).1, by omega⟩

/-- A line, character by character where it matters. -/
theorem rawLine_append (k v : UInt8) (ks vs rest : Bytes) :
    rawLine (k :: ks, v :: vs) ++ rest =
      k :: (ks ++ (58 :: 32 :: v :: (vs ++ (13 :: 10 :: rest)))) := by
  simp [rawLine]

/-- A line that passes is stored. -/
theorem scan_rawLine (rest : Bytes) {offset : Nat} {e : Entry} (raw : RawEntry e)
    (passes : Passes offset e) (begins : BeginsLine s e) (go : s.notFinish = true)
    (inside : offset + (rawLine e).length ≤ str.length) :
    ∃ s', scan str offset (rawLine e ++ rest) s =
        scan str (offset + (rawLine e).length) rest s' ∧
      s'.hState = .lf ∧ s'.notFinish = true ∧
      s'.headers = s.headers.assign (kept str offset e).1 (kept str offset e).2 := by
  obtain ⟨key, value⟩ := e
  obtain ⟨⟨k, ks, rfl, notCR, tail⟩, ⟨v, vs, rfl, noCR⟩⟩ := raw
  obtain ⟨fromKey, keyEnd, fromValue, valueEnd, checks⟩ := passes
  simp only [length_rawLine] at inside fromKey keyEnd fromValue valueEnd checks
  obtain ⟨s₁, readsKey, state, keyStart, headers, goOn⟩ := scan_key begins notCR tail go
  let s₂ : Scan := { s₁ with
    hState := .value, keyEnd := toInt (offset + (k :: ks).length : Nat),
    valueStart := toInt (offset + (k :: ks).length + 2 : Nat) }
  let s₃ : Scan := { s₂ with
    hState := .lf, valueEnd := toInt (offset + (k :: ks).length + 2 + (v :: vs).length : Nat),
    headers := s₂.headers.assign (kept str offset (k :: ks, v :: vs)).1
      (kept str offset (k :: ks, v :: vs)).2,
    nowReadLineBegin := toInt (offset + (k :: ks).length + 2 + (v :: vs).length + 1 : Nat) }
  have keyInside : offset + (k :: ks).length ≤ str.length := by omega
  have valueInside : offset + (k :: ks).length + 2 + (v :: vs).length ≤ str.length := by omega
  have readKey : between str s₂.keyStart s₂.keyEnd =
      .ok (kept str offset (k :: ks, v :: vs)).1 := by
    change between str s₁.keyStart _ = _
    rw [keyStart]
    exact between_eq fromKey (Int.le_of_lt keyEnd) keyInside
  have readValue : between str s₂.valueStart
      (toInt (offset + (k :: ks).length + 2 + (v :: vs).length : Nat)) =
      .ok (kept str offset (k :: ks, v :: vs)).2 :=
    between_eq fromValue (Int.le_of_lt valueEnd) valueInside
  have checksTail : ∀ n < vs.length, sub64 (offset + (k :: ks).length + 2 + (n + 1))
      (toSize s₂.valueStart) ≤ 255 :=
    fun n below => checks (n + 1) (by rw [List.length_cons]; omega) (Nat.succ_pos n)
  refine ⟨s₃, ?_, rfl, goOn, by rw [← headers]⟩
  calc scan str offset (rawLine (k :: ks, v :: vs) ++ rest) s
      = scan str (offset + (k :: ks).length) (58 :: 32 :: v :: (vs ++ (13 :: 10 :: rest))) s₁ := by
        rw [rawLine_append, readsKey]
    _ = scan str (offset + (k :: ks).length + 2 + 1) (vs ++ (13 :: 10 :: rest)) s₂ :=
        scan_colon state goOn (keyStart ▸ keyEnd)
    _ = scan str (offset + (k :: ks).length + 2 + (v :: vs).length) (13 :: 10 :: rest) s₂ :=
        scan_valueTail noCR rfl goOn checksTail
    _ = scan str (offset + (k :: ks).length + 2 + (v :: vs).length + 2) rest s₃ :=
        scan_crlf rfl goOn valueEnd readKey readValue
    _ = _ := by
        congr 1
        simp only [length_rawLine]
        omega

/-- Lines that pass are stored one after the other. -/
theorem scan_rawLines (rest : Bytes) {offset : Nat} {es : List Entry} (raw : ∀ e ∈ es, RawEntry e)
    (passes : PassAll offset es) (begins : ∀ e ∈ es.head?, BeginsLine s e)
    (go : s.notFinish = true) (inside : offset + (rawLines es).length ≤ str.length) :
    ∃ s', scan str offset (rawLines es ++ rest) s =
        scan str (offset + (rawLines es).length) rest s' ∧
      s'.hState = (if es = [] then s.hState else .lf) ∧ s'.notFinish = true ∧
      s'.headers =
        (keptAll str offset es).foldl (fun headers e => headers.assign e.1 e.2) s.headers := by
  induction es generalizing offset s with
  | nil => exact ⟨s, rfl, rfl, go, rfl⟩
  | cons e es ih =>
      obtain ⟨rawHere, rawLater⟩ := List.forall_mem_cons.mp raw
      obtain ⟨passesHere, passesLater⟩ := passes
      rw [rawLines_cons, List.length_append] at inside
      have insideHere : offset + (rawLine e).length ≤ str.length := by omega
      have insideLater : offset + (rawLine e).length + (rawLines es).length ≤ str.length := by omega
      obtain ⟨s₁, line, state, goOn, headers⟩ :=
        scan_rawLine (rawLines es ++ rest) rawHere passesHere (begins e rfl) go insideHere
      obtain ⟨s₂, later, state₂, goOn₂, headers₂⟩ :=
        ih rawLater passesLater (fun _ _ => .inl state) goOn insideLater
      refine ⟨s₂, ?_, ?_, goOn₂, ?_⟩
      · rw [rawLines_cons, List.append_assoc, line, later, List.length_append, Nat.add_assoc]
      · rw [state₂, state, if_neg (List.cons_ne_nil e es), ite_self]
      · rw [headers₂, headers, keptAll, List.foldl_cons]

/-- If the loop gets behind a line, the line passes. -/
theorem passes_of_scan {offset : Nat} {e : Entry} {j : Nat} {last : Scan}
    (scanned : scan str offset (rawLine e ++ rest) s = .ok (true, j, last))
    (raw : RawEntry e) (begins : BeginsLine s e) (go : s.notFinish = true) : Passes offset e := by
  obtain ⟨key, value⟩ := e
  obtain ⟨⟨k, ks, rfl, notCR, tail⟩, ⟨v, vs, rfl, noCR⟩⟩ := raw
  obtain ⟨s₁, readsKey, state, keyStart, -, goOn⟩ := scan_key begins notCR tail go
  rw [rawLine_append, readsKey] at scanned
  have positive := colon_inv scanned state goOn
  let s₂ : Scan := { s₁ with
    hState := .value, keyEnd := toInt (offset + (k :: ks).length : Nat),
    valueStart := toInt (offset + (k :: ks).length + 2 : Nat) }
  have colon : scan str (offset + (k :: ks).length + 2 + 1) (vs ++ (13 :: 10 :: rest)) s₂ =
      .ok (true, j, last) :=
    (scan_colon state goOn positive).symm.trans scanned
  have checks := scan_valueTail_inv colon noCR rfl goOn
  have valueTail : scan str (offset + (k :: ks).length + 2 + 1) (vs ++ (13 :: 10 :: rest)) s₂ =
      scan str (offset + (k :: ks).length + 2 + (v :: vs).length) (13 :: 10 :: rest) s₂ :=
    scan_valueTail noCR rfl goOn checks
  obtain ⟨fromKey, fromValue, ordered⟩ := crlf_inv (valueTail.symm.trans colon) rfl goOn
  change 0 ≤ s₁.keyStart at fromKey
  rw [keyStart] at fromKey positive
  refine { keyStart := fromKey, keyEnd := positive, valueStart := fromValue, valueEnd := ordered,
           length := fun n below some_ => ?_ }
  obtain ⟨m, rfl⟩ := Nat.exists_eq_succ_of_ne_zero (Nat.pos_iff_ne_zero.mp some_)
  exact checks m (Nat.lt_of_succ_lt_succ below)

/-- A line that begins at a small offset and passes ends at one, unless its key is huge. -/
theorem small_of_passes {offset : Nat} {e : Entry} (passes : Passes offset e)
    (short : e.2.length ≤ 256) (small : offset < 2 ^ 31 + 2) (shortKey : e.1.length < 2 ^ 31) :
    offset + (rawLine e).length < 2 ^ 31 + 2 := by
  obtain ⟨start, keyEnd, valueStart, valueEnd, -⟩ := passes
  simp only [toInt_nat] at start keyEnd valueStart valueEnd
  rw [length_rawLine]
  split_ifs at * <;> omega

end Turns

end Corio.Epoll
