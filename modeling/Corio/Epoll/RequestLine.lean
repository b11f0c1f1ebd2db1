import Corio.Epoll.Chunks

/-! # Reading a request line

`parseURI` looks for the three method names one after the other in the whole line, so a
target that contains a name tried earlier takes the place of the method.
-/

namespace Corio.Epoll

open Find

def methodName : HttpMethod → Bytes
  | .post => bytes "POST"
  | .get => bytes "GET"
  | .head => bytes "HEAD"

def versionName : HttpVersion → Bytes
  | .http10 => bytes "1.0"
  | .http11 => bytes "1.1"

/-- A well-formed request line. -/
structure RequestLine where
  method : HttpMethod
  path : Bytes
  version : HttpVersion
  noSpace : (32 : UInt8) ∉ path
  noReturn : (13 : UInt8) ∉ path

namespace RequestLine

def target (r : RequestLine) : Bytes := 47 :: r.path

/-- Method and blank. -/
def lead (r : RequestLine) : Bytes := methodName r.method ++ [32]

def text (r : RequestLine) : Bytes :=
  r.lead ++ (r.target ++ 32 :: (bytes "HTTP/" ++ versionName r.version))

/-- The target without its slash and its query. -/
def fileName (r : RequestLine) : Bytes :=
  let name := r.path.takeWhile (· != 63)
  if name = [] then bytes "index.html" else name

/-- What is taken for the method and its offset when the name of this one stands in the
    target, unless the offset is negative as an `int`. -/
def seen (r : RequestLine) (method : HttpMethod) : Option (HttpMethod × Nat) :=
  (find? (methodName method) r.target).bind fun i =>
    let pos := toInt (r.lead.length + i : Nat)
    if pos ≥ 0 then some (method, toSize pos) else none

/-- What is taken for the method before the one of the line is tried. -/
def earlier (r : RequestLine) : Option (HttpMethod × Nat) :=
  match r.method with
  | .get => none
  | .post => r.seen .get
  | .head => (r.seen .get).or (r.seen .post)

end RequestLine

/-- The parser takes from the line what it says, and leaves what follows it. -/
def ReadsLine (d : HttpData) (r : RequestLine) (rest : Bytes) : Prop :=
  parseURI d = (.success, { d with
    method := r.method, version := r.version, fileName := r.fileName, inBuffer := rest })

namespace RequestLine

variable (r : RequestLine)

theorem lead_noSlash : (47 : UInt8) ∉ r.lead := by
  unfold lead
  cases r.method <;> decide

theorem lead_length : 4 ≤ r.lead.length ∧ r.lead.length ≤ 5 := by
  unfold lead
  cases r.method <;> decide

/-- A name is looked for as if it stood in the target, apart from the method itself. -/
theorem find?_name {method : HttpMethod} (earlier : method ≠ r.method ∧ method ≠ .head) :
    find? (methodName method) r.text =
      (find? (methodName method) r.target).map (· + r.lead.length) := by
  have noSpace : (32 : UInt8) ∉ methodName method := by
    cases method <;> decide
  have nonempty : methodName method ≠ [] := by
    cases method <;> decide
  have inLead : find? (methodName method) (methodName r.method) = none := by
    revert earlier
    cases method <;> cases r.method <;> decide
  have inVersion : find? (methodName method) (bytes "HTTP/" ++ versionName r.version) = none := by
    revert earlier
    cases method <;> cases r.version <;> cases r.method <;> decide
  have split_ : r.text = methodName r.method ++ 32 ::
      (r.target ++ 32 :: (bytes "HTTP/" ++ versionName r.version)) := by
    simp [text, lead]
  rw [split_, find?_across noSpace nonempty, find?_across noSpace nonempty, inLead, inVersion,
    Option.map_none, Option.or_none, Option.none_or]
  simp only [lead, List.length_append, List.length_singleton]

/-- The offset of a name that is tried before the method of the line. -/
theorem seen_eq (method : HttpMethod) (earlier : method ≠ r.method ∧ method ≠ .head) :
    r.seen method =
      if toInt (sfind (methodName method) r.text 0) ≥ 0 then
        some (method, toSize (toInt (sfind (methodName method) r.text 0)))
      else none := by
  rw [sfind_zero, r.find?_name earlier, seen]
  cases find? (methodName method) r.target with
  | none => simp [toInt_npos]
  | some i =>
      simp only [Option.bind_some, Option.map_some, Option.getD_some, Nat.add_comm i]

/-- The method of the line stands at its beginning. -/
theorem sfind_own : toInt (sfind (methodName r.method) r.text 0) = 0 := by
  have nonempty : methodName r.method ≠ [] := by
    cases r.method <;> decide
  have first : find? (methodName r.method) r.text = some 0 := by
    refine find?_eq_some (Nat.zero_le _) ?_ (by simp)
    rw [List.drop_zero, text, lead, List.append_assoc]
    exact List.prefix_append _ _
  rw [sfind_zero, first]
  rfl

theorem findMethod_text : findMethod r.text = some (r.earlier.getD (r.method, 0)) := by
  have own := r.sfind_own
  have zero : toSize 0 = 0 := by decide
  unfold findMethod
  cases method : r.method with
  | get =>
      rw [method] at own
      simp only [methodName] at own
      simp only [own, earlier, method, ge_iff_le, Int.le_refl, if_true, Option.getD_none, zero]
  | post =>
      have get := r.seen_eq .get (by simp [method])
      rw [method] at own
      simp only [methodName] at own get
      simp only [earlier, method, get, own]
      by_cases there : toInt (sfind (bytes "GET") r.text 0) ≥ 0
      · simp only [there, if_true, Option.getD_some]
      · simp only [there, ge_iff_le, Int.le_refl, if_true, if_false, Option.getD_none, zero]
  | head =>
      have get := r.seen_eq .get (by simp [method])
      have post := r.seen_eq .post (by simp [method])
      rw [method] at own
      simp only [methodName] at own get post
      simp only [earlier, method, get, post, own]
      by_cases there : toInt (sfind (bytes "GET") r.text 0) ≥ 0
      · simp only [there, if_true, Option.some_or, Option.getD_some]
      · by_cases posted : toInt (sfind (bytes "POST") r.text 0) ≥ 0
        · simp only [there, posted, if_true, if_false, Option.none_or, Option.getD_some]
        · simp only [there, posted, ge_iff_le, Int.le_refl, if_true, if_false, Option.none_or,
            Option.getD_none, zero]

end RequestLine

/-- What `parseURI` does behind the method. -/
def readTarget (line : Bytes) (d : HttpData) (pos : Nat) : URIState × HttpData :=
  let pos := sfind (bytes "/") line pos
  if pos < 0 then
    (.success, { d with fileName := bytes "index.html", version := .http11 })
  else
    let space := sfind (bytes " ") line pos
    if space < 0 then (.error, d)
    else
      let named :=
        if sub64 space pos > 1 then
          let name := substr line (pos + 1) (sub64 (sub64 space pos) 1)
          let question := sfind (bytes "?") name 0
          if question ≥ 0 then name.take question else name
        else bytes "index.html"
      let d := { d with fileName := named }
      let pos := sfind (bytes "/") line space
      if pos < 0 then (.error, d)
      else if sub64 line.length pos ≤ 3 then (.error, d)
      else
        let ver := substr line (wrap64 (pos + 1)) 3
        if ver = bytes "1.0" then (.success, { d with version := .http10 })
        else if ver = bytes "1.1" then (.success, { d with version := .http11 })
        else (.error, d)

section Reading

variable {d : HttpData} {line rest : Bytes} {method : HttpMethod} {pos : Nat}

theorem parseURI_line (buffer : d.inBuffer = line ++ 13 :: rest) (from_ : d.nowReadPos = 0)
    (noReturn : (13 : UInt8) ∉ line) (short : d.inBuffer.length ≤ npos)
    (found : findMethod line = some (method, pos)) :
    parseURI d = readTarget line { d with inBuffer := rest, method := method } pos := by
  have zero : toSize 0 = 0 := by decide
  have size : d.inBuffer.length = line.length + (rest.length + 1) := by
    rw [buffer, List.length_append, List.length_cons]
  have ends : sfind [13] d.inBuffer 0 = line.length := by
    have ends := sfind_symbol noReturn [] rest
    rwa [List.nil_append, List.length_nil, Nat.zero_add, ← buffer] at ends
  have lineIs : requestLine d.inBuffer 0 = line := by
    rw [requestLine, zero, ends, buffer, List.take_left]
  have behind : wrap64 (line.length + 1) = line.length + 1 := by
    rw [wrap64, npos] at *
    omega
  have left : (if d.inBuffer.length > line.length + 1 then d.inBuffer.drop (line.length + 1)
      else []) = rest := by
    have dropped : d.inBuffer.drop (line.length + 1) = rest := by
      rw [buffer, ← List.drop_drop, List.drop_left, List.drop_one, List.tail_cons]
    split
    · exact dropped
    · rename_i nothing
      exact (List.length_eq_zero_iff.mp (by omega)).symm
  simp only [parseURI, from_, zero, ends, lineIs, behind, left, Nat.not_lt_zero, if_false, found]
  rfl

/-- The slash that is found begins a path. -/
theorem readTarget_path {before path : Bytes} {version : HttpVersion} (short : line.length < npos)
    (whole : line = before ++ 47 :: (path ++ 32 :: (bytes "HTTP/" ++ versionName version)))
    (noSpace : (32 : UInt8) ∉ path) (slash : sfind (bytes "/") line pos = before.length) :
    readTarget line d pos = (.success, { d with
      fileName := if path = [] then bytes "index.html" else path.takeWhile (· != 63),
      version := version }) := by
  have versionSize : (versionName version).length = 3 := by
    cases version <;> decide
  have size : line.length = before.length + (path.length + 10) := by
    rw [whole]
    simp only [List.length_append, List.length_cons, versionSize]
    rfl
  rw [npos] at short
  have blank : sfind (bytes " ") line before.length = before.length + (path.length + 1) := by
    have noSpace : (32 : UInt8) ∉ 47 :: path := by
      simp [noSpace]
    have found := sfind_symbol noSpace before (bytes "HTTP/" ++ versionName version)
    rwa [List.cons_append, ← whole, List.length_cons] at found
  have wide : sub64 (before.length + (path.length + 1)) before.length = path.length + 1 := by
    rw [sub64_of_le (by omega) (by omega)]
    omega
  have less : sub64 (path.length + 1) 1 = path.length := by
    rw [sub64_of_le (by omega) (by omega)]
    omega
  have name : substr line (before.length + 1) path.length = path := by
    rw [substr, whole, ← List.drop_drop, List.drop_left, List.drop_one, List.tail_cons,
      List.take_left]
  have cut : path.take (sfind (bytes "?") path 0) = path.takeWhile (· != 63) :=
    take_sfind_zero (by rw [npos]; omega)
  have before_ : line = (before ++ 47 :: path) ++ (bytes " HTTP" ++ 47 :: versionName version) := by
    rw [whole]
    simp only [List.append_assoc, List.cons_append]
    rfl
  have again : sfind (bytes "/") line (before.length + (path.length + 1)) =
      before.length + (path.length + 1) + 5 := by
    have noSlash : (47 : UInt8) ∉ bytes " HTTP" := by decide
    have found := sfind_symbol noSlash (before ++ 47 :: path) (versionName version)
    rwa [← before_, List.length_append, List.length_cons] at found
  have room : ¬ sub64 line.length (before.length + (path.length + 1) + 5) ≤ 3 := by
    rw [sub64_of_le (by omega) (by omega)]
    omega
  have behind : wrap64 (before.length + (path.length + 1) + 5 + 1) =
      before.length + (path.length + 1) + 5 + 1 := by
    rw [wrap64]
    omega
  have ver : substr line (before.length + (path.length + 1) + 5 + 1) 3 = versionName version := by
    have front : line = (before ++ 47 :: path ++ bytes " HTTP" ++ [47]) ++ versionName version := by
      rw [before_]
      simp
    have length : (before ++ 47 :: path ++ bytes " HTTP" ++ [47]).length =
        before.length + (path.length + 1) + 5 + 1 := by
      simp only [List.length_append, List.length_cons]
      rfl
    rw [substr, ← length, front, List.drop_left, List.take_of_length_le (by omega)]
  have named : (if path.length + 1 > 1 then path.takeWhile (· != 63) else bytes "index.html") =
      if path = [] then bytes "index.html" else path.takeWhile (· != 63) := by
    cases path <;> simp
  simp only [readTarget, slash, blank, wide, less, name, cut, again, room, behind, ver, named,
    Nat.not_lt_zero, if_false, ge_iff_le, Nat.zero_le, if_true]
  cases version <;> rfl

/-- The slash that is found is the one of the version: the arithmetic on `npos` takes the
    beginning of the line for the version. -/
theorem readTarget_astray {before version : Bytes} (short : line.length < npos)
    (whole : line = before ++ 47 :: version) (noSpace : (32 : UInt8) ∉ version)
    (long : 3 < line.length)
    (notVersion : line.take 3 ≠ bytes "1.0" ∧ line.take 3 ≠ bytes "1.1")
    (slash : sfind (bytes "/") line pos = before.length) :
    (readTarget line d pos).1 = .error := by
  have blank : sfind (bytes " ") line before.length = npos := by
    have noSpace : (32 : UInt8) ∉ 47 :: version := by
      simp [noSpace]
    have absent := sfind_absent noSpace before
    rwa [← whole] at absent
  have beyond : sfind (bytes "/") line npos = npos := sfind_npos (by decide) (by omega)
  have room : ¬ sub64 line.length npos ≤ 3 := by
    rw [sub64_npos short]
    omega
  have behind : wrap64 (npos + 1) = 0 := by decide
  have ver : substr line 0 3 = line.take 3 := by
    rw [substr, List.drop_zero]
  simp only [readTarget, slash, blank, beyond, room, behind, ver, Nat.not_lt_zero, if_false,
    notVersion.1, notVersion.2]

/-- Only the name and the version are written. -/
theorem readTarget_frame (line : Bytes) (d : HttpData) (pos : Nat) :
    ∃ fileName version,
      (readTarget line d pos).2 = { d with fileName := fileName, version := version } := by
  unfold readTarget
  extract_lets
  split
  · exact ⟨_, _, rfl⟩
  · split
    · exact ⟨_, _, rfl⟩
    · split
      · exact ⟨_, _, rfl⟩
      · split
        · exact ⟨_, _, rfl⟩
        · split
          · exact ⟨_, _, rfl⟩
          · split <;> exact ⟨_, _, rfl⟩

end Reading

namespace RequestLine

variable {d : HttpData} {r : RequestLine} {rest : Bytes} {method : HttpMethod} {pos : Nat}

theorem text_eq (r : RequestLine) :
    r.text = r.lead ++ 47 :: (r.path ++ 32 :: (bytes "HTTP/" ++ versionName r.version)) := rfl

theorem text_noReturn (r : RequestLine) : (13 : UInt8) ∉ r.text := by
  have inLead : (13 : UInt8) ∉ r.lead := by
    unfold lead
    cases r.method <;> decide
  have inVersion : (13 : UInt8) ∉ bytes "HTTP/" ++ versionName r.version := by
    cases r.version <;> decide
  rw [text_eq, List.mem_append, List.mem_cons, List.mem_append, List.mem_cons]
  simp [inLead, r.noReturn, inVersion]

/-- Where the name stands in the target, if the offset fits. -/
theorem seen_some {m : HttpMethod} (seen : r.seen method = some (m, pos)) :
    m = method ∧ pos ≤ r.lead.length + r.target.length := by
  obtain ⟨i, found, here⟩ := Option.bind_eq_some_iff.mp seen
  dsimp only at here
  split at here
  · rename_i positive
    obtain ⟨rfl, rfl⟩ := Prod.mk.inj (Option.some.inj here)
    have inside := (find?_some found).1
    have below := toInt_le (r.lead.length + i)
    have fits := toInt_lt (r.lead.length + i : Nat)
    refine ⟨rfl, ?_⟩
    rw [← Int.toNat_of_nonneg positive, toSize_nat (by omega)]
    omega
  · cases here

/-- The method that is taken instead is another one. -/
theorem earlier_some (earlier : r.earlier = some (method, pos)) :
    method ≠ r.method ∧ pos ≤ r.lead.length + r.target.length := by
  unfold RequestLine.earlier at earlier
  split at earlier
  · cases earlier
  · rename_i post
    obtain ⟨rfl, inside⟩ := seen_some earlier
    exact ⟨by simp [post], inside⟩
  · rename_i head
    rcases Option.or_eq_some_iff.mp earlier with seen | ⟨-, seen⟩
    · obtain ⟨rfl, inside⟩ := seen_some seen
      exact ⟨by simp [head], inside⟩
    · obtain ⟨rfl, inside⟩ := seen_some seen
      exact ⟨by simp [head], inside⟩

theorem parseURI_own (buffer : d.inBuffer = r.text ++ 13 :: rest) (from_ : d.nowReadPos = 0)
    (short : d.inBuffer.length ≤ npos) (own : r.earlier = none) :
    parseURI d = (.success, { d with
      inBuffer := rest, method := r.method, version := r.version,
      fileName := if r.path = [] then bytes "index.html" else r.path.takeWhile (· != 63) }) := by
  have found : findMethod r.text = some (r.method, 0) := by
    rw [findMethod_text, own, Option.getD_none]
  have lineShort : r.text.length < npos := by
    rw [buffer, List.length_append, List.length_cons] at short
    omega
  have slash : sfind (bytes "/") r.text 0 = r.lead.length := by
    have found := sfind_symbol r.lead_noSlash [] (r.path ++ 32 ::
      (bytes "HTTP/" ++ versionName r.version))
    rwa [List.nil_append, List.length_nil, Nat.zero_add] at found
  rw [parseURI_line buffer from_ r.text_noReturn short found,
    readTarget_path lineShort r.text_eq r.noSpace slash]

theorem parseURI_method (buffer : d.inBuffer = r.text ++ 13 :: rest) (from_ : d.nowReadPos = 0)
    (short : d.inBuffer.length ≤ npos) (found : findMethod r.text = some (method, pos)) :
    (parseURI d).2.method = method := by
  rw [parseURI_line buffer from_ r.text_noReturn short found]
  obtain ⟨fileName, version, taken⟩ :=
    readTarget_frame r.text { d with inBuffer := rest, method := method } pos
  rw [taken]

/-- The method of the line is the one that is taken if no other is found before it. -/
theorem parseURI_method_iff (buffer : d.inBuffer = r.text ++ 13 :: rest) (from_ : d.nowReadPos = 0)
    (short : d.inBuffer.length ≤ npos) :
    (parseURI d).2.method = r.method ↔ r.earlier = none := by
  have found := r.findMethod_text
  cases earlier : r.earlier with
  | none =>
      rw [earlier, Option.getD_none] at found
      simp [parseURI_method buffer from_ short found]
  | some other =>
      rw [earlier, Option.getD_some] at found
      simp [parseURI_method buffer from_ short found, (earlier_some earlier).1]

/-- The line is read as it stands exactly if no name that is tried earlier is found in the
    target and the target is not a query behind the bare slash. -/
theorem readsLine_iff (buffer : d.inBuffer = r.text ++ 13 :: rest) (from_ : d.nowReadPos = 0)
    (short : d.inBuffer.length ≤ npos) :
    ReadsLine d r rest ↔ r.earlier = none ∧ r.path.head? ≠ some 63 := by
  cases earlier : r.earlier with
  | some other =>
      constructor
      · intro reads
        have own := (parseURI_method_iff buffer from_ short).mp (by rw [reads])
        exact absurd (earlier.symm.trans own) (by simp)
      · rintro ⟨none_, -⟩
        cases none_
  | none =>
      rw [ReadsLine, parseURI_own buffer from_ short earlier]
      simp only [Prod.mk.injEq, HttpData.mk.injEq, true_and, and_true, fileName]
      cases r.path with
      | nil => simp
      | cons c path =>
          by_cases question : c = 63
          · subst question
            simp
            decide
          · simp [question]

/-- In a line of this size offsets fit an `int`. -/
theorem seen_none_iff (small : r.text.length < 2 ^ 31) :
    r.seen method = none ↔ ¬ methodName method <:+: r.target := by
  rw [← find?_none_iff, seen]
  cases found : find? (methodName method) r.target with
  | none => simp
  | some i =>
      have inside := (find?_some found).1
      have size : r.lead.length + r.target.length ≤ r.text.length := by
        simp only [text, List.length_append]
        omega
      have fits : toInt (r.lead.length + i : Nat) ≥ 0 := by
        rw [toInt_small (by omega)]
        omega
      rw [Option.bind_some, if_pos fits]
      simp

/-- The targets that take the place of the method. -/
theorem earlier_none_iff (small : r.text.length < 2 ^ 31) :
    r.earlier = none ↔ (r.method ≠ .get → ¬ bytes "GET" <:+: r.target) ∧
      (r.method = .head → ¬ bytes "POST" <:+: r.target) := by
  have get : r.seen .get = none ↔ ¬ bytes "GET" <:+: r.target := seen_none_iff small
  have post : r.seen .post = none ↔ ¬ bytes "POST" <:+: r.target := seen_none_iff small
  unfold RequestLine.earlier
  cases r.method with
  | get => simp
  | post => simp [get]
  | head => simp [get, post]

/-- A line and what follows it. -/
def before (r : RequestLine) (rest : Bytes) : HttpData := { inBuffer := r.text ++ 13 :: rest }

def posted : RequestLine where
  method := .post
  path := bytes "a?POST=GE"
  version := .http10
  noSpace := by decide
  noReturn := by decide

theorem posted_read : ReadsLine (posted.before [10]) posted [10] ∧ posted.fileName = bytes "a" :=
  ⟨(readsLine_iff rfl rfl (by decide +kernel)).mpr (by decide +kernel), by decide +kernel⟩

/-- The bare slash with a query. -/
def queried : RequestLine where
  method := .get
  path := bytes "?a"
  version := .http11
  noSpace := by decide
  noReturn := by decide

/-- A method name in a query. -/
def misnamed : RequestLine where
  method := .post
  path := bytes "a?GET/"
  version := .http11
  noSpace := by decide
  noReturn := by decide

theorem not_readsLine :
    ¬ ReadsLine (queried.before [10]) queried [10] ∧
      (parseURI (queried.before [10])).2.fileName = [] ∧
      ¬ ReadsLine (misnamed.before [10]) misnamed [10] ∧
      (parseURI (misnamed.before [10])).2.method = .get := by
  unfold ReadsLine
  decide +kernel

/-- What is taken for the method has a slash behind it in the target. -/
def Located (r : RequestLine) : Prop :=
  ∀ method pos, r.earlier = some (method, pos) →
    (47 : UInt8) ∈ r.target.drop (pos - r.lead.length)

/-- The first symbol from a position on. -/
theorem sfind_from {x : UInt8} {front : Bytes} (le : pos ≤ front.length)
    (absent : x ∉ front.drop pos) (back : Bytes) :
    sfind [x] (front ++ x :: back) pos = front.length := by
  have found := sfind_symbol absent (front.take pos) back
  rw [← List.append_assoc, List.take_append_drop, List.length_take_of_le le,
    List.length_drop] at found
  rw [found]
  omega

/-- The slash behind the method is in the target. -/
theorem parseURI_located (buffer : d.inBuffer = r.text ++ 13 :: rest) (from_ : d.nowReadPos = 0)
    (short : d.inBuffer.length ≤ npos) (found : findMethod r.text = some (method, pos))
    (slash : (47 : UInt8) ∈ r.target.drop (pos - r.lead.length)) :
    (parseURI d).1 = .success := by
  have lineShort : r.text.length < npos := by
    rw [buffer, List.length_append, List.length_cons] at short
    omega
  obtain ⟨skipped, path, behind, first⟩ := List.eq_append_cons_of_mem slash
  have target : r.target = r.target.take (pos - r.lead.length) ++ skipped ++ 47 :: path := by
    rw [List.append_assoc, ← behind, List.take_append_drop]
  have noSpace : (32 : UInt8) ∉ path := by
    intro member
    have blank : (32 : UInt8) ∈ r.target := by
      rw [target]
      simp [member]
    rcases List.mem_cons.mp blank with same | member
    · exact absurd same (by decide)
    · exact r.noSpace member
  have whole : r.text = (r.lead ++ (r.target.take (pos - r.lead.length) ++ skipped)) ++
      47 :: (path ++ 32 :: (bytes "HTTP/" ++ versionName r.version)) := by
    calc r.text
        = r.lead ++ (r.target ++ 32 :: (bytes "HTTP/" ++ versionName r.version)) := rfl
      _ = r.lead ++ ((r.target.take (pos - r.lead.length) ++ skipped ++ 47 :: path) ++
            32 :: (bytes "HTTP/" ++ versionName r.version)) := by rw [← target]
      _ = _ := by simp
  have size := congrArg List.length target
  simp only [List.length_append, List.length_take, List.length_cons] at size
  have at_ : sfind (bytes "/") r.text pos =
      (r.lead ++ (r.target.take (pos - r.lead.length) ++ skipped)).length := by
    rw [whole]
    refine sfind_from ?_ ?_ _
    · simp only [List.length_append, List.length_take]
      omega
    · rcases Nat.le_total pos r.lead.length with early | late
      · -- The search begins in front of the target, which begins with a slash.
        have none_ : skipped = [] := by
          rw [Nat.sub_eq_zero_of_le early, List.drop_zero] at behind
          cases skipped with
          | nil => rfl
          | cons c skipped =>
              obtain ⟨same, -⟩ := List.cons.inj behind
              exact absurd (same ▸ List.mem_cons_self) first
        rw [none_, Nat.sub_eq_zero_of_le early, List.take_zero, List.append_nil, List.append_nil]
        exact fun member => r.lead_noSlash (List.mem_of_mem_drop member)
      · have drop : (r.lead ++ (r.target.take (pos - r.lead.length) ++ skipped)).drop pos =
            skipped := by
          rw [← List.append_assoc]
          refine List.drop_left' ?_
          simp only [List.length_append, List.length_take]
          omega
        rwa [drop]
  rw [parseURI_line buffer from_ r.text_noReturn short found,
    readTarget_path lineShort whole noSpace at_]

/-- There is no slash behind the method but the one of the version. -/
theorem parseURI_astray (buffer : d.inBuffer = r.text ++ 13 :: rest) (from_ : d.nowReadPos = 0)
    (short : d.inBuffer.length ≤ npos) (found : findMethod r.text = some (method, pos))
    (inside : pos ≤ r.lead.length + r.target.length)
    (slash : (47 : UInt8) ∉ r.target.drop (pos - r.lead.length)) :
    (parseURI d).1 = .error := by
  have lineShort : r.text.length < npos := by
    rw [buffer, List.length_append, List.length_cons] at short
    omega
  have late : r.lead.length ≤ pos := by
    by_contra early
    rw [Nat.sub_eq_zero_of_le (by omega), List.drop_zero] at slash
    exact slash List.mem_cons_self
  have whole : r.text = (r.lead ++ (r.target ++ bytes " HTTP")) ++ 47 :: versionName r.version := by
    have text : r.text = r.lead ++ (r.target ++ 32 :: (bytes "HTTP/" ++ versionName r.version)) :=
      rfl
    rw [text]
    simp only [List.append_assoc]
    rfl
  have at_ : sfind (bytes "/") r.text pos = (r.lead ++ (r.target ++ bytes " HTTP")).length := by
    rw [whole]
    refine sfind_from ?_ ?_ _
    · simp only [List.length_append]
      omega
    · rw [List.drop_append, List.drop_eq_nil_of_le late, List.nil_append,
        List.drop_append_of_le_length (by omega), List.mem_append, not_or]
      exact ⟨slash, by decide⟩
  have noSpace : (32 : UInt8) ∉ versionName r.version := by
    cases r.version <;> decide
  have leadSize := r.lead_length
  have size : r.lead.length ≤ r.text.length := by
    rw [whole, List.append_assoc, List.length_append]
    omega
  have notVersion : r.text.take 3 ≠ bytes "1.0" ∧ r.text.take 3 ≠ bytes "1.1" := by
    rw [whole, List.append_assoc, List.take_append_of_le_length (by omega), lead]
    cases r.method <;> decide
  rw [parseURI_line buffer from_ r.text_noReturn short found]
  exact readTarget_astray lineShort whole noSpace (by omega) notVersion at_

theorem parseURI_success_iff (buffer : d.inBuffer = r.text ++ 13 :: rest)
    (from_ : d.nowReadPos = 0) (short : d.inBuffer.length ≤ npos) :
    (parseURI d).1 = .success ↔ r.Located := by
  cases earlier : r.earlier with
  | none =>
      rw [parseURI_own buffer from_ short earlier]
      simp [Located, earlier]
  | some other =>
      obtain ⟨method, pos⟩ := other
      have found : findMethod r.text = some (method, pos) := by
        rw [findMethod_text, earlier, Option.getD_some]
      have inside := (earlier_some earlier).2
      by_cases slash : (47 : UInt8) ∈ r.target.drop (pos - r.lead.length)
      · simp [Located, earlier, slash, parseURI_located buffer from_ short found slash]
      · simp [Located, earlier, slash, parseURI_astray buffer from_ short found inside slash]

/-- Whatever is found in it, the line is taken from the buffer. -/
theorem parseURI_rest (buffer : d.inBuffer = r.text ++ 13 :: rest) (from_ : d.nowReadPos = 0)
    (short : d.inBuffer.length ≤ npos) :
    (parseURI d).2.inBuffer = rest ∧ (parseURI d).2.hState = d.hState ∧
      (parseURI d).2.headers = d.headers := by
  rw [parseURI_line buffer from_ r.text_noReturn short r.findMethod_text]
  obtain ⟨fileName, version, taken⟩ := readTarget_frame r.text _ _
  rw [taken]
  exact ⟨rfl, rfl, rfl⟩

end RequestLine

end Corio.Epoll
