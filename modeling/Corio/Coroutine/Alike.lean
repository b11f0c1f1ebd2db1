import Corio.Coroutine.Resolve

/-! # Requests that are answered alike

Two runs of `build_response`. `HEAD` and `GET` differ in the body that is sent. Two document
roots with the same files differ in the type of a file without a dot, because
`mime_type_for` looks for the dot in the whole path.
-/

namespace Corio.Coroutine

open Corio.Path

/-! ## Two methods -/

/-- Of the method only two comparisons matter. -/
theorem buildResponse_method (fs : FileSystem) (docroot : Path) (request : HttpRequest)
    {method : Bytes} (notPost : method ≠ bytes "POST") :
    (buildResponse fs docroot { request with method := method }).1 =
      { (buildResponse fs docroot { request with method := bytes "GET" }).1 with
        headOnly := method == bytes "HEAD" } := by
  have post : (method == bytes "POST") = false := by simpa using notPost
  have get : (bytes "GET" == bytes "POST") = false := by decide
  have keeps : ({ request with method := method } : HttpRequest).keepAlive =
      ({ request with method := bytes "GET" } : HttpRequest).keepAlive := rfl
  simp only [buildResponse, HttpRequest.isPost, HttpRequest.isHead, post, get, keeps,
    Bool.false_eq_true, if_false]
  split
  · rfl
  · split
    · rfl
    · split
      · cases loadFile fs (resolvePath fs docroot request.target) with
        | none =>
            dsimp only
            split <;> rfl
        | some body => rfl
      · rfl

/-- What is sent for `HEAD` is what is sent for `GET`, up to the body. -/
theorem head_alike (fs : FileSystem) (docroot : Path) (request : HttpRequest) :
    let get := (buildResponse fs docroot { request with method := bytes "GET" }).1
    let head := (buildResponse fs docroot { request with method := bytes "HEAD" }).1
    get.toWire = head.toWire ++ get.body ∧ head = { get with headOnly := true } := by
  intro get head
  have same : head = { get with headOnly := true } :=
    buildResponse_method fs docroot request (by decide)
  have whole : get = { get with headOnly := false } :=
    buildResponse_method fs docroot request (by decide)
  refine ⟨?_, same⟩
  rw [same, whole]
  simp only [HttpResponse.toWire, Bool.false_eq_true, if_false, if_true, List.append_nil]

/-! ## Two document roots -/

/-- Every relative path that does not climb names the same under both roots. -/
def SameTree (fs₁ : FileSystem) (docroot₁ : Path) (fs₂ : FileSystem) (docroot₂ : Path) : Prop :=
  ∀ relative, isAbsolute relative = false → dotDot ∉ filenames relative →
    fs₁.fileExists (append docroot₁ relative) = fs₂.fileExists (append docroot₂ relative) ∧
      loadFile fs₁ (append docroot₁ relative) = loadFile fs₂ (append docroot₂ relative)

/-- The target that `resolve_path` works with. -/
def wanted (requested : Bytes) : Bytes :=
  if stripQuery requested = [] ∨ stripQuery requested = bytes "/" then bytes "/index.html"
  else stripQuery requested

/-- The path below the document root. -/
def relativeOf (requested : Bytes) : Path :=
  lexicallyNormal (if (wanted requested).head? = some slash then (wanted requested).drop 1
    else wanted requested)

/-- A file is served whose path below the document root has no dot in it. -/
def ServesDotless (fs : FileSystem) (docroot : Path) (request : HttpRequest) : Prop :=
  request.isPost = false ∧ wanted request.target ≠ bytes "/hello" ∧
    pathIsSafe (relativeOf request.target) = true ∧
    (loadFile fs (append docroot (relativeOf request.target))).isSome ∧
    46 ∉ relativeOf request.target

section Types

/-- The last dot of a text that has one. -/
theorem last_dot {path : Bytes} (dotted : 46 ∈ path) :
    ∃ front back, path = front ++ 46 :: back ∧ 46 ∉ back := by
  obtain ⟨back, front, same, absent⟩ := List.eq_append_cons_of_mem (List.mem_reverse.mpr dotted)
  refine ⟨front.reverse, back.reverse, ?_, by simpa using absent⟩
  rw [← List.reverse_reverse path, same]
  simp

theorem lastDot_eq {back : Bytes} (absent : 46 ∉ back) (front : Bytes) :
    lastDot (front ++ 46 :: back) = some (46 :: back) := by
  have found : (front ++ 46 :: back).reverse.findIdx? (· == 46) = some back.length := by
    rw [List.reverse_append, List.reverse_cons, List.append_assoc, List.findIdx?_append,
      List.findIdx?_eq_none_iff.mpr]
    · simp [List.findIdx?_cons]
    · intro c member
      simp only [beq_eq_false_iff_ne, ne_eq]
      rintro rfl
      exact absent (List.mem_reverse.mp member)
  have size : (front ++ 46 :: back).length - 1 - back.length = front.length := by
    simp only [List.length_append, List.length_cons]
    omega
  rw [lastDot, found]
  dsimp only
  rw [size, List.drop_left]

theorem mimeTypeFor_dotless {path : Bytes} (absent : 46 ∉ path) :
    mimeTypeFor path = bytes "text/plain; charset=utf-8" := by
  have none_ : path.reverse.findIdx? (· == 46) = none := by
    rw [List.findIdx?_eq_none_iff]
    intro c member
    simp only [beq_eq_false_iff_ne, ne_eq]
    rintro rfl
    exact absent (List.mem_reverse.mp member)
  simp only [mimeTypeFor, lastDot, none_]

/-- A suffix that a slash is in is none of those that `mime_type_for` knows. -/
theorem mimeTypeFor_slash {path suffix : Bytes} (last : lastDot path = some suffix)
    (inside : slash ∈ suffix) : mimeTypeFor path = bytes "application/octet-stream" := by
  have lower : slash ∈ toLower suffix := List.mem_map.mpr ⟨slash, inside, by decide⟩
  have unknown {ext : Bytes} (free : slash ∉ ext) : toLower suffix ≠ ext := by
    rintro rfl
    exact free lower
  simp only [mimeTypeFor, last]
  rw [if_neg, if_neg, if_neg, if_neg, if_neg, if_neg, if_neg, if_neg]
  · exact unknown (by decide)
  · exact unknown (by decide)
  · exact not_or.mpr ⟨unknown (by decide), unknown (by decide)⟩
  · exact unknown (by decide)
  · exact unknown (by decide)
  · exact unknown (by decide)
  · exact unknown (by decide)
  · exact not_or.mpr ⟨unknown (by decide), unknown (by decide)⟩

variable {docroot relative : Path}

/-- The type of a file depends on its name if there is a dot in that, and otherwise on
    whether there is one in the document root. -/
theorem mimeTypeFor_append (isRelative : isAbsolute relative = false) :
    mimeTypeFor (append docroot relative) =
      if 46 ∈ relative then mimeTypeFor relative
      else if 46 ∈ docroot then bytes "application/octet-stream"
      else bytes "text/plain; charset=utf-8" := by
  rw [append_relative isRelative]
  by_cases dotted : 46 ∈ relative
  · rw [if_pos dotted]
    obtain ⟨front, back, rfl, absent⟩ := last_dot dotted
    rw [mimeTypeFor, mimeTypeFor, lastDot_eq absent, ← List.append_assoc, lastDot_eq absent]
  · rw [if_neg dotted]
    by_cases rooted : 46 ∈ docroot
    · rw [if_pos rooted]
      obtain ⟨front, back, rfl, absent⟩ := last_dot rooted
      have sep : 46 ∉ (if hasFilename (front ++ 46 :: back) then [slash] else []) := by
        split <;> decide
      have free : 46 ∉ back ++ ((if hasFilename (front ++ 46 :: back) then [slash] else []) ++
          relative) := by
        simp only [List.mem_append, not_or]
        exact ⟨absent, sep, dotted⟩
      have last := lastDot_eq free front
      rw [List.append_assoc, List.append_assoc, List.cons_append]
      refine mimeTypeFor_slash last (List.mem_cons_of_mem _ ?_)
      rw [List.mem_append, List.mem_append]
      split
      · exact .inr (.inl List.mem_cons_self)
      · rename_i ends
        refine .inl ?_
        have slashed : (front ++ 46 :: back).getLast? = some slash := by
          simpa [hasFilename, endsInSlash] using ends
        cases back with
        | nil =>
            have dot : (46 : UInt8) = slash := by simpa using slashed
            exact absurd dot (by decide)
        | cons c back =>
            have here : (c :: back).getLast? = some slash := by
              simpa [List.getLast?_append, List.getLast?_cons_cons] using slashed
            exact List.mem_of_getLast? here
    · rw [if_neg rooted]
      refine mimeTypeFor_dotless ?_
      simp only [List.mem_append, not_or]
      exact ⟨⟨rooted, by split <;> decide⟩, dotted⟩

end Types

section Roots

variable {fs₁ fs₂ : FileSystem} {docroot₁ docroot₂ : Path} {request : HttpRequest}
  {requested : Bytes}

theorem resolvePath_eq (fs : FileSystem) (docroot : Path) (requested : Bytes) :
    resolvePath fs docroot requested =
      if wanted requested = bytes "/hello" then []
      else if wanted requested = bytes "/favicon.ico" then
        if fs.fileExists (append docroot (bytes "datum/WebServer.png")) then
          append docroot (bytes "datum/WebServer.png")
        else if fs.fileExists (append docroot (bytes "favicon.ico")) then
          append docroot (bytes "favicon.ico")
        else append docroot (bytes "datum/WebServer.png")
      else if pathIsSafe (relativeOf requested) then append docroot (relativeOf requested)
      else [] := by
  have named : IsName (bytes "datum") := ⟨by decide, by decide⟩
  have png : append (append docroot (bytes "datum")) (bytes "WebServer.png") =
      append docroot (bytes "datum/WebServer.png") := append_append named (by decide)
  rw [← png]
  rfl

/-- What a request asks for below the document root. -/
theorem relativeOf_relative (single : ¬ [slash, slash] <+: requested) :
    isAbsolute (relativeOf requested) = false ∧ relativeOf requested ≠ [] := by
  have stripped : ¬ [slash, slash] <+: stripQuery requested :=
    fun doubled => single (doubled.trans (List.takeWhile_prefix _))
  have wantedSingle : ¬ [slash, slash] <+: wanted requested := by
    unfold wanted
    split
    · decide
    · exact stripped
  have some_ : wanted requested ≠ [] ∧ wanted requested ≠ [slash] := by
    unfold wanted
    split
    · decide
    · rename_i other
      exact not_or.mp other
  rw [relativeOf, isAbsolute_lexicallyNormal, ne_eq, lexicallyNormal_eq_nil]
  split
  · rename_i rooted
    cases target : wanted requested with
    | nil => exact absurd target some_.1
    | cons first rest =>
        rw [target] at rooted wantedSingle some_
        obtain rfl : first = slash := by simpa using rooted
        rw [List.drop_one, List.tail_cons]
        refine ⟨?_, fun none_ => some_.2 (by rw [none_])⟩
        rw [Bool.eq_false_iff]
        intro absolute
        obtain ⟨tail, rfl⟩ := isAbsolute_iff.mp absolute
        exact wantedSingle ⟨tail, rfl⟩
  · rename_i notRooted
    exact ⟨by simpa only [isAbsolute, beq_eq_false_iff_ne] using notRooted, some_.1⟩

theorem dot_favicon (favicon : wanted requested = bytes "/favicon.ico") :
    46 ∈ relativeOf requested := by
  rw [relativeOf, favicon]
  decide

/-- Both roots resolve a target to nothing, or to the same path below them. -/
theorem resolvePath_moved (same : SameTree fs₁ docroot₁ fs₂ docroot₂)
    (single : ¬ [slash, slash] <+: requested) :
    resolvePath fs₁ docroot₁ requested = [] ∧ resolvePath fs₂ docroot₂ requested = [] ∨
      ∃ relative, isAbsolute relative = false ∧ dotDot ∉ filenames relative ∧ relative ≠ [] ∧
        resolvePath fs₁ docroot₁ requested = append docroot₁ relative ∧
        resolvePath fs₂ docroot₂ requested = append docroot₂ relative ∧
        (46 ∈ relative ∧ 46 ∈ relativeOf requested ∨
          relative = relativeOf requested ∧ wanted requested ≠ bytes "/hello" ∧
            pathIsSafe (relativeOf requested) = true) := by
  have png := same (bytes "datum/WebServer.png") (by decide) (by decide)
  have ico := same (bytes "favicon.ico") (by decide) (by decide)
  rw [resolvePath_eq, resolvePath_eq, png.1, ico.1]
  by_cases hello : wanted requested = bytes "/hello"
  · rw [if_pos hello, if_pos hello]
    exact .inl ⟨rfl, rfl⟩
  · rw [if_neg hello, if_neg hello]
    by_cases favicon : wanted requested = bytes "/favicon.ico"
    · rw [if_pos favicon, if_pos favicon]
      have dotted := dot_favicon favicon
      refine .inr ?_
      split
      · exact ⟨_, by decide, by decide, by decide, rfl, rfl, .inl ⟨by decide, dotted⟩⟩
      · split
        · exact ⟨_, by decide, by decide, by decide, rfl, rfl, .inl ⟨by decide, dotted⟩⟩
        · exact ⟨_, by decide, by decide, by decide, rfl, rfl, .inl ⟨by decide, dotted⟩⟩
    · rw [if_neg favicon, if_neg favicon]
      split
      · rename_i safe
        obtain ⟨isRelative, nonempty⟩ := relativeOf_relative single
        exact .inr ⟨relativeOf requested, isRelative, dotDot_of_pathIsSafe safe, nonempty, rfl,
          rfl, .inr ⟨rfl, hello, safe⟩⟩
      · exact .inl ⟨rfl, rfl⟩

theorem append_ne_nil {docroot relative : Path} (isRelative : isAbsolute relative = false)
    (nonempty : relative ≠ []) : append docroot relative ≠ [] := by
  rw [append_relative isRelative]
  simp [nonempty]

/-- A file that is there is answered alike if its type is. -/
theorem buildResponse_file (notPost : request.isPost = false)
    (notHello : request.target ≠ bytes "/hello")
    (some₁ : resolvePath fs₁ docroot₁ request.target ≠ [])
    (some₂ : resolvePath fs₂ docroot₂ request.target ≠ [])
    (loaded : loadFile fs₁ (resolvePath fs₁ docroot₁ request.target) =
      loadFile fs₂ (resolvePath fs₂ docroot₂ request.target)) :
    (buildResponse fs₁ docroot₁ request).1 = (buildResponse fs₂ docroot₂ request).1 ↔
      ((loadFile fs₂ (resolvePath fs₂ docroot₂ request.target)).isSome →
        mimeTypeFor (resolvePath fs₁ docroot₁ request.target) =
          mimeTypeFor (resolvePath fs₂ docroot₂ request.target)) := by
  simp only [buildResponse, notPost, notHello, some₁, some₂, loaded, Bool.false_eq_true, if_false,
    false_and, ne_eq, not_false_eq_true, if_true]
  cases loadFile fs₂ (resolvePath fs₂ docroot₂ request.target) with
  | none =>
      by_cases favicon : request.target = bytes "/favicon.ico"
      · simp [favicon]
      · simp [favicon]
  | some body => simp

/-- Anything else is. -/
theorem buildResponse_other
    (other : request.isPost = true ∨ request.target = bytes "/hello" ∨
      resolvePath fs₁ docroot₁ request.target = [] ∧
        resolvePath fs₂ docroot₂ request.target = []) :
    (buildResponse fs₁ docroot₁ request).1 = (buildResponse fs₂ docroot₂ request).1 := by
  unfold buildResponse
  dsimp only
  rcases other with post | hello | ⟨none₁, none₂⟩
  · rw [if_pos post, if_pos post]
  · rw [if_pos hello, if_pos hello]
  · rw [none₁, none₂]
    split
    · rfl
    · split
      · rfl
      · split <;> rfl

theorem wanted_hello {target : Bytes} (hello : target = bytes "/hello") :
    wanted target = bytes "/hello" := by
  rw [hello]
  decide

/-- The two types of a path differ if there is a dot in one of the roots and not in the other,
    and none in the path. -/
theorem mimeTypeFor_moved {relative : Path} (isRelative : isAbsolute relative = false) :
    mimeTypeFor (append docroot₁ relative) = mimeTypeFor (append docroot₂ relative) ↔
      (46 ∉ relative → (46 ∈ docroot₁ ↔ 46 ∈ docroot₂)) := by
  have different : bytes "application/octet-stream" ≠ bytes "text/plain; charset=utf-8" := by
    decide
  rw [mimeTypeFor_append isRelative, mimeTypeFor_append isRelative]
  by_cases dotted : 46 ∈ relative
  · simp [dotted]
  · by_cases first : 46 ∈ docroot₁
    · by_cases second : 46 ∈ docroot₂
      · simp [dotted, first, second]
      · simp [dotted, first, second, different]
    · by_cases second : 46 ∈ docroot₂
      · simp [dotted, first, second, different.symm]
      · simp [dotted, first, second]

/-- Two document roots with the same files answer a request alike, unless it is for a file
    without a dot in its path and there is one in exactly one of the roots. -/
theorem moved_alike_iff (same : SameTree fs₁ docroot₁ fs₂ docroot₂)
    (single : ¬ [slash, slash] <+: request.target) :
    (buildResponse fs₁ docroot₁ request).1 = (buildResponse fs₂ docroot₂ request).1 ↔
      (ServesDotless fs₁ docroot₁ request → (46 ∈ docroot₁ ↔ 46 ∈ docroot₂)) := by
  by_cases post : request.isPost = true
  · refine iff_of_true (buildResponse_other (.inl post)) fun served => ?_
    exact absurd (post.symm.trans served.1) (by decide)
  by_cases hello : request.target = bytes "/hello"
  · refine iff_of_true (buildResponse_other (.inr (.inl hello))) fun served => ?_
    exact absurd (wanted_hello hello) served.2.1
  rcases resolvePath_moved same single with nothing | ⟨relative, isRelative, clean, nonempty,
    resolved₁, resolved₂, kind⟩
  · refine iff_of_true (buildResponse_other (.inr (.inr nothing))) fun served => ?_
    obtain ⟨-, notHello, safe, -, dotless⟩ := served
    have notFavicon : wanted request.target ≠ bytes "/favicon.ico" :=
      fun favicon => dotless (dot_favicon favicon)
    rw [resolvePath_eq, if_neg notHello, if_neg notFavicon, if_pos safe] at nothing
    obtain ⟨isRelative, some_⟩ := relativeOf_relative single
    exact absurd nothing.1 (append_ne_nil isRelative some_)
  · have notPost : request.isPost = false := by simpa using post
    have some₁ : resolvePath fs₁ docroot₁ request.target ≠ [] :=
      resolved₁ ▸ append_ne_nil isRelative nonempty
    have some₂ : resolvePath fs₂ docroot₂ request.target ≠ [] :=
      resolved₂ ▸ append_ne_nil isRelative nonempty
    have loaded := (same relative isRelative clean).2
    have answers := buildResponse_file notPost hello some₁ some₂
      (by rw [resolved₁, resolved₂, loaded])
    rw [answers, resolved₁, resolved₂, mimeTypeFor_moved isRelative, ← loaded]
    rcases kind with ⟨dotted, there⟩ | ⟨rfl, notHello, safe⟩
    · refine iff_of_true (fun _ dotless => absurd dotted dotless) fun served => ?_
      exact absurd there served.2.2.2.2
    · constructor
      · rintro alike ⟨-, -, -, there, dotless⟩
        exact alike there dotless
      · intro alike there dotless
        exact alike ⟨notPost, notHello, safe, there, dotless⟩

end Roots

/-- A file system where every path names the same file. -/
def oneFile : FileSystem :=
  { fileExists := fun _ => true
    openRead := fun _ => true
    fstat := fun _ => some (true, 6)
    mmap := fun _ _ => none
    readAll := fun _ => some (bytes "corio\n") }

def fetch (target : Bytes) : HttpRequest :=
  { method := bytes "GET", target := target, version := bytes "HTTP/1.1"
    headers := Dict.empty, body := [] }

theorem oneFile_sameTree (docroot₁ docroot₂ : Path) :
    SameTree oneFile docroot₁ oneFile docroot₂ := fun _ _ _ => ⟨rfl, rfl⟩

theorem moved_alike_page :
    (buildResponse oneFile (bytes "/srv/www") (fetch (bytes "/a.html"))).1 =
      (buildResponse oneFile (bytes "/srv/www.d") (fetch (bytes "/a.html"))).1 :=
  (moved_alike_iff (oneFile_sameTree _ _) (by decide)).mpr
    fun served => absurd (show 46 ∈ relativeOf (bytes "/a.html") by decide) served.2.2.2.2

/-- A file without a dot is plain text under one root and a stream of octets under the other. -/
theorem readme_moved :
    ¬ ∀ fs₁ docroot₁ fs₂ docroot₂ request, SameTree fs₁ docroot₁ fs₂ docroot₂ →
      ¬ [slash, slash] <+: request.target →
        (buildResponse fs₁ docroot₁ request).1 = (buildResponse fs₂ docroot₂ request).1 := by
  intro alike
  have same := alike oneFile (bytes "/srv/www") oneFile (bytes "/srv/www.d")
    (fetch (bytes "/README")) (oneFile_sameTree _ _) (by decide)
  have types := congrArg (fun response : HttpResponse => response.headers) same
  exact absurd types (by decide)

end Corio.Coroutine
