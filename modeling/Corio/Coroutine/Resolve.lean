import Corio.Coroutine.Types
import Corio.Foundation.Path

/-! # From a request to a file

`resolvePath` names the file a target stands for and `buildResponse` loads it.
The file system is what its calls return. `path_is_safe` looks for `..` only,
and joining an absolute path to the document root discards the root: a target
that still starts with a slash after one was erased leaves the tree.
-/

namespace Corio.Coroutine

open Corio.Path

structure FileSystem where
  fileExists : Path → Bool
  openRead : Path → Bool
  /-- Whether the file is a regular one, and its size. -/
  fstat : Path → Option (Bool × Nat)
  mmap : Path → Nat → Option (Nat → UInt8)
  /-- The whole content, as an `ifstream` reads it. -/
  readAll : Path → Option Bytes

def stripQuery (target : Bytes) : Bytes := target.takeWhile (· != 63)

def pathIsSafe (path : Path) : Bool := (parts path).all (· != dotDot)

def resolvePath (fs : FileSystem) (docroot : Path) (requested : Bytes) : Path :=
  let stripped := stripQuery requested
  let target := if stripped = [] ∨ stripped = bytes "/" then bytes "/index.html" else stripped
  if target = bytes "/hello" then []
  else if target = bytes "/favicon.ico" then
    let png := append (append docroot (bytes "datum")) (bytes "WebServer.png")
    if fs.fileExists png then png
    else
      let ico := append docroot (bytes "favicon.ico")
      if fs.fileExists ico then ico else png
  else
    let erased := if target.head? = some slash then target.drop 1 else target
    let relative := lexicallyNormal erased
    if pathIsSafe relative then append docroot relative else []

def loadFile (fs : FileSystem) (path : Path) : Option Bytes :=
  if fs.openRead path then
    match fs.fstat path with
    | none => none
    | some (regular, size) =>
        if ¬ regular then none
        else if size = 0 then some []
        else
          match fs.mmap path size with
          | none => fs.readAll path
          | some mapped => some ((List.range size).map mapped)
  else none

def fallbackFavicon : Bytes := bytes "favicon"

/-- The response, and the paths that were handed to `loadFile` for it. -/
def buildResponse (fs : FileSystem) (docroot : Path) (request : HttpRequest) :
    HttpResponse × List Path :=
  let headers :=
    [(bytes "Server", bytes "CoroutineWebServer"),
     (bytes "Connection", if request.keepAlive then bytes "keep-alive" else bytes "close")]
  let ofType (type : Bytes) := headers ++ [(bytes "Content-Type", type)]
  let text := ofType (bytes "text/plain; charset=utf-8")
  let headOnly := request.isHead
  if request.isPost then
    ({ headers := text, body := request.body, headOnly := headOnly }, [])
  else if request.target = bytes "/hello" then
    ({ headers := text, body := bytes "Hello from CoroutineWebServer\n", headOnly := headOnly }, [])
  else
    let resolved := resolvePath fs docroot request.target
    if resolved = [] ∧ request.target ≠ bytes "/hello" then
      ({ status := 400, reason := bytes "Bad Request", headers := text,
         body := bytes "Bad Request\n", headOnly := headOnly }, [])
    else if resolved ≠ [] then
      match loadFile fs resolved with
      | none =>
          if request.target = bytes "/favicon.ico" then
            ({ headers := text, body := fallbackFavicon, headOnly := headOnly }, [resolved])
          else
            ({ status := 404, reason := bytes "Not Found", headers := text,
               body := bytes "Not Found\n", headOnly := headOnly }, [resolved])
      | some body =>
          ({ headers := ofType (mimeTypeFor resolved), body := body, headOnly := headOnly },
            [resolved])
    else ({ headers := text, body := fallbackFavicon, headOnly := headOnly }, [])

/-- Only the resolved path is ever loaded. -/
theorem loaded_resolved {fs docroot request path}
    (member : path ∈ (buildResponse fs docroot request).2) :
    path = resolvePath fs docroot request.target ∧ path ≠ [] := by
  simp only [buildResponse] at member
  split at member
  · cases member
  · split at member
    · cases member
    · split at member
      · cases member
      · split at member
        · rename_i nonempty
          have single : path = resolvePath fs docroot request.target := by
            split at member
            · split at member <;> exact List.mem_singleton.mp member
            · exact List.mem_singleton.mp member
          exact ⟨single, single ▸ nonempty⟩
        · cases member

theorem dotDot_of_pathIsSafe {path : Path} (safe : pathIsSafe path = true) :
    dotDot ∉ filenames path := by
  intro named
  have kept := List.all_eq_true.mp safe dotDot (dotDot_mem_parts.mpr named)
  simp at kept

theorem pathIsSafe_of_dotDot {path : Path} (clean : dotDot ∉ filenames path) :
    pathIsSafe path = true := by
  refine List.all_eq_true.mpr fun part member => ?_
  simp only [bne_iff_ne, ne_eq]
  rintro rfl
  exact clean (dotDot_mem_parts.mp member)

theorem inside_append {docroot relative : Path} (isRelative : isAbsolute relative = false)
    (clean : dotDot ∉ filenames relative) : Inside docroot (append docroot relative) :=
  ⟨relative, isRelative, clean, rfl⟩

theorem inside_favicon_png (docroot : Path) :
    Inside docroot (append (append docroot (bytes "datum")) (bytes "WebServer.png")) := by
  have named : IsName (bytes "datum") := ⟨by decide, by decide⟩
  rw [append_append named (by decide)]
  exact inside_append (by decide) (by decide)

theorem inside_favicon_ico (docroot : Path) :
    Inside docroot (append docroot (bytes "favicon.ico")) :=
  inside_append (by decide) (by decide)

/-- The target as the last branch of `resolvePath` reads it: without one slash. -/
theorem resolvePath_doubleSlash (fs docroot) {requested rest}
    (doubled : stripQuery requested = slash :: slash :: rest) :
    resolvePath fs docroot requested = lexicallyNormal (slash :: rest) := by
  have absolute : isAbsolute (lexicallyNormal (slash :: rest)) = true := by
    rw [isAbsolute_lexicallyNormal]
    rfl
  have safe := pathIsSafe_of_dotDot (dotDot_lexicallyNormal (p := slash :: rest) rfl)
  have notIndex : ¬ (slash :: slash :: rest = [] ∨ slash :: slash :: rest = bytes "/") := by
    rintro (impossible | impossible)
    · cases impossible
    · cases (List.cons.inj impossible).2
  have notHello : slash :: slash :: rest ≠ bytes "/hello" := fun impossible =>
    absurd (List.cons.inj (List.cons.inj impossible).2).1 (by decide)
  have notFavicon : slash :: slash :: rest ≠ bytes "/favicon.ico" := fun impossible =>
    absurd (List.cons.inj (List.cons.inj impossible).2).1 (by decide)
  simp only [resolvePath, doubled, notIndex, notHello, notFavicon, if_false, List.head?_cons,
    if_true, List.drop_one, List.tail_cons, safe, append, absolute]

/-- Every other target resolves inside the document root, or not at all. -/
theorem resolvePath_inside {fs docroot requested}
    (single : ¬ [slash, slash] <+: stripQuery requested) :
    resolvePath fs docroot requested = [] ∨ Inside docroot (resolvePath fs docroot requested) := by
  unfold resolvePath
  extract_lets stripped target png ico erased relative
  have targetSingle : ¬ [slash, slash] <+: target := by
    show ¬ [slash, slash] <+: (if stripped = [] ∨ stripped = bytes "/" then _ else stripped)
    split
    · decide
    · exact single
  split
  · exact .inl rfl
  · split
    · refine .inr ?_
      split
      · exact inside_favicon_png docroot
      · split
        · exact inside_favicon_ico docroot
        · exact inside_favicon_png docroot
    · have erasedRelative : isAbsolute erased = false := by
        show isAbsolute (if target.head? = some slash then target.drop 1 else target) = false
        split
        · rename_i rooted
          cases targetIs : target with
          | nil => rfl
          | cons first rest =>
              rw [targetIs] at rooted targetSingle
              obtain rfl : first = slash := by simpa using rooted
              rw [List.drop_one, List.tail_cons, Bool.eq_false_iff]
              rintro absolute
              obtain ⟨tail, rfl⟩ := isAbsolute_iff.mp absolute
              exact targetSingle ⟨tail, rfl⟩
        · rename_i notRooted
          simpa only [isAbsolute, beq_eq_false_iff_ne] using notRooted
      split
      · rename_i safe
        exact .inr (inside_append (isAbsolute_lexicallyNormal.trans erasedRelative)
          (dotDot_of_pathIsSafe safe))
      · exact .inl rfl

/-- The path a target resolves to is empty or lexically inside the document
    root, and so is every file loaded for a request with this target. -/
def NeverEscapes (fs : FileSystem) (docroot : Path) (target : Bytes) : Prop :=
  (resolvePath fs docroot target = [] ∨ Inside docroot (resolvePath fs docroot target)) ∧
  ∀ request : HttpRequest, request.target = target →
    ∀ path ∈ (buildResponse fs docroot request).2, Inside docroot path

/-- The target, cut at its first `?`, does not start with two slashes, or the
    absolute path it spells from the second slash on happens to lie in the root. -/
def NamesInside (docroot : Path) (target : Bytes) : Prop :=
  ¬ [slash, slash] <+: stripQuery target ∨
    Inside docroot (lexicallyNormal ((stripQuery target).drop 1))

theorem neverEscapes_iff (fs : FileSystem) (docroot : Path) (target : Bytes) :
    NeverEscapes fs docroot target ↔ NamesInside docroot target := by
  have resolvedEnough :
      (resolvePath fs docroot target = [] ∨ Inside docroot (resolvePath fs docroot target)) →
        NeverEscapes fs docroot target := by
    refine fun resolved => ⟨resolved, ?_⟩
    rintro request rfl path member
    obtain ⟨rfl, nonempty⟩ := loaded_resolved member
    exact resolved.resolve_left nonempty
  by_cases doubled : [slash, slash] <+: stripQuery target
  · obtain ⟨rest, same⟩ := doubled
    have stripped : stripQuery target = slash :: slash :: rest := same.symm
    have resolved := resolvePath_doubleSlash fs docroot stripped
    have spelled : lexicallyNormal ((stripQuery target).drop 1) =
        resolvePath fs docroot target := by
      rw [resolved, stripped, List.drop_one, List.tail_cons]
    have nonempty : resolvePath fs docroot target ≠ [] := by
      rw [resolved, lexicallyNormal_absolute rfl]
      exact List.cons_ne_nil _ _
    constructor
    · rintro ⟨inside, -⟩
      exact .inr (spelled ▸ inside.resolve_left nonempty)
    · rintro (notDoubled | inside)
      · exact absurd ⟨rest, same⟩ notDoubled
      · exact resolvedEnough (.inr (spelled ▸ inside))
  · exact ⟨fun _ => .inl doubled, fun _ => resolvedEnough (resolvePath_inside doubled)⟩

/-- A file system without files. -/
def noFiles : FileSystem :=
  { fileExists := fun _ => false
    openRead := fun _ => false
    fstat := fun _ => none
    mmap := fun _ _ => none
    readAll := fun _ => none }

/-- A target with two leading slashes is served from the file system's root. -/
theorem doubleSlash_escapes :
    resolvePath noFiles (bytes "/srv/www") (bytes "//etc/passwd") = bytes "/etc/passwd" ∧
    ¬ NeverEscapes noFiles (bytes "/srv/www") (bytes "//etc/passwd") := by
  have resolved :
      resolvePath noFiles (bytes "/srv/www") (bytes "//etc/passwd") = bytes "/etc/passwd" := by
    decide
  refine ⟨resolved, ?_⟩
  rintro ⟨inside, -⟩
  rw [resolved] at inside
  obtain ⟨relative, isRelative, -, same⟩ := inside.resolve_left (by decide)
  rw [append_relative isRelative] at same
  have second : (bytes "/etc/passwd")[1]? = (bytes "/srv/www")[1]? := by
    rw [same]
    rfl
  exact absurd second (by decide)

end Corio.Coroutine
