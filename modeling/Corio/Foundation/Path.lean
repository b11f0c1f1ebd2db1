import Corio.Foundation.Text

/-! # `std::filesystem::path` on POSIX

A path is its native string. There are no root names, a leading slash is the
root directory and any run of slashes separates filenames.
-/

abbrev Corio.Path := Corio.Bytes

namespace Corio.Path

def slash : UInt8 := 47

def dot : Bytes := bytes "."

def dotDot : Bytes := bytes ".."

def isAbsolute (p : Path) : Bool := p.head? == some slash

def endsInSlash (p : Path) : Bool := p.getLast? == some slash

def hasFilename (p : Path) : Bool := decide (p ≠ []) && !endsInSlash p

/-- The filenames of a path in order, `.` and `..` among them. -/
def filenames (p : Path) : List Bytes := (p.splitOn slash).filter fun name => !name.isEmpty

/-- What iterating over a path yields: the root directory, the filenames, and an
    empty element for a trailing slash. -/
def parts (p : Path) : List Bytes :=
  (if isAbsolute p then [[slash]] else []) ++ filenames p
    ++ (if (filenames p).isEmpty || !endsInSlash p then [] else [[]])

/-- `lhs / rhs`. -/
def append (lhs rhs : Path) : Path :=
  if isAbsolute rhs then rhs
  else lhs ++ (if hasFilename lhs then [slash] else []) ++ rhs

/-- One filename met while normalising; the filenames kept are stacked with the
    last one on top. Directly below the root `..` means nothing. -/
def push (absolute : Bool) (kept : List Bytes) (name : Bytes) : List Bytes :=
  if name = dot then kept
  else if name = dotDot then
    match kept with
    | [] => if absolute then [] else [dotDot]
    | top :: below => if top = dotDot then dotDot :: top :: below else below
  else name :: kept

def normalNames (p : Path) : List Bytes :=
  ((filenames p).foldl (push (isAbsolute p)) []).reverse

/-- A path whose last filename is a directory by its spelling. -/
def namesDirectory (p : Path) : Bool :=
  endsInSlash p || (filenames p).getLast? == some dot || (filenames p).getLast? == some dotDot

/-- The slash that stays at the end of the normal form of a directory's name. -/
def trailing (p : Path) : Bytes :=
  if namesDirectory p && !(normalNames p).isEmpty && (normalNames p).getLast? != some dotDot then
    [slash]
  else []

/-- The normal form before an empty result is spelled as a dot. -/
def spelled (p : Path) : Path :=
  (if isAbsolute p then [slash] else []) ++ [slash].intercalate (normalNames p) ++ trailing p

/-- `p.lexically_normal()`. -/
def lexicallyNormal (p : Path) : Path :=
  if p = [] then [] else if spelled p = [] then dot else spelled p

example : lexicallyNormal (bytes "/a/./b//../c/.") = bytes "/a/c/" := by decide

theorem mem_filenames {p : Path} {name : Bytes} :
    name ∈ filenames p ↔ name ∈ p.splitOn slash ∧ name ≠ [] := by
  simp only [filenames, List.mem_filter, Bool.not_eq_true', List.isEmpty_eq_false_iff]

theorem filenames_append_slash (front back : Path) :
    filenames (front ++ slash :: back) = filenames front ++ filenames back := by
  simp only [filenames, List.splitOn_append_cons_self, List.filter_append]

@[simp] theorem filenames_nil : filenames [] = [] := by decide

theorem filenames_cons_slash (p : Path) : filenames (slash :: p) = filenames p := by
  simpa only [List.nil_append, filenames_nil] using filenames_append_slash [] p

theorem filenames_concat_slash (p : Path) : filenames (p ++ [slash]) = filenames p := by
  simpa only [filenames_nil, List.append_nil] using filenames_append_slash p []

/-- A filename is nonempty and free of slashes. -/
structure IsName (name : Bytes) : Prop where
  nonempty : name ≠ []
  noSlash : slash ∉ name

theorem filenames_name {name : Bytes} (h : IsName name) : filenames name = [name] := by
  simp only [filenames, List.splitOn_eq_singleton h.noSlash, List.filter_cons, List.filter_nil,
    Bool.not_eq_true', List.isEmpty_eq_false_iff]
  rw [if_pos h.nonempty]

theorem not_mem_of_mem_splitOn {p : Path} {name : Bytes} (member : name ∈ p.splitOn slash) :
    slash ∉ name := by
  induction p generalizing name with
  | nil =>
      obtain rfl : name = [] := by simpa using member
      simp
  | cons c p ih =>
      rw [List.splitOn_cons_eq_if_modifyHead] at member
      split at member
      · rcases List.mem_cons.mp member with rfl | later
        · simp
        · exact ih later
      · rename_i different
        cases names : p.splitOn slash with
        | nil => exact absurd names (List.splitOn_ne_nil _ _)
        | cons first rest =>
            rw [names] at member ih
            simp only [List.modifyHead_cons, List.mem_cons] at member
            rcases member with rfl | later
            · have notFirst : slash ∉ first := ih List.mem_cons_self
              have notHead : slash ≠ c := fun same => different (by simp [same])
              simp [notFirst, notHead]
            · exact ih (List.mem_cons_of_mem _ later)

theorem isName_of_mem {p : Path} {name : Bytes} (member : name ∈ filenames p) : IsName name :=
  ⟨(mem_filenames.mp member).2, not_mem_of_mem_splitOn (mem_filenames.mp member).1⟩

/-- Writing names between slashes and reading them back. -/
theorem filenames_intercalate {names : List Bytes} (all : ∀ name ∈ names, IsName name) :
    filenames ([slash].intercalate names) = names := by
  induction names with
  | nil => rfl
  | cons name rest ih =>
      have first := filenames_name (all name List.mem_cons_self)
      have others := ih fun other member => all other (List.mem_cons_of_mem _ member)
      cases rest with
      | nil => simpa using first
      | cons second rest =>
          rw [List.intercalate_cons_cons, List.append_assoc, List.singleton_append,
            filenames_append_slash, first, others]
          rfl

theorem push_mem {absolute : Bool} {kept : List Bytes} {name other : Bytes}
    (member : other ∈ push absolute kept name) : other ∈ kept ∨ other = name := by
  unfold push at member
  split at member
  · exact .inl member
  · split at member
    · rename_i _ up
      cases kept with
      | nil =>
          simp only at member
          split at member
          · cases member
          · obtain rfl := List.mem_singleton.mp member
            exact .inr up.symm
      | cons top below =>
          simp only at member
          split at member
          · rcases List.mem_cons.mp member with rfl | old
            · exact .inr up.symm
            · exact .inl old
          · exact .inl (List.mem_cons_of_mem _ member)
    · rcases List.mem_cons.mp member with rfl | old
      · exact .inr rfl
      · exact .inl old

theorem foldl_push_mem {absolute : Bool} {names kept : List Bytes} {other : Bytes}
    (member : other ∈ names.foldl (push absolute) kept) : other ∈ kept ∨ other ∈ names := by
  induction names generalizing kept with
  | nil => exact .inl member
  | cons name rest ih =>
      rcases ih member with pushed | later
      · rcases push_mem pushed with old | rfl
        · exact .inl old
        · exact .inr List.mem_cons_self
      · exact .inr (List.mem_cons_of_mem _ later)

theorem isName_normalNames {p : Path} {name : Bytes} (member : name ∈ normalNames p) :
    IsName name := by
  rcases foldl_push_mem (List.mem_reverse.mp member) with impossible | named
  · cases impossible
  · exact isName_of_mem named

/-- Below the root nothing climbs: no `..` is ever kept. -/
theorem foldl_push_absolute {names kept : List Bytes} (clean : dotDot ∉ kept) :
    dotDot ∉ names.foldl (push true) kept := by
  induction names generalizing kept with
  | nil => exact clean
  | cons name rest ih =>
      refine ih ?_
      unfold push
      split
      · exact clean
      · split
        · cases kept with
          | nil => simp
          | cons top below =>
              have notTop : top ≠ dotDot := fun same => clean (same ▸ List.mem_cons_self)
              simp only [notTop, if_false]
              exact fun old => clean (List.mem_cons_of_mem _ old)
        · rename_i notUp
          exact fun old => (List.mem_cons.mp old).elim (fun same => notUp same.symm) clean

theorem isAbsolute_iff {p : Path} : isAbsolute p = true ↔ ∃ rest, p = slash :: rest := by
  cases p with
  | nil => exact ⟨fun h => (nomatch h), fun h => (nomatch h.choose_spec)⟩
  | cons c rest =>
      simp only [isAbsolute, List.head?_cons, beq_iff_eq, Option.some.injEq, List.cons.injEq,
        exists_and_left, exists_eq', and_true]

theorem isAbsolute_append_name {name : Bytes} (h : IsName name) (rest : Bytes) :
    isAbsolute (name ++ rest) = false := by
  obtain ⟨c, tail, rfl⟩ := List.exists_cons_of_ne_nil h.nonempty
  have different : c ≠ slash := fun same => h.noSlash (same ▸ List.mem_cons_self)
  simpa only [isAbsolute, List.cons_append, List.head?_cons, beq_eq_false_iff_ne, ne_eq,
    Option.some.injEq] using different

theorem trailing_cases (p : Path) : trailing p = [] ∨ trailing p = [slash] := by
  unfold trailing
  split
  · exact .inr rfl
  · exact .inl rfl

theorem lexicallyNormal_absolute {p : Path} (absolute : isAbsolute p = true) :
    lexicallyNormal p = slash :: ([slash].intercalate (normalNames p) ++ trailing p) := by
  have nonempty : p ≠ [] := by
    rintro rfl
    cases absolute
  have same : spelled p = slash :: ([slash].intercalate (normalNames p) ++ trailing p) := by
    simp only [spelled, absolute, if_true, List.cons_append, List.nil_append]
  simp only [lexicallyNormal, nonempty, if_false, same, List.cons_ne_nil]

theorem lexicallyNormal_eq_nil {p : Path} : lexicallyNormal p = [] ↔ p = [] := by
  unfold lexicallyNormal
  split
  · rename_i none_
    exact iff_of_true rfl none_
  · rename_i some_
    refine iff_of_false ?_ some_
    split
    · decide
    · assumption

theorem isAbsolute_spelled_relative {p : Path} (relative : isAbsolute p = false) :
    isAbsolute (spelled p) = false := by
  simp only [spelled, relative, Bool.false_eq_true, if_false, List.nil_append]
  cases names : normalNames p with
  | nil =>
      have noTail : trailing p = [] := by simp [trailing, names]
      rw [noTail]
      rfl
  | cons name rest =>
      have named : IsName name := isName_normalNames (names ▸ List.mem_cons_self)
      cases rest with
      | nil =>
          rw [List.intercalate_singleton]
          exact isAbsolute_append_name named _
      | cons second rest =>
          rw [List.intercalate_cons_cons, List.append_assoc, List.append_assoc]
          exact isAbsolute_append_name named _

theorem isAbsolute_lexicallyNormal {p : Path} : isAbsolute (lexicallyNormal p) = isAbsolute p := by
  cases absolute : isAbsolute p with
  | true =>
      rw [lexicallyNormal_absolute absolute]
      rfl
  | false =>
      unfold lexicallyNormal
      split
      · rfl
      · split
        · decide
        · exact isAbsolute_spelled_relative absolute

/-- The normal form of an absolute path has no `..` left. -/
theorem dotDot_lexicallyNormal {p : Path} (absolute : isAbsolute p = true) :
    dotDot ∉ filenames (lexicallyNormal p) := by
  have names : filenames (lexicallyNormal p) = normalNames p := by
    rw [lexicallyNormal_absolute absolute, filenames_cons_slash]
    rcases trailing_cases p with none | one
    · rw [none, List.append_nil, filenames_intercalate fun _ => isName_normalNames]
    · rw [one, filenames_concat_slash, filenames_intercalate fun _ => isName_normalNames]
  rw [names, normalNames, absolute, List.mem_reverse]
  exact foldl_push_absolute (by simp)

/-- No part of a path is `..` exactly when no filename is. -/
theorem dotDot_mem_parts {p : Path} : dotDot ∈ parts p ↔ dotDot ∈ filenames p := by
  have notRoot : dotDot ≠ [slash] := by decide
  have notEmpty : dotDot ≠ [] := by decide
  simp only [parts, List.mem_append]
  constructor
  · rintro ((root | named) | trailing)
    · split at root
      · exact absurd (List.mem_singleton.mp root) notRoot
      · cases root
    · exact named
    · split at trailing
      · cases trailing
      · exact absurd (List.mem_singleton.mp trailing) notEmpty
  · exact fun named => .inl (.inr named)

/-- `p` is `base` followed by a relative path that never climbs. -/
def Inside (base p : Path) : Prop :=
  ∃ relative, isAbsolute relative = false ∧ dotDot ∉ filenames relative ∧ p = append base relative

theorem append_relative {base relative : Path} (h : isAbsolute relative = false) :
    append base relative = base ++ (if hasFilename base then [slash] else []) ++ relative := by
  simp only [append, h, Bool.false_eq_true, if_false]

/-- Descending twice is descending once. -/
theorem append_append {base first second : Path} (firstName : IsName first)
    (secondRelative : isAbsolute second = false) :
    append (append base first) second = append base (first ++ slash :: second) := by
  have firstRelative : isAbsolute first = false := by
    simpa using isAbsolute_append_name firstName []
  have named (front : Bytes) : hasFilename (front ++ first) = true := by
    have last := List.getLast?_eq_some_getLast firstName.nonempty
    have different : first.getLast firstName.nonempty ≠ slash :=
      fun same => firstName.noSlash (same ▸ List.getLast_mem _)
    simp only [hasFilename, ne_eq, List.append_eq_nil_iff, firstName.nonempty, and_false,
      not_false_eq_true, decide_true, endsInSlash, List.getLast?_append, last, Option.some_or,
      Bool.true_and, Bool.not_eq_true', beq_eq_false_iff_ne, Option.some.injEq, different]
  rw [append_relative firstRelative, append_relative secondRelative,
    append_relative (isAbsolute_append_name firstName _), named, if_pos rfl]
  simp only [List.append_assoc, List.singleton_append]

end Corio.Path
