import Mathlib.Data.List.Infix
import Mathlib.Data.List.TakeDrop

/-! # First occurrences, cuts and lines

Searching a list for a pattern, cutting it at the first separator, and reading
it as lines ended by a two-symbol separator. `block?` reads lines up to the
first blank one; `find?_double` ties it to the search for the separator written
twice, which is how line-oriented protocols look for the end of a header.
-/

namespace Corio.Find

variable {α : Type} [DecidableEq α]

/-- Offset of the first occurrence of `pat`. -/
def find? (pat : List α) : List α → Option Nat
  | [] => if pat = [] then some 0 else none
  | x :: xs => if pat <+: x :: xs then some 0 else (find? pat xs).map (· + 1)

theorem find?_some {pat s : List α} {i : Nat} (found : find? pat s = some i) :
    i ≤ s.length ∧ pat <+: s.drop i := by
  induction s generalizing i with
  | nil =>
      simp only [find?] at found
      split at found
      · obtain rfl := Option.some.inj found
        subst pat
        exact ⟨Nat.le_refl _, List.nil_prefix⟩
      · cases found
  | cons x xs ih =>
      simp only [find?] at found
      split at found
      · obtain rfl := Option.some.inj found
        exact ⟨Nat.zero_le _, by assumption⟩
      · obtain ⟨j, later, rfl⟩ := Option.map_eq_some_iff.mp found
        obtain ⟨le, here⟩ := ih later
        exact ⟨by simpa using le, by simpa using here⟩

theorem find?_first {pat s : List α} {i j : Nat} (found : find? pat s = some i)
    (before : j < i) : ¬ pat <+: s.drop j := by
  induction s generalizing i j with
  | nil =>
      have le := (find?_some found).1
      simp only [List.length_nil] at le
      omega
  | cons x xs ih =>
      simp only [find?] at found
      split at found
      · obtain rfl := Option.some.inj found
        omega
      · rename_i notHere
        obtain ⟨k, later, rfl⟩ := Option.map_eq_some_iff.mp found
        cases j with
        | zero => simpa using notHere
        | succ j => simpa using ih later (by omega)

theorem find?_none {pat s : List α} (absent : find? pat s = none) (j : Nat) (le : j ≤ s.length) :
    ¬ pat <+: s.drop j := by
  induction s generalizing j with
  | nil =>
      simp only [find?] at absent
      split at absent
      · cases absent
      · rename_i nonempty
        simpa using nonempty
  | cons x xs ih =>
      simp only [find?] at absent
      split at absent
      · cases absent
      · rename_i notHere
        cases j with
        | zero => simpa using notHere
        | succ j => simpa using ih (Option.map_eq_none_iff.mp absent) j (by simpa using le)

/-- The offset is characterised by an occurrence there and none before. -/
theorem find?_eq_some {pat s : List α} {i : Nat} (le : i ≤ s.length) (here : pat <+: s.drop i)
    (first : ∀ j < i, ¬ pat <+: s.drop j) : find? pat s = some i := by
  cases found : find? pat s with
  | none => exact absurd here (find?_none found i le)
  | some k =>
      have atLeast : ¬ i < k := fun lt => find?_first found lt here
      have atMost : ¬ k < i := fun lt => first k lt (find?_some found).2
      congr 1
      omega

/-- An occurrence stays the first one whatever is appended. -/
theorem find?_append {pat s : List α} {i : Nat} (found : find? pat s = some i) (t : List α) :
    find? pat (s ++ t) = some i := by
  obtain ⟨le, here⟩ := find?_some found
  have room : pat.length ≤ s.length - i := by
    simpa only [List.length_drop] using here.length_le
  refine find?_eq_some (by simp only [List.length_append]; omega) ?_ ?_
  · rw [List.drop_append_of_le_length le]
    exact here.trans (List.prefix_append _ _)
  · intro j before occurs
    rw [List.drop_append_of_le_length (by omega)] at occurs
    refine find?_first found before
      (List.prefix_of_prefix_length_le occurs (List.prefix_append _ _) ?_)
    simp only [List.length_drop]
    omega

theorem find?_none_iff {pat s : List α} : find? pat s = none ↔ ¬ pat <:+: s := by
  constructor
  · rintro absent ⟨front, back, rfl⟩
    refine find?_none absent front.length (by simp) ?_
    simp
  · intro free
    cases found : find? pat s with
    | none => rfl
    | some i =>
        exact absurd ((find?_some found).2.isInfix.trans (List.drop_suffix i s).isInfix) free

/-- A pattern is found where its first symbol first stands. -/
theorem find?_lead {x : α} {pat front : List α} (absent : x ∉ front) (back : List α) :
    find? (x :: pat) (front ++ (x :: pat ++ back)) = some front.length := by
  refine find?_eq_some (by simp) (by simp) fun j before occurs => absent ?_
  rw [List.drop_append_of_le_length (by omega), List.drop_eq_getElem_cons before] at occurs
  rw [(List.cons_prefix_cons.mp occurs).1]
  exact List.getElem_mem before

/-- A single symbol is found where it first stands. -/
theorem find?_symbol {x : α} {front : List α} (absent : x ∉ front) (back : List α) :
    find? [x] (front ++ x :: back) = some front.length :=
  find?_lead absent back

omit [DecidableEq α] in
/-- A pattern stands on one side of a symbol that is not in it. -/
theorem prefix_append_symbol {x : α} {pat : List α} (absent : x ∉ pat) (front back : List α) :
    pat <+: front ++ x :: back ↔ pat <+: front := by
  constructor
  · intro here
    rcases Nat.lt_or_ge front.length pat.length with longer | fits
    · have whole : front ++ [x] <+: pat := by
        refine List.prefix_of_prefix_length_le ⟨back, ?_⟩ here ?_
        · rw [List.append_assoc, List.singleton_append]
        · rwa [List.length_append, List.length_singleton]
      exact absurd (whole.subset (by simp)) absent
    · exact List.prefix_of_prefix_length_le here (List.prefix_append _ _) fits
  · intro here
    exact here.trans (List.prefix_append _ _)

theorem find?_across {x : α} {pat : List α} (absent : x ∉ pat) (nonempty : pat ≠ [])
    (front back : List α) :
    find? pat (front ++ x :: back) =
      (find? pat front).or ((find? pat back).map (· + (front.length + 1))) := by
  induction front with
  | nil =>
      have notHere : ¬ pat <+: x :: back :=
        mt (prefix_append_symbol absent [] back).mp (mt List.prefix_nil.mp nonempty)
      simp only [List.nil_append, find?, if_neg notHere, if_neg nonempty, Option.none_or,
        List.length_nil, Nat.zero_add]
  | cons c front ih =>
      have same := prefix_append_symbol absent (c :: front) back
      rw [List.cons_append] at same ⊢
      simp only [find?, ih, same]
      split
      · rfl
      · rw [Option.map_or, Option.map_map]
        rfl

/-- Cut at the first separator, which is dropped. -/
def cut? (sep s : List α) : Option (List α × List α) :=
  (find? sep s).map fun i => (s.take i, s.drop (i + sep.length))

theorem cut?_some {sep s front back : List α} (cut : cut? sep s = some (front, back)) :
    s = front ++ sep ++ back ∧ find? sep s = some front.length := by
  obtain ⟨i, found, same⟩ := Option.map_eq_some_iff.mp cut
  obtain ⟨rfl, rfl⟩ := Prod.mk.inj same
  obtain ⟨le, tail, here⟩ := find?_some found
  have length : (s.take i).length = i := List.length_take_of_le le
  refine ⟨?_, by rw [found, length]⟩
  have back : s.drop (i + sep.length) = tail := by
    rw [← List.drop_drop, ← here, List.drop_left]
  rw [back, List.append_assoc, here, List.take_append_drop]

theorem cut?_none {sep s : List α} : cut? sep s = none ↔ find? sep s = none := by
  simp only [cut?, Option.map_eq_none_iff]

theorem cut?_append {sep s front back : List α} (cut : cut? sep s = some (front, back))
    (t : List α) : cut? sep (s ++ t) = some (front, back ++ t) := by
  obtain ⟨rfl, found⟩ := cut?_some cut
  rw [cut?, find?_append found t, Option.map_some]
  congr 2
  · rw [List.append_assoc, List.append_assoc, List.take_left]
  · rw [List.append_assoc, ← List.length_append, List.drop_left]

theorem cut?_length {sep s front back : List α} (cut : cut? sep s = some (front, back)) :
    s.length = front.length + sep.length + back.length := by
  rw [(cut?_some cut).1]
  simp only [List.length_append]

/-- Cutting at a single symbol. -/
theorem cut?_symbol {x : α} {front : List α} (absent : x ∉ front) (back : List α) :
    cut? [x] (front ++ x :: back) = some (front, back) := by
  rw [cut?, find?_symbol absent, Option.map_some, List.take_left]
  simp

section Lines

variable {c d : α}

/-- Searching for a two-symbol separator, one symbol at a time. -/
theorem cut?_cons (x : α) (xs : List α) :
    cut? [c, d] (x :: xs) =
      if [c, d] <+: x :: xs then some ([], xs.drop 1)
      else (cut? [c, d] xs).map fun r => (x :: r.1, r.2) := by
  simp only [cut?, find?]
  split
  · rfl
  · cases find? [c, d] xs with
    | none => rfl
    | some i => rfl

theorem cut?_pair {front : List α} (distinct : c ≠ d) (free : ¬ [c, d] <:+: front)
    (back : List α) : cut? [c, d] (front ++ [c, d] ++ back) = some (front, back) := by
  induction front with
  | nil => simp [cut?_cons]
  | cons x front ih =>
      have tailFree : ¬ [c, d] <:+: front :=
        fun occurs => free (occurs.trans (List.suffix_cons x front).isInfix)
      have notHere : ¬ [c, d] <+: x :: (front ++ [c, d] ++ back) := by
        intro occurs
        obtain ⟨rfl, next⟩ := List.cons_prefix_cons.mp occurs
        cases front with
        | nil =>
            have := (List.cons_prefix_cons.mp next).1
            exact distinct this.symm
        | cons y front =>
            obtain ⟨rfl, -⟩ := List.cons_prefix_cons.mp next
            exact free ⟨[], front, rfl⟩
      simp only [List.cons_append, cut?_cons, notHere, if_false, ih tailFree, Option.map_some]

/-- The part before the cut does not contain the separator. -/
theorem cut?_free {s front back : List α} (cut : cut? [c, d] s = some (front, back)) :
    ¬ [c, d] <:+: front := by
  obtain ⟨rfl, found⟩ := cut?_some cut
  rintro ⟨before, after, rfl⟩
  refine find?_first found (j := before.length) (by simp) ?_
  simp

/-- The lines ended by the separator, and the unfinished rest. -/
def lines (c d : α) : List α → List (List α) × List α
  | [] => ([], [])
  | [x] => ([], [x])
  | x :: y :: rest =>
      if x = c ∧ y = d then
        let later := lines c d rest
        ([] :: later.1, later.2)
      else
        match lines c d (y :: rest) with
        | ([], unfinished) => ([], x :: unfinished)
        | (line :: later, unfinished) => ((x :: line) :: later, unfinished)

/-- Reading lines is cutting at the first separator, again and again. -/
theorem lines_eq_cut (s : List α) :
    lines c d s =
      match cut? [c, d] s with
      | none => ([], s)
      | some (line, later) => (line :: (lines c d later).1, (lines c d later).2) := by
  induction s with
  | nil => rfl
  | cons x xs ih =>
      cases xs with
      | nil => simp [lines, cut?, find?]
      | cons y rest =>
          rw [cut?_cons]
          by_cases here : x = c ∧ y = d
          · obtain ⟨rfl, rfl⟩ := here
            simp [lines]
          · have notHere : ¬ [c, d] <+: x :: y :: rest := by
              simp only [List.cons_prefix_cons, List.nil_prefix, and_true]
              rintro ⟨rfl, rfl⟩
              exact here ⟨rfl, rfl⟩
            simp only [lines, here, if_false, notHere, ih]
            cases cut? [c, d] (y :: rest) with
            | none => rfl
            | some r => rfl

/-- Lines up to the first blank line, which is dropped, and what follows it. The
    first line may itself be blank. -/
def block? (c d : α) (s : List α) : Option (List (List α) × List α) :=
  match _h : cut? [c, d] s with
  | none => none
  | some (line, later) =>
      if [c, d] <+: later then some ([line], later.drop 2)
      else (block? c d later).map fun r => (line :: r.1, r.2)
termination_by s.length
decreasing_by
  have := cut?_length _h
  simp only [List.length_cons, List.length_nil] at this
  omega

theorem block?_of_none {s : List α} (cut : cut? [c, d] s = none) : block? c d s = none := by
  rw [block?]
  split
  · rfl
  · rename_i found
    rw [cut] at found
    cases found

theorem block?_of_some {s line later : List α} (cut : cut? [c, d] s = some (line, later)) :
    block? c d s =
      if [c, d] <+: later then some ([line], later.drop 2)
      else (block? c d later).map fun r => (line :: r.1, r.2) := by
  rw [block?]
  split
  · rename_i none
    rw [cut] at none
    cases none
  · rename_i found
    rw [cut] at found
    obtain ⟨rfl, rfl⟩ := Prod.mk.inj (Option.some.inj found)
    rfl

/-- Induction along the successive cuts of a list. -/
theorem cut_induction {motive : List α → Prop}
    (unfinished : ∀ s, cut? [c, d] s = none → motive s)
    (line : ∀ s front back, cut? [c, d] s = some (front, back) → motive back → motive s)
    (s : List α) : motive s := by
  induction size : s.length using Nat.strong_induction_on generalizing s with
  | _ n ih =>
      cases cut : cut? [c, d] s with
      | none => exact unfinished s cut
      | some r =>
          obtain ⟨front, back⟩ := r
          have shorter := cut?_length cut
          simp only [List.length_cons, List.length_nil] at shorter
          exact line s front back cut (ih back.length (by omega) back rfl)

/-- Where the separator first occurs twice in a row. -/
theorem find?_double (distinct : c ≠ d) (s : List α) :
    find? [c, d, c, d] s =
      match cut? [c, d] s with
      | none => none
      | some (line, later) =>
          if [c, d] <+: later then some line.length
          else (find? [c, d, c, d] later).map (· + (line.length + 2)) := by
  induction s with
  | nil => rfl
  | cons x xs ih =>
      rw [cut?_cons, find?]
      by_cases here : [c, d] <+: x :: xs
      · obtain ⟨later, same⟩ := here
        simp only [List.cons_append, List.nil_append] at same
        obtain ⟨rfl, rfl⟩ := List.cons.inj same
        have notShifted : ¬ [c, d, c, d] <+: d :: later :=
          fun occurs => distinct (List.cons_prefix_cons.mp occurs).1
        have shift : find? [c, d, c, d] (d :: later) = (find? [c, d, c, d] later).map (· + 1) := by
          rw [find?, if_neg notShifted]
        by_cases again : [c, d] <+: later
        · simp [again]
        · simp only [List.cons_prefix_cons, List.nil_prefix, again, true_and, and_self,
            if_true, if_false, shift, Option.map_map, List.drop_one, List.tail_cons,
            List.length_nil, Nat.zero_add]
          rfl
      · have notTwice : ¬ [c, d, c, d] <+: x :: xs :=
          fun occurs => here (List.IsPrefix.trans ⟨[c, d], rfl⟩ occurs)
        simp only [here, notTwice, if_false, ih]
        cases cut? [c, d] xs with
        | none => rfl
        | some r =>
            obtain ⟨line, later⟩ := r
            simp only [Option.map_some]
            split
            · rfl
            · cases find? [c, d, c, d] later with
              | none => rfl
              | some i =>
                  simp only [Option.map_some, Option.some.injEq, List.length_cons]
                  omega

/-- The text of a list of lines, each ended by the separator. -/
def unlines (c d : α) (ls : List (List α)) : List α := ls.flatMap fun line => line ++ [c, d]

omit [DecidableEq α] in
theorem unlines_cons (line : List α) (ls : List (List α)) :
    unlines c d (line :: ls) = line ++ [c, d] ++ unlines c d ls := by
  simp only [unlines, List.flatMap_cons]

/-- What a block was cut from. -/
theorem block?_some {s rest : List α} {ls : List (List α)} (read : block? c d s = some (ls, rest)) :
    ls ≠ [] ∧ s = unlines c d ls ++ [c, d] ++ rest := by
  induction s using cut_induction (c := c) (d := d) generalizing ls with
  | unfinished s cut =>
      rw [block?_of_none cut] at read
      cases read
  | line s front back cut ih =>
      rw [block?_of_some cut] at read
      have whole := (cut?_some cut).1
      split at read
      · rename_i blank
        obtain ⟨tail, rfl⟩ := blank
        obtain ⟨rfl, rfl⟩ := Prod.mk.inj (Option.some.inj read)
        exact ⟨List.cons_ne_nil _ _, by rw [whole]; simp [unlines]⟩
      · obtain ⟨⟨ls, rest⟩, later, same⟩ := Option.map_eq_some_iff.mp read
        obtain ⟨rfl, rfl⟩ := Prod.mk.inj same
        refine ⟨List.cons_ne_nil _ _, ?_⟩
        rw [whole, unlines_cons, (ih later).2]
        simp only [List.append_assoc]

omit [DecidableEq α] in
/-- A line with a symbol of its own does not look like a blank one. -/
theorem not_blank {line : List α} (distinct : c ≠ d) (nonempty : line ≠ [])
    (free : ¬ [c, d] <:+: line) (back : List α) : ¬ [c, d] <+: line ++ [c, d] ++ back := by
  intro blank
  obtain ⟨x, line, rfl⟩ := List.exists_cons_of_ne_nil nonempty
  obtain ⟨rfl, next⟩ := List.cons_prefix_cons.mp blank
  cases line with
  | nil => exact distinct (List.cons_prefix_cons.mp next).1.symm
  | cons y line =>
      obtain ⟨rfl, -⟩ := List.cons_prefix_cons.mp next
      exact free ⟨[], line, rfl⟩

/-- Lines that are not blank, apart from the first, are read off the front. -/
theorem block?_unlines_append {first : List α} {others : List (List α)} (distinct : c ≠ d)
    (firstFree : ¬ [c, d] <:+: first)
    (othersFree : ∀ line ∈ others, line ≠ [] ∧ ¬ [c, d] <:+: line) (back : List α) :
    block? c d (unlines c d (first :: others) ++ back) =
      if [c, d] <+: back then some (first :: others, back.drop 2)
      else (block? c d back).map fun r => (first :: others ++ r.1, r.2) := by
  induction others generalizing first with
  | nil =>
      have cut : cut? [c, d] (unlines c d [first] ++ back) = some (first, back) := by
        rw [unlines_cons, List.append_assoc]
        exact cut?_pair distinct firstFree _
      rw [block?_of_some cut]
      rfl
  | cons line others ih =>
      obtain ⟨⟨nonempty, free⟩, later⟩ := List.forall_mem_cons.mp othersFree
      have cut : cut? [c, d] (unlines c d (first :: line :: others) ++ back) =
          some (first, unlines c d (line :: others) ++ back) := by
        rw [unlines_cons, List.append_assoc]
        exact cut?_pair distinct firstFree _
      have notBlank : ¬ [c, d] <+: unlines c d (line :: others) ++ back := by
        rw [unlines_cons, List.append_assoc]
        exact not_blank distinct nonempty free _
      rw [block?_of_some cut, if_neg notBlank, ih free later]
      split
      · rfl
      · cases block? c d back <;> rfl

/-- Lines written one after the other and closed by a blank one are read back. -/
theorem block?_unlines {first : List α} {others : List (List α)} (distinct : c ≠ d)
    (firstFree : ¬ [c, d] <:+: first)
    (othersFree : ∀ line ∈ others, line ≠ [] ∧ ¬ [c, d] <:+: line) (rest : List α) :
    block? c d (unlines c d (first :: others) ++ [c, d] ++ rest) =
      some (first :: others, rest) := by
  rw [List.append_assoc, block?_unlines_append distinct firstFree othersFree,
    if_pos (List.prefix_append _ _)]
  rfl

/-- The lines and the rest are the text they were read from. -/
theorem lines_whole (s : List α) :
    s = unlines c d (lines c d s).1 ++ (lines c d s).2 ∧
    (∀ line ∈ (lines c d s).1, ¬ [c, d] <:+: line) ∧ ¬ [c, d] <:+: (lines c d s).2 := by
  induction s using cut_induction (c := c) (d := d) with
  | unfinished s cut =>
      rw [lines_eq_cut, cut]
      exact ⟨rfl, by simp, find?_none_iff.mp (cut?_none.mp cut)⟩
  | line s front back cut ih =>
      rw [lines_eq_cut, cut]
      obtain ⟨whole, free, unfinishedFree⟩ := ih
      refine ⟨?_, List.forall_mem_cons.mpr ⟨cut?_free cut, free⟩, unfinishedFree⟩
      rw [(cut?_some cut).1, unlines_cons, List.append_assoc, List.append_assoc,
        List.append_assoc, ← whole]

/-- Without a whole block no line after the first one is blank. -/
theorem lines_of_block?_none {s first : List α} {others : List (List α)} {unfinished : List α}
    (open_ : block? c d s = none) (read : lines c d s = (first :: others, unfinished)) :
    ∀ line ∈ others, line ≠ [] := by
  induction s using cut_induction (c := c) (d := d) generalizing first others with
  | unfinished s cut =>
      rw [lines_eq_cut, cut] at read
      cases (Prod.mk.inj read).1
  | line s front back cut ih =>
      rw [lines_eq_cut, cut] at read
      rw [block?_of_some cut] at open_
      split at open_
      · cases open_
      · rename_i notBlank
        obtain ⟨sameLines, sameRest⟩ := Prod.mk.inj read
        obtain ⟨rfl, later⟩ := List.cons.inj sameLines
        cases others with
        | nil => simp
        | cons second others =>
            refine List.forall_mem_cons.mpr ⟨?_, ?_⟩
            · rintro rfl
              apply notBlank
              rw [(lines_whole (c := c) (d := d) back).1, later, unlines_cons]
              exact ⟨unlines c d others ++ (lines c d back).2, by simp⟩
            · exact ih (Option.map_eq_none_iff.mp open_) (Prod.ext later sameRest)

/-- No line of a block holds a separator, and none but the first is blank. -/
theorem block?_lines {s rest first : List α} {others : List (List α)}
    (read : block? c d s = some (first :: others, rest)) :
    ¬ [c, d] <:+: first ∧ ∀ line ∈ others, line ≠ [] ∧ ¬ [c, d] <:+: line := by
  induction s using cut_induction (c := c) (d := d) generalizing first others with
  | unfinished s cut =>
      rw [block?_of_none cut] at read
      cases read
  | line s front back cut ih =>
      rw [block?_of_some cut] at read
      split at read
      · obtain ⟨same, -⟩ := Prod.mk.inj (Option.some.inj read)
        obtain ⟨rfl, rfl⟩ := List.cons.inj same
        exact ⟨cut?_free cut, by simp⟩
      · rename_i notBlank
        obtain ⟨⟨ls, rest'⟩, later, same⟩ := Option.map_eq_some_iff.mp read
        obtain ⟨sameLines, rfl⟩ := Prod.mk.inj same
        obtain ⟨rfl, rfl⟩ := List.cons.inj sameLines
        obtain ⟨nonempty, whole⟩ := block?_some later
        obtain ⟨second, others, rfl⟩ := List.exists_cons_of_ne_nil nonempty
        obtain ⟨secondFree, othersFree⟩ := ih later
        refine ⟨cut?_free cut, List.forall_mem_cons.mpr ⟨⟨?_, secondFree⟩, othersFree⟩⟩
        rintro rfl
        rw [whole, unlines_cons] at notBlank
        exact notBlank ⟨unlines c d others ++ ([c, d] ++ rest'), by simp⟩

/-- Another text with the same lines up to a blank one. -/
theorem block?_replace {s rest : List α} {ls : List (List α)} (distinct : c ≠ d)
    (read : block? c d s = some (ls, rest)) (other : List α) :
    block? c d (unlines c d ls ++ [c, d] ++ other) = some (ls, other) := by
  obtain ⟨first, others, rfl⟩ := List.exists_cons_of_ne_nil (block?_some read).1
  obtain ⟨firstFree, othersFree⟩ := block?_lines read
  exact block?_unlines distinct firstFree othersFree other

/-- The first line of a block, and whether it is the only one. -/
theorem block?_first {s rest line : List α} {ls : List (List α)}
    (read : block? c d s = some (line :: ls, rest)) :
    ∃ later, cut? [c, d] s = some (line, later) ∧
      (ls = [] ∧ later = [c, d] ++ rest ∨
        ¬ [c, d] <+: later ∧ block? c d later = some (ls, rest)) := by
  cases cut : cut? [c, d] s with
  | none =>
      rw [block?_of_none cut] at read
      cases read
  | some r =>
      obtain ⟨front, back⟩ := r
      rw [block?_of_some cut] at read
      split at read
      · rename_i blank
        obtain ⟨tail, rfl⟩ := blank
        obtain ⟨same, rfl⟩ := Prod.mk.inj (Option.some.inj read)
        obtain ⟨rfl, rfl⟩ := List.cons.inj same
        exact ⟨_, rfl, .inl ⟨rfl, by simp⟩⟩
      · rename_i notBlank
        obtain ⟨⟨others, tail⟩, later, same⟩ := Option.map_eq_some_iff.mp read
        obtain ⟨sameLines, rfl⟩ := Prod.mk.inj same
        obtain ⟨rfl, rfl⟩ := List.cons.inj sameLines
        exact ⟨back, rfl, .inr ⟨notBlank, later⟩⟩

theorem block?_length {s rest : List α} {ls : List (List α)}
    (read : block? c d s = some (ls, rest)) :
    s.length = (unlines c d ls).length + 2 + rest.length := by
  conv_lhs => rw [(block?_some read).2]
  simp only [List.length_append, List.length_cons, List.length_nil]

/-- The block ends where the separator first stands twice in a row. -/
theorem find?_double_eq_block (distinct : c ≠ d) (s : List α) :
    find? [c, d, c, d] s = (block? c d s).map fun r => (unlines c d r.1).length - 2 := by
  induction s using cut_induction (c := c) (d := d) with
  | unfinished s cut => rw [find?_double distinct, cut, block?_of_none cut]; rfl
  | line s front back cut ih =>
      rw [find?_double distinct, cut, block?_of_some cut]
      simp only
      split
      · simp [unlines]
      · rw [ih, Option.map_map, Option.map_map]
        cases later : block? c d back with
        | none => rfl
        | some r =>
            obtain ⟨ls, rest⟩ := r
            obtain ⟨first, others, rfl⟩ := List.exists_cons_of_ne_nil (block?_some later).1
            simp only [Option.map_some, Function.comp_apply, Option.some.injEq, unlines_cons,
              List.length_append, List.length_cons, List.length_nil]
            omega

/-- Lines up to a blank one are what comes before the separator written twice. -/
theorem cut?_double {s rest : List α} {ls : List (List α)} (distinct : c ≠ d)
    (read : block? c d s = some (ls, rest)) :
    ∃ front, cut? [c, d, c, d] s = some (front, rest) ∧ front ++ [c, d] = unlines c d ls := by
  have found := find?_double_eq_block distinct s
  rw [read, Option.map_some] at found
  obtain ⟨nonempty, whole⟩ := block?_some read
  obtain ⟨line, others, rfl⟩ := List.exists_cons_of_ne_nil nonempty
  have long : 2 ≤ (unlines c d (line :: others)).length := by
    simp only [unlines_cons, List.length_append, List.length_cons, List.length_nil]
    omega
  obtain ⟨⟨front, back⟩, cut⟩ := Option.isSome_iff_exists.mp
    (show (cut? [c, d, c, d] s).isSome by rw [cut?, found]; rfl)
  obtain ⟨split, place⟩ := cut?_some cut
  have size : front.length = (unlines c d (line :: others)).length - 2 :=
    Option.some.inj (place.symm.trans found)
  have same : (front ++ [c, d]) ++ ([c, d] ++ back) =
      unlines c d (line :: others) ++ ([c, d] ++ rest) := by
    calc (front ++ [c, d]) ++ ([c, d] ++ back) = front ++ [c, d, c, d] ++ back := by simp
      _ = unlines c d (line :: others) ++ ([c, d] ++ rest) := by
          rw [← split, whole, List.append_assoc]
  obtain ⟨ends, later⟩ := List.append_inj same (by
    simp only [List.length_append, List.length_cons, List.length_nil]
    omega)
  obtain rfl := List.append_cancel_left later
  exact ⟨front, cut, ends⟩

/-- Lines without a separator in them are read back. -/
theorem lines_unlines (distinct : c ≠ d) {ls : List (List α)}
    (free : ∀ line ∈ ls, ¬ [c, d] <:+: line) : lines c d (unlines c d ls) = (ls, []) := by
  induction ls with
  | nil => rfl
  | cons line others ih =>
      obtain ⟨lineFree, othersFree⟩ := List.forall_mem_cons.mp free
      rw [unlines_cons, lines_eq_cut, cut?_pair distinct lineFree]
      simp only [ih othersFree]

/-- A block stays what it is whatever follows it. -/
theorem block?_append {s rest : List α} {ls : List (List α)}
    (read : block? c d s = some (ls, rest)) (t : List α) :
    block? c d (s ++ t) = some (ls, rest ++ t) := by
  induction s using cut_induction (c := c) (d := d) generalizing ls with
  | unfinished s cut =>
      rw [block?_of_none cut] at read
      cases read
  | line s front back cut ih =>
      rw [block?_of_some cut] at read
      rw [block?_of_some (cut?_append cut t)]
      split at read
      · rename_i blank
        obtain ⟨tail, rfl⟩ := blank
        obtain ⟨rfl, rfl⟩ := Prod.mk.inj (Option.some.inj read)
        simp
      · rename_i notBlank
        obtain ⟨⟨ls, rest⟩, later, same⟩ := Option.map_eq_some_iff.mp read
        obtain ⟨rfl, rfl⟩ := Prod.mk.inj same
        -- `back` holds a whole block, so its first two symbols are there to be compared.
        have long : [c, d].length ≤ back.length := by
          have := block?_length later
          simp only [List.length_cons, List.length_nil]
          omega
        have stillNot : ¬ [c, d] <+: back ++ t := fun blank =>
          notBlank (List.prefix_of_prefix_length_le blank (List.prefix_append _ _) long)
        rw [if_neg stillNot, ih later]
        rfl

end Lines

end Corio.Find
