import Mathlib.Data.List.Nodup

/-! # Finite maps in insertion order

Association lists whose keys are distinct by construction. `emplace` keeps the
first value of a key and `assign` the last one.
-/

namespace Corio

structure Dict (κ ν : Type) where
  entries : List (κ × ν)
  distinct : (entries.map Prod.fst).Nodup
  deriving DecidableEq, Repr

namespace Dict

variable {κ ν : Type} [DecidableEq κ]

def empty : Dict κ ν := ⟨[], List.nodup_nil⟩

def find? (d : Dict κ ν) (key : κ) : Option ν := d.entries.lookup key

theorem lookup_none {key : κ} {entries : List (κ × ν)} :
    entries.lookup key = none ↔ key ∉ entries.map Prod.fst := by
  simp only [List.lookup_eq_none_iff, List.mem_map, not_exists, not_and, bne_iff_ne, ne_eq]
  constructor
  · intro absent entry member same
    exact absent entry member same.symm
  · intro absent entry member same
    exact absent entry member same.symm

theorem mem_of_find? {d : Dict κ ν} {key : κ} {value : ν} (found : d.find? key = some value) :
    (key, value) ∈ d.entries := by
  obtain ⟨before, after, same, -⟩ := List.lookup_eq_some_iff.mp found
  rw [same]
  exact List.mem_append_right _ List.mem_cons_self

theorem find?_of_mem {d : Dict κ ν} {key : κ} {value : ν} (member : (key, value) ∈ d.entries) :
    d.find? key = some value := by
  cases found : d.find? key with
  | none => exact absurd (List.mem_map_of_mem (f := Prod.fst) member) (lookup_none.mp found)
  | some other =>
      have same := List.inj_on_of_nodup_map d.distinct (mem_of_find? found) member rfl
      rw [(Prod.mk.inj same).2]

/-- `try_emplace`: a key that is present keeps its value. -/
def emplace (d : Dict κ ν) (key : κ) (value : ν) : Dict κ ν :=
  if fresh : key ∈ d.entries.map Prod.fst then d
  else
    { entries := d.entries ++ [(key, value)]
      distinct := by
        rw [List.map_append, List.nodup_append]
        refine ⟨d.distinct, List.nodup_singleton _, ?_⟩
        intro a member b single
        obtain rfl := List.mem_singleton.mp single
        exact fun same => fresh (same ▸ member) }

/-- `d[key] = value`. -/
def assign (d : Dict κ ν) (key : κ) (value : ν) : Dict κ ν :=
  if key ∈ d.entries.map Prod.fst then
    { entries := d.entries.map fun entry => if entry.1 = key then (key, value) else entry
      distinct := by
        have keys : (d.entries.map fun entry => if entry.1 = key then (key, value) else entry).map
            Prod.fst = d.entries.map Prod.fst := by
          rw [List.map_map]
          refine List.map_congr_left fun entry _ => ?_
          simp only [Function.comp_apply]
          split
          · rename_i same
            exact same.symm
          · rfl
        rw [keys]
        exact d.distinct }
  else d.emplace key value

@[simp] theorem find?_empty (key : κ) : (empty : Dict κ ν).find? key = none := rfl

theorem entries_emplace {d : Dict κ ν} {key : κ} (fresh : key ∉ d.entries.map Prod.fst)
    (value : ν) : (d.emplace key value).entries = d.entries ++ [(key, value)] := by
  simp only [emplace, fresh, dite_false]

/-- What an emplace leaves to be found. -/
theorem find?_emplace (d : Dict κ ν) (key other : κ) (value : ν) :
    (d.emplace key value).find? other =
      (d.find? other).or (if other = key then some value else none) := by
  by_cases present : key ∈ d.entries.map Prod.fst
  · have kept : d.emplace key value = d := by simp only [emplace, present, dite_true]
    rw [kept]
    by_cases same : other = key
    · subst other
      cases found : d.find? key with
      | none => exact absurd present (lookup_none.mp found)
      | some v => rfl
    · simp only [same, if_false, Option.or_none]
  · simp only [find?, entries_emplace present, List.lookup_append, List.lookup_cons,
      List.lookup_nil]
    by_cases same : other = key
    · subst other; simp
    · simp [same, beq_false_of_ne same]

/-- The entries of an assignment to a key that is present. -/
def replace (key : κ) (value : ν) (entries : List (κ × ν)) : List (κ × ν) :=
  entries.map fun entry => if entry.1 = key then (key, value) else entry

theorem lookup_replace_self {key : κ} {entries : List (κ × ν)} (value : ν)
    (present : key ∈ entries.map Prod.fst) :
    (replace key value entries).lookup key = some value := by
  induction entries with
  | nil => cases present
  | cons entry entries ih =>
      obtain ⟨first, held⟩ := entry
      simp only [List.map_cons, List.mem_cons] at present
      by_cases here : first = key
      · simp [replace, here]
      · have later := ih (present.resolve_left (Ne.symm here))
        rw [replace] at later
        simp only [replace, List.map_cons, if_neg here, List.lookup_cons,
          beq_false_of_ne (Ne.symm here), later]

theorem lookup_replace_other {key other : κ} (entries : List (κ × ν)) (value : ν)
    (distinct : other ≠ key) : (replace key value entries).lookup other = entries.lookup other := by
  induction entries with
  | nil => rfl
  | cons entry entries ih =>
      obtain ⟨first, held⟩ := entry
      rw [replace] at ih
      by_cases here : first = key
      · subst first
        simp only [replace, List.map_cons, if_true, List.lookup_cons, beq_false_of_ne distinct, ih]
      · simp only [replace, List.map_cons, if_neg here, List.lookup_cons, ih]

/-- What an assignment leaves to be found. -/
theorem find?_assign (d : Dict κ ν) (key other : κ) (value : ν) :
    (d.assign key value).find? other = if other = key then some value else d.find? other := by
  by_cases present : key ∈ d.entries.map Prod.fst
  · have entries : (d.assign key value).entries = replace key value d.entries := by
      rw [assign, if_pos present]
      rfl
    rw [find?, entries]
    split
    · rename_i same
      rw [same]
      exact lookup_replace_self value present
    · rename_i distinct
      exact lookup_replace_other d.entries value distinct
  · have absent : d.find? key = none := lookup_none.mpr present
    rw [assign, if_neg present, find?_emplace]
    split
    · rename_i same
      rw [same, absent]
      rfl
    · rw [Option.or_none]

end Dict

end Corio
