import Corio.Foundation.Machine
import Mathlib.Data.List.Nodup
import Mathlib.Logic.Function.Basic

/-! # Who closes a descriptor

Objects of `UniqueFd` that are constructed, moved, reset and destroyed in any order. What they
hold is theirs alone, so each descriptor is closed by the one that has it, and by no other.
-/

namespace Corio.Coroutine

structure UniqueFd where
  /-- There is none for a negative number. -/
  fd : Option Nat := none
  direct : Bool := false
  deriving DecidableEq, Repr

/-- The objects by their addresses, and what is open. -/
structure Handles where
  objects : Nat → Option UniqueFd
  opened : List Nat
  /-- Open, and given away by `release`. -/
  released : List Nat
  /-- `close` was called for a descriptor that was not open. -/
  strayed : Bool

inductive HandleStep where
  /-- `UniqueFd(fd, direct)`, for a descriptor that is new or was released. -/
  | construct (i : Nat) (u : UniqueFd)
  | move (i other : Nat)
  | assign (i other : Nat)
  | destroy (i : Nat)
  | release (i : Nat)
  | reset (i : Nat) (u : UniqueFd)
  /-- With the result of `dup`. -/
  | duplicate (i other : Nat) (result : Option Nat)

namespace Handles

def set (s : Handles) (i : Nat) (u : Option UniqueFd) : Handles :=
  { s with objects := Function.update s.objects i u }

/-- What an object holds. -/
def held (s : Handles) (i : Nat) : Option Nat := (s.objects i).bind UniqueFd.fd

def close (s : Handles) (fd : Nat) : Handles :=
  if fd ∈ s.opened then { s with opened := s.opened.erase fd } else { s with strayed := true }

/-- `if (fd_ >= 0) ::close(fd_)`. -/
def drop (s : Handles) (fd : Option Nat) : Handles :=
  match fd with
  | none => s
  | some fd => s.close fd

/-- The kernel opens a descriptor, or fails to. -/
def fresh (s : Handles) (fd : Option Nat) : Option Handles :=
  match fd with
  | none => some s
  | some fd => if fd ∈ s.opened then none else some { s with opened := fd :: s.opened }

/-- A descriptor that no object holds, not even the one that gets it: `reset` to its own one
    closes it, and it is closed once more with the object. -/
def take (s : Handles) (fd : Option Nat) : Option Handles :=
  match fd with
  | none => some s
  | some released =>
      if released ∈ s.released then some { s with released := s.released.erase released }
      else s.fresh fd

def step (s : Handles) : HandleStep → Option Handles
  | .construct i u =>
      if s.objects i = none then (s.take u.fd).map fun s => s.set i (some u) else none
  | .move i other =>
      if s.objects i = none then
        (s.objects other).map fun u => (s.set other (some { u with fd := none })).set i (some u)
      else none
  | .assign i other =>
      if i = other then some s
      else
        (s.objects i).bind fun u => (s.objects other).map fun v =>
          ((s.drop u.fd).set other (some { v with fd := none })).set i (some v)
  | .destroy i => (s.objects i).map fun u => (s.drop u.fd).set i none
  | .release i =>
      (s.objects i).map fun u =>
        { s with released := u.fd.toList ++ s.released }.set i (some {})
  | .reset i u =>
      -- The new descriptor was there before the old one is closed.
      (s.objects i).bind fun old => (s.take u.fd).map fun s => (s.drop old.fd).set i (some u)
  | .duplicate i other result =>
      if s.objects i = none then
        (s.objects other).bind fun v =>
          if v.fd = none then some (s.set i (some {}))
          else (s.fresh result).map fun s => s.set i (some ⟨result, v.direct⟩)
      else none

end Handles

def handles : Machine Handles HandleStep where
  init := ⟨fun _ => none, [], [], false⟩
  step := Handles.step

/-- What is open was released or is held, by one object, up to descriptors that are between two
    objects. -/
structure Owned (s : Handles) (loose : List Nat) : Prop where
  opened : ∀ fd, fd ∈ s.opened ↔ fd ∈ s.released ∨ (∃ i, s.held i = some fd) ∨ fd ∈ loose
  once : ∀ i j fd, s.held i = some fd → s.held j = some fd → i = j
  apart : ∀ i fd, s.held i = some fd → fd ∉ s.released
  free : ∀ fd ∈ loose, fd ∉ s.released ∧ ∀ i, s.held i ≠ some fd
  between : loose.Nodup
  distinct : s.opened.Nodup
  given : s.released.Nodup
  own : s.strayed = false

section Objects

open Handles

variable {s s' : Handles} {loose : List Nat} {fd : Option Nat} {i other : Nat} {u : Option UniqueFd}

theorem held_set (s : Handles) (i : Nat) (u : Option UniqueFd) (j : Nat) :
    (s.set i u).held j = if j = i then u.bind UniqueFd.fd else s.held j := by
  simp only [held, Handles.set, Function.update_apply]
  split <;> rfl

theorem drop_objects (s : Handles) (fd : Option Nat) :
    (s.drop fd).objects = s.objects ∧ (s.drop fd).released = s.released := by
  unfold drop close
  cases fd with
  | none => exact ⟨rfl, rfl⟩
  | some fd => simp only; split <;> exact ⟨rfl, rfl⟩

theorem fresh_objects (opens : s.fresh fd = some s') : s'.objects = s.objects := by
  unfold fresh at opens
  cases fd with
  | none => exact Option.some.inj opens ▸ rfl
  | some fd =>
      simp only at opens
      split at opens
      · cases opens
      · exact Option.some.inj opens ▸ rfl

theorem take_objects (taken : s.take fd = some s') : s'.objects = s.objects := by
  unfold take at taken
  cases fd with
  | none => exact Option.some.inj taken ▸ rfl
  | some fd =>
      simp only at taken
      split at taken
      · exact Option.some.inj taken ▸ rfl
      · exact fresh_objects taken

theorem set_twice (s : Handles) (i : Nat) (u v : Option UniqueFd) :
    (s.set i u).set i v = s.set i v := by
  simp only [Handles.set, Function.update_idem]

theorem set_across (s : Handles) (apart : i ≠ other) (u v w : Option UniqueFd) :
    ((s.set i u).set other v).set i w = (s.set other v).set i w := by
  simp only [Handles.set, Function.update_comm apart.symm, Function.update_idem]

/-- What an object held is between two objects, when it holds nothing any more. -/
theorem Owned.loosen (owned : Owned s loose) (holds : s.held i = fd)
    (empty : u.bind UniqueFd.fd = none) : Owned (s.set i u) (fd.toList ++ loose) := by
  have held : ∀ j fd', (s.set i u).held j = some fd' ↔ j ≠ i ∧ s.held j = some fd' := by
    intro j fd'
    rw [held_set]
    by_cases same : j = i
    · simp [same, empty]
    · simp [same]
  have mem : ∀ fd', fd' ∈ fd.toList ++ loose ↔ s.held i = some fd' ∨ fd' ∈ loose := by
    intro fd'
    rw [List.mem_append, Option.mem_toList, holds]
  refine ⟨fun fd' => ?_, fun j k fd' first second => ?_, fun j fd' first => ?_,
    fun fd' member => ?_, ?_, owned.distinct, owned.given, owned.own⟩
  · rw [mem]
    refine (owned.opened fd').trans ⟨?_, ?_⟩
    · rintro (released | ⟨j, first⟩ | loose)
      · exact .inl released
      · by_cases same : j = i
        · exact .inr (.inr (.inl (same ▸ first)))
        · exact .inr (.inl ⟨j, (held j fd').mpr ⟨same, first⟩⟩)
      · exact .inr (.inr (.inr loose))
    · rintro (released | ⟨j, first⟩ | first | loose)
      · exact .inl released
      · exact .inr (.inl ⟨j, ((held j fd').mp first).2⟩)
      · exact .inr (.inl ⟨i, first⟩)
      · exact .inr (.inr loose)
  · exact owned.once j k fd' ((held j fd').mp first).2 ((held k fd').mp second).2
  · exact owned.apart j fd' ((held j fd').mp first).2
  · rcases (mem fd').mp member with here | loose
    · refine ⟨owned.apart i fd' here, fun j first => ?_⟩
      obtain ⟨other, first⟩ := (held j fd').mp first
      exact other (owned.once j i fd' first here)
    · refine ⟨(owned.free fd' loose).1, fun j first => ?_⟩
      exact (owned.free fd' loose).2 j ((held j fd').mp first).2
  · cases fd with
    | none => exact owned.between
    | some fd =>
        refine List.nodup_cons.mpr ⟨fun loose => ?_, owned.between⟩
        exact (owned.free fd loose).2 i holds

/-- What is between two objects gets to one that holds nothing. -/
theorem Owned.place (owned : Owned s (fd.toList ++ loose)) (nothing : s.held i = none)
    (holds : u.bind UniqueFd.fd = fd) : Owned (s.set i u) loose := by
  have held : ∀ j fd', (s.set i u).held j = some fd' ↔
      s.held j = some fd' ∨ j = i ∧ fd = some fd' := by
    intro j fd'
    rw [held_set]
    by_cases same : j = i
    · simp [same, holds, nothing]
    · simp [same]
  have mem : ∀ fd', fd' ∈ fd.toList ++ loose ↔ fd = some fd' ∨ fd' ∈ loose := by
    intro fd'
    rw [List.mem_append, Option.mem_toList]
  have lasting : ∀ fd' ∈ loose, fd ≠ some fd' := by
    rintro fd' later rfl
    exact (List.nodup_cons.mp owned.between).1 later
  refine ⟨fun fd' => (owned.opened fd').trans ⟨?_, ?_⟩, fun j k fd' first second => ?_,
    fun j fd' first => ?_, fun fd' later => ?_, ?_, owned.distinct, owned.given, owned.own⟩
  · rintro (released | ⟨j, first⟩ | between)
    · exact .inl released
    · exact .inr (.inl ⟨j, (held j fd').mpr (.inl first)⟩)
    · rcases (mem fd').mp between with here | later
      · exact .inr (.inl ⟨i, (held i fd').mpr (.inr ⟨rfl, here⟩)⟩)
      · exact .inr (.inr later)
  · rintro (released | ⟨j, first⟩ | later)
    · exact .inl released
    · rcases (held j fd').mp first with first | ⟨-, here⟩
      · exact .inr (.inl ⟨j, first⟩)
      · exact .inr (.inr ((mem fd').mpr (.inl here)))
    · exact .inr (.inr ((mem fd').mpr (.inr later)))
  · rcases (held j fd').mp first with first | ⟨rfl, here⟩
    · rcases (held k fd').mp second with second | ⟨-, here⟩
      · exact owned.once j k fd' first second
      · exact absurd first ((owned.free fd' ((mem fd').mpr (.inl here))).2 j)
    · rcases (held k fd').mp second with second | ⟨rfl, -⟩
      · exact absurd second ((owned.free fd' ((mem fd').mpr (.inl here))).2 k)
      · rfl
  · rcases (held j fd').mp first with first | ⟨-, here⟩
    · exact owned.apart j fd' first
    · exact (owned.free fd' ((mem fd').mpr (.inl here))).1
  · have free := owned.free fd' ((mem fd').mpr (.inr later))
    refine ⟨free.1, fun j first => ?_⟩
    rcases (held j fd').mp first with first | ⟨-, here⟩
    · exact free.2 j first
    · exact lasting fd' later here
  · exact (List.nodup_append.mp owned.between).2.1

/-- A descriptor that nobody has is closed. -/
theorem Owned.drop (owned : Owned s (fd.toList ++ loose)) : Owned (s.drop fd) loose := by
  cases fd with
  | none => exact owned
  | some fd =>
      have there : fd ∈ s.opened := (owned.opened fd).mpr (.inr (.inr List.mem_cons_self))
      have closed : s.drop (some fd) = { s with opened := s.opened.erase fd } := if_pos there
      obtain ⟨last, between⟩ := List.nodup_cons.mp owned.between
      have free := owned.free fd List.mem_cons_self
      rw [closed]
      refine ⟨fun fd' => ?_, owned.once, owned.apart,
        fun fd' later => owned.free fd' (List.mem_cons_of_mem _ later), between,
        owned.distinct.erase fd, owned.given, owned.own⟩
      rw [owned.distinct.mem_erase_iff, owned.opened fd']
      constructor
      · rintro ⟨other, released | first | here⟩
        · exact .inl released
        · exact .inr (.inl first)
        · exact .inr (.inr ((List.mem_cons.mp here).resolve_left other))
      · rintro (released | ⟨j, first⟩ | later)
        · exact ⟨fun same => free.1 (same ▸ released), .inl released⟩
        · exact ⟨fun same => free.2 j (same ▸ first), .inr (.inl ⟨j, first⟩)⟩
        · exact ⟨fun same => last (same ▸ later), .inr (.inr (List.mem_cons_of_mem _ later))⟩

/-- What is given away is not between two objects any more. -/
theorem Owned.release (owned : Owned s (fd.toList ++ loose)) :
    Owned { s with released := fd.toList ++ s.released } loose := by
  cases fd with
  | none => exact owned
  | some fd =>
      obtain ⟨last, between⟩ := List.nodup_cons.mp owned.between
      have free := owned.free fd List.mem_cons_self
      refine ⟨fun fd' => (owned.opened fd').trans ⟨?_, ?_⟩, owned.once, fun j fd' first => ?_,
        fun fd' later => ?_, between, owned.distinct,
        List.nodup_cons.mpr ⟨free.1, owned.given⟩, owned.own⟩
      · rintro (released | first | here)
        · exact .inl (List.mem_cons_of_mem _ released)
        · exact .inr (.inl first)
        · rcases List.mem_cons.mp here with rfl | later
          · exact .inl List.mem_cons_self
          · exact .inr (.inr later)
      · rintro (released | first | later)
        · rcases List.mem_cons.mp released with rfl | released
          · exact .inr (.inr List.mem_cons_self)
          · exact .inl released
        · exact .inr (.inl first)
        · exact .inr (.inr (List.mem_cons_of_mem _ later))
      · intro released
        rcases List.mem_cons.mp released with rfl | released
        · exact free.2 j first
        · exact owned.apart j fd' first released
      · have before := owned.free fd' (List.mem_cons_of_mem _ later)
        refine ⟨fun released => ?_, before.2⟩
        rcases List.mem_cons.mp released with rfl | released
        · exact last later
        · exact before.1 released

theorem Owned.fresh (owned : Owned s loose) (opens : s.fresh fd = some s') :
    Owned s' (fd.toList ++ loose) := by
  cases fd with
  | none => exact Option.some.inj opens ▸ owned
  | some fd =>
      simp only [Handles.fresh] at opens
      split at opens
      · cases opens
      · rename_i new
        obtain rfl := Option.some.inj opens
        have nowhere := mt (owned.opened fd).mpr new
        simp only [not_or, not_exists] at nowhere
        refine ⟨fun fd' => ?_, owned.once, owned.apart, fun fd' here => ?_,
          List.nodup_cons.mpr ⟨nowhere.2.2, owned.between⟩,
          List.nodup_cons.mpr ⟨new, owned.distinct⟩, owned.given, owned.own⟩
        · have before := owned.opened fd'
          simp only [Option.toList_some, List.cons_append, List.nil_append, List.mem_cons, before]
          constructor
          · rintro (rfl | released | first | later)
            · exact .inr (.inr (.inl rfl))
            · exact .inl released
            · exact .inr (.inl first)
            · exact .inr (.inr (.inr later))
          · rintro (released | first | rfl | later)
            · exact .inr (.inl released)
            · exact .inr (.inr (.inl first))
            · exact .inl rfl
            · exact .inr (.inr (.inr later))
        · rcases List.mem_cons.mp here with rfl | later
          · exact ⟨nowhere.1, nowhere.2.1⟩
          · exact owned.free fd' later

theorem Owned.take (owned : Owned s loose) (taken : s.take fd = some s') :
    Owned s' (fd.toList ++ loose) := by
  cases fd with
  | none => exact Option.some.inj taken ▸ owned
  | some fd =>
      simp only [Handles.take] at taken
      split at taken
      · rename_i was
        obtain rfl := Option.some.inj taken
        have unheld : ∀ j, s.held j ≠ some fd := fun j first => owned.apart j fd first was
        have unloose : fd ∉ loose := fun later => (owned.free fd later).1 was
        refine ⟨fun fd' => ?_, owned.once, fun j fd' first released => ?_, fun fd' here => ?_,
          List.nodup_cons.mpr ⟨unloose, owned.between⟩, owned.distinct, owned.given.erase fd,
          owned.own⟩
        · rw [owned.given.mem_erase_iff]
          refine (owned.opened fd').trans ⟨?_, ?_⟩
          · rintro (released | first | later)
            · by_cases same : fd' = fd
              · exact .inr (.inr (same ▸ List.mem_cons_self))
              · exact .inl ⟨same, released⟩
            · exact .inr (.inl first)
            · exact .inr (.inr (List.mem_cons_of_mem _ later))
          · rintro (⟨-, released⟩ | first | here)
            · exact .inl released
            · exact .inr (.inl first)
            · rcases List.mem_cons.mp here with rfl | later
              · exact .inl was
              · exact .inr (.inr later)
        · exact owned.apart j fd' first (List.mem_of_mem_erase released)
        · rcases List.mem_cons.mp here with rfl | later
          · exact ⟨fun released => (owned.given.mem_erase_iff.mp released).1 rfl, unheld⟩
          · have before := owned.free fd' later
            exact ⟨fun released => before.1 (List.mem_of_mem_erase released), before.2⟩
      · exact owned.fresh taken

theorem drop_set (s : Handles) (i : Nat) (u : Option UniqueFd) (fd : Option Nat) :
    (s.set i u).drop fd = (s.drop fd).set i u := by
  cases fd with
  | none => rfl
  | some fd =>
      by_cases there : fd ∈ s.opened <;>
        simp only [Handles.drop, Handles.close, Handles.set, there, if_true, if_false]

theorem held_of {u : UniqueFd} (there : s.objects i = some u) : s.held i = u.fd := by
  simp only [held, there, Option.bind_some]

theorem held_none (absent : s.objects i = none) : s.held i = none := by
  simp only [held, absent, Option.bind_none]

theorem Owned.step (owned : Owned s []) {action : HandleStep} (taken : s.step action = some s') :
    Owned s' [] := by
  cases action with
  | construct i u =>
      simp only [Handles.step] at taken
      split at taken
      · rename_i absent
        obtain ⟨t, opens, rfl⟩ := Option.map_eq_some_iff.mp taken
        exact (owned.take opens).place (held_none ((take_objects opens).symm ▸ absent)) rfl
      · cases taken
  | move i other =>
      simp only [Handles.step] at taken
      split at taken
      · rename_i absent
        obtain ⟨u, there, rfl⟩ := Option.map_eq_some_iff.mp taken
        have apart : i ≠ other := by
          rintro rfl
          rw [absent] at there
          cases there
        refine (owned.loosen (held_of there) rfl).place ?_ rfl
        rw [held_set, if_neg apart, held_none absent]
      · cases taken
  | assign i other =>
      simp only [Handles.step] at taken
      split at taken
      · exact Option.some.inj taken ▸ owned
      · rename_i apart
        obtain ⟨u, first, later⟩ := Option.bind_eq_some_iff.mp taken
        obtain ⟨v, second, rfl⟩ := Option.map_eq_some_iff.mp later
        have emptied := (owned.loosen (u := some {}) (held_of first) rfl).drop
        rw [drop_set] at emptied
        have holds : ((s.drop u.fd).set i (some {})).held other = v.fd := by
          rw [held_set, if_neg (Ne.symm apart)]
          exact held_of ((drop_objects s u.fd).1 ▸ second)
        have given := (emptied.loosen (u := some { v with fd := none }) holds rfl).place
          (i := i) (u := some v) (by rw [held_set, if_neg apart, held_set, if_pos rfl]; rfl) rfl
        rwa [set_across _ apart] at given
  | destroy i =>
      obtain ⟨u, there, rfl⟩ := Option.map_eq_some_iff.mp taken
      rw [← drop_set]
      exact (owned.loosen (held_of there) rfl).drop
  | release i =>
      obtain ⟨u, there, rfl⟩ := Option.map_eq_some_iff.mp taken
      exact (owned.loosen (u := some {}) (held_of there) rfl).release
  | reset i u =>
      obtain ⟨old, there, later⟩ := Option.bind_eq_some_iff.mp taken
      obtain ⟨t, opens, rfl⟩ := Option.map_eq_some_iff.mp later
      have there : t.objects i = some old := (take_objects opens).symm ▸ there
      have emptied := ((owned.take opens).loosen (u := some {}) (held_of there) rfl).drop
      rw [drop_set] at emptied
      have given := emptied.place (i := i) (u := some u) (by rw [held_set, if_pos rfl]; rfl) rfl
      rwa [set_twice] at given
  | duplicate i other result =>
      simp only [Handles.step] at taken
      split at taken
      · rename_i absent
        obtain ⟨v, there, later⟩ := Option.bind_eq_some_iff.mp taken
        split at later
        · obtain rfl := Option.some.inj later
          have nothing : Owned s ((none : Option Nat).toList ++ []) := owned
          exact nothing.place (held_none absent) rfl
        · obtain ⟨t, opens, rfl⟩ := Option.map_eq_some_iff.mp later
          exact (owned.fresh opens).place (held_none ((fresh_objects opens).symm ▸ absent)) rfl
      · cases taken

theorem owned_init : Owned handles.init [] :=
  ⟨by simp [handles, held], by simp [handles, held], by simp [handles, held], by simp,
    List.nodup_nil, List.nodup_nil, List.nodup_nil, rfl⟩

end Objects

end Corio.Coroutine
