import Mathlib.Data.List.Rotate
import Mathlib.Data.Nat.ModEq

/-! # Ring buffers

A queue of bounded length in a circular array, as the list it stands for. Values that
are no ring buffers cannot be built, so pushing and popping need no invariant.
-/

namespace Corio

/-- A circular array. The tail is the slot behind the last one in use. -/
structure RingBuffer (α : Type) where
  slots : List α
  head : Nat
  tail : Nat
  count : Nat
  head_lt : head < slots.length
  count_le : count ≤ slots.length
  tail_eq : tail = (head + count) % slots.length

namespace RingBuffer

variable {α : Type}

theorem length_pos (q : RingBuffer α) : 0 < q.slots.length := Nat.zero_lt_of_lt q.head_lt

theorem tail_lt (q : RingBuffer α) : q.tail < q.slots.length := by
  rw [q.tail_eq]
  exact Nat.mod_lt _ q.length_pos

def empty (slots : List α) (nonempty : 0 < slots.length) : RingBuffer α :=
  ⟨slots, 0, 0, 0, nonempty, Nat.zero_le _, by simp⟩

/-- What is in the queue, the oldest first. -/
def contents (q : RingBuffer α) : List α := (q.slots.rotate q.head).take q.count

/-- Write to the tail and move it. -/
def push (q : RingBuffer α) (space : q.count < q.slots.length) (x : α) : RingBuffer α where
  slots := q.slots.set q.tail x
  head := q.head
  tail := (q.tail + 1) % q.slots.length
  count := q.count + 1
  head_lt := by simpa using q.head_lt
  count_le := by
    rw [List.length_set]
    exact space
  tail_eq := by
    rw [q.tail_eq, List.length_set, Nat.mod_add_mod, Nat.add_assoc]

/-- The slot at the head. -/
def front (q : RingBuffer α) : α := q.slots.get ⟨q.head, q.head_lt⟩

/-- Leave `blank` in the head and move it. -/
def pop (q : RingBuffer α) (used : 0 < q.count) (blank : α) : RingBuffer α where
  slots := q.slots.set q.head blank
  head := (q.head + 1) % q.slots.length
  tail := q.tail
  count := q.count - 1
  head_lt := by simpa using Nat.mod_lt _ q.length_pos
  count_le := by simpa using (Nat.sub_le _ _).trans q.count_le
  tail_eq := by
    rw [q.tail_eq, List.length_set, Nat.mod_add_mod]
    congr 1
    omega

@[simp] theorem length_contents (q : RingBuffer α) : q.contents.length = q.count := by
  simpa [contents] using q.count_le

@[simp] theorem contents_empty (slots : List α) (nonempty : 0 < slots.length) :
    (empty slots nonempty).contents = [] := rfl

/-- The slot of each element. -/
theorem getElem_contents (q : RingBuffer α) (k : Nat) (inside : k < q.contents.length) :
    q.contents[k] =
      q.slots.get ⟨(k + q.head) % q.slots.length, Nat.mod_lt _ q.length_pos⟩ := by
  simp only [contents, List.getElem_take, List.getElem_rotate, List.get_eq_getElem]

/-- Slots less than a whole turn apart are different. -/
theorem slot_ne {size i j start : Nat} (less : i < size) (less' : j < size) (other : i ≠ j) :
    (i + start) % size ≠ (j + start) % size := by
  intro same
  exact other ((Nat.ModEq.add_right_cancel' start same).eq_of_lt_of_lt less less')

theorem contents_push (q : RingBuffer α) (space : q.count < q.slots.length) (x : α) :
    (q.push space x).contents = q.contents ++ [x] := by
  apply List.ext_getElem
  · simp [push]
  intro k inside inside'
  have le : k < q.count + 1 := by simpa [push] using inside
  rw [getElem_contents]
  simp only [push, List.get_eq_getElem, List.length_set, List.getElem_set, q.tail_eq,
    Nat.add_comm q.head]
  by_cases last : k = q.count
  · simp [last]
  · have inside : k < q.contents.length := by rw [length_contents]; omega
    rw [if_neg (slot_ne space (by omega) (Ne.symm last)), List.getElem_append_left inside,
      getElem_contents, List.get_eq_getElem]

theorem contents_pop (q : RingBuffer α) (used : 0 < q.count) (blank : α) :
    q.contents = q.front :: (q.pop used blank).contents := by
  have le := q.count_le
  apply List.ext_getElem
  · simp only [length_contents, List.length_cons, pop]
    omega
  intro k inside inside'
  rw [length_contents] at inside
  cases k with
  | zero =>
      have first : q.head % q.slots.length = q.head := Nat.mod_eq_of_lt q.head_lt
      simp only [getElem_contents, List.get_eq_getElem, Nat.zero_add, first,
        List.getElem_cons_zero, front]
  | succ k =>
      have other : q.head ≠ (k + 1 + q.head) % q.slots.length := by
        have apart : (0 + q.head) % q.slots.length ≠ (k + 1 + q.head) % q.slots.length :=
          slot_ne q.length_pos (Nat.lt_of_lt_of_le inside le) (Nat.succ_ne_zero k).symm
        rwa [Nat.zero_add, Nat.mod_eq_of_lt q.head_lt] at apart
      have moved : (k + (q.head + 1) % q.slots.length) % q.slots.length =
          (k + 1 + q.head) % q.slots.length := by
        rw [Nat.add_mod_mod]
        congr 1
        omega
      simp only [getElem_contents, List.get_eq_getElem, List.getElem_cons_succ, pop,
        List.length_set, List.getElem_set, moved, if_neg other]

theorem contents_nil_iff (q : RingBuffer α) : q.contents = [] ↔ q.count = 0 := by
  rw [← List.length_eq_zero_iff, length_contents]

end RingBuffer

end Corio
