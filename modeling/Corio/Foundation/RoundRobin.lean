import Mathlib.Data.Int.CardIntervalMod

/-! # Round robin

Items are dealt to receivers in turn, and no receiver gets ahead of another by more than one.
-/

namespace Corio.RoundRobin

/-- Whose turn it is, of `n` receivers, for each of the first `m` items. -/
def turns (n m : Nat) : List Nat := (List.range m).map (· % n)

variable {n m i j : Nat}

theorem turns_succ (n m : Nat) : turns n (m + 1) = turns n m ++ [m % n] := by
  rw [turns, List.range_succ, List.map_append]
  rfl

/-- A receiver's share is that of all full rounds, and of the last one if its turn has come. -/
theorem count_turns (below : i < n) (m : Nat) :
    (turns n m).count i = m / n + if i < m % n then 1 else 0 := by
  have counted : (turns n m).count i = Nat.count (· ≡ i [MOD n]) m := by
    induction m with
    | zero => rfl
    | succ m ih =>
        rw [turns_succ, List.count_append, ih, Nat.count_succ, List.count_singleton]
        simp only [Nat.ModEq, Nat.mod_eq_of_lt below, beq_iff_eq]
  rw [counted, Nat.count_modEq_card _ (Nat.zero_lt_of_lt below), Nat.mod_eq_of_lt below]

theorem turns_balanced (first : i < n) (second : j < n) (m : Nat) :
    (turns n m).count i ≤ (turns n m).count j + 1 := by
  rw [count_turns first, count_turns second]
  split <;> omega

end Corio.RoundRobin
