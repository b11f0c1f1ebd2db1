import Corio.Logging.Tickets

/-! # Threads that only push, and threads that only pop

What the next access of such a thread does, told in terms of the entry that a push offers
and of the ticket that a pop has won. There is one thread that pops.
-/

namespace Corio.Logging

namespace QueuePc

variable {α : Type}

/-- In a push of this entry that has not won a ticket. -/
def Offers (entry : α) : QueuePc α → Prop
  | .loadingTail e | .pushReading e _ _ | .pushSwapping e _ _ => e = entry
  | _ => False

/-- In a push that has won a ticket, or behind it. -/
def Accepted : QueuePc α → Prop
  | .storing _ _ _ | .publishing _ _ | .pushed true => True
  | _ => False

instance : (pc : QueuePc α) → Decidable pc.Accepted
  | .storing _ _ _ | .publishing _ _ | .pushed true => .isTrue trivial
  | .idle | .loadingTail _ | .pushReading _ _ _ | .pushSwapping _ _ _ | .pushed false
  | .loadingHead | .popReading _ _ | .popSwapping _ _ | .exchanging _ _ | .releasing _ _ _
  | .popped _ => .isFalse id

/-- In a pop that has not won a ticket, with so many tickets won before it. -/
def Seeks (taken : Nat) : QueuePc α → Prop
  | .loadingHead => True
  | .popReading _ since | .popSwapping _ since => since = taken
  | _ => False

/-- In a pop that has won the last of so many tickets. -/
def Holds (taken : Nat) : QueuePc α → Prop
  | .exchanging _ ticket | .releasing _ ticket _ => ticket + 1 = taken
  | _ => False

theorem Holds.pos {pc : QueuePc α} {taken : Nat} (holds : pc.Holds taken) : 0 < taken := by
  cases pc with
  | exchanging pos ticket | releasing pos ticket entry => exact holds ▸ Nat.succ_pos ticket
  | _ => exact holds.elim

end QueuePc

namespace LogQueue

variable {ι α : Type} [DecidableEq ι] {capacity : Capacity} {q q' : LogQueue ι α} {i : ι}
  {spurious : Bool}

theorem advance_outside (outside : (q.thread i).Outside) :
    q.advance capacity i spurious = none := by
  unfold advance
  cases pc : q.thread i with
  | idle | pushed | popped => rfl
  | _ =>
      rw [pc] at outside
      exact outside.elim

theorem advance_offers {entry : α} (offers : (q.thread i).Offers entry)
    (taken : q.advance capacity i spurious = some q') :
    ∃ pc, q'.thread = Function.update q.thread i pc ∧ q'.taken = q.taken ∧
      (q'.won = q.won ∧ (pc.Offers entry ∨ pc = .pushed false) ∨
        q'.won = q.won ++ [entry] ∧ pc.Accepted) := by
  cases pc : q.thread i with
  | loadingTail e =>
      simp only [pc, advance, Option.some.injEq] at taken offers
      exact taken ▸ ⟨_, rfl, rfl, .inl ⟨rfl, .inl offers⟩⟩
  | pushReading e pos since =>
      simp only [pc, advance] at taken offers
      split at taken
      · exact Option.some.inj taken ▸ ⟨_, rfl, rfl, .inl ⟨rfl, .inl offers⟩⟩
      · split at taken
        · exact Option.some.inj taken ▸ ⟨_, rfl, rfl, .inl ⟨rfl, .inr rfl⟩⟩
        · exact Option.some.inj taken ▸ ⟨_, rfl, rfl, .inl ⟨rfl, .inl offers⟩⟩
  | pushSwapping e pos since =>
      simp only [pc, advance] at taken offers
      split at taken
      · cases offers
        exact Option.some.inj taken ▸ ⟨_, rfl, rfl, .inr ⟨rfl, trivial⟩⟩
      · exact Option.some.inj taken ▸ ⟨_, rfl, rfl, .inl ⟨rfl, .inl offers⟩⟩
  | _ =>
      rw [pc] at offers
      exact offers.elim

theorem advance_accepted (accepted : (q.thread i).Accepted)
    (taken : q.advance capacity i spurious = some q') :
    ∃ pc, q'.thread = Function.update q.thread i pc ∧ q'.taken = q.taken ∧ q'.won = q.won ∧
      pc.Accepted := by
  cases pc : q.thread i with
  | storing e pos ticket | publishing pos ticket =>
      simp only [pc, advance, Option.some.injEq] at taken
      exact taken ▸ ⟨_, rfl, rfl, rfl, trivial⟩
  | pushed done => simp only [pc, advance, reduceCtorEq] at taken
  | _ =>
      rw [pc] at accepted
      exact accepted.elim

variable {stage : Nat → Stage}

/-- A pop that finds nothing did not find the next ticket of `head_` in its slot. -/
theorem advance_seeks (board : Board capacity q stage) (seeks : (q.thread i).Seeks q.taken)
    (taken : q.advance capacity i spurious = some q') :
    ∃ pc, q'.thread = Function.update q.thread i pc ∧ q'.won = q.won ∧
      (q'.taken = q.taken ∧ (pc.Seeks q.taken ∨ pc = .popped none ∧ stage q.taken ≠ .full) ∨
        q'.taken = q.taken + 1 ∧ pc.Holds (q.taken + 1)) := by
  have informed := board.informed i
  cases pc : q.thread i with
  | loadingHead =>
      simp only [pc, advance, Option.some.injEq] at taken
      exact taken ▸ ⟨_, rfl, rfl, .inl ⟨rfl, .inl rfl⟩⟩
  | popReading pos since =>
      simp only [pc, advance] at taken seeks informed
      split at taken
      · exact Option.some.inj taken ▸ ⟨_, rfl, rfl, .inl ⟨rfl, .inl seeks⟩⟩
      · rename_i unequal
        split at taken
        · refine Option.some.inj taken ▸ ⟨_, rfl, rfl, .inl ⟨rfl, .inr ⟨rfl, fun full => ?_⟩⟩⟩
          refine unequal ((diff_eq_zero_iff _ _).mpr ?_)
          obtain rfl : since = q.taken := seeks
          have inside : q.taken < q.won.length := by
            by_contra past
            rw [(board.ahead q.taken).mpr (by omega)] at full
            cases full
          rw [informed.1, board.slot q.taken inside board.le_taken, full, word_succ]
          rfl
        · exact Option.some.inj taken ▸ ⟨_, rfl, rfl, .inl ⟨rfl, .inl trivial⟩⟩
  | popSwapping pos since =>
      simp only [pc, advance] at taken
      split at taken
      · exact Option.some.inj taken ▸ ⟨_, rfl, rfl, .inr ⟨rfl, rfl⟩⟩
      · exact Option.some.inj taken ▸ ⟨_, rfl, rfl, .inl ⟨rfl, .inl rfl⟩⟩
  | _ =>
      rw [pc] at seeks
      exact seeks.elim

theorem advance_holds (board : Board capacity q stage) (holds : (q.thread i).Holds q.taken)
    (taken : q.advance capacity i spurious = some q') :
    ∃ pc, q'.thread = Function.update q.thread i pc ∧ q'.won = q.won ∧ q'.taken = q.taken ∧
      (pc.Holds q.taken ∨ ∃ entry, pc = .popped (some entry) ∧
        q.won[q.taken - 1]? = some entry) := by
  have informed := board.informed i
  cases pc : q.thread i with
  | exchanging pos ticket =>
      simp only [pc, advance, Option.some.injEq] at taken holds
      exact taken ▸ ⟨_, rfl, rfl, rfl, .inl holds⟩
  | releasing pos ticket entry =>
      simp only [pc, advance, Option.some.injEq] at taken holds informed
      obtain ⟨-, inside, same⟩ := informed
      have last : q.taken - 1 = ticket := by
        rw [← show ticket + 1 = q.taken from holds, Nat.add_sub_cancel]
      have there := List.getElem?_eq_getElem inside
      refine taken ▸ ⟨_, rfl, rfl, rfl, .inr ⟨q.won[ticket], by rw [same, there], ?_⟩⟩
      rw [last, there]
  | _ =>
      rw [pc] at holds
      exact holds.elim

omit [DecidableEq ι] in
/-- If no push is at work and the next ticket of `head_` is not in its slot, there is none. -/
theorem Board.empty (board : Board capacity q stage) (absent : stage q.taken ≠ .full)
    (quiet : ∀ i t σ, (q.thread i).holds = some (t, σ) → σ ≠ .storing ∧ σ ≠ .publishing) :
    q.taken = q.won.length := by
  refine Nat.le_antisymm board.taken_le (Nat.not_lt.mp fun less => ?_)
  cases here : stage q.taken with
  | full => exact absent here
  | ahead =>
      have := (board.ahead q.taken).mp here
      omega
  | exchanging | releasing | done =>
      have := (board.taken q.taken).mp (by rw [here]; trivial)
      omega
  | storing =>
      obtain ⟨i, held⟩ := board.roster.holder q.taken (by rw [here]; trivial)
      exact (quiet i _ _ (here ▸ held)).1 rfl
  | publishing =>
      obtain ⟨i, held⟩ := board.roster.holder q.taken (by rw [here]; trivial)
      exact (quiet i _ _ (here ▸ held)).2 rfl

end LogQueue

end Corio.Logging
