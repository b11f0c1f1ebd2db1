import Corio.Uring.Delivery

/-! # The two entries of a timed receive

`RecvAwaiter::submit` takes a slot for the receive and a second one for its timer, and
may flush the queue for either. Between the two a flush hands over the receive alone;
the link flag comes too late for it.
-/

namespace Corio.Uring

namespace Ring

/-- The entries the kernel has and has not completed, and the ones that wait for the next
    `io_uring_submit`. -/
def prepared (r : Ring) : List Sqe := r.chains.flatten ++ r.sq

/-- The receive, chained to what comes next, and its timer. -/
def timedPair (addr : Addr) (await : Await) (duration : Nat) : List Sqe :=
  [⟨.recv, addr, true, await⟩, ⟨.timeout duration, addr, false, await⟩]

/-- What one call may leave of a timed receive: both entries waiting, one behind the other,
    or none of them anywhere if the call throws. -/
def SubmittedAsUnit (r : Ring) (addr : Addr) (await : Await) (duration : Nat) : Outcome → Prop
  | .ok r' =>
      timedPair addr await duration <:+ r'.sq ∧
        r'.prepared = r.prepared ++ timedPair addr await duration
  | .error r' => r'.prepared = r.prepared

instance (r : Ring) (addr : Addr) (await : Await) (duration : Nat) (out : Outcome) :
    Decidable (SubmittedAsUnit r addr await duration out) :=
  match out with
  | .ok r' =>
      inferInstanceAs (Decidable (timedPair addr await duration <:+ r'.sq ∧
        r'.prepared = r.prepared ++ timedPair addr await duration))
  | .error r' => inferInstanceAs (Decidable (r'.prepared = r.prepared))

section Slots

variable {r : Ring}

theorem getSqe_of_room (submits : Bool) (room : r.sq.length < r.entries) :
    r.getSqe submits = .ok r := by
  simp only [getSqe, if_pos room]

theorem getSqe_refused (full : ¬ r.sq.length < r.entries) : r.getSqe false = .error r := by
  simp [getSqe, full]

theorem getSqe_flushed (full : ¬ r.sq.length < r.entries) (room : 0 < r.entries) :
    r.getSqe true = .ok r.flush := by
  simp [getSqe, full, Ring.flush, room]

@[simp]
theorem prepared_flush (r : Ring) : r.flush.prepared = r.prepared := by
  simp [prepared, Ring.flush, chained_flatten]

@[simp]
theorem prepared_push (r : Ring) (sqe : Sqe) : (r.push sqe).prepared = r.prepared ++ [sqe] := by
  simp [prepared, Ring.push]

end Slots

/-- `RecvAwaiter::submit` once it has the slot for the receive. -/
def withReceive (r : Ring) (addr : Addr) (await : Await) (duration : Nat) (submits : Bool) :
    Outcome :=
  ((r.push ⟨.recv, addr, false, await⟩).getSqe submits).map
    (·.linkLast.push ⟨.timeout duration, addr, false, await⟩)

theorem recvSubmit_timed (r : Ring) (addr : Addr) (id duration : Nat) (submits : Bool × Bool) :
    r.recvSubmit addr ⟨id, some duration⟩ submits
      = r.getSqe submits.1 >>=
          fun r => r.withReceive addr ⟨id, some duration⟩ duration submits.2 := by
  simp only [recvSubmit, submitOne, withReceive]
  cases r.getSqe submits.1 with
  | error r => rfl
  | ok r => cases (r.push ⟨.recv, addr, false, ⟨id, some duration⟩⟩).getSqe submits.2 <;> rfl

/-- With two slots free, the pair goes in behind what waits. -/
theorem withReceive_unit {r : Ring} {await : Await} {duration : Nat} (addr : Addr)
    (submits : Bool) (room : r.sq.length + 1 < r.entries) :
    SubmittedAsUnit r addr await duration (r.withReceive addr await duration submits) := by
  have second : (r.push ⟨.recv, addr, false, await⟩).sq.length
      < (r.push ⟨.recv, addr, false, await⟩).entries := by
    simpa [Ring.push] using room
  have queued : ((r.push ⟨.recv, addr, false, await⟩).linkLast.push
      ⟨.timeout duration, addr, false, await⟩).sq = r.sq ++ timedPair addr await duration := by
    simp [Ring.push, linkLast, timedPair, List.modifyLast_concat]
  rw [withReceive, getSqe_of_room submits second]
  refine ⟨⟨r.sq, queued.symm⟩, ?_⟩
  calc _ = r.chains.flatten ++ (r.sq ++ timedPair addr await duration) :=
        congrArg (r.chains.flatten ++ ·) queued
    _ = _ := (List.append_assoc ..).symm

/-- With one slot free, the receive takes it: a flush hands it over unlinked, and if that
    flush fails, the receive stays behind. -/
theorem withReceive_not_unit {r : Ring} {await : Await} {duration : Nat} (addr : Addr)
    (submits : Bool) (last : r.sq.length + 1 = r.entries) :
    ¬ SubmittedAsUnit r addr await duration (r.withReceive addr await duration submits) := by
  have full : ¬ (r.push ⟨.recv, addr, false, await⟩).sq.length
      < (r.push ⟨.recv, addr, false, await⟩).entries := by
    simp [Ring.push, last]
  cases submits with
  | false =>
      rw [withReceive, getSqe_refused full]
      intro (unit : Ring.prepared _ = _)
      simp at unit
  | true =>
      have positive : 0 < (r.push ⟨.recv, addr, false, await⟩).entries := by
        simp only [Ring.push]
        omega
      rw [withReceive, getSqe_flushed full positive]
      intro unit
      have alone : ((r.push ⟨.recv, addr, false, await⟩).flush.linkLast.push
          ⟨.timeout duration, addr, false, await⟩).sq.length = 1 := by
        simp [Ring.push, linkLast, Ring.flush, List.modifyLast, List.modifyLast.go]
      have two := unit.1.length_le
      rw [alone] at two
      exact absurd two (by simp [timedPair])

/-- A timed receive goes out as a unit, unless exactly one slot is free when it comes. -/
theorem timedReceive_unit_iff (r : Ring) (room : 2 ≤ r.entries) (addr : Addr)
    (id duration : Nat) (submits : Bool × Bool) :
    SubmittedAsUnit r addr ⟨id, some duration⟩ duration
        (r.recvSubmit addr ⟨id, some duration⟩ submits)
      ↔ r.sq.length + 1 ≠ r.entries := by
  rw [recvSubmit_timed]
  by_cases free : r.sq.length < r.entries
  · rw [getSqe_of_room submits.1 free]
    constructor
    · intro unit last
      exact withReceive_not_unit addr submits.2 last unit
    · intro notLast
      exact withReceive_unit addr submits.2 (by omega)
  · refine iff_of_true ?_ (by omega)
    obtain ⟨first, second⟩ := submits
    cases first with
    | false =>
        rw [getSqe_refused free]
        rfl
    | true =>
        rw [getSqe_flushed free (by omega)]
        have flushed : r.flush.sq.length + 1 < r.flush.entries := by
          simp only [Ring.flush, List.length_nil]
          omega
        have unit : SubmittedAsUnit r.flush addr ⟨id, some duration⟩ duration
            (r.flush.withReceive addr ⟨id, some duration⟩ duration second) :=
          withReceive_unit addr second flushed
        simp only [SubmittedAsUnit, prepared_flush] at unit
        exact unit

/-- A ring of two entries, with one of them taken. -/
def oneWaiting : Ring :=
  (ring 2).init.push ⟨.accept, 0, false, ⟨0, none⟩⟩

theorem timedReceive_unit_flushed : 2 ≤ oneWaiting.flush.entries ∧
    SubmittedAsUnit oneWaiting.flush 1 ⟨1, some 30⟩ 30
      (oneWaiting.flush.recvSubmit 1 ⟨1, some 30⟩ (true, true)) :=
  ⟨by decide, (timedReceive_unit_iff oneWaiting.flush (by decide) 1 1 30 (true, true)).mpr
    (by decide)⟩

/-- The receive is in the kernel, alone and unlinked, and only its timer waits. -/
theorem timedReceive_split :
    2 ≤ oneWaiting.entries ∧
      ¬ SubmittedAsUnit oneWaiting 1 ⟨1, some 30⟩ 30
        (oneWaiting.recvSubmit 1 ⟨1, some 30⟩ (true, true)) := by
  decide

end Ring

end Corio.Uring
