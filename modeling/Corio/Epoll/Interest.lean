import Corio.Epoll.OneTimer
import Corio.Epoll.Stream

/-! # What each descriptor is watched for

The loop with the kernel's side of epoll. A descriptor that was added with `EPOLLONESHOT`
is disarmed once it was reported, until it is modified.
-/

namespace Corio.Epoll

/-- The interest list of the kernel. -/
abbrev Interest := Nat → Option Mask

/-- What `epoll_wait` can say of a descriptor: something it is watched for, or that it
    failed or was hung up. Nothing is ever watched for `EPOLLPRI` or `EPOLLRDHUP`. -/
def Reports (mask : Mask) (revents : Revents) : Prop :=
  revents ≠ {} ∧ (revents.epollin = true → mask.events.epollin = true) ∧
    (revents.epollout = true → mask.events.epollout = true) ∧
    revents.epollpri = false ∧ revents.epollrdhup = false

instance (mask : Mask) (revents : Revents) : Decidable (Reports mask revents) := by
  unfold Reports
  infer_instance

/-- A descriptor that was reported. -/
def Mask.disarm (mask : Mask) : Mask := if mask.oneshot then { mask with events := {} } else mask

/-- What a connection's channel asks for after `newEvent`. -/
def DEFAULT_EVENT : Mask := ⟨{ epollin := true, epollet := true }, true⟩

/-- The call of `epoll_ctl` that a step makes, if any: the descriptor, and what it is
    watched for from then on. -/
def Poller.epollCtl (s : Poller) (action : PollerStep) : Option (Nat × Option Mask) :=
  match s.pc, action with
  | .concluding c _, .conclude _ =>
      let d := (s.heap c).data
      let mask : Mask := ⟨(handleConn d).events, (s.heap c).oneshot⟩
      if d.error = false ∧ d.connectionState = .connected then
        -- `EqualAndUpdateLastEvents` spares `epoll_mod` the call.
        if (s.heap c).lastEvents = mask then none else some (s.fdOf c, some mask)
      else if Draining d then none
      else some (s.fdOf c, none)
  | .calling (c :: _), .call _ => some (s.fdOf c, some DEFAULT_EVENT)
  | .expiring, .expire k now =>
      match s.timerNodeQueue[k]? with
      | none => none
      | some node =>
          if !node.deleted && node.isValid now then none
          else node.holds.map fun c => (s.fdOf c, none)
  | _, _ => none

/-- The loop and the kernel. -/
structure Watch where
  poller : Poller
  interest : Interest

namespace Watch

/-- `epoll_wait` reports what it can. -/
def Admits (w : Watch) (action : PollerStep) : Prop :=
  match action with
  | .poll events => ∀ event ∈ events, ∃ mask ∈ w.interest event.1, Reports mask event.2
  | _ => True

instance (w : Watch) (action : PollerStep) : Decidable (w.Admits action) := by
  unfold Admits
  split <;> infer_instance

/-- The interest list behind a step. -/
def interestAfter (w : Watch) (action : PollerStep) : Interest :=
  match action with
  | .poll events => fun fd =>
      if fd ∈ events.map Prod.fst then (w.interest fd).map Mask.disarm else w.interest fd
  | action =>
      match w.poller.epollCtl action with
      | none => w.interest
      | some (fd, mask) => Function.update w.interest fd mask

end Watch

def watch : Machine Watch PollerStep where
  init := ⟨poller.init, fun _ => none⟩
  step w action :=
    if w.Admits action then
      (poller.step w.poller action).map fun s => ⟨s, w.interestAfter action⟩
    else none

/-- Output left on a connection without an error. -/
def Pending (d : HttpData) : Prop := d.error = false ∧ d.outBuffer ≠ []

instance (d : HttpData) : Decidable (Pending d) := by
  unfold Pending
  infer_instance

namespace Watch

/-- No event is being handled. -/
def Between (w : Watch) : Prop := ∀ c, ¬ w.poller.Concluding c

/-- Every open connection with output left is watched for room to write it. -/
def PendingWatched (w : Watch) : Prop :=
  ∀ c < w.poller.made, (w.poller.heap c).data.connectionState ≠ .disconnected →
    Pending (w.poller.heap c).data →
      ∃ mask ∈ w.interest (w.poller.fdOf c), mask.events.epollout = true

/-- The step does not call `handleConn` on a connection with output left whose peer has
    stopped sending. -/
def Settled (w : Watch) (action : PollerStep) : Prop :=
  match w.poller.pc, action with
  | .concluding c _, .conclude _ =>
      ¬ (Poller.Draining (w.poller.heap c).data ∧ Pending (w.poller.heap c).data)
  | _, _ => True

/-- The connection that the step calls `handleConn` of. -/
def concluder (w : Watch) (action : PollerStep) : Option Nat :=
  match w.poller.pc, action with
  | .concluding c _, .conclude _ => some c
  | _, _ => none

theorem settled_iff {w : Watch} {action : PollerStep} :
    (∀ c ∈ w.concluder action,
      ¬ (Poller.Draining (w.poller.heap c).data ∧ Pending (w.poller.heap c).data)) ↔
      w.Settled action := by
  unfold concluder Settled
  split
  · simp only [Option.mem_some_iff, forall_eq']
  · simp only [Option.not_mem_none, false_imp_iff, implies_true]

instance (w : Watch) (action : PollerStep) : Decidable (w.Settled action) :=
  decidable_of_iff _ settled_iff

end Watch

theorem Mask.disarm_disarm (mask : Mask) : mask.disarm.disarm = mask.disarm := by
  unfold Mask.disarm
  split
  · simp_all
  · simp_all

/-- Less is reported of a descriptor that is disarmed. -/
theorem Reports.armed {mask : Mask} {revents : Revents} (reports : Reports mask.disarm revents) :
    Reports mask revents := by
  obtain ⟨some_, readable, writable, others⟩ := reports
  refine ⟨some_, fun here => ?_, fun here => ?_, others⟩
  · have inside := readable here
    unfold Mask.disarm at inside
    split at inside
    · cases inside
    · exact inside
  · have inside := writable here
    unfold Mask.disarm at inside
    split at inside
    · cases inside
    · exact inside

/-! ## The handlers -/

/-- Output left is asked to be written. -/
def Asks (d : HttpData) : Prop := Pending d → d.events.epollout = true

section Handlers

variable {fs : FileSystem} {d d' : HttpData} {socket socket' : Socket}

theorem handleWrite_asks (open_ : d.connectionState ≠ .disconnected) :
    Asks (handleWrite d socket).1 := by
  rintro ⟨noError, left⟩
  unfold handleWrite at noError left ⊢
  split at noError
  · rename_i going
    rw [if_pos going] at left ⊢
    generalize writenString socket d.outBuffer = written at noError left ⊢
    obtain ⟨failed, outBuffer, rest⟩ := written
    cases failed with
    | false =>
        simp only [Bool.false_eq_true, if_false] at noError left ⊢
        split at left
        · rename_i some_
          rw [if_pos some_]
        · rename_i none_
          exact absurd (List.length_pos_iff.mpr left) none_
    | true =>
        simp only [if_true] at noError
        split at noError <;> cases noError
  · rename_i stopped
    have noError : d.error = false := noError
    exact absurd ⟨by simp [noError], open_⟩ stopped

theorem flush_asks (open_ : d.connectionState ≠ .disconnected) : Asks (flush d socket).1 := by
  unfold flush
  split
  · exact handleWrite_asks open_
  · rename_i empty
    rintro ⟨-, left⟩
    exact absurd (List.length_pos_iff.mpr left) empty

theorem finishPass_asks (asks : Asks d) : Asks (finishPass d).2 := by
  unfold finishPass
  split
  · exact asks
  · split
    · exact asks
    · exact asks

theorem handleReadPass_asks {again : Bool} (open_ : d.connectionState ≠ .disconnected)
    (done : handleReadPass fs d socket = .ok (again, d', socket')) :
    d'.connectionState ≠ .disconnected ∧ Asks d' := by
  obtain ⟨decided, mid, rest, judged, carried, ended⟩ := handleReadPass_decides done
  have kept := (carryOut_frame fs
    { socket with reads := (readn socket.reads d.inBuffer 0).reads } decided).2
  rw [carried] at kept
  have stillOpen : mid.connectionState ≠ .disconnected := by
    intro closed
    rw [kept] at closed
    exact open_ ((judge_decided judged).stillOpen closed)
  have same := (afterRead_frame mid rest).2.1
  have asks : Asks (afterRead mid rest).2.1 := by
    unfold afterRead
    split
    · rename_i failed
      rintro ⟨noError, -⟩
      exact absurd (failed.symm.trans noError) (by decide)
    · exact finishPass_asks (flush_asks stillOpen)
  rw [ended] at same asks
  exact ⟨same ▸ stillOpen, asks⟩

theorem handleReadFuel_asks {fuel : Nat} (open_ : d.connectionState ≠ .disconnected)
    (done : handleReadFuel fs fuel d socket = .ok (d', socket')) :
    d'.connectionState ≠ .disconnected ∧ Asks d' :=
  handleReadFuel_keeps (I := fun r => r.1.connectionState ≠ .disconnected)
    (J := fun r => r.1.connectionState ≠ .disconnected ∧ Asks r.1)
    (fun open_ pass => handleReadPass_asks open_ pass) And.left open_ done

/-- A reported event leaves no output that is not asked for, and only reading can tell that
    the peer sends no more. -/
theorem handleReady_asks {mask : Mask} {revents : Revents} {resets : Bool}
    (reports : Reports mask revents) (heard : (revents.epollhup && !revents.epollin) = false)
    (fine : revents.epollerr = false) (open_ : d.connectionState ≠ .disconnected)
    (done : handleReady fs d revents socket = .ok (d', resets)) :
    d'.connectionState ≠ .disconnected ∧ Asks d' ∧
      (revents.epollin = false → d'.connectionState = d.connectionState) := by
  obtain ⟨some_, -, -, noPri, noRdhup⟩ := reports
  simp only [handleReady, noPri, noRdhup, Bool.or_false] at done
  obtain ⟨mid, rest, stillOpen, asks, same, rfl⟩ : ∃ mid rest,
      mid.connectionState ≠ .disconnected ∧ (revents.epollin = true → Asks mid) ∧
        (revents.epollin = false → mid = d) ∧
        d' = (if revents.epollout = true then handleWrite mid rest else (mid, rest)).1 := by
    split at done
    · rename_i readable
      obtain ⟨⟨mid, rest⟩, read, ended⟩ := bind_ok.mp done
      obtain ⟨stillOpen, asks⟩ := handleReadFuel_asks open_ read
      obtain ⟨rfl, -⟩ := Prod.mk.inj (Except.ok.inj ended)
      exact ⟨mid, rest, stillOpen, fun _ => asks,
        fun idle => absurd (readable.symm.trans idle) (by decide), rfl⟩
    · rename_i idle
      obtain ⟨rfl, -⟩ := Prod.mk.inj (Except.ok.inj done)
      exact ⟨d, socket, open_, fun readable => absurd readable idle, fun _ => rfl, rfl⟩
  cases out : revents.epollout with
  | true =>
      have kept := (handleWrite_frame mid rest).2
      simp only [if_true]
      exact ⟨kept ▸ stillOpen, handleWrite_asks stillOpen, fun idle => by rw [kept, same idle]⟩
  | false =>
      simp only [Bool.false_eq_true, if_false]
      have readable : revents.epollin = true := by
        cases readable : revents.epollin with
        | true => rfl
        | false =>
            refine absurd ?_ some_
            cases revents
            simp_all
      exact ⟨stillOpen, asks readable, fun idle => absurd (readable.symm.trans idle) (by decide)⟩

end Handlers

end Corio.Epoll
