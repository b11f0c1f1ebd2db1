import Corio.Foundation.Machine

/-! # Operations on the ring

A scheduler's operations from `co_await` to resumption: the entries an awaiter
submits, the requests in the kernel, the completions and their way back through the
address in `user_data`. Coroutines appear only through what they await, in any order.
Entries also carry the await that submitted them, which no step looks at.
-/

namespace Corio.Uring

/-- Where an awaiter lives, the value of `user_data`. -/
abbrev Addr := Nat

/-- One evaluation of a `co_await` on an operation. -/
structure Await where
  id : Nat
  /-- The duration given to `async_recv_for`. -/
  timeout : Option Nat
  deriving DecidableEq, Repr

inductive Opcode where
  | accept
  | recv
  | send
  /-- `IORING_OP_TIMEOUT`. The kernel reads the duration when the entry is submitted, from a local
      of `RecvAwaiter::submit` that is gone by then. Here it is the one that was meant. -/
  | timeout (duration : Nat)
  deriving DecidableEq, Repr

structure Sqe where
  opcode : Opcode
  userData : Addr
  /-- `IOSQE_IO_LINK`. -/
  link : Bool
  await : Await
  deriving DecidableEq, Repr

structure Cqe where
  userData : Addr
  res : Int
  opcode : Opcode
  await : Await
  deriving DecidableEq, Repr

def ETIME : Nat := 62

def ECANCELED : Nat := 125

/-- `OperationBase`, as long as the awaiter lives. -/
structure Operation where
  await : Await
  /-- The completion that set `completed` and `result`. -/
  completed : Option Cqe
  deriving DecidableEq, Repr

/-- `OperationBase::await_resume`: the result, or the code of the `system_error`. -/
def awaitResume (res : Int) : Except Nat Nat :=
  if res < 0 then .error (-res).toNat else .ok res.toNat

structure Ring where
  entries : Nat
  /-- Entries the kernel has not taken yet. -/
  sq : List Sqe
  /-- Requests in the kernel. Only the first of a chain has started. -/
  chains : List (List Sqe)
  /-- Requests to be cancelled because the one they were linked behind failed. -/
  doomed : List Sqe
  cq : List Cqe
  operations : Addr → Option Operation
  /-- Operations whose continuation is in `ready_`. -/
  ready : List Addr
  nextId : Nat
  /-- Every completion handled, with the operation that was alive at its address. -/
  delivered : List (Cqe × Option Operation)
  /-- Every await that returned, with the completion its result came from. -/
  returned : List (Await × Cqe)

/-- The awaiters the server uses. -/
inductive Request where
  | accept
  | recv (timeout : Option Nat)
  | send
  deriving DecidableEq, Repr

def Request.timeout : Request → Option Nat
  | .recv timeout => timeout
  | .accept | .send => none

namespace Ring

/-- The requests of a batch: an entry is chained to the next one if it is flagged. -/
def chained : List Sqe → List (List Sqe)
  | [] => []
  | sqe :: rest =>
      match sqe.link, chained rest with
      | true, chain :: chains => (sqe :: chain) :: chains
      | _, chains => [sqe] :: chains

/-- `io_uring_submit`, when it succeeds. -/
def flush (r : Ring) : Ring := { r with sq := [], chains := r.chains ++ chained r.sq }

/-- The ring behind a call, as an error if an exception left the call. -/
abbrev Outcome := Except Ring Ring

/-- `io_uring_get_sqe`, with a `submit` and a second try if there is none. The flag says
    whether that `submit` succeeds. -/
def getSqe (r : Ring) (submits : Bool) : Outcome :=
  if r.sq.length < r.entries then .ok r
  else if ¬ submits then .error r
  else if r.flush.sq.length < r.entries then .ok r.flush
  else .error r.flush

def push (r : Ring) (sqe : Sqe) : Ring := { r with sq := r.sq ++ [sqe] }

/-- `flags |= IOSQE_IO_LINK` on the entry prepared last, which nothing reads any more
    if the queue was flushed since. -/
def linkLast (r : Ring) : Ring :=
  { r with sq := r.sq.modifyLast fun sqe => { sqe with link := true } }

/-- The `submit` of the awaiters with one entry. -/
def submitOne (r : Ring) (opcode : Opcode) (addr : Addr) (await : Await) (submits : Bool) :
    Outcome :=
  (r.getSqe submits).map (·.push ⟨opcode, addr, false, await⟩)

/-- `RecvAwaiter::submit`. -/
def recvSubmit (r : Ring) (addr : Addr) (await : Await) (submits : Bool × Bool) : Outcome := do
  let r ← r.submitOne .recv addr await submits.1
  match await.timeout with
  | none => .ok r
  | some duration =>
      let r ← r.getSqe submits.2
      .ok (r.linkLast.push ⟨.timeout duration, addr, false, await⟩)

/-- The virtual `submit` of the awaiter. -/
def submit (r : Ring) (request : Request) (addr : Addr) (await : Await) (submits : Bool × Bool) :
    Outcome :=
  match request with
  | .accept => r.submitOne .accept addr await submits.1
  | .send => r.submitOne .send addr await submits.1
  | .recv _ => r.recvSubmit addr await submits

/-- `OperationBase::await_suspend`, for an awaiter built at a free address. If an
    exception leaves it, the awaiter is gone. -/
def awaitSuspend (r : Ring) (request : Request) (addr : Addr) (submits : Bool × Bool) :
    Option Ring :=
  if (r.operations addr).isSome then none
  else
    let await : Await := ⟨r.nextId, request.timeout⟩
    match r.submit request addr await submits with
    | .error r => some { r with nextId := r.nextId + 1 }
    | .ok r =>
        some { r with nextId := r.nextId + 1,
                      operations := Function.update r.operations addr (some ⟨await, none⟩) }

/-- The results a request can end with. A timer ends when its duration has elapsed. -/
def MayReturn : Opcode → Int → Prop
  | .timeout _, res => res = -ETIME
  | _, _ => True

instance (opcode : Opcode) (res : Int) : Decidable (MayReturn opcode res) := by
  unfold MayReturn
  split <;> infer_instance

def post (r : Ring) (sqe : Sqe) (res : Int) : Ring :=
  { r with cq := r.cq ++ [⟨sqe.userData, res, sqe.opcode, sqe.await⟩] }

/-- The kernel completes the started request of a chain. What is linked behind it starts
    if it succeeded, and is cancelled otherwise. -/
def finish (r : Ring) (chain : Nat) (res : Int) : Option Ring :=
  match r.chains[chain]? with
  | some (sqe :: rest) =>
      if MayReturn sqe.opcode res then
        if res < 0 then
          some ({ r with chains := r.chains.set chain [], doomed := r.doomed ++ rest }.post sqe res)
        else some ({ r with chains := r.chains.set chain rest }.post sqe res)
      else none
  | _ => none

def cancel (r : Ring) (i : Nat) : Option Ring :=
  match r.doomed[i]? with
  | some sqe => some ({ r with doomed := r.doomed.eraseIdx i }.post sqe (-ECANCELED))
  | none => none

/-- `OperationBase::complete`, with the `enqueue` of the continuation. -/
def complete (r : Ring) (addr : Addr) (op : Operation) (cqe : Cqe) : Ring :=
  if op.completed.isSome then r
  else
    { r with operations := Function.update r.operations addr (some { op with completed := cqe }),
             ready := r.ready ++ [addr] }

/-- `handle_cqe` on the next completion. What a write to a dead awaiter does is left out. -/
def handleCqe (r : Ring) : Option Ring :=
  match r.cq with
  | [] => none
  | cqe :: cq =>
      let op := r.operations cqe.userData
      let r := { r with cq := cq, delivered := r.delivered ++ [(cqe, op)] }
      match op with
      | none => some r
      | some op => some (r.complete cqe.userData op cqe)

/-- `resume_ready`: the await returns and its awaiter is gone. -/
def resumeReady (r : Ring) : Option Ring :=
  match r.ready with
  | [] => none
  | addr :: ready =>
      match r.operations addr with
      | some ⟨await, some cqe⟩ =>
          some { r with ready := ready, operations := Function.update r.operations addr none,
                        returned := r.returned ++ [(await, cqe)] }
      | _ => none

theorem resumeReady_some {r r' : Ring} (taken : r.resumeReady = some r') :
    ∃ addr ready await cqe, r.ready = addr :: ready ∧
      r.operations addr = some ⟨await, some cqe⟩ ∧
        r' = { r with ready := ready, operations := Function.update r.operations addr none,
                      returned := r.returned ++ [(await, cqe)] } := by
  unfold resumeReady at taken
  split at taken
  · cases taken
  · rename_i addr ready queued
    split at taken
    · rename_i await cqe alive
      exact ⟨addr, ready, await, cqe, queued, alive, (Option.some.inj taken).symm⟩
    · cases taken

end Ring

inductive RingStep where
  | await (request : Request) (addr : Addr) (submits : Bool × Bool)
  /-- `io_uring_submit` in `run`, and whether it succeeds. -/
  | submit (succeeds : Bool)
  | finish (chain : Nat) (res : Int)
  | cancel (i : Nat)
  | handleCqe
  | resume
  deriving DecidableEq, Repr

def ring (entries : Nat) : Machine Ring RingStep where
  init := ⟨entries, [], [], [], [], fun _ => none, [], 0, [], []⟩
  step r action :=
    match action with
    | .await request addr submits => r.awaitSuspend request addr submits
    | .submit succeeds => some (if succeeds then r.flush else r)
    | .finish chain res => r.finish chain res
    | .cancel i => r.cancel i
    | .handleCqe => r.handleCqe
    | .resume => r.resumeReady

end Corio.Uring
