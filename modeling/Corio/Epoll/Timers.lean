import Corio.Epoll.Handlers
import Corio.Foundation.Machine
import Mathlib.Logic.Function.Basic

/-! # Connections and their timers

An `EventLoop` and its `Epoll`, as far as connections and their timers go. Connections and
timer nodes are pointers to a heap. A node lives while it is in the queue of the
`TimerManager`. `epoll_ctl` succeeds. The times are readings of the clock of `TimerNode`, in
milliseconds modulo 10000 s, which may come in any order. `Expiry` is about the clock itself.
-/

namespace Corio.Epoll

/-- The bits of `revents_` that `handleEvents` looks at. -/
structure Revents where
  epollin : Bool := false
  epollpri : Bool := false
  epollout : Bool := false
  epollrdhup : Bool := false
  epollerr : Bool := false
  epollhup : Bool := false
  deriving DecidableEq, Repr

/-- All bits that a channel is registered with. -/
structure Mask where
  events : Events
  oneshot : Bool
  deriving DecidableEq, Repr

structure TimerNode where
  address : Nat
  deleted : Bool
  expiredTime : Nat
  /-- `SPHttpData`. -/
  holds : Option Nat
  deriving DecidableEq, Repr

namespace TimerNode

/-- `TimerNode::isValid` at this reading of its clock, `setDeleted` apart. The clock starts again
    every 10000 s, so `expiredTime_` can be beyond all of its readings. -/
def isValid (node : TimerNode) (now : Nat) : Bool := now < node.expiredTime

def clearReq (node : TimerNode) : TimerNode := { node with deleted := true, holds := none }

end TimerNode

/-- An `HttpData` and its channel. -/
structure Connection where
  fd : Nat
  data : HttpData
  /-- `EPOLLONESHOT` in `events_`. -/
  oneshot : Bool
  lastEvents : Mask
  /-- The weak pointer `timer_`. -/
  timer : Option Nat
  deriving DecidableEq, Repr

def DEFAULT_EXPIRED_TIME : Nat := 2000

/-- Where the thread of the loop is in an iteration. -/
inductive IterationPc where
  | polling
  /-- At `handleEvents` of the next channel. -/
  | handling (ret : List (Nat × Revents))
  /-- At `handleConn`. -/
  | concluding (c : Nat) (ret : List (Nat × Revents))
  /-- At the next functor. -/
  | calling (functors : List Nat)
  | expiring
  deriving DecidableEq, Repr

structure Poller where
  heap : Nat → Connection
  /-- How many connections were made. -/
  made : Nat
  fd2chan : Nat → Option Nat
  fd2http : Nat → Option Nat
  timerNodeQueue : List TimerNode
  /-- How many timer nodes were made. -/
  nodes : Nat
  /-- Connections whose `newEvent` waits in the loop. -/
  pendingFunctors : List Nat
  pc : IterationPc

namespace Poller

def goto (s : Poller) (pc : IterationPc) : Poller := { s with pc := pc }

def set (s : Poller) (c : Nat) (connection : Connection) : Poller :=
  { s with heap := Function.update s.heap c connection }

def setData (s : Poller) (c : Nat) (data : HttpData) (oneshot : Bool) : Poller :=
  s.set c { s.heap c with data := data, oneshot := oneshot }

/-- `timer_.lock()`. -/
def lockTimer (s : Poller) (c : Nat) : Option Nat :=
  (s.heap c).timer.filter fun address => s.timerNodeQueue.any (·.address == address)

/-- `clearReq` on a node. -/
def clear (s : Poller) (address : Nat) : Poller :=
  { s with timerNodeQueue := s.timerNodeQueue.map fun node =>
      if node.address = address then node.clearReq else node }

def seperateTimer (s : Poller) (c : Nat) : Poller :=
  match s.lockTimer c with
  | none => s
  | some address => (s.clear address).set c { s.heap c with timer := none }

/-- `TimerManager::addTimer` at this reading of the clock of `TimerNode`, which is what the
    timeout is added to. -/
def addTimer (s : Poller) (c timeout now : Nat) : Poller :=
  let node : TimerNode :=
    { address := s.nodes, deleted := false, expiredTime := now + timeout, holds := some c }
  let s := s.set c { s.heap c with timer := some s.nodes }
  { s with timerNodeQueue := s.timerNodeQueue ++ [node], nodes := s.nodes + 1 }

/-- What `EqualAndUpdateLastEvents` leaves, and `epoll_ctl` if it is called. -/
def updateLastEvents (s : Poller) (c : Nat) : Poller :=
  s.set c { s.heap c with lastEvents := ⟨(s.heap c).data.events, (s.heap c).oneshot⟩ }

def epollAdd (s : Poller) (c timeout now : Nat) : Poller :=
  let s :=
    if timeout > 0 then
      let s := s.addTimer c timeout now
      { s with fd2http := Function.update s.fd2http (s.heap c).fd (some c) }
    else s
  let s := s.updateLastEvents c
  { s with fd2chan := Function.update s.fd2chan (s.heap c).fd (some c) }

def epollMod (s : Poller) (c timeout now : Nat) : Poller :=
  let s := if timeout > 0 then s.addTimer c timeout now else s
  s.updateLastEvents c

def epollDel (s : Poller) (c : Nat) : Poller :=
  { s with fd2chan := Function.update s.fd2chan (s.heap c).fd none
           fd2http := Function.update s.fd2http (s.heap c).fd none }

/-- `HttpData::handleClose`. -/
def close (s : Poller) (c : Nat) : Poller :=
  (s.setData c (handleClose (s.heap c).data) (s.heap c).oneshot).epollDel c

/-- `HttpData::newEvent`. -/
def newEvent (s : Poller) (c now : Nat) : Poller :=
  (s.setData c { (s.heap c).data with events := { epollin := true, epollet := true } }
    true).epollAdd c DEFAULT_EXPIRED_TIME now

/-- The error-free connection has output left for a peer that sends no more. -/
def Draining (d : HttpData) : Prop :=
  d.error = false ∧ d.connectionState = .disconnecting ∧ d.events.epollout = true

instance (d : HttpData) : Decidable (Draining d) := by
  unfold Draining
  infer_instance

/-- The timeout `handleConn` chooses. -/
def connTimeout (d : HttpData) : Nat :=
  if d.keepAlive then DEFAULT_KEEP_ALIVE_TIME
  else if d.events ≠ {} then DEFAULT_EXPIRED_TIME
  else DEFAULT_KEEP_ALIVE_TIME / 2

/-- `HttpData::handleConn`, whose changes to the connection are in `handleConn`. -/
def conclude (s : Poller) (c now : Nat) : Poller :=
  let s := s.seperateTimer c
  let d := (s.heap c).data
  let s := s.setData c (handleConn d) (s.heap c).oneshot
  if d.error = false ∧ d.connectionState = .connected then s.epollMod c (connTimeout d) now
  else if Draining d then s
  else s.epollDel c

end Poller

/-- `reset` is called in `handleRead`, for the first time when its first turn ends. -/
def readResets (fs : FileSystem) (d : HttpData) (socket : Socket) : Bool :=
  match readOnce fs d socket with
  | .error _ => false
  | .ok (d, socket) =>
      !d.error && !(flush d socket).1.error && (flush d socket).1.state == .finish

/-- What `handleEvents` does before `handleConn`, and whether a timer is cleared by it. -/
def handleReady (fs : FileSystem) (d : HttpData) (revents : Revents) (socket : Socket) :
    Except Fault (HttpData × Bool) := do
  let readable := revents.epollin || revents.epollpri || revents.epollrdhup
  let resets := readable && readResets fs d socket
  let (d, socket) ← if readable then handleRead fs d socket else .ok (d, socket)
  let (d, _) := if revents.epollout then handleWrite d socket else (d, socket)
  .ok (d, resets)

namespace Poller

/-- `Channel::handleEvents` up to `handleConn`. There is no handler for errors. -/
def handleEvents (s : Poller) (c : Nat) (revents : Revents) (ret : List (Nat × Revents))
    (fs : FileSystem) (socket : Socket) : Option Poller :=
  let d := { (s.heap c).data with events := {} }
  if revents.epollhup && !revents.epollin || revents.epollerr then
    some ((s.setData c d false).goto (.handling ret))
  else
    match handleReady fs d revents socket with
    | .error _ => none
    | .ok (d, resets) =>
        let s := if resets then s.seperateTimer c else s
        some ((s.setData c d false).goto (.concluding c ret))

/-- A top of the queue. -/
def IsTop (s : Poller) (node : TimerNode) : Prop :=
  ∀ other ∈ s.timerNodeQueue, node.expiredTime ≤ other.expiredTime

instance (s : Poller) (node : TimerNode) : Decidable (s.IsTop node) := by
  unfold IsTop
  infer_instance

def pop (s : Poller) (k : Nat) : Poller :=
  { s with timerNodeQueue := s.timerNodeQueue.eraseIdx k }

/-- The top is popped, and destroyed by `~TimerNode`. -/
def remove (s : Poller) (k : Nat) (node : TimerNode) : Poller :=
  match node.holds with
  | none => s.pop k
  | some c => (s.pop k).close c

/-- One turn of the loop in `handleExpiredEvent`, with the top in this place. -/
def expire (s : Poller) (k now : Nat) : Option Poller :=
  match s.timerNodeQueue with
  | [] => some (s.goto .polling)
  | _ :: _ =>
      match s.timerNodeQueue[k]? with
      | none => none
      | some node =>
          if ¬ s.IsTop node then none
          else if node.deleted then some (s.remove k node)
          else if node.isValid now then some (s.goto .polling)
          else some (s.remove k node)

/-- The functors that were swapped out and not called yet. -/
def functors (s : Poller) : List Nat :=
  match s.pc with
  | .calling functors => functors
  | _ => []

/-- Something refers to the connection, so it is not destroyed. -/
def Alive (s : Poller) (c : Nat) : Prop :=
  s.fd2http (s.heap c).fd = some c ∨ c ∈ s.pendingFunctors ∨ c ∈ s.functors ∨
    ∃ node ∈ s.timerNodeQueue, node.holds = some c

instance (s : Poller) (c : Nat) : Decidable (s.Alive c) := by
  unfold Alive
  infer_instance

/-- `accept` gives out a descriptor that no connection has open, and the connection's
    `newEvent` is queued. -/
def accept (s : Poller) (fd : Nat) : Option Poller :=
  if ∃ c, c < s.made ∧ (s.heap c).fd = fd ∧ s.Alive c then none
  else
    let s := s.set s.made
      { fd := fd, data := {}, oneshot := false, lastEvents := ⟨{}, false⟩, timer := none }
    some { s with made := s.made + 1, pendingFunctors := s.pendingFunctors ++ [s.made] }

/-- `Epoll::getEventsRequest`, but for `setEvents(0)`, which `handleEvents` does once more. -/
def getEventsRequest (s : Poller) (events : List (Nat × Revents)) : List (Nat × Revents) :=
  events.filterMap fun (fd, revents) => (s.fd2chan fd).map fun c => (c, revents)

end Poller

inductive PollerStep where
  /-- The acceptor has a new connection for the loop. -/
  | accept (fd : Nat)
  /-- `epoll_wait` reports these descriptors. The other channels are left out. -/
  | poll (events : List (Nat × Revents))
  /-- The next channel's events are handled, with these results of the system calls. -/
  | handle (fs : FileSystem) (reads : List ReadResult) (writes : List WriteResult)
  /-- `handleConn` of that channel, at this time. -/
  | conclude (now : Nat)
  /-- The next functor is called, or the functors are through. -/
  | call (now : Nat)
  /-- One turn of `handleExpiredEvent`. -/
  | expire (k now : Nat)

/-- Iterations of `loop`. -/
def poller : Machine Poller PollerStep where
  init :=
    { heap := fun _ =>
        { fd := 0, data := {}, oneshot := false, lastEvents := ⟨{}, false⟩, timer := none }
      made := 0, fd2chan := fun _ => none, fd2http := fun _ => none, timerNodeQueue := []
      nodes := 0, pendingFunctors := [], pc := .polling }
  step s action :=
    match s.pc, action with
    | _, .accept fd => s.accept fd
    | .polling, .poll events =>
        if (events.map Prod.fst).Nodup then some (s.goto (.handling (s.getEventsRequest events)))
        else none
    | .handling ((c, revents) :: ret), .handle fs reads writes =>
        s.handleEvents c revents ret fs ⟨reads, writes, []⟩
    | .concluding c ret, .conclude now => some ((s.conclude c now).goto (.handling ret))
    | .handling [], .call _ =>
        some ({ s with pendingFunctors := [] }.goto (.calling s.pendingFunctors))
    | .calling (c :: functors), .call now => some ((s.newEvent c now).goto (.calling functors))
    | .calling [], .call _ => some (s.goto .expiring)
    | .expiring, .expire k now => s.expire k now
    | _, _ => none

end Corio.Epoll
