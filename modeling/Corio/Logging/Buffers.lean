import Corio.Foundation.Machine
import Corio.Foundation.Text
import Mathlib.Logic.Function.Basic

/-! # Double buffering

`AsyncLogging` as pointers to buffers on a heap. `append` and the locked part of
`threadFunc` are steps of their own, since both hold the mutex throughout, but for
`waitForSeconds`, which gives it up. Failed assertions and null pointers are recorded.
-/

namespace Corio.Logging

def kLargeBuffer : Nat := 4000 * 1000

/-- A line that fits an empty buffer. Lines come out of a `LogStream`, whose buffer is
    a thousand times smaller. -/
abbrev Line := { text : Bytes // text.length < kLargeBuffer }

/-- A `BufferPtr` that is not null. -/
abbrev Addr := Nat

namespace FixedBuffer

def avail (data : Bytes) : Int := kLargeBuffer - data.length

def append (data logline : Bytes) : Bytes :=
  if avail data > logline.length then data ++ logline else data

end FixedBuffer

/-- A `LogFile` over a stream with a buffer of its own. -/
structure LogFile where
  given : Bytes
  flushed : Bytes
  count : Nat
  deriving DecidableEq, Repr

namespace LogFile

def flushEveryN : Nat := 1024

def flush (file : LogFile) : LogFile := { file with flushed := file.given }

def append (file : LogFile) (logline : Bytes) : LogFile :=
  let file := { file with given := file.given ++ logline, count := file.count + 1 }
  if file.count ≥ flushEveryN then { file with count := 0 }.flush else file

end LogFile

/-- Where the background thread is in `threadFunc`. -/
inductive ThreadPc where
  | unborn
  /-- At the assertion in front of `countDown`. -/
  | entering
  /-- At the test of `running_`. -/
  | testing
  /-- At the assertions and the lock. -/
  | locking
  /-- In `waitForSeconds`, without the lock. -/
  | waiting
  /-- Behind the lock, at the choice what to write. -/
  | taken
  /-- At the output of this buffer. -/
  | writing (i : Nat)
  /-- Behind the output, where two buffers are used again. -/
  | recycling
  | flushing
  /-- Behind the loop, at the last `flush`. -/
  | finishing
  | finished
  deriving DecidableEq, Repr

/-- Where the owner is in `start(); stop();`. -/
inductive OwnerPc where
  | constructed
  /-- In `start`, at `latch_.wait()`. -/
  | latched
  | started
  /-- In `stop`, at `running_ = false`. -/
  | stopping
  | notifying
  | joining
  | stopped
  deriving DecidableEq, Repr

structure AsyncLogging where
  /-- What is in each buffer up to `cur_`. -/
  heap : Addr → Bytes
  /-- The next address `new` gives out. -/
  next : Addr
  running : Bool
  currentBuffer : Option Addr
  nextBuffer : Option Addr
  buffers : List Addr
  thread : ThreadPc
  newBuffer1 : Option Addr
  newBuffer2 : Option Addr
  buffersToWrite : List Addr
  output : LogFile
  owner : OwnerPc
  /-- An assertion failed, or a null pointer was used. -/
  failed : Bool
  /-- All lines in the order of the mutex. -/
  appended : List Line
  /-- How many of them there were when `stop` was called. -/
  promised : Nat
  /-- For each turn of the background thread the buffers it took. -/
  turns : List (List Bytes)

namespace AsyncLogging

def fail (s : AsyncLogging) : AsyncLogging := { s with failed := true }

def goto (s : AsyncLogging) (pc : ThreadPc) : AsyncLogging := { s with thread := pc }

def store (s : AsyncLogging) (p : Addr) (data : Bytes) : AsyncLogging :=
  { s with heap := Function.update s.heap p data }

/-- `currentBuffer_->append(logline, len)`. -/
def write (s : AsyncLogging) (p : Addr) (logline : Bytes) : AsyncLogging :=
  s.store p (FixedBuffer.append (s.heap p) logline)

/-- `append` without the record of the line, which can have any length here. -/
def place (s : AsyncLogging) (logline : Bytes) : AsyncLogging :=
  match s.currentBuffer with
  | none => s.fail
  | some current =>
      if FixedBuffer.avail (s.heap current) > logline.length then s.write current logline
      else
        let s := { s with buffers := s.buffers ++ [current] }
        match s.nextBuffer with
        | some p => { s with currentBuffer := some p, nextBuffer := none }.write p logline
        | none =>
            ({ s with currentBuffer := some s.next, next := s.next + 1 }.store s.next []).write
              s.next logline

def append (s : AsyncLogging) (line : Line) : AsyncLogging :=
  { s with appended := s.appended ++ [line] }.place line

/-- `newBuffer && newBuffer->length() == 0`. -/
def isEmptyBuffer (s : AsyncLogging) (pointer : Option Addr) : Bool :=
  match pointer with
  | none => false
  | some p => (s.heap p).length == 0

/-- What the background thread does with the lock, behind the wait. -/
def swap (s : AsyncLogging) : AsyncLogging :=
  match s.currentBuffer with
  | none => s.fail
  | some current =>
      let s :=
        { s with currentBuffer := s.newBuffer1, newBuffer1 := none,
                 buffersToWrite := s.buffers ++ [current], buffers := s.buffersToWrite }
      let s :=
        if s.nextBuffer = none then { s with nextBuffer := s.newBuffer2, newBuffer2 := none } else s
      s.goto .taken

/-- More than 25 buffers are dropped down to two. -/
def kept {α : Type} (buffers : List α) : List α :=
  if buffers.length > 25 then buffers.take 2 else buffers

/-- `back`, `pop_back` and `reset`. -/
def recycle (s : AsyncLogging) : Option (Addr × AsyncLogging) :=
  s.buffersToWrite.getLast?.map fun p =>
    (p, { s with buffersToWrite := s.buffersToWrite.dropLast }.store p [])

/-- `if (!newBuffer1)` and its block. -/
def refill1 (s : AsyncLogging) : AsyncLogging :=
  if s.newBuffer1 = none then
    match s.recycle with
    | none => s.fail
    | some (p, s) => { s with newBuffer1 := some p }
  else s

def refill2 (s : AsyncLogging) : AsyncLogging :=
  if s.newBuffer2 = none then
    match s.recycle with
    | none => s.fail
    | some (p, s) => { s with newBuffer2 := some p }
  else s

/-- The next step of the background thread. It never waits for another one, since the
    wait is limited in time. -/
def threadStep (s : AsyncLogging) : Option AsyncLogging :=
  match s.thread with
  | .unborn | .finished => none
  | .entering =>
      if s.running then
        some (({ s with newBuffer1 := some s.next, newBuffer2 := some (s.next + 1),
                        next := s.next + 2, buffersToWrite := [] }.store s.next []
              |>.store (s.next + 1) []).goto .testing)
      else some s.fail
  | .testing => some (s.goto (if s.running then .locking else .finishing))
  | .locking =>
      if s.isEmptyBuffer s.newBuffer1 ∧ s.isEmptyBuffer s.newBuffer2 ∧ s.buffersToWrite = [] then
        if s.buffers = [] then some (s.goto .waiting) else some s.swap
      else some s.fail
  | .waiting => some s.swap
  | .taken =>
      if s.buffersToWrite = [] then some s.fail
      else
        some ({ s with buffersToWrite := kept s.buffersToWrite,
                       turns := s.turns ++ [s.buffersToWrite.map s.heap] }.goto (.writing 0))
  | .writing i =>
      match s.buffersToWrite[i]? with
      | none => some (s.goto .recycling)
      | some p => some ({ s with output := s.output.append (s.heap p) }.goto (.writing (i + 1)))
  | .recycling =>
      let s := { s with buffersToWrite := s.buffersToWrite.take 2 }
      some ({ s.refill1.refill2 with buffersToWrite := [] }.goto .flushing)
  | .flushing => some ({ s with output := s.output.flush }.goto .testing)
  | .finishing => some ({ s with output := s.output.flush }.goto .finished)

def ownerStep (s : AsyncLogging) : Option AsyncLogging :=
  match s.owner with
  | .constructed => some ({ s with running := true, owner := .latched }.goto .entering)
  | .latched =>
      if s.thread = .unborn ∨ s.thread = .entering then none else some { s with owner := .started }
  | .started => some { s with owner := .stopping, promised := s.appended.length }
  | .stopping => some { s with running := false, owner := .notifying }
  | .notifying => some { s with owner := .joining }
  | .joining => if s.thread = .finished then some { s with owner := .stopped } else none
  | .stopped => none

end AsyncLogging

inductive LogStep where
  /-- Some thread appends a line. -/
  | append (line : Line)
  | thread
  | owner

def asyncLogging : Machine AsyncLogging LogStep where
  init :=
    { heap := fun _ => [], next := 2, running := false, currentBuffer := some 0,
      nextBuffer := some 1, buffers := [], thread := .unborn, newBuffer1 := none,
      newBuffer2 := none, buffersToWrite := [], output := ⟨[], [], 0⟩, owner := .constructed,
      failed := false, appended := [], promised := 0, turns := [] }
  step s action :=
    if s.failed then none
    else
      match action with
      | .append line => some (s.append line)
      | .thread => s.threadStep
      | .owner => s.ownerStep

end Corio.Logging
