import Corio.Foundation.Text
import Corio.Logging.LogQueue

/-! # The asynchronous logger

`AsyncLogger` with any number of logging threads, its worker and its owner, which starts and
stops it. Lines go to the worker through the queue, or straight to the sink when the queue
stays full. A pointer to a line is its place among the lines that were formatted so far.
-/

namespace Corio.Logging

inductive LogLevel where
  | trace | debug | info | warn | error | fatal
  deriving DecidableEq, Repr

/-- A thread that uses the logger. -/
inductive Who (ι : Type) where
  | owner
  | worker
  | logger (i : ι)
  deriving DecidableEq, Repr

namespace AsyncLogger

def levelName : LogLevel → String
  | .trace => "TRACE"
  | .debug => "DEBUG"
  | .info => "INFO"
  | .warn => "WARN"
  | .error => "ERROR"
  | .fatal => "FATAL"

/-- `format_line`, with the text that the clock gives. -/
def formatLine (timestamp : Bytes) (level : LogLevel) (message : Bytes) : Bytes :=
  timestamp ++ Corio.bytes " [" ++ Corio.bytes (levelName level) ++ Corio.bytes "] " ++ message ++
    Corio.bytes "\n"

/-- An `ofstream` that takes whatever it is given. -/
structure Sink where
  isOpen : Bool
  given : Bytes
  flushed : Bytes
  deriving DecidableEq, Repr

/-- Where a thread is in `log`, which has formatted its line. -/
inductive LoggerPc where
  | idle
  /-- At the call of `push`, behind this many that failed. -/
  | attempting (p attempts : Nat)
  /-- In `push`. -/
  | pushing (p attempts : Nat)
  /-- In `direct_write`, at the lock. -/
  | locking (p : Nat)
  /-- At the test `sink_.is_open()`. -/
  | locked (p : Nat)
  /-- In the output of the line, with this much of it left. -/
  | writing (rest : Bytes)
  | flushing
  | unlocking
  deriving DecidableEq, Repr

/-- Which of the two loops over `pop` the worker is in. -/
inductive Loop where
  | running (wrote : Bool)
  | drain
  deriving DecidableEq, Repr

namespace Loop

/-- `wrote = true`, which only the first loop has. -/
def setWrote : Loop → Loop
  | .running _ => .running true
  | .drain => .drain

end Loop

/-- Where the worker is in `worker_loop`. -/
inductive WorkerPc where
  | unborn
  /-- At the test of `running_`. -/
  | testing
  /-- At the call of `pop`. -/
  | attempting (loop : Loop)
  /-- In `pop`. -/
  | popping (loop : Loop)
  | locking (loop : Loop) (p : Nat)
  /-- At the test `sink_.is_open()`. -/
  | locked (loop : Loop) (p : Nat)
  | writing (loop : Loop) (rest : Bytes)
  | unlocking (loop : Loop)
  /-- Behind a loop, at the lock for the flush. -/
  | flushLocking (last : Bool)
  | flushLocked (last : Bool)
  | flushing (last : Bool)
  | flushUnlocking (last : Bool)
  | finished
  deriving DecidableEq, Repr

/-- Where the owner is between the constructor and the return of `stop`. -/
inductive OwnerPc where
  | constructed
  /-- In `start`, at the lock. -/
  | openLocking
  | opening
  | openUnlocking
  | spawning
  /-- On the way out of `start` with an exception. -/
  | failing
  | failed
  /-- `start` has returned. -/
  | started
  /-- In `stop`. -/
  | joining
  | closeLocking
  /-- At the test `sink_.is_open()`. -/
  | closeLocked
  | closing
  | closeUnlocking
  | stopped
  deriving DecidableEq, Repr

end AsyncLogger

open AsyncLogger

structure AsyncLogger (ι : Type) where
  running : Bool
  queue : LogQueue (Who ι) Nat
  sink : Sink
  sinkMutex : Option (Who ι)
  logger : ι → LoggerPc
  worker : WorkerPc
  owner : AsyncLogger.OwnerPc
  /-- All lines that were formatted, and by whom. -/
  lines : List (ι × Bytes)
  /-- The lines whose output has begun, in this order. -/
  written : List Nat

namespace AsyncLogger

variable {ι : Type} [DecidableEq ι] (capacity : Capacity)

def line (s : AsyncLogger ι) (p : Nat) : Bytes := (s.lines[p]?).elim [] Prod.snd

def gotoLogger (s : AsyncLogger ι) (i : ι) (pc : LoggerPc) : AsyncLogger ι :=
  { s with logger := Function.update s.logger i pc }

def gotoWorker (s : AsyncLogger ι) (pc : WorkerPc) : AsyncLogger ι := { s with worker := pc }

def gotoOwner (s : AsyncLogger ι) (pc : OwnerPc) : AsyncLogger ι := { s with owner := pc }

def useQueue (s : AsyncLogger ι) (action : QueueStep (Who ι) Nat) : Option (AsyncLogger ι) :=
  ((logQueue (Who ι) Nat capacity).step s.queue action).map fun queue => { s with queue := queue }

omit [DecidableEq ι] in
def lock (s : AsyncLogger ι) (who : Who ι) : Option (AsyncLogger ι) :=
  if s.sinkMutex.isNone then some { s with sinkMutex := some who } else none

def unlock (s : AsyncLogger ι) : AsyncLogger ι := { s with sinkMutex := none }

/-- The output of a line begins. -/
def begin (s : AsyncLogger ι) (p : Nat) : AsyncLogger ι := { s with written := s.written ++ [p] }

def put (s : AsyncLogger ι) (byte : UInt8) : AsyncLogger ι :=
  { s with sink := { s.sink with given := s.sink.given ++ [byte] } }

def flush (s : AsyncLogger ι) : AsyncLogger ι :=
  { s with sink := { s.sink with flushed := s.sink.given } }

/-- The next step of a thread in `log`, `push` apart. -/
def loggerStep (s : AsyncLogger ι) (i : ι) : Option (AsyncLogger ι) :=
  match s.logger i with
  | .idle => none
  | .attempting p attempts =>
      (s.useQueue capacity (.push (.logger i) p)).map (·.gotoLogger i (.pushing p attempts))
  | .pushing p attempts =>
      match s.queue.thread (.logger i) with
      | .pushed true => some (s.gotoLogger i .idle)
      | .pushed false =>
          some (s.gotoLogger i
            (if attempts + 1 < 16 then .attempting p (attempts + 1) else .locking p))
      | _ => none
  | .locking p => (s.lock (.logger i)).map (·.gotoLogger i (.locked p))
  | .locked p =>
      if s.sink.isOpen then some ((s.begin p).gotoLogger i (.writing (s.line p)))
      else some (s.gotoLogger i .unlocking)
  | .writing [] => some (s.gotoLogger i .flushing)
  | .writing (byte :: rest) => some ((s.put byte).gotoLogger i (.writing rest))
  | .flushing => some (s.flush.gotoLogger i .unlocking)
  | .unlocking => some (s.unlock.gotoLogger i .idle)

/-- Where the worker goes when `pop` has returned false. -/
def behind : Loop → WorkerPc
  | .running true => .flushLocking false
  | .running false => .testing
  | .drain => .flushLocking true

/-- The next step of the worker, `pop` apart. -/
def workerStep (s : AsyncLogger ι) : Option (AsyncLogger ι) :=
  match s.worker with
  | .unborn | .finished => none
  | .testing => some (s.gotoWorker (.attempting (if s.running then .running false else .drain)))
  | .attempting loop => (s.useQueue capacity (.pop .worker)).map (·.gotoWorker (.popping loop))
  | .popping loop =>
      match s.queue.thread .worker with
      | .popped (some p) => some (s.gotoWorker (.locking loop p))
      | .popped none => some (s.gotoWorker (behind loop))
      | _ => none
  | .locking loop p => (s.lock .worker).map (·.gotoWorker (.locked loop p))
  | .locked loop p =>
      if s.sink.isOpen then some ((s.begin p).gotoWorker (.writing loop (s.line p)))
      else some (s.gotoWorker (.unlocking loop))
  | .writing loop [] => some (s.gotoWorker (.unlocking loop.setWrote))
  | .writing loop (byte :: rest) => some ((s.put byte).gotoWorker (.writing loop rest))
  | .unlocking loop => some (s.unlock.gotoWorker (.attempting loop))
  | .flushLocking last => (s.lock .worker).map (·.gotoWorker (.flushLocked last))
  | .flushLocked last =>
      some (s.gotoWorker (if s.sink.isOpen then .flushing last else .flushUnlocking last))
  | .flushing last => some (s.flush.gotoWorker (.flushUnlocking last))
  | .flushUnlocking last => some (s.unlock.gotoWorker (if last then .finished else .testing))

/-- The next step of the owner. `opens` tells if the file can be opened. -/
def ownerStep (s : AsyncLogger ι) (opens : Bool) : Option (AsyncLogger ι) :=
  match s.owner with
  | .constructed =>
      if s.running then some (s.gotoOwner .started)
      else some ({ s with running := true }.gotoOwner .openLocking)
  | .openLocking => (s.lock .owner).map (·.gotoOwner .opening)
  | .opening =>
      if opens then
        some ({ s with sink := { s.sink with isOpen := true } }.gotoOwner .openUnlocking)
      else some ({ s with running := false }.gotoOwner .failing)
  | .openUnlocking => some (s.unlock.gotoOwner .spawning)
  | .spawning => some ((s.gotoWorker .testing).gotoOwner .started)
  | .failing => some (s.unlock.gotoOwner .failed)
  | .started =>
      if s.running then some ({ s with running := false }.gotoOwner .joining)
      else some (s.gotoOwner .stopped)
  | .joining => if s.worker = .finished then some (s.gotoOwner .closeLocking) else none
  | .closeLocking => (s.lock .owner).map (·.gotoOwner .closeLocked)
  | .closeLocked => some (s.gotoOwner (if s.sink.isOpen then .closing else .closeUnlocking))
  | .closing =>
      some ({ s.flush with sink := { s.flush.sink with isOpen := false } }.gotoOwner
        .closeUnlocking)
  | .closeUnlocking => some (s.unlock.gotoOwner .stopped)
  | .failed | .stopped => none

end AsyncLogger

inductive LoggerStep (ι : Type) where
  /-- A thread calls `log` at a time that reads like this. -/
  | log (i : ι) (level : LogLevel) (message timestamp : Bytes)
  /-- A thread in `push` or `pop` makes its next access. -/
  | queue (who : Who ι) (spurious : Bool)
  | logger (i : ι)
  | worker
  | owner (opens : Bool)

def asyncLogger (ι : Type) [DecidableEq ι] (capacity : Capacity) :
    Machine (AsyncLogger ι) (LoggerStep ι) where
  init :=
    { running := false, queue := .construct _ _, sink := ⟨false, [], []⟩, sinkMutex := none,
      logger := fun _ => .idle, worker := .unborn, owner := .constructed, lines := [],
      written := [] }
  step s action :=
    match action with
    | .log i level message timestamp =>
        if s.logger i = .idle then
          some ({ s with lines := s.lines ++ [(i, formatLine timestamp level message)] }.gotoLogger
            i (.attempting s.lines.length 0))
        else none
    | .queue who spurious => s.useQueue capacity (.advance who spurious)
    | .logger i => s.loggerStep capacity i
    | .worker => s.workerStep capacity
    | .owner opens => s.ownerStep opens

end Corio.Logging
