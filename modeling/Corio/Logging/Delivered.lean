import Corio.Logging.Accounts
import Corio.Logging.Intact
import Mathlib.Data.Fintype.Basic

/-! # What the logger delivers

The lines of the sink are written under its lock, one behind the other, and those of one
thread in order, unless a line was written directly while an earlier one was in the queue.
When `stop` has returned, every line is there.
-/

namespace Corio.Logging

namespace AsyncLogger

namespace LoggerPc

/-- Holding the lock of the sink. -/
def Inside : LoggerPc → Prop
  | .locked _ | .writing _ | .flushing | .unlocking => True
  | _ => False

/-- What is left of the line in the output. -/
def rest : LoggerPc → Bytes
  | .writing rest => rest
  | _ => []

end LoggerPc

namespace WorkerPc

def Inside : WorkerPc → Prop
  | .locked _ _ | .writing _ _ | .unlocking _ | .flushLocked _ | .flushing _
  | .flushUnlocking _ => True
  | _ => False

def rest : WorkerPc → Bytes
  | .writing _ rest => rest
  | _ => []

end WorkerPc

namespace OwnerPc

def Inside : OwnerPc → Prop
  | .opening | .openUnlocking | .failing | .closeLocked | .closing | .closeUnlocking => True
  | _ => False

/-- Before the return of `start`. -/
def Early : OwnerPc → Prop
  | .constructed | .openLocking | .opening | .openUnlocking | .spawning | .failing
  | .failed => True
  | _ => False

/-- Behind the exchange in `start`, and not in `stop`. -/
def Up : OwnerPc → Prop
  | .openLocking | .opening | .openUnlocking | .spawning | .started => True
  | _ => False

/-- In `stop`, behind the join. -/
def Joined : OwnerPc → Prop
  | .closeLocking | .closeLocked | .closing | .closeUnlocking | .stopped => True
  | _ => False

/-- The sink is open. -/
def Open : OwnerPc → Prop
  | .openUnlocking | .spawning | .started | .joining | .closeLocking | .closeLocked
  | .closing => True
  | _ => False

/-- The sink is flushed for the last time. -/
def Closed : OwnerPc → Prop
  | .closeUnlocking | .stopped => True
  | _ => False

end OwnerPc

def Inside (logger : ι → LoggerPc) (worker : WorkerPc) (owner : OwnerPc) : Who ι → Prop
  | .owner => owner.Inside
  | .worker => worker.Inside
  | .logger i => (logger i).Inside

def rest (logger : ι → LoggerPc) (worker : WorkerPc) : Who ι → Bytes
  | .owner => []
  | .worker => worker.rest
  | .logger i => (logger i).rest

/-- All that the sink is given before the lines in `written` are through. -/
def output (s : AsyncLogger ι) : Bytes := (s.written.map s.line).flatten

/-- The lock and the output of the sink. -/
def Output (logger : ι → LoggerPc) (worker : WorkerPc) (owner : OwnerPc)
    (mutex : Option (Who ι)) (given whole : Bytes) : Prop :=
  Exclusive (Inside logger worker owner) (rest logger worker) mutex given whole

/-- How far the owner and the worker are. -/
structure Phase (owner : OwnerPc) (running : Bool) (sink : Sink) (worker : WorkerPc)
    (logger : ι → LoggerPc) : Prop where
  up : owner.Up → running = true
  down : owner = .constructed → running = false
  isOpen : owner.Open → sink.isOpen = true
  unborn : owner.Early → worker = .unborn
  idle : owner ≠ .started → ∀ i, logger i = .idle
  draining : worker.Draining → owner ≠ .started ∧ ¬ owner.Early
  joined : owner.Joined → worker = .finished
  closed : owner.Closed → sink.flushed = sink.given

structure Sound (capacity : Capacity) (s : AsyncLogger ι) : Prop where
  accounts : Accounts capacity s.queue s.logger s.worker s.lines s.written
  output : Output s.logger s.worker s.owner s.sinkMutex s.sink.given s.output
  phase : Phase s.owner s.running s.sink s.worker s.logger

variable {ι : Type} [DecidableEq ι] {capacity : Capacity} {logger : ι → LoggerPc}
  {worker : WorkerPc}

section

variable {owner : OwnerPc} {running : Bool} {sink sink' : Sink} {mutex : Option (Who ι)}
  {given given' whole whole' : Bytes}

theorem inside_gotoLogger {i : ι} {pc : LoggerPc} (who : Who ι) (apart : who ≠ .logger i) :
    Inside (Function.update logger i pc) worker owner who ↔ Inside logger worker owner who := by
  cases who with
  | owner | worker => rfl
  | logger j =>
      have other : j ≠ i := fun same => apart (congrArg _ same)
      simp only [Inside, Function.update_of_ne other]

omit [DecidableEq ι] in
theorem inside_gotoWorker {pc : WorkerPc} (who : Who ι) (apart : who ≠ .worker) :
    Inside logger pc owner who ↔ Inside logger worker owner who := by
  cases who with
  | worker => exact absurd rfl apart
  | owner | logger => rfl

omit [DecidableEq ι] in
theorem inside_gotoOwner {pc : OwnerPc} (who : Who ι) (apart : who ≠ .owner) :
    Inside logger worker pc who ↔ Inside logger worker owner who := by
  cases who with
  | owner => exact absurd rfl apart
  | worker | logger => rfl

namespace Output

variable (output : Output logger worker owner mutex given whole)
include output

theorem enterLogger {i : ι} {pc : LoggerPc} (free : mutex.isNone) (now : pc.Inside)
    (nothing : pc.rest = []) :
    Output (Function.update logger i pc) worker owner (some (.logger i)) given whole := by
  refine Exclusive.enter output (Option.isNone_iff_eq_none.mp free) inside_gotoLogger ?_ ?_
  · simpa only [Inside, Function.update_self] using now
  · simpa only [rest, Function.update_self] using nothing

theorem leaveLogger {i : ι} {pc : LoggerPc} (mine : (logger i).Inside)
    (nothing : (logger i).rest = []) (now : ¬ pc.Inside) :
    Output (Function.update logger i pc) worker owner none given whole := by
  refine Exclusive.leave (k := .logger i) output mine nothing inside_gotoLogger ?_
  simpa only [Inside, Function.update_self] using now

theorem workLogger {i : ι} {pc : LoggerPc} (mine : (logger i).Inside) (now : pc.Inside)
    (text : given ++ (logger i).rest = whole → given' ++ pc.rest = whole') :
    Output (Function.update logger i pc) worker owner mutex given' whole' := by
  refine Exclusive.work (k := .logger i) output mine inside_gotoLogger ?_ fun before => ?_
  · simpa only [Inside, Function.update_self] using now
  · simpa only [rest, Function.update_self] using text before

theorem roamLogger {i : ι} {pc : LoggerPc} (out : ¬ (logger i).Inside) (now : ¬ pc.Inside) :
    Output (Function.update logger i pc) worker owner mutex given whole := by
  refine Exclusive.roam (k := .logger i) output out inside_gotoLogger ?_ ?_
  · intro who apart
    cases who with
    | owner | worker => rfl
    | logger j =>
        have other : j ≠ i := fun same => apart (congrArg _ same)
        simp only [rest, Function.update_of_ne other]
  · simpa only [Inside, Function.update_self] using now

omit [DecidableEq ι] in
theorem enterWorker {pc : WorkerPc} (free : mutex.isNone) (now : pc.Inside)
    (nothing : pc.rest = []) : Output logger pc owner (some .worker) given whole :=
  Exclusive.enter output (Option.isNone_iff_eq_none.mp free) inside_gotoWorker now nothing

omit [DecidableEq ι] in
theorem leaveWorker {pc : WorkerPc} (mine : worker.Inside) (nothing : worker.rest = [])
    (now : ¬ pc.Inside) : Output logger pc owner none given whole :=
  Exclusive.leave (k := .worker) output mine nothing inside_gotoWorker now

omit [DecidableEq ι] in
theorem workWorker {pc : WorkerPc} (mine : worker.Inside) (now : pc.Inside)
    (text : given ++ worker.rest = whole → given' ++ pc.rest = whole') :
    Output logger pc owner mutex given' whole' :=
  Exclusive.work (k := .worker) output mine inside_gotoWorker now text

omit [DecidableEq ι] in
theorem roamWorker {pc : WorkerPc} (out : ¬ worker.Inside) (now : ¬ pc.Inside) :
    Output logger pc owner mutex given whole := by
  refine Exclusive.roam (k := .worker) output out inside_gotoWorker ?_ now
  intro who apart
  cases who with
  | worker => exact absurd rfl apart
  | owner | logger => rfl

omit [DecidableEq ι] in
theorem enterOwner {pc : OwnerPc} (free : mutex.isNone) (now : pc.Inside) :
    Output logger worker pc (some .owner) given whole :=
  Exclusive.enter output (Option.isNone_iff_eq_none.mp free) inside_gotoOwner now rfl

omit [DecidableEq ι] in
theorem leaveOwner {pc : OwnerPc} (mine : owner.Inside) (now : ¬ pc.Inside) :
    Output logger worker pc none given whole :=
  Exclusive.leave (k := .owner) output mine rfl inside_gotoOwner now

omit [DecidableEq ι] in
theorem workOwner {pc : OwnerPc} (mine : owner.Inside) (now : pc.Inside) :
    Output logger worker pc mutex given whole :=
  Exclusive.work (k := .owner) output mine inside_gotoOwner now id

omit [DecidableEq ι] in
theorem roamOwner {pc : OwnerPc} (out : ¬ owner.Inside) (now : ¬ pc.Inside) :
    Output logger worker pc mutex given whole :=
  Exclusive.roam (k := .owner) output out inside_gotoOwner (fun _ _ => rfl) now

end Output

namespace Phase

omit [DecidableEq ι] in
/-- Between `start` and `stop` the threads in `log` are free to move. -/
theorem serving (phase : Phase owner running sink worker logger) (started : owner = .started)
    {logger' : ι → LoggerPc} (same : sink'.isOpen = sink.isOpen) :
    Phase owner running sink' worker logger' := by
  subst started
  exact { phase with
    isOpen := fun opened => same.trans (phase.isOpen opened)
    idle := fun apart => absurd rfl apart
    closed := fun closed => closed.elim }

omit [DecidableEq ι] in
/-- The worker moves, and finds `running_` false only when it is. -/
theorem gotoWorker (phase : Phase owner running sink worker logger) {pc : WorkerPc}
    (alive : worker ≠ .unborn) (busy : worker ≠ .finished)
    (draining : pc.Draining → worker.Draining ∨ running = false)
    (same : sink'.isOpen = sink.isOpen) : Phase owner running sink' pc logger where
  up := phase.up
  down := phase.down
  isOpen := fun opened => same.trans (phase.isOpen opened)
  unborn := fun early => absurd (phase.unborn early) alive
  idle := phase.idle
  draining := fun now => by
    rcases draining now with before | down
    · exact phase.draining before
    · refine ⟨fun started => ?_, fun early => alive (phase.unborn early)⟩
      rw [phase.up (by rw [started]; trivial)] at down
      cases down
  joined := fun joined => absurd (phase.joined joined) busy
  closed := fun closed => by
    refine absurd (phase.joined ?_) busy
    cases owner with
    | closeUnlocking | stopped => trivial
    | _ => exact closed.elim

omit [DecidableEq ι] in
/-- The owner moves inside of `start`. -/
theorem early (phase : Phase owner running sink worker logger) {next : OwnerPc}
    {running' : Bool} (before : owner.Early) (now : next.Early) (apart : next ≠ .constructed)
    (up : next.Up → running' = true) (isOpen : next.Open → sink'.isOpen = true) :
    Phase next running' sink' worker logger := by
  have unborn := phase.unborn before
  subst unborn
  have unstarted : owner ≠ .started := fun started => by
    rw [started] at before
    exact before
  refine ⟨up, fun same => absurd same apart, isOpen, fun _ => rfl, fun _ => phase.idle unstarted,
    False.elim, fun joined => ?_, fun closed => ?_⟩
  · cases next <;> first | exact joined.elim | exact now.elim
  · cases next <;> first | exact closed.elim | exact now.elim

omit [DecidableEq ι] in
/-- The owner moves behind the join. -/
theorem late (phase : Phase owner running sink worker logger) {next : OwnerPc}
    (before : owner.Joined) (now : next.Joined) (isOpen : next.Open → sink'.isOpen = true)
    (closed : next.Closed → sink'.flushed = sink'.given) :
    Phase next running sink' worker logger := by
  have finished := phase.joined before
  subst finished
  have unstarted : owner ≠ .started := fun started => by
    rw [started] at before
    exact before
  refine ⟨fun up => ?_, ?_, isOpen, fun early => ?_, fun _ => phase.idle unstarted,
    fun _ => ⟨?_, fun early => ?_⟩, fun _ => rfl, closed⟩
  · cases next <;> first | exact up.elim | exact now.elim
  · rintro rfl
    exact now.elim
  · cases next <;> first | exact early.elim | exact now.elim
  · rintro rfl
    exact now
  · cases next <;> first | exact early.elim | exact now.elim

end Phase

end

variable {s s' : AsyncLogger ι}

@[simp] theorem output_gotoLogger (s : AsyncLogger ι) (i : ι) (pc : LoggerPc) :
    (s.gotoLogger i pc).output = s.output := rfl

omit [DecidableEq ι] in
@[simp] theorem output_gotoWorker (s : AsyncLogger ι) (pc : WorkerPc) :
    (s.gotoWorker pc).output = s.output := rfl

omit [DecidableEq ι] in
theorem output_begin (s : AsyncLogger ι) (p : Nat) :
    (s.begin p).output = s.output ++ s.line p := by
  have whole : (s.begin p).output = ((s.written ++ [p]).map s.line).flatten := rfl
  rw [whole, List.map_append, List.flatten_append, List.map_singleton, List.flatten_singleton]
  rfl

namespace Sound

omit [DecidableEq ι] in
/-- Where the worker is at work, the sink is open. -/
theorem isOpen (sound : Sound capacity s) (alive : s.worker ≠ .unborn)
    (busy : s.worker ≠ .finished) : s.sink.isOpen = true := by
  refine sound.phase.isOpen ?_
  cases pc : s.owner with
  | openUnlocking | spawning | started | joining | closeLocking | closeLocked
  | closing => trivial
  | constructed | openLocking | opening | failing | failed =>
      exact absurd (sound.phase.unborn (by rw [pc]; trivial)) alive
  | closeUnlocking | stopped => exact absurd (sound.phase.joined (by rw [pc]; trivial)) busy

section Logger

variable {i : ι} {p attempts : Nat} {left : Bytes}

/-- What came of a push. -/
theorem loggerPushes (sound : Sound capacity s) (started : s.owner = .started)
    (pc : s.logger i = .pushing p attempts) (taken : s.loggerStep capacity i = some s') :
    Sound capacity s' := by
  have accounts := sound.accounts
  have output := sound.output
  have out : ¬ (s.logger i).Inside := by rw [pc]; exact id
  simp only [AsyncLogger.loggerStep, pc] at taken
  split at taken
  · rename_i pushed
    obtain rfl := Option.some.inj taken
    refine ⟨accounts.gotoLogger ?_ ?_, output.roamLogger out id, sound.phase.serving started rfl⟩
    · rw [pc, pushed]
      rfl
    · rw [pushed]
      trivial
  · rename_i refused
    obtain rfl := Option.some.inj taken
    have outside : (s.queue.thread (.logger i)).Outside := by rw [refused]; trivial
    split
    all_goals
      refine ⟨accounts.gotoLogger ?_ outside, output.roamLogger out id,
        sound.phase.serving started rfl⟩
      rw [pc, refused]
      rfl
  · cases taken

/-- The next byte of a line that is written directly, or its end. -/
theorem loggerWrites (sound : Sound capacity s) (started : s.owner = .started)
    (pc : s.logger i = .writing left) (taken : s.loggerStep capacity i = some s') :
    Sound capacity s' := by
  have accounts := sound.accounts
  have output := sound.output
  have pushes := accounts.pushes i
  rw [pc] at pushes
  cases left with
  | nil =>
      simp only [AsyncLogger.loggerStep, pc, Option.some.injEq] at taken
      subst taken
      refine ⟨accounts.gotoLogger (by rw [pc]; rfl) pushes,
        output.workLogger (by rw [pc]; trivial) trivial ?_, sound.phase.serving started rfl⟩
      rw [pc]
      exact id
  | cons byte left =>
      simp only [AsyncLogger.loggerStep, pc, Option.some.injEq] at taken
      subst taken
      refine ⟨accounts.gotoLogger (by rw [pc]; rfl) pushes,
        output.workLogger (by rw [pc]; trivial) trivial ?_, sound.phase.serving started rfl⟩
      rw [pc]
      exact fun text => (List.append_assoc s.sink.given [byte] left).trans text

theorem loggerStep (sound : Sound capacity s) (taken : s.loggerStep capacity i = some s') :
    Sound capacity s' := by
  have busy : s.logger i ≠ .idle := fun idle => by
    simp only [AsyncLogger.loggerStep, idle, reduceCtorEq] at taken
  have started : s.owner = .started := by
    by_contra apart
    exact busy (sound.phase.idle apart i)
  have accounts := sound.accounts
  have output := sound.output
  have pushes := accounts.pushes i
  cases pc : s.logger i with
  | idle => exact absurd pc busy
  | attempting p attempts =>
      simp only [AsyncLogger.loggerStep, pc, useQueue, Option.map_map, Option.map_eq_some_iff]
        at taken
      obtain ⟨queue, called, rfl⟩ := taken
      exact ⟨accounts.callPush pc called, output.roamLogger (by rw [pc]; exact id) id,
        sound.phase.serving started rfl⟩
  | pushing p attempts => exact sound.loggerPushes started pc taken
  | locking p =>
      simp only [AsyncLogger.loggerStep, pc, AsyncLogger.lock, Option.map_eq_some_iff,
        Option.ite_none_right_eq_some, Option.some.injEq] at taken
      obtain ⟨_, ⟨free, rfl⟩, rfl⟩ := taken
      rw [pc] at pushes
      exact ⟨accounts.gotoLogger (by rw [pc]; rfl) pushes, output.enterLogger free trivial rfl,
        sound.phase.serving started rfl⟩
  | locked p =>
      have opened := sound.phase.isOpen (by rw [started]; trivial)
      simp only [AsyncLogger.loggerStep, pc, if_pos opened, Option.some.injEq] at taken
      subst taken
      refine ⟨accounts.deliver pc _, output.workLogger (by rw [pc]; trivial) trivial ?_,
        sound.phase.serving started rfl⟩
      rw [pc, output_gotoLogger, output_begin]
      exact fun text => congrArg (· ++ s.line p) ((List.append_nil _).symm.trans text)
  | writing left => exact sound.loggerWrites started pc taken
  | flushing =>
      rw [pc] at pushes
      simp only [AsyncLogger.loggerStep, pc, Option.some.injEq] at taken
      subst taken
      refine ⟨accounts.gotoLogger (by rw [pc]; rfl) pushes,
        output.workLogger (by rw [pc]; trivial) trivial ?_, sound.phase.serving started rfl⟩
      rw [pc]
      exact id
  | unlocking =>
      rw [pc] at pushes
      simp only [AsyncLogger.loggerStep, pc, Option.some.injEq] at taken
      subst taken
      exact ⟨accounts.gotoLogger (by rw [pc]; rfl) pushes,
        output.leaveLogger (by rw [pc]; trivial) (by rw [pc]; rfl) id,
        sound.phase.serving started rfl⟩

end Logger

section Worker

variable {loop : Loop} {last : Bool} {p : Nat} {left : Bytes}

/-- A worker that takes a step has begun and has not finished. -/
theorem working (taken : s.workerStep capacity = some s') :
    s.worker ≠ .unborn ∧ s.worker ≠ .finished := by
  constructor
  · intro unborn
    simp only [AsyncLogger.workerStep, unborn, reduceCtorEq] at taken
  · intro finished
    simp only [AsyncLogger.workerStep, finished, reduceCtorEq] at taken

omit [DecidableEq ι] in
/-- The worker goes on with what it has, and the sink stays open. -/
theorem moveWorker (sound : Sound capacity s)
    (working : s.worker ≠ .unborn ∧ s.worker ≠ .finished) {before next : WorkerPc}
    {mutex : Option (Who ι)} {sink : Sink} (pc : s.worker = before)
    (same : inHand next (s.queue.thread .worker) = inHand before (s.queue.thread .worker))
    (pops : Pops s.queue.won s.queue.taken before (s.queue.thread .worker) →
      Pops s.queue.won s.queue.taken next (s.queue.thread .worker))
    (drained : next.Drained → before.Drained) (draining : next.Draining → before.Draining)
    (output : Output s.logger before s.owner s.sinkMutex s.sink.given s.output →
      Output s.logger next s.owner mutex sink.given s.output)
    (still : sink.isOpen = s.sink.isOpen) :
    Sound capacity { s with worker := next, sinkMutex := mutex, sink := sink } := by
  subst pc
  exact ⟨sound.accounts.gotoWorker same (pops sound.accounts.pops)
      fun now => sound.accounts.drained (drained now), output sound.output,
    sound.phase.gotoWorker working.1 working.2 (fun now => .inl (draining now)) still⟩

/-- What came of a pop: an entry, or the queue was seen empty. -/
theorem workerPops (sound : Sound capacity s) (pc : s.worker = .popping loop)
    (taken : s.workerStep capacity = some s') : Sound capacity s' := by
  obtain ⟨alive, busy⟩ := working taken
  have accounts := sound.accounts
  have output := sound.output
  have pops := accounts.pops
  have draining {pc : WorkerPc} (kept : pc.Draining → s.worker.Draining) :
      Phase s.owner s.running s.sink pc s.logger :=
    sound.phase.gotoWorker alive busy (fun now => .inl (kept now)) rfl
  have out : ¬ s.worker.Inside := by rw [pc]; exact id
  rw [pc] at pops
  simp only [AsyncLogger.workerStep, pc] at taken
  split at taken
  · rename_i p popped
    obtain rfl := Option.some.inj taken
    rw [popped] at pops
    rcases pops with seeks | holds | ⟨none, -⟩ | ⟨r, some, entry⟩
    · exact seeks.elim
    · exact holds.elim
    · cases none
    · cases some
      refine ⟨accounts.gotoWorker ?_ ⟨?_, entry⟩ False.elim, output.roamWorker out id, draining ?_⟩
      · rw [pc, popped]
        rfl
      · rw [popped]
        trivial
      · rw [pc]
        cases loop <;> exact id
  · rename_i popped
    obtain rfl := Option.some.inj taken
    rw [popped] at pops
    rcases pops with seeks | holds | ⟨-, empty⟩ | ⟨r, some, -⟩
    · exact seeks.elim
    · exact holds.elim
    · have outside : (s.queue.thread .worker).Outside := by rw [popped]; trivial
      cases loop with
      | running wrote =>
          cases wrote
          all_goals
            refine ⟨accounts.gotoWorker ?_ outside False.elim, output.roamWorker out id,
              draining False.elim⟩
            rw [pc, popped]
            rfl
      | drain =>
          refine ⟨accounts.gotoWorker ?_ outside fun _ => empty rfl, output.roamWorker out id,
            draining fun _ => ?_⟩
          · rw [pc, popped]
            rfl
          · rw [pc]
            trivial
    · cases some
  · cases taken

/-- The next byte of a line of the queue, or its end. -/
theorem workerWrites (sound : Sound capacity s) (pc : s.worker = .writing loop left)
    (taken : s.workerStep capacity = some s') : Sound capacity s' := by
  have working := working taken
  cases left with
  | nil =>
      simp only [AsyncLogger.workerStep, pc, Option.some.injEq] at taken
      subst taken
      refine sound.moveWorker working pc rfl id False.elim ?_
        (fun output => output.workWorker trivial trivial id) rfl
      cases loop <;> exact id
  | cons byte left =>
      simp only [AsyncLogger.workerStep, pc, Option.some.injEq] at taken
      subst taken
      refine sound.moveWorker working pc rfl id False.elim ?_ (fun output => ?_) rfl
      · cases loop <;> exact id
      · exact output.workWorker trivial trivial fun text =>
          (List.append_assoc s.sink.given [byte] left).trans text

/-- A flush of the worker, and its lock. -/
theorem workerFlushes (sound : Sound capacity s)
    (at_ : s.worker = .flushLocking last ∨ s.worker = .flushLocked last ∨
      s.worker = .flushing last ∨ s.worker = .flushUnlocking last)
    (taken : s.workerStep capacity = some s') : Sound capacity s' := by
  have working := working taken
  have opened := sound.isOpen working.1 working.2
  rcases at_ with pc | pc | pc | pc
  · simp only [AsyncLogger.workerStep, pc, AsyncLogger.lock, Option.map_eq_some_iff,
      Option.ite_none_right_eq_some, Option.some.injEq] at taken
    obtain ⟨_, ⟨free, rfl⟩, rfl⟩ := taken
    refine sound.moveWorker working pc rfl id ?_ ?_
      (fun output => output.enterWorker free trivial rfl) rfl
    all_goals cases last <;> exact id
  · simp only [AsyncLogger.workerStep, pc, if_pos opened, Option.some.injEq] at taken
    subst taken
    refine sound.moveWorker working pc rfl id ?_ ?_
      (fun output => output.workWorker trivial trivial id) rfl
    all_goals cases last <;> exact id
  · simp only [AsyncLogger.workerStep, pc, Option.some.injEq] at taken
    subst taken
    refine sound.moveWorker working pc rfl id ?_ ?_
      (fun output => output.workWorker trivial trivial id) rfl
    all_goals cases last <;> exact id
  · simp only [AsyncLogger.workerStep, pc, Option.some.injEq] at taken
    subst taken
    cases last with
    | true =>
        exact sound.moveWorker working pc rfl id id (fun _ => trivial)
          (fun output => output.leaveWorker trivial rfl id) rfl
    | false =>
        exact sound.moveWorker working pc rfl id False.elim False.elim
          (fun output => output.leaveWorker trivial rfl id) rfl

theorem workerStep (sound : Sound capacity s) (taken : s.workerStep capacity = some s') :
    Sound capacity s' := by
  have working := working taken
  have opened := sound.isOpen working.1 working.2
  have accounts := sound.accounts
  have output := sound.output
  cases pc : s.worker with
  | unborn => exact absurd pc working.1
  | finished => exact absurd pc working.2
  | testing =>
      have pops := accounts.pops
      rw [pc] at pops
      simp only [AsyncLogger.workerStep, pc, Option.some.injEq] at taken
      subst taken
      refine ⟨accounts.gotoWorker (by rw [pc]; rfl) pops False.elim,
        output.roamWorker (by rw [pc]; exact id) id,
        sound.phase.gotoWorker working.1 working.2 (fun now => .inr ?_) rfl⟩
      by_contra up
      rw [Bool.not_eq_false] at up
      rw [up] at now
      exact now
  | attempting loop =>
      simp only [AsyncLogger.workerStep, pc, useQueue, Option.map_map, Option.map_eq_some_iff]
        at taken
      obtain ⟨queue, called, rfl⟩ := taken
      refine ⟨accounts.callPop pc called, output.roamWorker (by rw [pc]; exact id) id,
        sound.phase.gotoWorker working.1 working.2 (fun now => .inl ?_) rfl⟩
      rw [pc]
      cases loop <;> exact now
  | popping loop => exact sound.workerPops pc taken
  | locking loop p =>
      simp only [AsyncLogger.workerStep, pc, AsyncLogger.lock, Option.map_eq_some_iff,
        Option.ite_none_right_eq_some, Option.some.injEq] at taken
      obtain ⟨_, ⟨free, rfl⟩, rfl⟩ := taken
      refine sound.moveWorker working pc rfl id False.elim ?_
        (fun output => output.enterWorker free trivial rfl) rfl
      cases loop <;> exact id
  | locked loop p =>
      simp only [AsyncLogger.workerStep, pc, if_pos opened, Option.some.injEq] at taken
      subst taken
      refine ⟨accounts.serve pc _, output.workWorker (by rw [pc]; trivial) trivial ?_,
        sound.phase.gotoWorker working.1 working.2 (fun now => .inl ?_) rfl⟩
      · rw [pc, output_gotoWorker, output_begin]
        exact fun text => congrArg (· ++ s.line p) ((List.append_nil _).symm.trans text)
      · rw [pc]
        cases loop <;> exact now
  | writing loop left => exact sound.workerWrites pc taken
  | unlocking loop =>
      simp only [AsyncLogger.workerStep, pc, Option.some.injEq] at taken
      subst taken
      refine sound.moveWorker working pc rfl id False.elim ?_
        (fun output => output.leaveWorker trivial rfl id) rfl
      cases loop <;> exact id
  | flushLocking last => exact sound.workerFlushes (.inl pc) taken
  | flushLocked last => exact sound.workerFlushes (.inr (.inl pc)) taken
  | flushing last => exact sound.workerFlushes (.inr (.inr (.inl pc))) taken
  | flushUnlocking last => exact sound.workerFlushes (.inr (.inr (.inr pc))) taken

end Worker

section Owner

omit [DecidableEq ι]

variable {opens : Bool}

/-- Inside of `start`. -/
theorem ownerOpens (sound : Sound capacity s) (early : s.owner.Early)
    (taken : s.ownerStep opens = some s') : Sound capacity s' := by
  have accounts := sound.accounts
  have output := sound.output
  have phase := sound.phase
  have unborn := phase.unborn early
  cases pc : s.owner with
  | constructed =>
      have down := phase.down pc
      simp only [AsyncLogger.ownerStep, pc, down, Bool.false_eq_true, if_false,
        Option.some.injEq] at taken
      subst taken
      exact ⟨accounts, output.roamOwner (by rw [pc]; exact id) id,
        phase.early early trivial nofun (fun _ => rfl) False.elim⟩
  | openLocking =>
      simp only [AsyncLogger.ownerStep, pc, AsyncLogger.lock, Option.map_eq_some_iff,
        Option.ite_none_right_eq_some, Option.some.injEq] at taken
      obtain ⟨_, ⟨free, rfl⟩, rfl⟩ := taken
      exact ⟨accounts, output.enterOwner free trivial,
        phase.early early trivial nofun (fun _ => phase.up (by rw [pc]; trivial)) False.elim⟩
  | opening =>
      simp only [AsyncLogger.ownerStep, pc] at taken
      split at taken
      · obtain rfl := Option.some.inj taken
        exact ⟨accounts, output.workOwner (by rw [pc]; trivial) trivial,
          phase.early early trivial nofun (fun _ => phase.up (by rw [pc]; trivial)) fun _ => rfl⟩
      · obtain rfl := Option.some.inj taken
        exact ⟨accounts, output.workOwner (by rw [pc]; trivial) trivial,
          phase.early early trivial nofun False.elim False.elim⟩
  | openUnlocking =>
      simp only [AsyncLogger.ownerStep, pc, Option.some.injEq] at taken
      subst taken
      exact ⟨accounts, output.leaveOwner (by rw [pc]; trivial) id,
        phase.early early trivial nofun (fun _ => phase.up (by rw [pc]; trivial))
          fun _ => phase.isOpen (by rw [pc]; trivial)⟩
  | spawning =>
      simp only [AsyncLogger.ownerStep, pc, Option.some.injEq] at taken
      subst taken
      have pops := accounts.pops
      rw [unborn] at pops
      refine ⟨accounts.gotoWorker (by rw [unborn]; rfl) pops False.elim, ?_, ?_⟩
      · refine (output.roamWorker ?_ id).roamOwner (by rw [pc]; exact id) id
        rw [unborn]
        exact id
      · exact ⟨fun _ => phase.up (by rw [pc]; trivial), nofun,
          fun _ => phase.isOpen (by rw [pc]; trivial), False.elim, fun apart => absurd rfl apart,
          False.elim, False.elim, False.elim⟩
  | failing =>
      simp only [AsyncLogger.ownerStep, pc, Option.some.injEq] at taken
      subst taken
      exact ⟨accounts, output.leaveOwner (by rw [pc]; trivial) id,
        phase.early early trivial nofun False.elim False.elim⟩
  | failed => simp only [AsyncLogger.ownerStep, pc, reduceCtorEq] at taken
  | started | joining | closeLocking | closeLocked | closing | closeUnlocking | stopped =>
      rw [pc] at early
      exact early.elim

/-- In `stop`, behind the join. -/
theorem ownerCloses (sound : Sound capacity s) (joined : s.owner.Joined)
    (taken : s.ownerStep opens = some s') : Sound capacity s' := by
  have accounts := sound.accounts
  have output := sound.output
  have phase := sound.phase
  cases pc : s.owner with
  | closeLocking =>
      simp only [AsyncLogger.ownerStep, pc, AsyncLogger.lock, Option.map_eq_some_iff,
        Option.ite_none_right_eq_some, Option.some.injEq] at taken
      obtain ⟨_, ⟨free, rfl⟩, rfl⟩ := taken
      exact ⟨accounts, output.enterOwner free trivial,
        phase.late joined trivial (fun _ => phase.isOpen (by rw [pc]; trivial)) False.elim⟩
  | closeLocked =>
      have opened := phase.isOpen (by rw [pc]; trivial)
      simp only [AsyncLogger.ownerStep, pc, opened, if_true, Option.some.injEq] at taken
      subst taken
      exact ⟨accounts, output.workOwner (by rw [pc]; trivial) trivial,
        phase.late joined trivial (fun _ => opened) False.elim⟩
  | closing =>
      simp only [AsyncLogger.ownerStep, pc, Option.some.injEq] at taken
      subst taken
      exact ⟨accounts, output.workOwner (by rw [pc]; trivial) trivial,
        phase.late joined trivial False.elim fun _ => rfl⟩
  | closeUnlocking =>
      simp only [AsyncLogger.ownerStep, pc, Option.some.injEq] at taken
      subst taken
      exact ⟨accounts, output.leaveOwner (by rw [pc]; trivial) id,
        phase.late joined trivial False.elim fun _ => phase.closed (by rw [pc]; trivial)⟩
  | stopped => simp only [AsyncLogger.ownerStep, pc, reduceCtorEq] at taken
  | constructed | openLocking | opening | openUnlocking | spawning | failing | failed | started
  | joining =>
      rw [pc] at joined
      exact joined.elim

theorem ownerStep (sound : Sound capacity s)
    (idle : s.owner = .started → ∀ i, s.logger i = .idle)
    (taken : s.ownerStep opens = some s') : Sound capacity s' := by
  have accounts := sound.accounts
  have output := sound.output
  have phase := sound.phase
  cases pc : s.owner with
  | constructed | openLocking | opening | openUnlocking | spawning | failing | failed =>
      exact sound.ownerOpens (by rw [pc]; trivial) taken
  | started =>
      have up := phase.up (by rw [pc]; trivial)
      simp only [AsyncLogger.ownerStep, pc, up, if_true, Option.some.injEq] at taken
      subst taken
      refine ⟨accounts, output.roamOwner (by rw [pc]; exact id) id, ?_⟩
      exact ⟨False.elim, nofun, fun _ => phase.isOpen (by rw [pc]; trivial), False.elim,
        fun _ => idle pc, fun _ => ⟨nofun, id⟩, False.elim, False.elim⟩
  | joining =>
      simp only [AsyncLogger.ownerStep, pc, Option.ite_none_right_eq_some, Option.some.injEq]
        at taken
      obtain ⟨finished, rfl⟩ := taken
      refine ⟨accounts, output.roamOwner (by rw [pc]; exact id) id, ?_⟩
      exact ⟨False.elim, nofun, fun _ => phase.isOpen (by rw [pc]; trivial), False.elim,
        fun _ => phase.idle (by rw [pc]; nofun), fun _ => ⟨nofun, id⟩, fun _ => finished,
        False.elim⟩
  | closeLocking | closeLocked | closing | closeUnlocking | stopped =>
      exact sound.ownerCloses (by rw [pc]; trivial) taken

end Owner

theorem log (sound : Sound capacity s) {i : ι} (idle : s.logger i = .idle)
    (started : s.owner = .started) (text : Bytes) :
    Sound capacity ({ s with lines := s.lines ++ [(i, text)] }.gotoLogger i
      (.attempting s.lines.length 0)) := by
  refine ⟨sound.accounts.log idle text, ?_, sound.phase.serving started rfl⟩
  have same : s.output = ({ s with lines := s.lines ++ [(i, text)] }.gotoLogger i
      (.attempting s.lines.length 0)).output := by
    refine congrArg List.flatten (List.map_congr_left fun p member => ?_)
    have inside := sound.accounts.ledger.inside p (.inr member)
    rw [List.length_map] at inside
    exact congrArg (Option.elim · [] Prod.snd) (List.getElem?_append_left inside).symm
  have roamed : Output (Function.update s.logger i (.attempting s.lines.length 0)) s.worker s.owner
      s.sinkMutex s.sink.given s.output := sound.output.roamLogger (by rw [idle]; exact id) id
  rwa [same] at roamed

end Sound

/-- Lines are logged between the return of `start` and the call of `stop`. -/
def Arranged (s : AsyncLogger ι) : LoggerStep ι → Prop
  | .log _ _ _ _ => s.owner = .started
  | .owner _ => s.owner = .started → ∀ i, s.logger i = .idle
  | _ => True

instance [Fintype ι] (s : AsyncLogger ι) : DecidablePred s.Arranged
  | .log _ _ _ _ => inferInstanceAs (Decidable (s.owner = .started))
  | .owner _ => inferInstanceAs (Decidable (s.owner = .started → ∀ i, s.logger i = .idle))
  | .queue _ _ | .logger _ | .worker => .isTrue trivial

/-- The queue's compare-exchanges are timely. -/
def Timely (s : AsyncLogger ι) : LoggerStep ι → Prop
  | .queue who spurious => s.queue.Timely (.advance who spurious)
  | _ => True

instance (s : AsyncLogger ι) : DecidablePred s.Timely
  | .queue who spurious => inferInstanceAs (Decidable (s.queue.Timely (.advance who spurious)))
  | .log _ _ _ _ | .logger _ | .worker | .owner _ => .isTrue trivial

theorem Sound.init (capacity : Capacity) : Sound capacity (asyncLogger ι capacity).init where
  accounts :=
    { board := ⟨_, LogQueue.Board.construct⟩
      ledger := Ledger.Sound.init
      pushes := fun _ => trivial
      pops := trivial
      unused := trivial
      drained := False.elim }
  output :=
    { holder := fun who => by
        cases who <;> exact iff_of_false id nofun
      text := rfl }
  phase := ⟨False.elim, fun _ => rfl, False.elim, fun _ => rfl, fun _ _ => rfl, False.elim,
    False.elim, False.elim⟩

theorem Sound.step (sound : Sound capacity s) {action : LoggerStep ι}
    (arranged : s.Arranged action) (timely : s.Timely action)
    (taken : (asyncLogger ι capacity).step s action = some s') : Sound capacity s' := by
  cases action with
  | log i level message timestamp =>
      simp only [asyncLogger, Option.ite_none_right_eq_some, Option.some.injEq] at taken
      obtain ⟨idle, rfl⟩ := taken
      exact sound.log idle arranged _
  | queue who spurious =>
      simp only [asyncLogger, useQueue, Option.map_eq_some_iff] at taken
      obtain ⟨queue, advanced, rfl⟩ := taken
      refine ⟨sound.accounts.advance (fun draining => ?_) timely advanced, sound.output,
        sound.phase⟩
      exact sound.phase.idle (sound.phase.draining draining).1
  | logger i => exact sound.loggerStep taken
  | worker => exact sound.workerStep taken
  | owner opens => exact sound.ownerStep arranged taken

theorem Sound.of_run {steps : List (LoggerStep ι)}
    (ran : (asyncLogger ι capacity).run (asyncLogger ι capacity).init steps = some s)
    (arranged : (asyncLogger ι capacity).Guarded Arranged (asyncLogger ι capacity).init steps)
    (timely : (asyncLogger ι capacity).Guarded Timely (asyncLogger ι capacity).init steps) :
    Sound capacity s :=
  Machine.Guarded.preserves
    (fun _ _ _ sound guard taken => Sound.step sound guard.1 guard.2 taken) (Sound.init capacity)
    (arranged.and timely) ran

/-- The lines that a run logs, and by whom. -/
def logged (steps : List (LoggerStep ι)) : List (ι × Bytes) :=
  steps.filterMap fun
    | .log i level message timestamp => some (i, formatLine timestamp level message)
    | _ => none

/-- What a thread in `log` leaves alone. -/
theorem fixed_loggerStep {i : ι} (taken : s.loggerStep capacity i = some s') :
    s'.lines = s.lines ∧ s'.owner = s.owner := by
  unfold AsyncLogger.loggerStep at taken
  split at taken <;>
    grind [Option.map_eq_some_iff, useQueue, lock, gotoLogger, begin, put, flush, unlock]

/-- What the worker leaves alone. -/
theorem fixed_workerStep (taken : s.workerStep capacity = some s') :
    s'.lines = s.lines ∧ s'.owner = s.owner ∧ s'.logger = s.logger := by
  unfold AsyncLogger.workerStep at taken
  split at taken <;>
    grind [Option.map_eq_some_iff, useQueue, lock, gotoWorker, begin, put, flush, unlock]

omit [DecidableEq ι] in
/-- What the owner leaves alone. -/
theorem fixed_ownerStep {opens : Bool} (taken : s.ownerStep opens = some s') :
    s'.lines = s.lines ∧ s'.logger = s.logger := by
  unfold AsyncLogger.ownerStep at taken
  split at taken <;> grind [Option.map_eq_some_iff, lock, gotoOwner, gotoWorker, flush, unlock]

theorem lines_step {action : LoggerStep ι}
    (taken : (asyncLogger ι capacity).step s action = some s') :
    s'.lines = s.lines ++ logged [action] := by
  cases action with
  | log i level message timestamp =>
      simp only [asyncLogger, Option.ite_none_right_eq_some, Option.some.injEq] at taken
      exact taken.2 ▸ rfl
  | queue who spurious =>
      simp only [asyncLogger, useQueue, Option.map_eq_some_iff] at taken
      obtain ⟨queue, -, rfl⟩ := taken
      exact (List.append_nil _).symm
  | logger i => exact (fixed_loggerStep taken).1.trans (List.append_nil _).symm
  | worker => exact (fixed_workerStep taken).1.trans (List.append_nil _).symm
  | owner opens => exact (fixed_ownerStep taken).1.trans (List.append_nil _).symm

/-- The lines are those that the run logs. -/
theorem lines_run {steps : List (LoggerStep ι)}
    (ran : (asyncLogger ι capacity).run s steps = some s') :
    s'.lines = s.lines ++ logged steps := by
  induction steps generalizing s with
  | nil =>
      obtain rfl := Option.some.inj ran
      exact (List.append_nil _).symm
  | cons action rest ih =>
      obtain ⟨next, taken, later⟩ := (Machine.run_cons_some _).mp ran
      have whole : logged (action :: rest) = logged [action] ++ logged rest :=
        List.filterMap_append (l := [action])
      rw [ih later, lines_step taken, whole, List.append_assoc]

theorem filterMap_getElem?_range {α : Type} (l : List α) :
    (List.range l.length).filterMap (l[·]?) = l := by
  induction l with
  | nil => rfl
  | cons a l ih =>
      rw [List.length_cons, List.range_succ_eq_map, List.filterMap_cons, List.filterMap_map]
      exact congrArg (a :: ·) ih

omit [DecidableEq ι] in
theorem output_eq (s : AsyncLogger ι) :
    s.output = ((s.written.filterMap (s.lines[·]?)).map Prod.snd).flatten := by
  unfold output
  induction s.written with
  | nil => rfl
  | cons p rest ih =>
      rw [List.map_cons, List.flatten_cons, ih, List.filterMap_cons]
      cases there : s.lines[p]? with
      | none => simp only [line, there, Option.elim_none, List.nil_append]
      | some text =>
          simp only [line, there, Option.elim_some, List.map_cons, List.flatten_cons]

omit [DecidableEq ι] in
/-- Nobody has the lock once the owner has stopped. -/
theorem Sound.unlocked (sound : Sound capacity s) (stopped : s.owner = .stopped) :
    s.sinkMutex = none := by
  have finished := sound.phase.joined (by rw [stopped]; trivial)
  have idle := sound.phase.idle (by rw [stopped]; nofun)
  cases held : s.sinkMutex with
  | none => rfl
  | some who =>
      have inside := (sound.output.holder who).mpr held
      cases who with
      | owner => rw [Inside, stopped] at inside; exact inside.elim
      | worker => rw [Inside, finished] at inside; exact inside.elim
      | logger i => rw [Inside, idle i] at inside; exact inside.elim

omit [DecidableEq ι] in
theorem Sound.given_eq (sound : Sound capacity s) (free : s.sinkMutex = none) :
    s.sink.given = s.output := by
  have text := sound.output.text
  rwa [free, Option.elim_none, List.append_nil] at text

/-- When `stop` has returned, every line is in the sink, once and in one piece. -/
theorem delivered (capacity : Capacity) (steps : List (LoggerStep ι)) (s : AsyncLogger ι)
    (ran : (asyncLogger ι capacity).run (asyncLogger ι capacity).init steps = some s)
    (arranged : (asyncLogger ι capacity).Guarded Arranged (asyncLogger ι capacity).init steps)
    (timely : (asyncLogger ι capacity).Guarded Timely (asyncLogger ι capacity).init steps)
    (stopped : s.owner = .stopped) :
    ∃ order : List (ι × Bytes), order.Perm (logged steps) ∧
      s.sink.flushed = (order.map Prod.snd).flatten := by
  have sound := Sound.of_run ran arranged timely
  have finished := sound.phase.joined (by rw [stopped]; trivial)
  have idle := sound.phase.idle (by rw [stopped]; nofun)
  have empty := sound.accounts.drained (by rw [finished]; trivial)
  have lines : s.lines = logged steps := lines_run ran
  have all : s.written.Perm (List.range s.lines.length) := by
    have perm := sound.accounts.ledger.perm (fun i => by simp only [idle i, pending])
      (by simpa only [finished, inHand, Nat.sub_zero] using empty)
    rwa [List.length_map] at perm
  refine ⟨s.written.filterMap (s.lines[·]?), ?_, ?_⟩
  · rw [← lines]
    exact (all.filterMap _).trans (.of_eq (filterMap_getElem?_range s.lines))
  · rw [← output_eq, ← sound.given_eq (sound.unlocked stopped)]
    exact sound.phase.closed (by rw [stopped]; trivial)

/-- So many accesses of a thread to the queue. -/
def accesses (who : Who ι) (n : Nat) : List (LoggerStep ι) := List.replicate n (.queue who false)

/-- The owner starts the logger. -/
def starting : List (LoggerStep ι) := List.replicate 5 (.owner true)

/-- A thread logs a line that goes into the queue. -/
def queueing (i : ι) (message : Bytes) : List (LoggerStep ι) :=
  [.log i .info message [], .logger i] ++ accesses (.logger i) 5 ++ [.logger i]

/-- The worker pops a line of this length and writes it. -/
def serving (length : Nat) : List (LoggerStep ι) :=
  [.worker] ++ accesses .worker 5 ++ List.replicate (5 + length) .worker

/-- The worker finds the queue empty, and flushes the sink. -/
def resting : List (LoggerStep ι) := [.worker] ++ accesses .worker 2 ++ List.replicate 5 .worker

/-- The owner, who has called `stop`, stops the logger. -/
def closing : List (LoggerStep ι) := List.replicate 5 (.owner true)

/-- Two threads log a line each, and the owner stops the logger before the worker looks. -/
def calm : List (LoggerStep Bool) :=
  starting ++ queueing true [97] ++ queueing false [98] ++ [.owner true, .worker] ++ serving 10 ++
    serving 10 ++ resting ++ closing

theorem delivered_calm : ∃ s : AsyncLogger Bool,
    (asyncLogger Bool LogQueue.smallest).run (asyncLogger Bool LogQueue.smallest).init calm =
      some s ∧ s.owner = .stopped ∧ ∃ order : List (Bool × Bytes), order.Perm (logged calm) ∧
        s.sink.flushed = (order.map Prod.snd).flatten := by
  have ran : ((asyncLogger Bool LogQueue.smallest).run (asyncLogger Bool LogQueue.smallest).init
      calm).any fun s => s.owner = .stopped := by decide +kernel
  obtain ⟨s, ran, stopped⟩ := (Option.any_eq_true _ _).mp ran
  have stopped := of_decide_eq_true stopped
  exact ⟨s, ran, stopped,
    delivered _ calm s ran (by decide +kernel) (by decide +kernel) stopped⟩

/-- The thread that logged a line. -/
def maker (s : AsyncLogger ι) (p : Nat) : Option ι := s.lines[p]?.map Prod.fst

/-- The one line is in the sink before the other one. -/
def Precedes (s : AsyncLogger ι) (a b : Nat) : Prop := [a, b].Sublist s.written

/-- A line that took the way through the queue. -/
def Queued (s : AsyncLogger ι) (p : Nat) : Prop := p ∈ s.queue.won

/-- The sink holds lines one behind the other, and those of one thread in order, unless an
    earlier one was queued and a later one was not. -/
theorem in_order (capacity : Capacity) (steps : List (LoggerStep ι)) (s : AsyncLogger ι)
    (ran : (asyncLogger ι capacity).run (asyncLogger ι capacity).init steps = some s)
    (arranged : (asyncLogger ι capacity).Guarded Arranged (asyncLogger ι capacity).init steps)
    (timely : (asyncLogger ι capacity).Guarded Timely (asyncLogger ι capacity).init steps) :
    s.sink.given <+: s.output ∧ (s.sinkMutex = none → s.sink.given = s.output) ∧
      ∀ a b, a < b → s.maker a = s.maker b → b ∈ s.written →
        s.Queued a ∧ ¬ s.Queued b ∨ s.Precedes a b := by
  have sound := Sound.of_run ran arranged timely
  refine ⟨⟨_, sound.output.text⟩, sound.given_eq, fun a b less same member => ?_⟩
  refine sound.accounts.ledger.precedes a b less ?_ member
  simpa only [Ledger.Together, List.getElem?_map, maker] using same

theorem in_order_calm : ∃ s : AsyncLogger Bool,
    (asyncLogger Bool LogQueue.smallest).run (asyncLogger Bool LogQueue.smallest).init calm =
      some s ∧ s.written = [0, 1] ∧ s.sink.given <+: s.output ∧
      (s.sinkMutex = none → s.sink.given = s.output) ∧
      ∀ a b, a < b → s.maker a = s.maker b → b ∈ s.written →
        s.Queued a ∧ ¬ s.Queued b ∨ s.Precedes a b := by
  have ran : ((asyncLogger Bool LogQueue.smallest).run (asyncLogger Bool LogQueue.smallest).init
      calm).any fun s => s.written = [0, 1] := by decide +kernel
  obtain ⟨s, ran, written⟩ := (Option.any_eq_true _ _).mp ran
  exact ⟨s, ran, of_decide_eq_true written,
    in_order _ calm s ran (by decide +kernel) (by decide +kernel)⟩

/-- A thread finds the queue full and writes a line itself. -/
def bypassing (i : ι) (message : Bytes) : List (LoggerStep ι) :=
  .log i .info message [] ::
    (List.replicate 16 ([.logger i] ++ accesses (.logger i) 2 ++ [.logger i])).flatten ++
    List.replicate (14 + message.length) (.logger i)

/-- The second line of a thread finds the queue full, with its first line in it. -/
def crowded : List (LoggerStep Bool) :=
  starting ++ queueing true [97] ++ queueing false [98] ++ bypassing true [99] ++
    [.owner true, .worker] ++ serving 10 ++ serving 10 ++ resting ++ closing

theorem crowded_overtakes : ¬ ∀ (steps : List (LoggerStep Bool)) (s : AsyncLogger Bool),
    (asyncLogger Bool LogQueue.smallest).run (asyncLogger Bool LogQueue.smallest).init steps =
      some s →
    (asyncLogger Bool LogQueue.smallest).Guarded Arranged
      (asyncLogger Bool LogQueue.smallest).init steps →
    (asyncLogger Bool LogQueue.smallest).Guarded Timely
      (asyncLogger Bool LogQueue.smallest).init steps →
    ∀ a b, a < b → s.maker a = s.maker b → b ∈ s.written → s.Precedes a b := by
  intro claim
  have ran : ((asyncLogger Bool LogQueue.smallest).run (asyncLogger Bool LogQueue.smallest).init
      crowded).any fun s => s.maker 0 = s.maker 2 ∧ s.written = [2, 0, 1] := by decide +kernel
  obtain ⟨s, ran, final⟩ := (Option.any_eq_true _ _).mp ran
  obtain ⟨same, written⟩ := of_decide_eq_true final
  have precedes := claim crowded s ran (by decide +kernel) (by decide +kernel) 0 2 (by decide) same
    (by simp [written])
  rw [Precedes, written] at precedes
  exact absurd precedes (by decide)

end AsyncLogger

end Corio.Logging
