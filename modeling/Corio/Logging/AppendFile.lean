import Corio.Logging.Flush

/-! # The log file on its stream

`LogFile` and `AppendFile` on a `FILE` with a buffer of its own, run by the background thread.
They refine the log file that `AsyncLogging` is modelled with, as long as no write fails.
-/

namespace Corio.Logging

open AsyncLogging

/-- How many bytes a call of `fwrite_unlocked` takes, and how many of those that the stream holds
    by then go to the file. -/
structure FwriteResult where
  taken : Nat
  passed : Nat

/-- A `FILE` and the file behind it. -/
structure AppendFile where
  file : Bytes
  /-- In `buffer_`. -/
  buffer : Bytes
  deriving DecidableEq, Repr

namespace AppendFile

def write (f : AppendFile) (logline : Bytes) (result : FwriteResult) : Nat × AppendFile :=
  let n := min result.taken logline.length
  let held := f.buffer ++ logline.take n
  (n, ⟨f.file ++ held.take result.passed, held.drop result.passed⟩)

/-- The loop of `append`, while there are results for its calls. -/
def appendLoop : AppendFile → Bytes → List FwriteResult → Option AppendFile
  | f, [], _ => some f
  | _, _ :: _, [] => none
  | f, remain, result :: results =>
      let call := f.write remain result
      if call.1 = 0 then some call.2 else call.2.appendLoop (remain.drop call.1) results

/-- The result of the first call is not looked at. -/
def append (f : AppendFile) (logline : Bytes) : List FwriteResult → Option AppendFile
  | [] => none
  | result :: results =>
      let call := f.write logline result
      call.2.appendLoop (logline.drop call.1) results

def flush (f : AppendFile) : AppendFile := ⟨f.file ++ f.buffer, []⟩

/-- Everything that was taken. -/
def given (f : AppendFile) : Bytes := f.file ++ f.buffer

end AppendFile

/-- The members `count_` and `file_` of a `LogFile`. -/
structure StreamedLog where
  count : Nat
  file : AppendFile
  deriving DecidableEq, Repr

namespace StreamedLog

def flush (l : StreamedLog) : StreamedLog := { l with file := l.file.flush }

def append (l : StreamedLog) (logline : Bytes) (results : List FwriteResult) :
    Option StreamedLog :=
  (l.file.append logline results).map fun file =>
    if l.count + 1 ≥ LogFile.flushEveryN then ⟨0, file.flush⟩ else ⟨l.count + 1, file⟩

end StreamedLog

/-- The threads and the file. -/
structure FileLogging where
  log : AsyncLogging
  output : StreamedLog

namespace FileLogging

/-- What the next step of the background thread does with the file. -/
def fileStep (s : FileLogging) (results : List FwriteResult) : Option StreamedLog :=
  match s.log.thread with
  | .writing i =>
      match s.log.buffersToWrite[i]? with
      | none => some s.output
      | some p => s.output.append (s.log.heap p) results
  | .flushing | .finishing => some s.output.flush
  | _ => some s.output

end FileLogging

/-- A step, and the results of the calls it makes. -/
abbrev FileStep := LogStep × List FwriteResult

/-- The file is opened to append, so it can hold something already. -/
def fileLogging (earlier : Bytes) : Machine FileLogging FileStep where
  init := ⟨asyncLogging.init, ⟨0, ⟨earlier, []⟩⟩⟩
  step s action :=
    (asyncLogging.step s.log action.1).bind fun log =>
      match action.1 with
      | .thread => (s.fileStep action.2).map fun output => ⟨log, output⟩
      | _ => some ⟨log, s.output⟩

/-- No call fails, so each takes something. -/
def Takes (results : List FwriteResult) : Prop := ∀ result ∈ results, 0 < result.taken

instance : DecidablePred Takes := fun results =>
  inferInstanceAs (Decidable (∀ result ∈ results, 0 < result.taken))

/-- The stream holds what the modelled file was given, and what this one has flushed is on file. -/
structure Stands (earlier : Bytes) (l : StreamedLog) (output : LogFile) : Prop where
  given : l.file.given = earlier ++ output.given
  flushed : earlier ++ output.flushed <+: l.file.file
  count : l.count = output.count

section Append

variable {f f' : AppendFile} {logline : Bytes} {results : List FwriteResult}

theorem write_given (f : AppendFile) (logline : Bytes) (result : FwriteResult) :
    (f.write logline result).2.given =
      f.given ++ logline.take (f.write logline result).1 := by
  simp only [AppendFile.write, AppendFile.given, List.append_assoc, List.take_append_drop]

theorem write_file (f : AppendFile) (logline : Bytes) (result : FwriteResult) :
    f.file <+: (f.write logline result).2.file :=
  List.prefix_append _ _

/-- A call that does not fail takes something of what there is. -/
theorem write_pos {result : FwriteResult} (takes : 0 < result.taken) (some_ : logline ≠ []) :
    0 < (f.write logline result).1 := by
  have long := List.length_pos_of_ne_nil some_
  simp only [AppendFile.write]
  omega

theorem appendLoop_given (takes : Takes results) (done : f.appendLoop logline results = some f') :
    f'.given = f.given ++ logline ∧ f.file <+: f'.file := by
  induction results generalizing f logline with
  | nil =>
      cases logline with
      | nil =>
          obtain rfl := Option.some.inj done
          exact ⟨(List.append_nil _).symm, List.prefix_refl _⟩
      | cons c logline => cases done
  | cons result results ih =>
      obtain ⟨here, later⟩ := List.forall_mem_cons.mp takes
      cases logline with
      | nil =>
          obtain rfl := Option.some.inj done
          exact ⟨(List.append_nil _).symm, List.prefix_refl _⟩
      | cons c logline =>
          have pos := write_pos (f := f) here (List.cons_ne_nil c logline)
          simp only [AppendFile.appendLoop] at done
          rw [if_neg (by omega)] at done
          obtain ⟨given, onward⟩ := ih later done
          rw [write_given, List.append_assoc, List.take_append_drop] at given
          exact ⟨given, (write_file f _ result).trans onward⟩

/-- What does not fail gives the whole line. -/
theorem append_given (takes : Takes results) (done : f.append logline results = some f') :
    f'.given = f.given ++ logline ∧ f.file <+: f'.file := by
  cases results with
  | nil => cases done
  | cons result results =>
      have looped : (f.write logline result).2.appendLoop
          (logline.drop (f.write logline result).1) results = some f' := done
      obtain ⟨given, onward⟩ := appendLoop_given (List.forall_mem_cons.mp takes).2 looped
      rw [write_given, List.append_assoc, List.take_append_drop] at given
      exact ⟨given, (write_file f logline result).trans onward⟩

theorem appendLoop_returns (takes : Takes results) (enough : logline.length ≤ results.length) :
    (f.appendLoop logline results).isSome := by
  induction results generalizing f logline with
  | nil =>
      obtain rfl := List.length_eq_zero_iff.mp (Nat.le_zero.mp enough)
      rfl
  | cons result results ih =>
      obtain ⟨here, later⟩ := List.forall_mem_cons.mp takes
      cases logline with
      | nil => rfl
      | cons c logline =>
          have pos := write_pos (f := f) here (List.cons_ne_nil c logline)
          simp only [AppendFile.appendLoop]
          rw [if_neg (by omega)]
          refine ih later ?_
          simp only [List.length_drop, List.length_cons] at enough ⊢
          omega

/-- The loop comes to its end. -/
theorem append_returns (takes : Takes results) (enough : logline.length < results.length) :
    (f.append logline results).isSome := by
  cases results with
  | nil => exact absurd enough (Nat.not_lt_zero _)
  | cons result results =>
      refine appendLoop_returns (List.forall_mem_cons.mp takes).2 ?_
      simp only [List.length_drop, List.length_cons] at enough ⊢
      omega

end Append

section Refined

variable {earlier : Bytes} {l l' : StreamedLog} {output : LogFile}

theorem Stands.flush (stands : Stands earlier l output) :
    Stands earlier l.flush output.flush where
  given := by simpa [AppendFile.given, StreamedLog.flush, AppendFile.flush, LogFile.flush] using
    stands.given
  flushed := by
    have given := stands.given
    simp only [AppendFile.given] at given
    simp only [LogFile.flush, StreamedLog.flush, AppendFile.flush, given]
    exact List.prefix_refl _
  count := stands.count

theorem Stands.append (stands : Stands earlier l output) {logline : Bytes}
    {results : List FwriteResult} (takes : Takes results)
    (done : l.append logline results = some l') : Stands earlier l' (output.append logline) := by
  obtain ⟨file, appended, rfl⟩ := Option.map_eq_some_iff.mp done
  obtain ⟨given, onward⟩ := append_given takes appended
  have whole : file.given = earlier ++ (output.given ++ logline) := by
    rw [given, stands.given, List.append_assoc]
  have onFile : earlier ++ output.flushed <+: file.file := stands.flushed.trans onward
  have between : Stands earlier ⟨l.count + 1, file⟩
      { output with given := output.given ++ logline, count := output.count + 1 } :=
    ⟨whole, onFile, congrArg (· + 1) stands.count⟩
  simp only [LogFile.append, ← stands.count] at between ⊢
  split
  · exact ⟨between.flush.given, between.flush.flushed, rfl⟩
  · exact between

end Refined

section Runs

variable {earlier : Bytes} {s s' : FileLogging} {log log' : AsyncLogging}

theorem swap_output (log : AsyncLogging) : log.swap.output = log.output := by
  unfold AsyncLogging.swap
  split
  · rfl
  · simp only [goto]
    split <;> rfl

theorem recycle_output {p : Addr} (taken : log.recycle = some (p, log')) :
    log'.output = log.output := by
  obtain ⟨q, -, same⟩ := Option.map_eq_some_iff.mp taken
  obtain ⟨-, rfl⟩ := Prod.mk.inj same
  rfl

theorem refill1_output (log : AsyncLogging) : log.refill1.output = log.output := by
  unfold refill1
  split
  · split
    · rfl
    · rename_i recycled
      have same := recycle_output recycled
      exact same
  · rfl

theorem refill2_output (log : AsyncLogging) : log.refill2.output = log.output := by
  unfold refill2
  split
  · split
    · rfl
    · rename_i recycled
      have same := recycle_output recycled
      exact same
  · rfl

theorem append_output (log : AsyncLogging) (line : Line) :
    (log.append line).output = log.output := by
  unfold AsyncLogging.append AsyncLogging.place
  simp only
  split
  · rfl
  · split
    · rfl
    · split <;> rfl

theorem ownerStep_output (taken : log.ownerStep = some log') : log'.output = log.output := by
  cases pc : log.owner with
  | constructed | started | stopping | notifying =>
      simp only [ownerStep, pc, Option.some.injEq] at taken
      exact taken ▸ rfl
  | latched =>
      simp only [ownerStep, pc] at taken
      split at taken
      · cases taken
      · exact Option.some.inj taken ▸ rfl
  | joining =>
      simp only [ownerStep, pc] at taken
      split at taken
      · exact Option.some.inj taken ▸ rfl
      · cases taken
  | stopped => simp [ownerStep, pc] at taken

/-- What the background thread does with its log file. -/
theorem threadStep_output (taken : log.threadStep = some log') :
    log'.output = match log.thread with
      | .writing i =>
          match log.buffersToWrite[i]? with
          | none => log.output
          | some p => log.output.append (log.heap p)
      | .flushing | .finishing => log.output.flush
      | _ => log.output := by
  cases pc : log.thread with
  | unborn | finished => simp [threadStep, pc] at taken
  | entering | taken =>
      simp only [threadStep, pc] at taken
      split at taken <;> exact Option.some.inj taken ▸ rfl
  | testing | flushing | finishing =>
      simp only [threadStep, pc, Option.some.injEq] at taken
      exact taken ▸ rfl
  | locking =>
      simp only [threadStep, pc] at taken
      split at taken
      · split at taken
        · exact Option.some.inj taken ▸ rfl
        · exact Option.some.inj taken ▸ swap_output log
      · exact Option.some.inj taken ▸ rfl
  | waiting =>
      simp only [threadStep, pc, Option.some.injEq] at taken
      exact taken ▸ swap_output log
  | writing i =>
      simp only [threadStep, pc] at taken
      cases there : log.buffersToWrite[i]? with
      | none =>
          rw [there] at taken
          obtain rfl := Option.some.inj taken
          simp only [goto, there]
      | some p =>
          rw [there] at taken
          obtain rfl := Option.some.inj taken
          simp only [goto, there]
  | recycling =>
      simp only [threadStep, pc, Option.some.injEq] at taken
      subst taken
      simp only [goto, refill2_output, refill1_output]

/-- The threads are as they are with the modelled file, and the file refines it. -/
structure Refines (earlier : Bytes) (s : FileLogging) : Prop where
  phase : s.log.Phase
  stands : Stands earlier s.output s.log.output

theorem refines_init (earlier : Bytes) : Refines earlier (fileLogging earlier).init :=
  ⟨Phase.init, ⟨rfl, by simp [fileLogging, asyncLogging], rfl⟩⟩

theorem Stands.fileStep (stands : Stands earlier s.output s.log.output)
    {results : List FwriteResult} (takes : Takes results) {output : StreamedLog}
    (done : s.fileStep results = some output) (taken : s.log.threadStep = some log') :
    Stands earlier output log'.output := by
  rw [threadStep_output taken]
  simp only [FileLogging.fileStep] at done
  split at done
  · split at done
    · exact Option.some.inj done ▸ stands
    · exact stands.append takes done
  · exact Option.some.inj done ▸ stands.flush
  · exact Option.some.inj done ▸ stands.flush
  · exact Option.some.inj done ▸ stands

theorem refines_step (s : FileLogging) (action : FileStep) (s' : FileLogging)
    (refines : Refines earlier s) (takes : Takes action.2)
    (taken : (fileLogging earlier).step s action = some s') : Refines earlier s' := by
  obtain ⟨log, moved, next⟩ := Option.bind_eq_some_iff.mp taken
  have phase := Phase.step s.log action.1 log refines.phase moved
  have ok := refines.phase.conserved.owned.ok
  simp only [asyncLogging, ok, Bool.false_eq_true, if_false] at moved
  obtain ⟨step, results⟩ := action
  cases step with
  | append line =>
      obtain rfl := Option.some.inj next
      obtain rfl := Option.some.inj moved
      exact ⟨phase, (append_output s.log line).symm ▸ refines.stands⟩
  | owner =>
      obtain rfl := Option.some.inj next
      exact ⟨phase, (ownerStep_output moved).symm ▸ refines.stands⟩
  | thread =>
      obtain ⟨output, done, rfl⟩ := Option.map_eq_some_iff.mp next
      exact ⟨phase, refines.stands.fileStep takes done moved⟩

/-- What is flushed at last is all there is. -/
theorem Refines.whole (refines : Refines earlier s) (stopped : s.log.owner = .stopped) :
    s.output.file.buffer = [] ∧ s.output.file.file = earlier ++ s.log.output.flushed := by
  have finished := refines.phase.stopped stopped
  have given : s.output.file.file ++ s.output.file.buffer = earlier ++ s.log.output.flushed := by
    rw [refines.phase.flushed finished]
    exact refines.stands.given
  have onFile := refines.stands.flushed
  rw [← given] at onFile
  have size := onFile.length_le
  rw [List.length_append] at size
  have empty : s.output.file.buffer = [] := List.length_eq_zero_iff.mp (by omega)
  rw [empty, List.append_nil] at given
  exact ⟨empty, given⟩

/-- Where the threads go on, the thread that writes does so too, with as many calls as there are
    bytes and one more. -/
theorem fileStep_returns {results : List FwriteResult} (takes : Takes results)
    (enough : ∀ p ∈ s.log.buffersToWrite, (s.log.heap p).length < results.length) :
    (s.fileStep results).isSome := by
  simp only [FileLogging.fileStep]
  split
  · split
    · rfl
    · rename_i p there
      rw [StreamedLog.append, Option.isSome_map]
      exact append_returns takes (enough p (List.mem_of_getElem? there))
  · rfl
  · rfl
  · rfl

/-- What was given to the file are the first of the appended lines. -/
theorem given_first (phase : log.Phase) (few : ∀ turn ∈ log.turns, turn.length ≤ 25) :
    log.output.given <+: bytes log.appended := by
  rw [← phase.conserved.complete few]
  exact List.prefix_append _ _

/-- On file are at every moment the first bytes of the appended lines, behind what was there
    before, and where `stop` has returned nothing is left in the stream: the lines that it
    promised are on file exactly if they are flushed. The writing itself never blocks. -/
theorem log_onFile (earlier : Bytes) (steps : List FileStep) (s : FileLogging)
    (takes : ∀ step ∈ steps, Takes step.2)
    (ran : (fileLogging earlier).run (fileLogging earlier).init steps = some s)
    (few : ∀ turn ∈ s.log.turns, turn.length ≤ 25) :
    s.output.file.file <+: earlier ++ bytes s.log.appended ∧
      (s.log.owner = .stopped → s.output.file.buffer = [] ∧
        (s.log.Flushed ↔
          earlier ++ bytes (s.log.appended.take s.log.promised) <+: s.output.file.file)) ∧
      ∀ results, Takes results →
        (∀ p ∈ s.log.buffersToWrite, (s.log.heap p).length < results.length) →
        ((fileLogging earlier).step s (.thread, results)).isSome =
          (asyncLogging.step s.log .thread).isSome := by
  have refines : Refines earlier s :=
    Machine.Guarded.preserves (C := fun _ step => Takes step.2) refines_step
      (refines_init earlier) (Machine.Guarded.of_actions takes _) ran
  refine ⟨?_, fun stopped => ?_, fun results takes enough => ?_⟩
  · have inside : s.output.file.file <+: earlier ++ s.log.output.given := by
      rw [← refines.stands.given]
      exact List.prefix_append _ _
    exact inside.trans ((List.prefix_append_right_inj earlier).mpr
      (given_first refines.phase few))
  · obtain ⟨empty, onFile⟩ := refines.whole stopped
    rw [onFile, List.prefix_append_right_inj]
    exact ⟨empty, Iff.rfl⟩
  · obtain ⟨output, done⟩ := Option.isSome_iff_exists.mp (fileStep_returns takes enough)
    simp only [fileLogging, done, Option.map_some]
    cases asyncLogging.step s.log .thread <;> rfl

/-- The stream takes half of the first line, then nothing goes to the file before `flush`. -/
def pieces : List FwriteResult := [⟨1, 0⟩, ⟨1, 0⟩]

def calmFile : List FileStep := calmStop.map fun step => (step, pieces)

theorem log_onFile_calm : ∃ s, (fileLogging [65]).run (fileLogging [65]).init calmFile = some s ∧
    s.output.file.file = [65, 104, 10] ∧ s.log.owner = .stopped ∧ s.log.Flushed := by
  have ran : ((fileLogging [65]).run (fileLogging [65]).init calmFile).any fun s =>
      s.output.file.file = [65, 104, 10] ∧ s.log.owner = .stopped ∧ s.log.promised = 1 ∧
        s.log.appended = [shortLine] ∧ ∀ turn ∈ s.log.turns, turn.length ≤ 25 := by
    decide +kernel
  obtain ⟨s, ran, final⟩ := (Option.any_eq_true _ _).mp ran
  obtain ⟨file, stopped, promised, appended, few⟩ := of_decide_eq_true final
  have takes : ∀ step ∈ calmFile, Takes step.2 := by decide +kernel
  have flushed := ((log_onFile [65] calmFile s takes ran few).2.1 stopped).2
  refine ⟨s, ran, file, stopped, flushed.mpr ?_⟩
  rw [promised, appended, file]
  exact List.prefix_refl _

end Runs

end Corio.Logging
